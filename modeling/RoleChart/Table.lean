/-!
A table: values under text keys, in the order in which the keys were first set. Setting a key that
is present replaces its value and leaves it in its place. The view of a table is its list of
entries; `get?_set` says what setting does to look-up, and `keys_set` what it does to the order.
-/
namespace RoleChart

/-- Values under text keys, in the order in which the keys were first set. -/
structure Table (β : Type) where
  entries : List (String × β)
  deriving Repr, BEq, DecidableEq

namespace Table

variable {β : Type}

/-- The table without entries. -/
def empty : Table β := ⟨[]⟩

instance : EmptyCollection (Table β) := ⟨empty⟩

instance : Inhabited (Table β) := ⟨empty⟩

/-- The list `entries` with the value of `key` replaced, or with a new entry at its end. -/
def setIn (key : String) (value : β) : List (String × β) → List (String × β)
  | [] => [(key, value)]
  | (k, v) :: rest => if k = key then (k, value) :: rest else (k, v) :: setIn key value rest

/-- Gives `key` the value `value`. -/
def set (t : Table β) (key : String) (value : β) : Table β :=
  ⟨setIn key value t.entries⟩

/-- The value of `key`. -/
def get? (t : Table β) (key : String) : Option β :=
  t.entries.lookup key

/-- Whether `key` is set. -/
def contains (t : Table β) (key : String) : Bool :=
  (t.get? key).isSome

/-- The keys, in order. -/
def keys (t : Table β) : List String :=
  t.entries.map (·.1)

/-- The values, in the order of their keys. -/
def values (t : Table β) : List β :=
  t.entries.map (·.2)

/-- The number of keys. -/
def size (t : Table β) : Nat :=
  t.entries.length

/-- Whether no key is set. -/
def isEmpty (t : Table β) : Bool :=
  t.entries.isEmpty

/-- Sets the pairs of a list one after the other. -/
def setAll (t : Table β) (pairs : List (String × β)) : Table β :=
  pairs.foldl (fun t pair => t.set pair.1 pair.2) t

/-- Sets every entry of `other`, in its order. -/
def merge (t other : Table β) : Table β :=
  t.setAll other.entries

/-- The table that arises from setting the pairs of a list. -/
def ofList (pairs : List (String × β)) : Table β :=
  empty.setAll pairs

/-! ## Look-up and order after setting -/

theorem lookup_setIn (key k : String) (value : β) (entries : List (String × β)) :
    (setIn key value entries).lookup k = if k = key then some value else entries.lookup k := by
  have lookup_cons (a b : String) (v : β) (rest : List (String × β)) :
      ((b, v) :: rest).lookup a = if a = b then some v else rest.lookup a := by
    rw [List.lookup_cons]
    by_cases h : a = b <;> simp [h, beq_false_of_ne]
  induction entries with
  | nil => simp [setIn, lookup_cons]
  | cons entry rest ih =>
    obtain ⟨k', v'⟩ := entry
    by_cases hk : k' = key
    · by_cases h : k = key <;> simp [setIn, lookup_cons, hk, h]
    · by_cases h : k = k'
      · simp [setIn, lookup_cons, hk, h]
      · simp [setIn, lookup_cons, hk, h, ih]

@[simp] theorem get?_empty (k : String) : (empty : Table β).get? k = none := rfl

theorem get?_set (t : Table β) (key k : String) (value : β) :
    (t.set key value).get? k = if k = key then some value else t.get? k :=
  lookup_setIn key k value t.entries

@[simp] theorem get?_set_self (t : Table β) (key : String) (value : β) :
    (t.set key value).get? key = some value := by
  simp [get?_set]

theorem map_fst_setIn (key : String) (value : β) (entries : List (String × β)) :
    (setIn key value entries).map (·.1) =
      if key ∈ entries.map (·.1) then entries.map (·.1) else entries.map (·.1) ++ [key] := by
  induction entries with
  | nil => simp [setIn]
  | cons entry rest ih =>
    obtain ⟨k', v'⟩ := entry
    by_cases hk : k' = key
    · simp [setIn, hk]
    · have hk' : ¬ key = k' := fun h => hk h.symm
      simp only [setIn, hk, if_false, List.map_cons, List.mem_cons, hk', false_or, ih]
      split <;> rfl

theorem keys_set (t : Table β) (key : String) (value : β) :
    (t.set key value).keys = if key ∈ t.keys then t.keys else t.keys ++ [key] :=
  map_fst_setIn key value t.entries

@[simp] theorem keys_empty : (empty : Table β).keys = [] := rfl

theorem get?_isSome_iff (t : Table β) (k : String) : (t.get? k).isSome ↔ k ∈ t.keys := by
  simp [get?, keys]

theorem contains_iff (t : Table β) (k : String) : t.contains k = true ↔ k ∈ t.keys :=
  t.get?_isSome_iff k

theorem get?_eq_none_iff (t : Table β) (k : String) : t.get? k = none ↔ k ∉ t.keys := by
  rw [← get?_isSome_iff, Option.not_isSome_iff_eq_none]

theorem size_eq_length_keys (t : Table β) : t.size = t.keys.length := by
  simp [size, keys]

theorem mem_keys_set (t : Table β) (key k : String) (value : β) :
    k ∈ (t.set key value).keys ↔ k = key ∨ k ∈ t.keys := by
  rw [← get?_isSome_iff, ← get?_isSome_iff, get?_set]
  split <;> simp [*]

end Table

end RoleChart
