import RoleChart.Yaml.Document
import Mathlib.Data.List.Basic
/-!
What a mapping has under a text key. The first entry with the key gives it (`Yaml.Value.Has`), and this
is what look-up finds. Where no key stands twice, as in every mapping that was read, each entry with the
key gives it, so the order of the entries does not matter (`Has.of_perm`).
-/
namespace RoleChart.Yaml.Value

/-- A mapping has `value` under the text `key`: no entry before the one with this value has the key. -/
def Has (fields : List (Value × Value)) (key : String) (value : Value) : Prop :=
  ∃ before after, fields = before ++ (.string key, value) :: after ∧
    ∀ field ∈ before, field.1 ≠ .string key

variable {fields fields' : List (Value × Value)} {key : String} {value : Value}

theorem has_cons_self (key : String) (value : Value) (rest : List (Value × Value)) :
    Has ((.string key, value) :: rest) key value :=
  ⟨[], rest, rfl, by simp⟩

theorem Has.mem (h : Has fields key value) : (.string key, value) ∈ fields := by
  obtain ⟨before, after, rfl, -⟩ := h
  exact List.mem_append_right _ List.mem_cons_self

theorem Has.cons {first : Value × Value} (hfirst : first.1 ≠ .string key)
    (h : Has fields key value) : Has (first :: fields) key value := by
  obtain ⟨before, after, rfl, hbefore⟩ := h
  refine ⟨first :: before, after, rfl, ?_⟩
  intro field hfield
  rcases List.mem_cons.mp hfield with rfl | hfield
  · exact hfirst
  · exact hbefore field hfield

theorem Has.of_cons {first : Value × Value} (hfirst : first.1 ≠ .string key)
    (h : Has (first :: fields) key value) : Has fields key value := by
  obtain ⟨before, after, hsplit, hbefore⟩ := h
  cases before with
  | nil =>
    have heq : first = (.string key, value) := (List.cons.inj hsplit).1
    exact absurd (congrArg Prod.fst heq) hfirst
  | cons field before =>
    have hrest : fields = before ++ (.string key, value) :: after := (List.cons.inj hsplit).2
    exact ⟨before, after, hrest, fun f hf => hbefore f (List.mem_cons_of_mem _ hf)⟩

theorem Has.eq_of_cons_self {first : Value} (h : Has ((.string key, first) :: fields) key value) :
    value = first := by
  obtain ⟨before, after, hsplit, hbefore⟩ := h
  cases before with
  | nil =>
    have heq := (List.cons.inj hsplit).1
    exact (congrArg Prod.snd heq).symm
  | cons field before =>
    have heq := (List.cons.inj hsplit).1
    exact absurd (congrArg Prod.fst heq).symm (hbefore field List.mem_cons_self)

/-- Look-up finds what a mapping has. -/
theorem lookup?_eq_some_iff : lookup? key fields = some value ↔ Has fields key value := by
  induction fields with
  | nil =>
    constructor
    · intro h
      cases h
    · intro h
      exact absurd h.mem List.not_mem_nil
  | cons first rest ih =>
    obtain ⟨k, v⟩ := first
    by_cases hkey : k = .string key
    · subst hkey
      have hlookup : lookup? key ((.string key, v) :: rest) = some v := by simp [lookup?]
      rw [hlookup]
      constructor
      · intro h
        have hv : v = value := Option.some.inj h
        exact hv ▸ has_cons_self key v rest
      · intro h
        rw [h.eq_of_cons_self]
    · have hlookup : lookup? key ((k, v) :: rest) = lookup? key rest := by
        cases k with
        | string s =>
          have hs : s ≠ key := fun heq => hkey (congrArg Value.string heq)
          simp [lookup?, hs]
        | _ => rfl
      rw [hlookup, ih]
      exact ⟨fun h => h.cons hkey, fun h => h.of_cons hkey⟩

theorem lookup?_eq_none_iff : lookup? key fields = none ↔ ∀ value, ¬ Has fields key value := by
  rw [Option.eq_none_iff_forall_ne_some]
  simp only [ne_eq, lookup?_eq_some_iff]

theorem isSome_lookup?_iff : (lookup? key fields).isSome = true ↔ ∃ value, Has fields key value := by
  rw [Option.isSome_iff_exists]
  simp only [lookup?_eq_some_iff]

theorem Has.unique {value' : Value} (h : Has fields key value) (h' : Has fields key value') :
    value = value' := by
  have hlookup := lookup?_eq_some_iff.mpr h
  exact Option.some.inj (hlookup.symm.trans (lookup?_eq_some_iff.mpr h'))

/-- Look-up finds the same in mappings that have the same. -/
theorem lookup?_congr (h : ∀ value, Has fields key value ↔ Has fields' key value) :
    lookup? key fields = lookup? key fields' := by
  apply Option.ext
  intro value
  rw [lookup?_eq_some_iff, lookup?_eq_some_iff]
  exact h value

/-- Where an entry has a key, the mapping has something under it. -/
theorem exists_has_of_mem (h : (.string key, value) ∈ fields) : ∃ first, Has fields key first := by
  induction fields with
  | nil => exact absurd h List.not_mem_nil
  | cons first rest ih =>
    by_cases hkey : first.1 = .string key
    · obtain ⟨k, v⟩ := first
      cases hkey
      exact ⟨v, has_cons_self key v rest⟩
    · have hrest : (.string key, value) ∈ rest := by
        rcases List.mem_cons.mp h with heq | hmem
        · exact absurd (congrArg Prod.fst heq).symm hkey
        · exact hmem
      obtain ⟨found, hfound⟩ := ih hrest
      exact ⟨found, hfound.cons hkey⟩

/-! ## Mappings without repeated keys -/

/-- Where no key stands twice, every entry with a key gives what the mapping has under it. -/
theorem has_of_mem (hdistinct : distinctKeys fields = true) (h : (.string key, value) ∈ fields) :
    Has fields key value := by
  induction fields with
  | nil => exact absurd h List.not_mem_nil
  | cons first rest ih =>
    obtain ⟨k, v⟩ := first
    simp only [distinctKeys, Bool.and_eq_true, Bool.not_eq_true', List.any_eq_false] at hdistinct
    obtain ⟨hfirst, hrest⟩ := hdistinct
    rcases List.mem_cons.mp h with heq | hmem
    · cases heq
      exact has_cons_self key value rest
    · have hne : k ≠ .string key := by
        intro heq
        have hsame := hfirst _ hmem
        simp [heq, same] at hsame
      exact (ih hrest hmem).cons hne

/-- The order of the entries does not matter where no key stands twice. -/
theorem Has.of_perm (hdistinct : distinctKeys fields = true) (hperm : fields.Perm fields') :
    Has fields key value ↔ Has fields' key value := by
  constructor
  · intro h
    obtain ⟨first, hfirst⟩ := exists_has_of_mem (hperm.mem_iff.mp h.mem)
    have hfields := has_of_mem hdistinct (hperm.mem_iff.mpr hfirst.mem)
    rwa [h.unique hfields]
  · intro h
    exact has_of_mem hdistinct (hperm.mem_iff.mpr h.mem)

end RoleChart.Yaml.Value
