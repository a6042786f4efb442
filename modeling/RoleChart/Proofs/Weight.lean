import RoleChart.Proofs.Cycle
import RoleChart.Proofs.Walk
import Mathlib.Algebra.Order.BigOperators.Group.List
import Mathlib.Data.Finset.Card
/-!
The walk ends where every role on a cycle is guarded, and `Walk.limitFor` bounds the references that
it follows (`exists_follows`).

The measure has two parts. A waiting reference counts as much as all that it brings about up to the
next guarded roles (`Walk.weight`); an unguarded role lies on no cycle, so this is finite and unfolds
into the weights of its own references (`weight_of_not_guarded`). A guarded role that was not named
yet counts as much as its references, which may join the queue once (`reserve`). Following a
reference makes the sum smaller by one at least.
-/
namespace RoleChart

open Relation (ReflTransGen TransGen)
open References (names joining LeadsTo OnCycle Follows)

namespace Walk

variable {metadata : Resolved} {guarded : String → Bool}

/-! ## Sums -/

theorem sumOver_eq_sum {α : Type} (f : α → Nat) (list : List α) :
    sumOver f list = (list.map f).sum := by
  induction list with
  | nil => rfl
  | cons a list ih =>
    rw [List.map_cons, List.sum_cons, sumOver_cons, ih]

theorem sumOver_congr {α : Type} {f g : α → Nat} {list : List α} (h : ∀ a ∈ list, f a = g a) :
    sumOver f list = sumOver g list := by
  rw [sumOver_eq_sum, sumOver_eq_sum, List.map_congr_left h]

theorem sumOver_filter (f : String → Nat) (p : String → Bool) (list : List String) :
    sumOver f (list.filter p) = sumOver (fun n => if p n = true then f n else 0) list := by
  rw [sumOver_eq_sum, sumOver_eq_sum]
  induction list with
  | nil => rfl
  | cons n list ih => by_cases h : p n = true <;> simp [h, ih]

theorem sumOver_le {f g : String → Nat} (hle : ∀ n, g n ≤ f n) (list : List String) :
    sumOver g list ≤ sumOver f list := by
  rw [sumOver_eq_sum, sumOver_eq_sum]
  exact List.sum_le_sum fun n _ => hle n

theorem sumOver_add_le {f g : String → Nat} {name : String} {extra : Nat}
    (hle : ∀ n, g n ≤ f n) (hname : g name + extra ≤ f name) {list : List String}
    (hmem : name ∈ list) : sumOver g list + extra ≤ sumOver f list := by
  induction list with
  | nil => exact absurd hmem List.not_mem_nil
  | cons n list ih =>
    rw [sumOver_cons, sumOver_cons]
    rcases List.mem_cons.mp hmem with rfl | hmem
    · have := sumOver_le hle list
      omega
    · have := ih hmem
      have := hle n
      omega

/-! ## Weights -/

section Height

open Classical in
/-- The number of roles with metadata that a role leads to, itself among them. -/
noncomputable def height (metadata : Resolved) (name : String) : Nat :=
  (metadata.keys.toFinset.filter
    fun other => ReflTransGen (LeadsTo metadata.references) name other).card

theorem height_le_size (name : String) : height metadata name ≤ metadata.size := by
  classical
  rw [Table.size_eq_length_keys]
  exact (Finset.card_filter_le _ _).trans (List.toFinset_card_le _)

/-- Off the cycles, a role leads to fewer roles than one that refers to it. -/
theorem height_lt_of_leadsTo {name other : String}
    (h : LeadsTo metadata.references name other) (hname : ¬ OnCycle metadata.references name) :
    height metadata other < height metadata name := by
  classical
  refine Finset.card_lt_card (Finset.ssubset_iff_of_subset ?_ |>.mpr ⟨name, ?_, ?_⟩)
  · intro n hn
    rw [Finset.mem_filter] at hn ⊢
    exact ⟨hn.1, .head h hn.2⟩
  · rw [Finset.mem_filter, List.mem_toFinset]
    exact ⟨Resolved.mem_keys_of_leadsTo h, .refl⟩
  · rw [Finset.mem_filter]
    exact fun hn => hname (TransGen.head' h hn.2)

theorem height_pos {name : String} (h : name ∈ metadata.keys) : 0 < height metadata name := by
  classical
  refine Finset.card_pos.mpr ⟨name, ?_⟩
  rw [Finset.mem_filter, List.mem_toFinset]
  exact ⟨h, .refl⟩

end Height

/-- With chains as long as a role is high, one link more does not change its weight. -/
theorem weight_succ (hguarded : ∀ n, OnCycle metadata.references n → guarded n = true)
    (depth : Nat) :
    ∀ name, height metadata name ≤ depth →
      weight metadata guarded (depth + 1) name = weight metadata guarded depth name := by
  induction depth with
  | zero =>
    intro name hheight
    have hname : name ∉ metadata.keys := fun h => absurd (height_pos h) (by omega)
    simp [weight, Resolved.references_of_not_mem hname]
  | succ depth ih =>
    intro name hheight
    rw [weight]
    conv => rhs; rw [weight]
    by_cases hg : guarded name = true
    · rw [if_pos hg, if_pos hg]
    · rw [if_neg hg, if_neg hg]
      congr 1
      refine sumOver_congr fun r hr => ih r.name ?_
      have := height_lt_of_leadsTo (References.leadsTo_of_mem hr) (mt (hguarded name) hg)
      omega

theorem weight_pos (depth : Nat) (name : String) : 0 < weight metadata guarded depth name := by
  cases depth with
  | zero => exact Nat.one_pos
  | succ depth =>
    rw [weight]
    split <;> omega

/-- An unguarded role counts one more than its references together. -/
theorem weight_of_not_guarded (hguarded : ∀ n, OnCycle metadata.references n → guarded n = true)
    {name : String} (hname : ¬ guarded name = true) :
    weight metadata guarded metadata.size name =
      1 + totalWeight metadata guarded (metadata.references name) := by
  rw [totalWeight]
  cases hsize : metadata.size with
  | zero =>
    have hkeys : metadata.keys = [] := by
      rw [Table.size_eq_length_keys] at hsize
      exact List.eq_nil_of_length_eq_zero hsize
    have hnone : name ∉ metadata.keys := hkeys ▸ List.not_mem_nil
    simp [weight, Resolved.references_of_not_mem hnone]
  | succ size =>
    rw [weight, if_neg hname]
    congr 1
    refine sumOver_congr fun r hr => (weight_succ hguarded size r.name ?_).symm
    have hlt := height_lt_of_leadsTo (References.leadsTo_of_mem hr) (mt (hguarded name) hname)
    have hle : height metadata name ≤ metadata.size := height_le_size name
    omega

theorem totalWeight_append (front rest : List Reference) :
    totalWeight metadata guarded (front ++ rest) =
      totalWeight metadata guarded front + totalWeight metadata guarded rest := by
  unfold totalWeight
  rw [sumOver_eq_sum, List.map_append, List.sum_append, ← sumOver_eq_sum, ← sumOver_eq_sum]

/-! ## The reserve -/

/-- The weight of the references of a guarded role that no reference of `earlier` names. -/
def reserved (metadata : Resolved) (guarded : String → Bool) (earlier : List Reference)
    (name : String) : Nat :=
  if guarded name = true ∧ name ∉ names earlier then
    totalWeight metadata guarded (metadata.references name)
  else 0

/-- The weight of the references of all guarded roles that no reference of `earlier` names. -/
def reserve (metadata : Resolved) (guarded : String → Bool) (earlier : List Reference) : Nat :=
  sumOver (reserved metadata guarded earlier) metadata.keys

theorem limitFor_eq (roots : List Reference) :
    limitFor metadata guarded roots =
      totalWeight metadata guarded roots + reserve metadata guarded [] := by
  have hreserved : reserved metadata guarded [] = fun name =>
      if guarded name = true then totalWeight metadata guarded (metadata.references name) else 0 := by
    funext name
    simp [reserved]
  rw [limitFor, reserve, hreserved, sumOver_filter]

theorem reserved_concat_le (earlier : List Reference) (r : Reference) (name : String) :
    reserved metadata guarded (earlier ++ [r]) name ≤ reserved metadata guarded earlier name := by
  unfold reserved
  split
  · next h =>
    rw [if_pos ⟨h.1, fun hn => h.2 (by simp [hn])⟩]
  · exact Nat.zero_le _

theorem reserve_concat_le (earlier : List Reference) (r : Reference) :
    reserve metadata guarded (earlier ++ [r]) ≤ reserve metadata guarded earlier :=
  sumOver_le (reserved_concat_le earlier r) metadata.keys

/-- When a guarded role is named first, its references leave the reserve. -/
theorem reserve_concat_add_le {earlier : List Reference} {r : Reference}
    (hguarded : guarded r.name = true) (hnew : r.name ∉ names earlier) :
    reserve metadata guarded (earlier ++ [r]) +
        totalWeight metadata guarded (metadata.references r.name) ≤
      reserve metadata guarded earlier := by
  by_cases hkey : r.name ∈ metadata.keys
  · refine sumOver_add_le (reserved_concat_le earlier r) ?_ hkey
    rw [reserved, reserved, if_neg (by simp), if_pos ⟨hguarded, hnew⟩, Nat.zero_add]
  · rw [Resolved.references_of_not_mem hkey]
    exact reserve_concat_le earlier r

/-! ## The measure -/

/-- What following a reference changes: the queue and the reserve together lose one at least. -/
theorem measure_step (hguarded : ∀ n, OnCycle metadata.references n → guarded n = true)
    (earlier rest : List Reference) (r : Reference) :
    totalWeight metadata guarded
          (rest ++ joining metadata.references (guarded · = true) earlier r) +
        reserve metadata guarded (earlier ++ [r]) <
      totalWeight metadata guarded (r :: rest) + reserve metadata guarded earlier := by
  have hqueue : totalWeight metadata guarded (r :: rest) =
      weight metadata guarded metadata.size r.name + totalWeight metadata guarded rest :=
    sumOver_cons _ r rest
  have hpos : 0 < weight metadata guarded metadata.size r.name := weight_pos _ _
  have hreserve : reserve metadata guarded (earlier ++ [r]) ≤ reserve metadata guarded earlier :=
    reserve_concat_le earlier r
  rw [totalWeight_append, hqueue, joining]
  by_cases hg : guarded r.name = true
  · by_cases hnew : r.name ∈ names earlier
    · rw [if_pos ⟨hg, hnew⟩]
      have : totalWeight metadata guarded [] = 0 := rfl
      omega
    · rw [if_neg (fun h => hnew h.2)]
      have hfirst : reserve metadata guarded (earlier ++ [r]) +
          totalWeight metadata guarded (metadata.references r.name) ≤
            reserve metadata guarded earlier := reserve_concat_add_le hg hnew
      omega
  · rw [if_neg (fun h => hg h.1)]
    have := weight_of_not_guarded hguarded hg
    omega

/-- Where every role on a cycle is guarded, the queue comes to its end. -/
theorem exists_follows (hguarded : ∀ n, OnCycle metadata.references n → guarded n = true)
    (bound : Nat) :
    ∀ earlier queue : List Reference,
      totalWeight metadata guarded queue + reserve metadata guarded earlier ≤ bound →
      ∃ followed, Follows metadata.references (guarded · = true) earlier queue followed ∧
        followed.length ≤ bound := by
  induction bound with
  | zero =>
    intro earlier queue hbound
    cases queue with
    | nil => exact ⟨[], .done earlier, Nat.le_refl 0⟩
    | cons r rest =>
      have := measure_step hguarded earlier rest r
      omega
  | succ bound ih =>
    intro earlier queue hbound
    cases queue with
    | nil => exact ⟨[], .done earlier, Nat.zero_le _⟩
    | cons r rest =>
      have hstep := measure_step hguarded earlier rest r
      obtain ⟨followed, hfollows, hlen⟩ := ih (earlier ++ [r])
        (rest ++ joining metadata.references (guarded · = true) earlier r) (by omega)
      exact ⟨r :: followed, .next hfollows, Nat.succ_le_succ hlen⟩

/-- `limitFor` bounds the references followed from the roots. -/
theorem exists_follows_limitFor
    (hguarded : ∀ n, OnCycle metadata.references n → guarded n = true) (roots : List Reference) :
    ∃ followed, Follows metadata.references (guarded · = true) [] roots followed ∧
      followed.length ≤ limitFor metadata guarded roots :=
  exists_follows hguarded _ [] roots (limitFor_eq roots).ge

end Walk

end RoleChart
