import RoleChart.Proofs.Levels
import Mathlib.Order.Lattice.Nat
/-!
How far a role is from the declared ones: the number of references in a shortest chain that leads to
it (`References.distance`). A reference of a level is led to by a chain of as many references as the
level has before it (`reachesIn_of_mem_level`), and a role that such a chain leads to is named by that
level or an earlier one (`mem_names_upTo`), although a level leaves out what some of its roles refer
to. So a name that comes up first in a level is as far away as the level (`distance_eq_of_mem_level`),
and in the order of first occurrence no name is closer than one before it
(`pairwise_distance_upTo`).
-/
namespace RoleChart

open References (names Follows)

namespace References

variable {refs : References} {roots : List Reference}

/-! ## Chains of some length -/

/-- A chain of so many references leads from one of `roots` to a role. -/
inductive ReachesIn (refs : References) (roots : List Reference) : Nat → String → Prop
  | root {r : Reference} (h : r ∈ roots) : ReachesIn refs roots 0 r.name
  | step {k : Nat} {name : String} {r : Reference} (h : ReachesIn refs roots k name)
    (hr : r ∈ refs name) : ReachesIn refs roots (k + 1) r.name

theorem reaches_iff_exists_reachesIn {name : String} :
    refs.Reaches roots name ↔ ∃ k, ReachesIn refs roots k name := by
  constructor
  · intro h
    refine Reaches.induct (P := fun n => ∃ k, ReachesIn refs roots k n) h
      (fun r hr => ⟨0, .root hr⟩) ?_
    rintro n ⟨k, hk⟩ r hr
    exact ⟨k + 1, .step hk hr⟩
  · rintro ⟨k, hk⟩
    induction hk with
    | root h => exact reaches_of_mem h
    | step _ hr ih => exact ih.step hr

variable (refs roots) in
/-- The length of a shortest chain of references from one of `roots` to a role; zero where there is
no such chain. -/
noncomputable def distance (name : String) : Nat := sInf {k | ReachesIn refs roots k name}

/-- A role that can be reached is led to by a chain as long as its distance, and by no shorter one. -/
theorem distance_eq_iff {name : String} (h : refs.Reaches roots name) (k : Nat) :
    refs.distance roots name = k ↔
      ReachesIn refs roots k name ∧ ∀ j, ReachesIn refs roots j name → k ≤ j := by
  have hshortest : ReachesIn refs roots (refs.distance roots name) name :=
    Nat.sInf_mem (reaches_iff_exists_reachesIn.mp h)
  constructor
  · rintro rfl
    exact ⟨hshortest, fun j hj => Nat.sInf_le hj⟩
  · rintro ⟨hk, hleast⟩
    exact Nat.le_antisymm (Nat.sInf_le hk) (hleast _ hshortest)

/-! ## Levels -/

variable {once : String → Prop} [DecidablePred once]

theorem reachesIn_of_mem_level {k : Nat} {r : Reference} (h : r ∈ level refs once roots k) :
    ReachesIn refs roots k r.name := by
  induction k generalizing r with
  | zero => exact .root h
  | succ k ih =>
    rw [level_succ] at h
    obtain ⟨before, hbefore, hr⟩ := exists_of_mem_joiningAll h
    exact .step (ih hbefore) hr

/-- What the roles before a level refer to is named before it or in it. -/
theorem closed_upTo (k : Nat) :
    Closed refs (upTo refs once roots k) (level refs once roots k) := by
  induction k with
  | zero => exact Closed.start refs roots
  | succ k ih =>
    have hfront : Closed refs (upTo refs once roots k) (level refs once roots k ++ []) := by
      rwa [List.append_nil]
    rw [upTo_succ, level_succ]
    exact hfront.front once

/-- A role that a chain leads to comes up in the level that is as far away, or in one before. -/
theorem mem_names_upTo {k : Nat} {name : String} (h : ReachesIn refs roots k name) :
    name ∈ names (upTo refs once roots (k + 1)) := by
  induction h with
  | root h =>
    rw [upTo_succ]
    exact List.mem_map_of_mem (List.mem_append_right _ h)
  | @step k name r _ hr ih =>
    obtain ⟨before, hbefore, rfl⟩ := List.mem_map.mp ih
    have hclosed : Closed refs (upTo refs once roots (k + 1)) (level refs once roots (k + 1)) :=
      closed_upTo (k + 1)
    rw [upTo_succ]
    exact hclosed before hbefore r hr

theorem upTo_subset {j k : Nat} (hjk : j ≤ k) :
    upTo refs once roots j ⊆ upTo refs once roots k := by
  induction hjk with
  | refl => exact fun _ h => h
  | step _ ih =>
    rw [upTo_succ]
    exact fun _ h => List.mem_append_left _ (ih h)

/-- A name that comes up first in a level is as far away as the level. -/
theorem distance_eq_of_mem_level {k : Nat} {name : String}
    (h : name ∈ names (level refs once roots k)) (hnew : name ∉ names (upTo refs once roots k)) :
    refs.distance roots name = k := by
  obtain ⟨r, hr, rfl⟩ := List.mem_map.mp h
  have hreach : ReachesIn refs roots k r.name := reachesIn_of_mem_level hr
  refine (distance_eq_iff (reaches_iff_exists_reachesIn.mpr ⟨k, hreach⟩) k).mpr
    ⟨hreach, fun j hj => ?_⟩
  by_contra hlt
  have hsub : upTo refs once roots (j + 1) ⊆ upTo refs once roots k := upTo_subset (by omega)
  exact hnew (List.map_subset _ hsub (mem_names_upTo hj))

theorem distance_lt_of_mem_upTo {k : Nat} {name : String}
    (h : name ∈ names (upTo refs once roots k)) : refs.distance roots name < k := by
  induction k with
  | zero => exact absurd h List.not_mem_nil
  | succ k ih =>
    by_cases hbefore : name ∈ names (upTo refs once roots k)
    · exact Nat.lt_succ_of_lt (ih hbefore)
    · rw [upTo_succ, names_append, List.mem_append] at h
      rw [distance_eq_of_mem_level (h.resolve_left hbefore) hbefore]
      exact Nat.lt_succ_self k

/-- In the order of first occurrence no name is closer than one before it. -/
theorem pairwise_distance_upTo (k : Nat) :
    (names (upTo refs once roots k)).eraseDups.Pairwise
      fun m n => refs.distance roots m ≤ refs.distance roots n := by
  induction k with
  | zero => exact List.Pairwise.nil
  | succ k ih =>
    have hlevel : ∀ n ∈ ((names (level refs once roots k)).removeAll
        (names (upTo refs once roots k))).eraseDups, refs.distance roots n = k := by
      intro n hn
      obtain ⟨hin, hnew⟩ := List.mem_filter.mp (List.mem_eraseDups.mp hn)
      exact distance_eq_of_mem_level hin (by simpa using hnew)
    rw [upTo_succ, names_append, List.eraseDups_append, List.pairwise_append]
    refine ⟨ih, List.pairwise_of_forall_mem_list fun m hm n hn => ?_, fun m hm n hn => ?_⟩
    · rw [hlevel m hm, hlevel n hn]
    · rw [hlevel n hn]
      exact (distance_lt_of_mem_upTo (List.mem_eraseDups.mp hm)).le

/-- In the order in which roles are first followed, no role is closer than one before it. -/
theorem Follows.pairwise_distance {followed : List Reference}
    (h : Follows refs once [] roots followed) :
    (names followed).eraseDups.Pairwise
      fun m n => refs.distance roots m ≤ refs.distance roots n := by
  obtain ⟨depth, _, rfl⟩ := h.eq_upTo
  exact pairwise_distance_upTo depth

end References

end RoleChart
