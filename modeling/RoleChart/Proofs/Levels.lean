import RoleChart.Proofs.Expansion
/-!
The references followed, level by level. Level 0 are the declared references; the next level is made
up of the references of the roles of a level, from left to right, where a role on a cycle that an
earlier reference named contributes nothing (`References.level`). A queue that comes to its end has
followed the levels one after the other (`Follows.eq_upTo`).

* `registry_of_levels`: the keys of the registry of an expansion are the names of all levels, in the
  order of their first occurrence, and the mark of a role is that of the last reference to it. Where
  nothing lies on a cycle, nothing is left out of the levels.
-/
namespace RoleChart

open References (names Follows)

namespace References

section

variable (refs : References) (once : String → Prop) [DecidablePred once] (roots : List Reference)

/-- The references of all levels before a level, in one list, and the level itself. -/
def levels : Nat → List Reference × List Reference
  | 0 => ([], roots)
  | k + 1 =>
    let (before, level) := levels k
    (before ++ level, joiningAll refs once before level)

/-- The references of a level. -/
def level (k : Nat) : List Reference := (levels refs once roots k).2

/-- The first `k` levels in one list. -/
def upTo (k : Nat) : List Reference := (List.range k).flatMap (level refs once roots)

/-- The references of a level where nothing is left out. -/
def plainLevel : Nat → List Reference
  | 0 => roots
  | k + 1 => (plainLevel k).flatMap fun r => refs r.name

end

variable {refs : References} {once : String → Prop} [DecidablePred once] {roots : List Reference}

theorem upTo_succ (k : Nat) :
    upTo refs once roots (k + 1) = upTo refs once roots k ++ level refs once roots k := by
  rw [upTo, List.range_succ, List.flatMap_append, List.flatMap_singleton]
  rfl

theorem levels_fst (k : Nat) : (levels refs once roots k).1 = upTo refs once roots k := by
  induction k with
  | zero => rfl
  | succ k ih =>
    rw [upTo_succ, ← ih]
    rfl

/-- What the references of a level contribute depends on those of all levels before. -/
theorem level_succ (k : Nat) :
    level refs once roots (k + 1) =
      joiningAll refs once (upTo refs once roots k) (level refs once roots k) := by
  rw [← levels_fst]
  rfl

theorem level_eq_nil_of_le {k j : Nat} (hkj : k ≤ j) (h : level refs once roots k = []) :
    level refs once roots j = [] := by
  induction hkj with
  | refl => exact h
  | step _ ih =>
    rw [level_succ, ih]
    rfl

theorem le_length_upTo {k : Nat} (h : ∀ j < k, level refs once roots j ≠ []) :
    k ≤ (upTo refs once roots k).length := by
  induction k with
  | zero => exact Nat.zero_le _
  | succ k ih =>
    have hlen := ih fun j hj => h j (by omega)
    have hpos := List.length_pos_iff.mpr (h k (Nat.lt_succ_self k))
    rw [upTo_succ, List.length_append]
    omega

/-- The levels are followed one after the other. -/
theorem Follows.split_upTo {followed : List Reference} (h : Follows refs once [] roots followed)
    (k : Nat) :
    ∃ later, followed = upTo refs once roots k ++ later ∧
      Follows refs once (upTo refs once roots k) (level refs once roots k) later := by
  induction k with
  | zero => exact ⟨followed, rfl, h⟩
  | succ k ih =>
    obtain ⟨later, heq, hlater⟩ := ih
    rw [← List.append_nil (level refs once roots k)] at hlater
    obtain ⟨rest, rfl, hrest⟩ := hlater.split
    refine ⟨rest, ?_, ?_⟩
    · rw [heq, upTo_succ, List.append_assoc]
    · rw [upTo_succ, level_succ]
      exact hrest

/-- From some level on there are none, and what was followed are the levels before it. -/
theorem Follows.eq_upTo {followed : List Reference} (h : Follows refs once [] roots followed) :
    ∃ depth, (∀ k, depth ≤ k → level refs once roots k = []) ∧
      followed = upTo refs once roots depth := by
  obtain ⟨depth, hdepth⟩ : ∃ depth, level refs once roots depth = [] := by
    by_contra hnone
    have hlen := le_length_upTo fun j (_ : j < followed.length + 1) hj => hnone ⟨j, hj⟩
    obtain ⟨later, heq, _⟩ := h.split_upTo (followed.length + 1)
    have := congrArg List.length heq
    rw [List.length_append] at this
    omega
  obtain ⟨later, heq, hlater⟩ := h.split_upTo depth
  rw [hdepth] at hlater
  cases hlater
  rw [List.append_nil] at heq
  exact ⟨depth, fun k hk => level_eq_nil_of_le hk hdepth, heq⟩

/-! ## Without cycles -/

theorem joiningAll_eq_flatMap {list : List Reference} (h : ∀ r ∈ list, ¬ once r.name)
    (earlier : List Reference) :
    joiningAll refs once earlier list = list.flatMap fun r => refs r.name := by
  induction list generalizing earlier with
  | nil => rfl
  | cons r rest ih =>
    rw [joiningAll, joining, if_neg fun hr => h r List.mem_cons_self hr.1,
      ih fun s hs => h s (List.mem_cons_of_mem r hs)]
    rfl

theorem reaches_of_mem_plainLevel {k : Nat} {r : Reference} (h : r ∈ plainLevel refs roots k) :
    refs.Reaches roots r.name := by
  induction k generalizing r with
  | zero => exact reaches_of_mem h
  | succ k ih =>
    obtain ⟨s, hs, hr⟩ := List.mem_flatMap.mp h
    exact (ih hs).step hr

/-- If no role that is reached is treated once, nothing is left out of the levels. -/
theorem level_eq_plainLevel (h : ∀ n, refs.Reaches roots n → ¬ once n) :
    level refs once roots = plainLevel refs roots := by
  funext k
  induction k with
  | zero => rfl
  | succ k ih =>
    rw [level_succ, ih, plainLevel]
    exact joiningAll_eq_flatMap (fun r hr => h r.name (reaches_of_mem_plainLevel hr)) _

end References

namespace Source

variable (source : Source) [DecidablePred source.references.OnCycle]
  (declarations : List Declaration)

/-- The references of a level over a source, where a role on a cycle that was named before
contributes nothing. -/
def level : Nat → List Reference :=
  source.references.level source.references.OnCycle (declarations.map Declaration.reference)

end Source

namespace Expansion

/-- **The registry is read off the levels.** With all levels in one list, the keys are its names in
the order of their first occurrence, and the mark of a role is that of the last reference that names
it. Where nothing that is reached lies on a cycle, the levels are the plain ones, in which nothing is
left out, and so are the references that the marks are taken from. -/
theorem registry_of_levels (source : Source) [DecidablePred source.references.OnCycle]
    (declarations : List Declaration) (limit : Nat)
    (hfin : {n | source.Reaches declarations n}.Finite)
    (hread : ∀ n, source.Reaches declarations n → source.Readable n)
    (hlimit : {n | source.Reaches declarations n}.ncard ≤ limit) :
    ∃ (registry : Registry) (depth : Nat),
      (run source limit .expandOnce declarations).outcome = some (.ok registry) ∧
      (∀ k, depth ≤ k → source.level declarations k = []) ∧
      registry.keys = (names ((List.range depth).flatMap (source.level declarations))).eraseDups ∧
      (∀ n, (registry.get? n).map (·.optional) =
        (((List.range depth).flatMap (source.level declarations)).findRev? (·.name = n)).map
          (·.optional)) ∧
      (source.Acyclic declarations →
        source.level declarations =
            source.references.plainLevel (declarations.map Declaration.reference) ∧
          ∀ n, (registry.get? n).map (·.optional) =
            (((List.range depth).flatMap (source.references.plainLevel
              (declarations.map Declaration.reference))).findRev? (·.name = n)).map
                (·.optional)) := by
  obtain ⟨followed, hfollows, houtcome⟩ := exists_outcome hfin hread (Or.inl rfl) hlimit
  obtain ⟨depth, hdepth, rfl⟩ := hfollows.eq_upTo
  have hmark : ∀ n, ((Registry.ofFollowed source.references (source.references.upTo
        source.references.OnCycle (declarations.map Declaration.reference) depth)).get? n).map
          (·.optional) =
      (((List.range depth).flatMap (source.level declarations)).findRev? (·.name = n)).map
        (·.optional) := by
    intro n
    rw [Registry.get?_ofFollowed, Option.map_map]
    rfl
  refine ⟨_, depth, houtcome, hdepth, Registry.keys_ofFollowed _, hmark, fun hacyclic => ?_⟩
  have hlevel : source.level declarations =
      source.references.plainLevel (declarations.map Declaration.reference) :=
    References.level_eq_plainLevel hacyclic
  exact ⟨hlevel, hlevel ▸ hmark⟩

open Classical in
theorem registry_of_levels_ring :
    ∃ (registry : Registry) (depth : Nat),
      (run (Metadata.ofTable ring) 4 .expandOnce [.mapping "app" true]).outcome =
        some (.ok registry) ∧
      (∀ k, depth ≤ k → (Metadata.ofTable ring).level [.mapping "app" true] k = []) ∧
      registry.keys = (names ((List.range depth).flatMap
        ((Metadata.ofTable ring).level [.mapping "app" true]))).eraseDups ∧
      (∀ n, (registry.get? n).map (·.optional) =
        (((List.range depth).flatMap ((Metadata.ofTable ring).level [.mapping "app" true])).findRev?
          (·.name = n)).map (·.optional)) ∧
      ((Metadata.ofTable ring).Acyclic [.mapping "app" true] →
        (Metadata.ofTable ring).level [.mapping "app" true] =
            (Metadata.ofTable ring).references.plainLevel [⟨"app", true⟩] ∧
          ∀ n, (registry.get? n).map (·.optional) =
            (((List.range depth).flatMap ((Metadata.ofTable ring).references.plainLevel
              [⟨"app", true⟩])).findRev? (·.name = n)).map (·.optional)) :=
  registry_of_levels (Metadata.ofTable ring) [.mapping "app" true] 4
    (Metadata.finite_reaches_ofTable ring _) (fun n _ => Metadata.readable_ofTable ring n)
    ((Metadata.ncard_reaches_ofTable ring _).trans (by decide))

end Expansion

end RoleChart
