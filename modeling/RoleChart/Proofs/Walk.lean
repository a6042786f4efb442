import RoleChart.Proofs.Following
import RoleChart.Proofs.Table
/-!
The walk over metadata that was read. `Walk.run` follows references as `References.Follows` does,
with the guarded roles as those treated once, and stores each role under its name
(`run_eq_some_iff`). So the registry depends on the references followed alone
(`Registry.ofFollowed`): a key stands where its name is first followed, and its role carries the mark
of the reference to it that is followed last.

A guarded role lets its references join the queue the first time that it is followed and never again
(`expansions_visitsOf`).
-/
namespace RoleChart

open References (names joining Follows)

/-! ## The registry of what was followed -/

namespace Reference

/-- The role that is stored when a reference is followed. -/
def follow (refs : References) (r : Reference) : Role := ⟨r.name, r.optional, refs r.name⟩

end Reference

namespace Registry

variable {refs : References}

/-- The registry after the references of a list were followed. -/
def ofFollowed (refs : References) (followed : List Reference) : Registry :=
  Table.ofList (followed.map fun r => (r.name, r.follow refs))

theorem ofFollowed_concat (followed : List Reference) (r : Reference) :
    ofFollowed refs (followed ++ [r]) =
      Table.set (ofFollowed refs followed) r.name (r.follow refs) := by
  rw [ofFollowed, List.map_append, List.map_singleton, Table.ofList_concat]
  rfl

/-- The keys are the names followed, in the order of their first occurrence. -/
theorem keys_ofFollowed (followed : List Reference) :
    Table.keys (ofFollowed refs followed) = (names followed).eraseDups := by
  rw [ofFollowed, Table.keys_ofList, List.map_map]
  rfl

theorem mem_keys_ofFollowed (followed : List Reference) (name : String) :
    name ∈ Table.keys (ofFollowed refs followed) ↔ name ∈ names followed := by
  rw [keys_ofFollowed, List.mem_eraseDups]

/-- Under a name stands the role of the reference that was followed last. -/
theorem get?_ofFollowed (followed : List Reference) (name : String) :
    Table.get? (ofFollowed refs followed) name =
      (followed.findRev? (·.name = name)).map (Reference.follow refs) := by
  rw [ofFollowed, Table.get?_ofList, findRev?_map, Option.map_map]
  rfl

/-- A role stands under its own name, with the references of that name. -/
theorem eq_follow_of_get? {followed : List Reference} {name : String} {role : Role}
    (h : Table.get? (ofFollowed refs followed) name = some role) :
    role.name = name ∧ role.dependencies = refs name := by
  rw [get?_ofFollowed] at h
  obtain ⟨r, hr, rfl⟩ := Option.map_eq_some_iff.mp h
  have hname : r.name = name := of_decide_eq_true (mem_of_findRev?_eq_some hr).2
  exact ⟨hname, congrArg refs hname⟩

/-- Under a name that was followed stand the references of that name. -/
theorem dependencies_ofFollowed (refs : References) (followed : List Reference) (name : String) :
    (Table.get? (ofFollowed refs followed) name).map (·.dependencies) =
      if name ∈ names followed then some (refs name) else none := by
  cases hget : Table.get? (ofFollowed refs followed) name with
  | none =>
    rw [Table.get?_eq_none_iff, mem_keys_ofFollowed] at hget
    rw [if_neg hget, Option.map_none]
  | some role =>
    have hkey := (Table.get?_isSome_iff _ _).mp (Option.isSome_of_eq_some hget)
    rw [if_pos ((mem_keys_ofFollowed followed name).mp hkey), Option.map_some,
      (eq_follow_of_get? hget).2]

theorem eq_follow_of_mem_values {followed : List Reference} {role : Role}
    (h : role ∈ Table.values (ofFollowed refs followed)) :
    role.name ∈ names followed ∧ role.dependencies = refs role.name := by
  obtain ⟨name, hget⟩ := (Table.mem_values_iff (Table.nodup_keys_ofList _) role).mp h
  obtain ⟨rfl, hdependencies⟩ := eq_follow_of_get? hget
  have hkey := (Table.get?_isSome_iff _ _).mp (Option.isSome_of_eq_some hget)
  exact ⟨(mem_keys_ofFollowed followed role.name).mp hkey, hdependencies⟩

/-- A role carries the mark of a reference that was followed. -/
theorem reference_mem_of_mem_values {followed : List Reference} {role : Role}
    (h : role ∈ Table.values (ofFollowed refs followed)) : role.reference ∈ followed := by
  obtain ⟨name, hget⟩ := (Table.mem_values_iff (Table.nodup_keys_ofList _) role).mp h
  have hlast := (get?_ofFollowed followed name).symm.trans hget
  obtain ⟨r, hr, rfl⟩ := Option.map_eq_some_iff.mp hlast
  exact (mem_of_findRev?_eq_some hr).1

/-- Every name that was followed has a role. -/
theorem exists_mem_values (refs : References) {followed : List Reference} {name : String}
    (h : name ∈ names followed) :
    ∃ role ∈ Table.values (ofFollowed refs followed),
      role.name = name ∧ role.dependencies = refs name := by
  have hkey : name ∈ (ofFollowed refs followed).keys := (mem_keys_ofFollowed followed name).mpr h
  obtain ⟨role, hget⟩ := Option.isSome_iff_exists.mp ((Table.get?_isSome_iff _ name).mpr hkey)
  exact ⟨role, (Table.mem_values_iff (Table.nodup_keys_ofList _) role).mpr ⟨name, hget⟩,
    eq_follow_of_get? hget⟩

/-- Two ways to tell what each role refers to give one registry if they agree on what was
followed. -/
theorem ofFollowed_congr {refs' : References} {followed : List Reference}
    (h : ∀ r ∈ followed, refs r.name = refs' r.name) :
    ofFollowed refs followed = ofFollowed refs' followed := by
  unfold ofFollowed
  congr 1
  refine List.map_congr_left fun r hr => ?_
  rw [Reference.follow, Reference.follow, h r hr]

end Registry

namespace Walk

variable {metadata : Resolved} {guarded : String → Bool}

/-! ## One visit -/

/-- What a visit is after `earlier` were followed: the stored role always refers to what its metadata
says, so only the mark is the reference's own. -/
theorem visit_ofFollowed (earlier : List Reference) (r : Reference) :
    visit metadata guarded (Registry.ofFollowed metadata.references earlier) r =
      ⟨r.follow metadata.references, !(guarded r.name && decide (r.name ∈ names earlier))⟩ := by
  unfold visit
  cases hguarded : guarded r.name with
  | false => simp [Reference.follow]
  | true =>
    cases hget : Table.get? (Registry.ofFollowed metadata.references earlier) r.name with
    | none =>
      rw [Table.get?_eq_none_iff, Registry.mem_keys_ofFollowed] at hget
      simp [Reference.follow, hget]
    | some role =>
      have hkey := (Table.get?_isSome_iff _ _).mp (Option.isSome_of_eq_some hget)
      have hmem : r.name ∈ names earlier := (Registry.mem_keys_ofFollowed _ _).mp hkey
      obtain ⟨hname, hdependencies⟩ := Registry.eq_follow_of_get? hget
      simp only [hmem, decide_true, Bool.and_self, Bool.not_true, Reference.follow, hname,
        hdependencies]

/-- A visit lets the same references join the queue as following does. -/
theorem added_visit (earlier : List Reference) (r : Reference) :
    (visit metadata guarded (Registry.ofFollowed metadata.references earlier) r).added =
      joining metadata.references (guarded · = true) earlier r := by
  rw [visit_ofFollowed, joining, Visit.added]
  by_cases h : guarded r.name = true ∧ r.name ∈ names earlier
  · rw [if_pos h]
    simp only [h.1, h.2, decide_true, Bool.and_self, Bool.not_true, Bool.false_eq_true, if_false]
  · have hexpands : (!(guarded r.name && decide (r.name ∈ names earlier))) = true := by
      simpa only [Bool.not_eq_true', Bool.and_eq_false_iff, decide_eq_false_iff_not,
        Bool.not_eq_true, Decidable.not_and_iff_not_or_not] using h
    rw [if_neg h, if_pos hexpands, Reference.follow]

/-! ## The run -/

/-- The visits of a list of references, after `earlier` were followed. -/
def visitsOf (metadata : Resolved) (guarded : String → Bool) :
    List Reference → List Reference → List Visit
  | _, [] => []
  | earlier, r :: rest =>
    visit metadata guarded (Registry.ofFollowed metadata.references earlier) r ::
      visitsOf metadata guarded (earlier ++ [r]) rest

theorem length_visitsOf (earlier followed : List Reference) :
    (visitsOf metadata guarded earlier followed).length = followed.length := by
  induction followed generalizing earlier with
  | nil => rfl
  | cons r rest ih => simp [visitsOf, ih]

theorem run_succ (limit : Nat) (earlier rest : List Reference) (r : Reference) :
    run metadata guarded (limit + 1) (r :: rest)
        (Registry.ofFollowed metadata.references earlier) =
      (run metadata guarded limit
        (rest ++ joining metadata.references (guarded · = true) earlier r)
        (Registry.ofFollowed metadata.references (earlier ++ [r]))).map fun (visits, registry) =>
          (visit metadata guarded (Registry.ofFollowed metadata.references earlier) r :: visits,
            registry) := by
  rw [run, added_visit, Registry.ofFollowed_concat, visit_ofFollowed]

theorem run_nil_eq_some_iff {limit : Nat} {earlier : List Reference} {visits : List Visit}
    {registry : Registry} :
    run metadata guarded limit [] (Registry.ofFollowed metadata.references earlier) =
        some (visits, registry) ↔
      ∃ followed, Follows metadata.references (guarded · = true) earlier [] followed ∧
        followed.length ≤ limit ∧ visits = visitsOf metadata guarded earlier followed ∧
        registry = Registry.ofFollowed metadata.references (earlier ++ followed) := by
  simp only [run, Option.some.injEq, Prod.mk.injEq]
  constructor
  · rintro ⟨rfl, rfl⟩
    exact ⟨[], .done earlier, Nat.zero_le limit, rfl, by rw [List.append_nil]⟩
  · rintro ⟨_, hfollows, _, rfl, rfl⟩
    cases hfollows
    exact ⟨rfl, by rw [List.append_nil]⟩

/-- The walk ends within its limit exactly if following ends so, and then it has visited what was
followed. -/
theorem run_eq_some_iff {limit : Nat} {earlier queue : List Reference} {visits : List Visit}
    {registry : Registry} :
    run metadata guarded limit queue (Registry.ofFollowed metadata.references earlier) =
        some (visits, registry) ↔
      ∃ followed, Follows metadata.references (guarded · = true) earlier queue followed ∧
        followed.length ≤ limit ∧ visits = visitsOf metadata guarded earlier followed ∧
        registry = Registry.ofFollowed metadata.references (earlier ++ followed) := by
  induction limit generalizing earlier queue visits registry with
  | zero =>
    cases queue with
    | nil => exact run_nil_eq_some_iff
    | cons r rest =>
      simp only [run, reduceCtorEq, false_iff]
      rintro ⟨_, hfollows, hlen, _⟩
      cases hfollows
      exact Nat.not_succ_le_zero _ hlen
  | succ limit ih =>
    cases queue with
    | nil => exact run_nil_eq_some_iff
    | cons r rest =>
      rw [run_succ, Option.map_eq_some_iff]
      constructor
      · rintro ⟨⟨later, final⟩, hrun, hpair⟩
        obtain ⟨followed, hfollows, hlen, rfl, rfl⟩ := ih.mp hrun
        obtain ⟨rfl, rfl⟩ := Prod.mk.inj hpair
        refine ⟨r :: followed, .next hfollows, Nat.succ_le_succ hlen, rfl, ?_⟩
        rw [List.append_assoc, List.singleton_append]
      · rintro ⟨_, hfollows, hlen, rfl, rfl⟩
        cases hfollows with
        | @next _ _ followed _ hfollows =>
          refine ⟨(visitsOf metadata guarded (earlier ++ [r]) followed,
            Registry.ofFollowed metadata.references (earlier ++ r :: followed)), ?_, rfl⟩
          refine ih.mpr ⟨followed, hfollows, Nat.le_of_succ_le_succ hlen, rfl, ?_⟩
          rw [List.append_assoc, List.singleton_append]

/-- The number of visits to a role that let its references join the queue. -/
def expansions (name : String) (visits : List Visit) : Nat :=
  visits.countP fun v => v.role.name = name ∧ v.expands

/-- The references of a guarded role join the queue once, when it is first followed. -/
theorem expansions_visitsOf {name : String} (hguarded : guarded name = true)
    (earlier followed : List Reference) :
    expansions name (visitsOf metadata guarded earlier followed) =
      if name ∈ names earlier then 0 else if name ∈ names followed then 1 else 0 := by
  induction followed generalizing earlier with
  | nil => simp [visitsOf, expansions]
  | cons r rest ih =>
    have hrest := ih (earlier ++ [r])
    unfold expansions at hrest ⊢
    rw [visitsOf, List.countP_cons, hrest, visit_ofFollowed]
    by_cases hname : r.name = name
    · subst hname
      by_cases hearlier : r.name ∈ names earlier <;>
        simp [Reference.follow, hguarded, hearlier]
    · by_cases hearlier : name ∈ names earlier <;>
        simp [Reference.follow, hname, Ne.symm hname, hearlier]

theorem expansions_eq_zero {name : String} {followed : List Reference}
    (h : name ∉ names followed) (earlier : List Reference) :
    expansions name (visitsOf metadata guarded earlier followed) = 0 := by
  induction followed generalizing earlier with
  | nil => rfl
  | cons r rest ih =>
    unfold names at h
    rw [List.map_cons, List.mem_cons, not_or] at h
    have hrest := ih h.2 (earlier ++ [r])
    unfold expansions at hrest ⊢
    rw [visitsOf, List.countP_cons, hrest, visit_ofFollowed]
    simp [Reference.follow, Ne.symm h.1]

end Walk

end RoleChart
