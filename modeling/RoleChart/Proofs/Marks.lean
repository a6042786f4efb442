import RoleChart.Proofs.Expansion
/-!
Marks. The mark of a role is that of the reference to it that is followed last. Declared references
are followed before all others, and marks do not steer what is followed. So a role that another one
needs takes its mark from a reference of such a role, whatever the declarations say
(`Registry.get?_of_needed`), and any other role takes it from the last declaration that names it
(`Registry.get?_of_not_needed`).

* `registry_of_names_eq`: declarations that name the same roles in the same order expand to the same
  registry, the marks of roles that no role needs apart.
* `declared_settles`: the roles of a registry, declared again with their marks, expand to the same keys
  and dependencies, and the roles of that registry expand to it again.
-/
namespace RoleChart

open References (names joiningAll Follows)

/-! ## Roles that others need -/

namespace References

variable (refs : References) (roots : List Reference)

/-- A role that can be reached refers to another one. -/
def Needed (name : String) : Prop :=
  ∃ dependent, refs.Reaches roots dependent ∧ refs.LeadsTo dependent name

variable {refs roots} {once : String → Prop} [DecidablePred once] {followed : List Reference}

theorem needed_congr {roots' : List Reference} (h : names roots = names roots') {name : String} :
    refs.Needed roots name ↔ refs.Needed roots' name :=
  exists_congr fun _ => and_congr_left fun _ => reaches_congr h

theorem Needed.reaches {name : String} (h : refs.Needed roots name) : refs.Reaches roots name := by
  obtain ⟨dependent, hreached, r, hr, rfl⟩ := h
  exact hreached.step hr

namespace Follows

/-- What joins the queue of the roots are the references to roles that are needed. -/
theorem mem_names_joiningAll_iff (h : Follows refs once [] roots followed) (name : String) :
    name ∈ names (joiningAll refs once [] followed) ↔ refs.Needed roots name := by
  constructor
  · intro hname
    obtain ⟨s, hs, rfl⟩ := List.mem_map.mp hname
    obtain ⟨r, hr, hs⟩ := mem_joiningAll_iff.mp hs
    exact ⟨r.name, h.reaches hr, leadsTo_of_mem hs⟩
  · rintro ⟨dependent, hreached, s, hs, rfl⟩
    obtain ⟨r, hr, rfl⟩ := List.mem_map.mp ((h.mem_names_iff dependent).mpr hreached)
    exact List.mem_map_of_mem (mem_joiningAll_iff.mpr ⟨r, hr, hs⟩)

/-- The last reference to a role that is needed joined the queue. -/
theorem findRev?_of_needed (h : Follows refs once [] roots followed) {name : String}
    (hneeded : refs.Needed roots name) :
    followed.findRev? (·.name = name) =
      (joiningAll refs once [] followed).findRev? (·.name = name) := by
  obtain ⟨s, hs, hname⟩ := List.mem_map.mp ((h.mem_names_joiningAll_iff name).mpr hneeded)
  obtain ⟨last, hlast, -⟩ :=
    exists_findRev?_eq_some (p := (·.name = name)) hs (decide_eq_true hname)
  conv_lhs => rw [h.eq_append_joiningAll, findRev?_append]
  rw [hlast, Option.some_or]

/-- The last reference to any other role is a root. -/
theorem findRev?_of_not_needed (h : Follows refs once [] roots followed) {name : String}
    (hneeded : ¬ refs.Needed roots name) :
    followed.findRev? (·.name = name) = roots.findRev? (·.name = name) := by
  have hnone : (joiningAll refs once [] followed).findRev? (·.name = name) = none := by
    rw [findRev?_eq_none_iff]
    intro s hs hname
    refine hneeded ((h.mem_names_joiningAll_iff name).mp ?_)
    rw [← of_decide_eq_true hname]
    exact List.mem_map_of_mem hs
  conv_lhs => rw [h.eq_append_joiningAll, findRev?_append]
  rw [hnone, Option.none_or]

end Follows

end References

namespace Registry

variable {refs : References} {once : String → Prop} [DecidablePred once]
  {roots roots' followed followed' : List Reference} {name : String}

/-- Roots that name the same roles lead to the same registry as far as roles are needed. -/
theorem get?_of_needed (h : Follows refs once [] roots followed)
    (h' : Follows refs once [] roots' followed') (hnames : names roots = names roots')
    (hneeded : refs.Needed roots name) :
    Table.get? (ofFollowed refs followed) name = Table.get? (ofFollowed refs followed') name := by
  have hjoined : joiningAll refs once [] followed = joiningAll refs once [] followed' :=
    References.joiningAll_congr rfl (h.names_eq h' rfl hnames)
  have hneeded' : refs.Needed roots' name := (References.needed_congr hnames).mp hneeded
  rw [get?_ofFollowed, get?_ofFollowed, h.findRev?_of_needed hneeded,
    h'.findRev?_of_needed hneeded', hjoined]

/-- A role that is not needed stands as the last root that names it says. -/
theorem get?_of_not_needed (h : Follows refs once [] roots followed)
    (hneeded : ¬ refs.Needed roots name) :
    Table.get? (ofFollowed refs followed) name =
      (roots.findRev? (·.name = name)).map (Reference.follow refs) := by
  rw [get?_ofFollowed, h.findRev?_of_not_needed hneeded]

theorem keys_eq_of_names_eq (h : Follows refs once [] roots followed)
    (h' : Follows refs once [] roots' followed') (hnames : names roots = names roots') :
    Table.keys (ofFollowed refs followed) = Table.keys (ofFollowed refs followed') := by
  rw [keys_ofFollowed, keys_ofFollowed, h.names_eq h' rfl hnames]

end Registry

namespace Source

/-- A role that can be reached lists a role among its dependencies. -/
def Needed (source : Source) (declarations : List Declaration) (name : String) : Prop :=
  source.references.Needed (declarations.map Declaration.reference) name

end Source

namespace Expansion

variable {source : Source} {declarations : List Declaration} {mode : ExpansionMode} {limit : Nat}

/-- **Conditions on declared roles matter only where no role needs the role.** Declarations that name
the same roles in the same order, and differ in their conditions at most, expand to registries with
the same keys in the same order and the same dependencies. Under the name of a role that a reached
role lists as a dependency both hold the same role; any other role carries the mark of the last
declaration that names it. -/
theorem registry_of_names_eq (source : Source) (declarations declarations' : List Declaration)
    (mode : ExpansionMode) (limit : Nat)
    (hnames : declarations.map (·.name) = declarations'.map (·.name))
    (hfin : {n | source.Reaches declarations n}.Finite)
    (hread : ∀ n, source.Reaches declarations n → source.Readable n)
    (hmode : mode = .expandOnce ∨ source.Acyclic declarations)
    (hlimit : {n | source.Reaches declarations n}.ncard ≤ limit) :
    ∃ registry registry' : Registry,
      (run source limit mode declarations).outcome = some (.ok registry) ∧
      (run source limit mode declarations').outcome = some (.ok registry') ∧
      registry.keys = registry'.keys ∧
      (∀ n, (registry.get? n).map (·.dependencies) = (registry'.get? n).map (·.dependencies)) ∧
      (∀ n, source.Needed declarations n → registry.get? n = registry'.get? n) ∧
      ∀ n, ¬ source.Needed declarations n →
        (registry.get? n).map (·.optional) =
            (declarations.findRev? (·.name = n)).map (·.optional) ∧
          (registry'.get? n).map (·.optional) =
            (declarations'.findRev? (·.name = n)).map (·.optional) := by
  classical
  have hroots : names (declarations.map Declaration.reference) =
      names (declarations'.map Declaration.reference) := by
    rw [Declaration.names_map_reference, Declaration.names_map_reference, hnames]
  have hreaches : ∀ n, source.Reaches declarations' n ↔ source.Reaches declarations n :=
    fun n => (Source.reaches_congr hnames).symm
  have hset : {n | source.Reaches declarations' n} = {n | source.Reaches declarations n} :=
    Set.ext hreaches
  have hmode' : mode = .expandOnce ∨ source.Acyclic declarations' :=
    hmode.imp id fun h n hn => h n ((hreaches n).mp hn)
  obtain ⟨followed, hfollows, houtcome⟩ := exists_outcome hfin hread hmode hlimit
  obtain ⟨followed', hfollows', houtcome'⟩ := exists_outcome (hset ▸ hfin)
    (fun n hn => hread n ((hreaches n).mp hn)) hmode' (hset ▸ hlimit)
  -- A role that is not needed stands as declared last.
  have hmark : ∀ {list : List Declaration} {followed : List Reference} {n : String},
      Follows source.references source.references.OnCycle []
        (list.map Declaration.reference) followed →
      ¬ source.references.Needed (list.map Declaration.reference) n →
      (Table.get? (Registry.ofFollowed source.references followed) n).map (·.optional) =
        (list.findRev? (·.name = n)).map (·.optional) := by
    intro list followed n hfollows hneeded
    rw [Registry.get?_of_not_needed hfollows hneeded, findRev?_map, Option.map_map, Option.map_map]
    rfl
  refine ⟨_, _, houtcome, houtcome', Registry.keys_eq_of_names_eq hfollows hfollows' hroots,
    fun n => ?_, fun n hn => Registry.get?_of_needed hfollows hfollows' hroots hn, fun n hn =>
    ⟨hmark hfollows hn, hmark hfollows' (mt (References.needed_congr hroots).mpr hn)⟩⟩
  rw [Registry.dependencies_ofFollowed, Registry.dependencies_ofFollowed,
    hfollows.names_eq hfollows' rfl hroots]

theorem registry_of_names_eq_ring :
    ∃ registry registry' : Registry,
      (run (Metadata.ofTable ring) 5 .expandOnce
        [.bare "app", .mapping "tool" true, .bare "tool"]).outcome = some (.ok registry) ∧
      (run (Metadata.ofTable ring) 5 .expandOnce
        [.mapping "app" true, .bare "tool", .mapping "tool" true]).outcome =
          some (.ok registry') ∧
      registry.keys = registry'.keys ∧
      (∀ n, (registry.get? n).map (·.dependencies) = (registry'.get? n).map (·.dependencies)) ∧
      (∀ n, (Metadata.ofTable ring).Needed [.bare "app", .mapping "tool" true, .bare "tool"] n →
        registry.get? n = registry'.get? n) ∧
      ∀ n, ¬ (Metadata.ofTable ring).Needed [.bare "app", .mapping "tool" true, .bare "tool"] n →
        (registry.get? n).map (·.optional) =
            (([.bare "app", .mapping "tool" true, .bare "tool"] : List Declaration).findRev?
              (·.name = n)).map (·.optional) ∧
          (registry'.get? n).map (·.optional) =
            (([.mapping "app" true, .bare "tool", .mapping "tool" true] : List Declaration).findRev?
              (·.name = n)).map (·.optional) :=
  registry_of_names_eq (Metadata.ofTable ring) [.bare "app", .mapping "tool" true, .bare "tool"]
    [.mapping "app" true, .bare "tool", .mapping "tool" true] .expandOnce 6 rfl
    (Metadata.finite_reaches_ofTable ring _) (fun n _ => Metadata.readable_ofTable ring n)
    (Or.inl rfl) ((Metadata.ncard_reaches_ofTable ring _).trans (by decide))

/-! ## A registry declared again -/

/-- The keys of a registry as declarations, each with the mark of its role. -/
def declared (registry : Registry) : List Declaration :=
  registry.entries.map fun entry => .mapping entry.1 entry.2.optional

theorem names_declared (registry : Registry) :
    names ((declared registry).map Declaration.reference) = registry.keys := by
  rw [Declaration.names_map_reference]
  exact List.map_map

theorem reaches_declared {registry : Registry}
    (hkeys : ∀ n, n ∈ registry.keys ↔ source.Reaches declarations n) {name : String} :
    source.Reaches (declared registry) name ↔ source.Reaches declarations name := by
  rw [Source.Reaches, References.reaches_iff, names_declared]
  constructor
  · rintro ⟨root, hroot, hchain⟩
    exact ((hkeys root).mp hroot).trans hchain
  · intro hname
    exact ⟨name, (hkeys name).mpr hname, .refl⟩

/-- Where no key stands twice, the one declaration of a name carries the mark of its role. -/
theorem findRev?_declared {registry : Registry} (h : registry.keys.Nodup) (name : String) :
    ((declared registry).map Declaration.reference).findRev? (·.name = name) =
      (registry.get? name).map fun role => ⟨name, role.optional⟩ := by
  have hget := Table.get?_ofList registry.entries name
  rw [Table.ofList_entries h] at hget
  rw [hget, declared, findRev?_map, findRev?_map, Option.map_map, Option.map_map]
  refine Option.map_congr fun entry hentry => ?_
  have hname : entry.1 = name := of_decide_eq_true (mem_of_findRev?_eq_some hentry).2
  exact congrArg (Reference.mk · entry.2.optional) hname

/-- The roles of a registry, declared again, expand to a registry, with any limit that admits them. -/
theorem exists_outcome_declared [DecidablePred source.references.OnCycle] {registry : Registry}
    (hnodup : registry.keys.Nodup)
    (hkeys : ∀ n, n ∈ registry.keys ↔ source.Reaches declarations n)
    (hread : ∀ n, source.Reaches declarations n → source.Readable n) :
    ∃ followed,
      Follows source.references source.references.OnCycle []
        ((declared registry).map Declaration.reference) followed ∧
      ∀ limit, registry.size ≤ limit →
        (run source limit .expandOnce (declared registry)).outcome =
          some (.ok (Registry.ofFollowed source.references followed)) := by
  have hset : {n | source.Reaches (declared registry) n} = {n | n ∈ registry.keys} :=
    Set.ext fun n => (reaches_declared hkeys).trans (hkeys n).symm
  have hfin : {n | source.Reaches (declared registry) n}.Finite :=
    hset ▸ List.finite_toSet registry.keys
  have hncard : {n | source.Reaches (declared registry) n}.ncard = registry.size := by
    rw [hset, ← List.coe_toFinset, Set.ncard_coe_finset, List.toFinset_card_of_nodup hnodup,
      Table.size_eq_length_keys]
  have hread' : ∀ n, source.Reaches (declared registry) n → source.Readable n :=
    fun n hn => hread n ((reaches_declared hkeys).mp hn)
  obtain ⟨followed, hfollows, houtcome⟩ :=
    exists_outcome hfin hread' (Or.inl rfl : ExpansionMode.expandOnce = .expandOnce ∨ _) hncard.le
  refine ⟨followed, hfollows, fun limit hlimit => ?_⟩
  obtain ⟨followed', hfollows', houtcome'⟩ :=
    exists_outcome hfin hread' (Or.inl rfl : ExpansionMode.expandOnce = .expandOnce ∨ _)
      (hncard.le.trans hlimit)
  rw [houtcome', hfollows.unique hfollows']

/-- What the roles of a registry, declared again, expand to has the same keys in the same order. -/
theorem keys_ofFollowed_declared {once : String → Prop} [DecidablePred once] {registry : Registry}
    {followed : List Reference} (hnodup : registry.keys.Nodup)
    (hkeys : ∀ n, n ∈ registry.keys ↔ source.Reaches declarations n)
    (h : Follows source.references once [] ((declared registry).map Declaration.reference)
      followed) :
    Table.keys (Registry.ofFollowed source.references followed) = registry.keys := by
  have hjoined : names (joiningAll source.references once [] followed) ⊆ registry.keys := by
    intro n hn
    have hneeded := (h.mem_names_joiningAll_iff n).mp hn
    exact (hkeys n).mpr ((reaches_declared hkeys).mp hneeded.reaches)
  rw [Registry.keys_ofFollowed, h.eq_append_joiningAll, References.names_append, names_declared,
    eraseDups_append_of_subset hjoined, eraseDups_of_nodup hnodup]

/-- Marks that a registry carries are kept when its roles, which the roots name in order, are
declared again. -/
theorem ofFollowed_declared {refs : References} {once : String → Prop} [DecidablePred once]
    {roots followed followed' : List Reference} (h : Follows refs once [] roots followed)
    (h' : Follows refs once []
      ((declared (Registry.ofFollowed refs followed)).map Declaration.reference) followed')
    (hnames : names roots =
      names ((declared (Registry.ofFollowed refs followed)).map Declaration.reference)) :
    Registry.ofFollowed refs followed' = Registry.ofFollowed refs followed := by
  have hnodup : (Registry.ofFollowed refs followed).keys.Nodup := Table.nodup_keys_ofList _
  refine (Table.ext_get? hnodup (Registry.keys_eq_of_names_eq h h' hnames) fun name => ?_).symm
  by_cases hneeded : refs.Needed roots name
  · exact Registry.get?_of_needed h h' hnames hneeded
  · have hneeded' := mt (References.needed_congr hnames).mpr hneeded
    rw [Registry.get?_of_not_needed h' hneeded', findRev?_declared hnodup, Option.map_map]
    cases hget : Table.get? (Registry.ofFollowed refs followed) name with
    | none => rfl
    | some role =>
      obtain ⟨rfl, hdependencies⟩ := Registry.eq_follow_of_get? hget
      have hrole : role = ⟨role.name, role.optional, refs role.name⟩ := by rw [← hdependencies]
      exact congrArg some hrole

/-- **A registry declared again settles after one step.** The roles of a registry that the mode
`expandOnce` has given, declared in order with their marks, expand to the same keys in the same order
with the same dependencies. Marks may change in this step; the roles of the registry that it gives,
declared again, expand to that registry. -/
theorem declared_settles (source : Source) (declarations : List Declaration) (limit : Nat)
    (registry : Registry)
    (h : (run source limit .expandOnce declarations).outcome = some (.ok registry)) :
    ∃ again : Registry,
      again.keys = registry.keys ∧
      (∀ n, (again.get? n).map (·.dependencies) = (registry.get? n).map (·.dependencies)) ∧
      ∀ limit, registry.size ≤ limit →
        (run source limit .expandOnce (declared registry)).outcome = some (.ok again) ∧
        (run source limit .expandOnce (declared again)).outcome = some (.ok again) := by
  classical
  obtain ⟨hnodup, hkeys, hread⟩ := closure_of_outcome_ok h
  obtain ⟨_, before, _, _, _, hbefore⟩ := exists_of_outcome_ok h
  obtain ⟨followed, hfollows, houtcome⟩ := exists_outcome_declared hnodup hkeys hread
  have hkeys' : Table.keys (Registry.ofFollowed source.references followed) = registry.keys :=
    keys_ofFollowed_declared hnodup hkeys hfollows
  have hsize : Table.size (Registry.ofFollowed source.references followed) = registry.size := by
    rw [Table.size_eq_length_keys, hkeys', Table.size_eq_length_keys]
  have hnodup' : (Registry.ofFollowed source.references followed).keys.Nodup := hkeys' ▸ hnodup
  have hreached' : ∀ n, n ∈ (Registry.ofFollowed source.references followed).keys ↔
      source.Reaches declarations n := fun n => by rw [hkeys', hkeys n]
  obtain ⟨followed', hfollows', houtcome'⟩ := exists_outcome_declared hnodup' hreached' hread
  have hsame : Registry.ofFollowed source.references followed' =
      Registry.ofFollowed source.references followed := by
    refine ofFollowed_declared hfollows hfollows' ?_
    rw [names_declared, names_declared, hkeys']
  refine ⟨_, hkeys', fun n => ?_, fun limit hlimit =>
    ⟨houtcome limit hlimit, hsame ▸ houtcome' limit (hsize.le.trans hlimit)⟩⟩
  have hmem : n ∈ names followed ↔ n ∈ names before :=
    calc n ∈ names followed
        ↔ n ∈ Table.keys (Registry.ofFollowed source.references followed) :=
          (Registry.mem_keys_ofFollowed followed n).symm
      _ ↔ n ∈ registry.keys := by rw [hkeys']
      _ ↔ n ∈ names before := by rw [hbefore, Registry.mem_keys_ofFollowed]
  rw [hbefore, Registry.dependencies_ofFollowed, Registry.dependencies_ofFollowed]
  simp only [hmem]

/-- Two roles that need a third one, one of them under a condition. -/
def forked : Table (List Declaration) :=
  .ofList [("app", [.mapping "cache" true]), ("db", [.bare "cache"])]

theorem declared_settles_forked :
    ∃ registry : Registry,
      (run (Metadata.ofTable forked) 3 .expandOnce [.bare "db", .bare "app", .bare "db"]).outcome =
        some (.ok registry) ∧
      ∃ again : Registry,
        again.keys = registry.keys ∧
        (∀ n, (again.get? n).map (·.dependencies) = (registry.get? n).map (·.dependencies)) ∧
        ∀ limit, registry.size ≤ limit →
          (run (Metadata.ofTable forked) limit .expandOnce (declared registry)).outcome =
              some (.ok again) ∧
            (run (Metadata.ofTable forked) limit .expandOnce (declared again)).outcome =
              some (.ok again) :=
  ⟨.ofList [("db", ⟨"db", false, [⟨"cache", false⟩]⟩), ("app", ⟨"app", false, [⟨"cache", true⟩]⟩),
      ("cache", ⟨"cache", false, []⟩)], rfl,
    declared_settles (Metadata.ofTable forked) [.bare "db", .bare "app", .bare "db"] 3 _ rfl⟩

-- The mark of `cache` changes in the first step: `db` is declared once then, and comes before `app`.
example :
    (run (Metadata.ofTable forked) 3 .expandOnce
      [.mapping "db" false, .mapping "app" false, .mapping "cache" false]).outcome =
    some (.ok (.ofList [("db", ⟨"db", false, [⟨"cache", false⟩]⟩),
      ("app", ⟨"app", false, [⟨"cache", true⟩]⟩), ("cache", ⟨"cache", true, []⟩)])) := rfl

end Expansion

end RoleChart
