import RoleChart.Proofs.Sources
import RoleChart.Proofs.Weight
/-!
What an expansion comes to. Where finitely many roles can be reached and all of them can be read, an
expansion that guards every role on a cycle has an outcome: the registry of the references followed
from the declared roles, with the roles on a cycle treated once (`exists_outcome`). The mode
`expandOnce` guards these roles; the mode `reexpand` guards none, which is enough where there are
none. An expansion that succeeded, in either mode, has read to the end and followed references to the
end (`exists_of_outcome_ok`).

* `registry_eq_closure`: the registry holds exactly the roles that can be reached, and under each
  name what the source declares for it.
* `expandOnce_ends`: in the mode `expandOnce` both loops end whatever cycles there are, and a role on
  a cycle lets its references join the queue at most once.

The limit of an expansion bounds the names it may ask for; every statement holds from the number of
names that can be reached on. The limits set for a table and for a directory are as high, so neither
cuts an expansion short (`isSome_outcome_ofTable`, `isSome_outcome_ofDirectory`).
-/
namespace RoleChart

open References (names OnCycle Follows)

namespace Expansion

variable {source : Source} {declarations : List Declaration} {mode : ExpansionMode} {limit : Nat}
  {metadata : Resolved}

/-! ## The walk after the reading -/

/-- The walk asks for nothing more. -/
theorem asked_run (source : Source) (limit : Nat) (mode : ExpansionMode)
    (declarations : List Declaration) :
    (run source limit mode declarations).asked =
      (Reading.run source limit (declarations.map Declaration.reference)).asked := by
  unfold run runWith
  dsimp only
  split
  · rfl
  · rfl
  · split <;> rfl

theorem outcome_of_read_none
    (h : (Reading.run source limit (declarations.map Declaration.reference)).outcome = none) :
    (run source limit mode declarations).outcome = none := by
  simp only [run, runWith, h]

theorem outcome_of_read_error {e : InputError}
    (h : (Reading.run source limit (declarations.map Declaration.reference)).outcome =
      some (.error e)) :
    (run source limit mode declarations).outcome = some (.error e) := by
  simp only [run, runWith, h]

theorem outcome_of_read_ok
    (h : (Reading.run source limit (declarations.map Declaration.reference)).outcome =
      some (.ok metadata)) :
    (run source limit mode declarations).outcome =
      (walk metadata metadata.cyclic (guarded mode metadata.cyclic)
        (declarations.map Declaration.reference)).map fun (_, registry) => .ok registry := by
  simp only [run, runWith, h]
  cases walk metadata metadata.cyclic (guarded mode metadata.cyclic)
    (declarations.map Declaration.reference) <;> rfl

/-- An expansion fails with the error of the loop that reads, and with no other. -/
theorem read_error_of_outcome {e : InputError}
    (h : (run source limit mode declarations).outcome = some (.error e)) :
    (Reading.run source limit (declarations.map Declaration.reference)).outcome =
      some (.error e) := by
  cases hread : (Reading.run source limit (declarations.map Declaration.reference)).outcome with
  | none =>
    rw [outcome_of_read_none hread] at h
    cases h
  | some result =>
    cases result with
    | error e' =>
      rw [outcome_of_read_error hread] at h
      rw [Except.error.inj (Option.some.inj h)]
    | ok metadata =>
      rw [outcome_of_read_ok hread, Option.map_eq_some_iff] at h
      obtain ⟨_, _, hok⟩ := h
      cases hok

/-- The walk ends where every cyclic role is guarded. -/
theorem exists_walk (metadata : Resolved) (roots : List Reference) :
    ∃ followed,
      Follows metadata.references (metadata.cyclic.contains · = true) [] roots followed ∧
        walk metadata metadata.cyclic metadata.cyclic roots =
          some (Walk.visitsOf metadata metadata.cyclic.contains [] followed,
            Registry.ofFollowed metadata.references followed) := by
  have hguarded : ∀ n, OnCycle metadata.references n → metadata.cyclic.contains n = true :=
    fun n hn => List.contains_iff_mem.mpr ((Resolved.mem_cyclic_iff n).mpr hn)
  obtain ⟨followed, hfollows, hlen⟩ := Walk.exists_follows_limitFor hguarded roots
  refine ⟨followed, hfollows, ?_⟩
  rw [walk, if_pos (List.all_eq_true.mpr fun n hn => List.contains_iff_mem.mpr hn)]
  exact Walk.run_eq_some_iff.mpr ⟨followed, hfollows, hlen, rfl, rfl⟩

/-- The mode `expandOnce` guards the cyclic roles; without cycles the mode `reexpand` does as well. -/
theorem guarded_eq_cyclic (h : Reading.Complete source declarations metadata)
    (hmode : mode = .expandOnce ∨ source.Acyclic declarations) :
    guarded mode metadata.cyclic = metadata.cyclic := by
  cases mode with
  | expandOnce => rfl
  | reexpand =>
    have hacyclic := hmode.resolve_left (by decide)
    exact (h.cyclic_eq_nil_iff.mpr hacyclic).symm

/-- All that is followed over metadata that was read was read. -/
theorem mem_keys_of_follows (h : Reading.Complete source declarations metadata)
    {once : String → Prop} [DecidablePred once] {followed : List Reference}
    (hfollows : Follows metadata.references once [] (declarations.map Declaration.reference)
      followed) :
    ∀ r ∈ followed, r.name ∈ metadata.keys := by
  intro r hr
  refine (hfollows.reaches hr).induct (fun root hroot => ?_) (fun n hn s hs => ?_)
  · exact (h.mem_keys_iff root.name).mpr (References.reaches_of_mem hroot)
  · rw [h.references_eq n hn] at hs
    exact (h.mem_keys_iff s.name).mpr (((h.mem_keys_iff n).mp hn).step hs)

/-- What is followed over metadata that was read is followed over the source, with the roles on a
cycle treated once, and both say the same of it. -/
theorem follows_source [DecidablePred source.references.OnCycle]
    (h : Reading.Complete source declarations metadata) {followed : List Reference}
    (hfollows : Follows metadata.references (metadata.cyclic.contains · = true) []
      (declarations.map Declaration.reference) followed) :
    Follows source.references source.references.OnCycle []
        (declarations.map Declaration.reference) followed ∧
      Registry.ofFollowed metadata.references followed =
        Registry.ofFollowed source.references followed := by
  have hkeys := mem_keys_of_follows h hfollows
  have hrefs : ∀ r ∈ followed, metadata.references r.name = source.references r.name :=
    fun r hr => h.references_eq _ (hkeys r hr)
  refine ⟨hfollows.congr hrefs fun r hr => ?_, Registry.ofFollowed_congr hrefs⟩
  rw [List.contains_iff_mem]
  exact h.mem_cyclic_iff_onCycle ((h.mem_keys_iff r.name).mp (hkeys r hr))

/-- Where nothing is guarded the walk ends within some limit only if nothing that is reached lies on a
cycle. -/
theorem acyclic_of_run (h : Reading.Complete source declarations metadata)
    {visited : List Visit × Registry}
    (hrun : Walk.run metadata (guarded .reexpand metadata.cyclic).contains limit
      (declarations.map Declaration.reference) .empty = some visited) :
    source.Acyclic declarations := by
  have hstart : Walk.run metadata (guarded .reexpand metadata.cyclic).contains limit
      (declarations.map Declaration.reference) (Registry.ofFollowed metadata.references []) =
        some (visited.1, visited.2) := hrun
  obtain ⟨followed, hfollows, _⟩ := Walk.run_eq_some_iff.mp hstart
  have hrefs : ∀ r ∈ followed, metadata.references r.name = source.references r.name :=
    fun r hr => h.references_eq _ (mem_keys_of_follows h hfollows r hr)
  have hplain : Follows source.references (fun _ => False) []
      (declarations.map Declaration.reference) followed :=
    hfollows.congr hrefs fun r _ => by simp [guarded]
  exact hplain.acyclic

/-- An expansion gives up its walk only where the walk does not end, whatever limit it has. -/
theorem walk_eq_none_iff (h : Reading.Complete source declarations metadata)
    (mode : ExpansionMode) :
    walk metadata metadata.cyclic (guarded mode metadata.cyclic)
        (declarations.map Declaration.reference) = none ↔
      ∀ limit, Walk.run metadata (guarded mode metadata.cyclic).contains limit
        (declarations.map Declaration.reference) .empty = none := by
  constructor
  · intro hnone limit
    rw [Option.eq_none_iff_forall_ne_some]
    intro visited hrun
    have hmode : mode = .expandOnce ∨ source.Acyclic declarations := by
      cases mode with
      | expandOnce => exact Or.inl rfl
      | reexpand => exact Or.inr (acyclic_of_run h hrun)
    obtain ⟨followed, _, hwalk⟩ := exists_walk metadata (declarations.map Declaration.reference)
    rw [guarded_eq_cyclic h hmode, hwalk] at hnone
    cases hnone
  · intro hnone
    unfold walk
    split
    · exact hnone _
    · rfl

/-- After reading succeeded, an expansion that guards what lies on a cycle ends with the registry of
what is followed. -/
theorem outcome_of_ends [DecidablePred source.references.OnCycle] {asked : List String}
    (hends : Reading.Ends source (names (declarations.map Declaration.reference)) .empty asked
      (.ok metadata))
    (hmode : mode = .expandOnce ∨ source.Acyclic declarations) (hlimit : asked.length ≤ limit) :
    ∃ followed,
      Follows source.references source.references.OnCycle []
        (declarations.map Declaration.reference) followed ∧
      (run source limit mode declarations).outcome =
        some (.ok (Registry.ofFollowed source.references followed)) := by
  have hcomplete := Reading.complete_of_ends hends
  obtain ⟨followed, hfollows, hwalk⟩ :=
    exists_walk metadata (declarations.map Declaration.reference)
  obtain ⟨hsource, hregistry⟩ := follows_source hcomplete hfollows
  refine ⟨followed, hsource, ?_⟩
  rw [outcome_of_read_ok (Reading.run_of_ends hends hlimit).2, guarded_eq_cyclic hcomplete hmode,
    hwalk, hregistry]
  rfl

/-- Where all that can be reached can be read, an expansion that guards what lies on a cycle has an
outcome. -/
theorem exists_outcome [DecidablePred source.references.OnCycle]
    (hfin : {n | source.Reaches declarations n}.Finite)
    (hread : ∀ n, source.Reaches declarations n → source.Readable n)
    (hmode : mode = .expandOnce ∨ source.Acyclic declarations)
    (hlimit : {n | source.Reaches declarations n}.ncard ≤ limit) :
    ∃ followed,
      Follows source.references source.references.OnCycle []
        (declarations.map Declaration.reference) followed ∧
      (run source limit mode declarations).outcome =
        some (.ok (Registry.ofFollowed source.references followed)) := by
  obtain ⟨asked, metadata, hends, hlen⟩ := Reading.exists_complete hfin hread
  exact outcome_of_ends hends hmode (hlen.trans hlimit)

/-! ## Expansions that succeeded -/

/-- A walk that has an outcome had every role on a cycle guarded. -/
theorem mode_of_walk (h : Reading.Complete source declarations metadata)
    {visited : List Visit × Registry}
    (hwalk : walk metadata metadata.cyclic (guarded mode metadata.cyclic)
      (declarations.map Declaration.reference) = some visited) :
    mode = .expandOnce ∨ source.Acyclic declarations := by
  cases mode with
  | expandOnce => exact Or.inl rfl
  | reexpand =>
    unfold walk at hwalk
    split at hwalk
    · exact Or.inr (acyclic_of_run h hwalk)
    · cases hwalk

/-- An expansion that ends with a registry has read all that can be reached, and has followed the
references from the declared roles to their end, with the roles on a cycle treated once. -/
theorem exists_of_outcome_ok [DecidablePred source.references.OnCycle] {registry : Registry}
    (h : (run source limit mode declarations).outcome = some (.ok registry)) :
    ∃ metadata followed,
      Reading.Ends source (names (declarations.map Declaration.reference)) .empty
        (run source limit mode declarations).asked (.ok metadata) ∧
      (mode = .expandOnce ∨ source.Acyclic declarations) ∧
      Follows source.references source.references.OnCycle []
        (declarations.map Declaration.reference) followed ∧
      registry = Registry.ofFollowed source.references followed := by
  cases hread : (Reading.run source limit (declarations.map Declaration.reference)).outcome with
  | none => simp [run, runWith, hread] at h
  | some result =>
    cases result with
    | error e => simp [outcome_of_read_error hread] at h
    | ok metadata =>
      have hends := Reading.ends_of_run hread
      have hmode : mode = .expandOnce ∨ source.Acyclic declarations := by
        rw [outcome_of_read_ok hread, Option.map_eq_some_iff] at h
        obtain ⟨visited, hwalk, _⟩ := h
        exact mode_of_walk (Reading.complete_of_ends hends) hwalk
      have hlimit := Reading.length_asked_le source limit
        (names (declarations.map Declaration.reference)) .empty
      obtain ⟨followed, hfollows, houtcome⟩ := outcome_of_ends hends hmode hlimit
      rw [h] at houtcome
      rw [asked_run]
      exact ⟨metadata, followed, hends, hmode, hfollows,
        Except.ok.inj (Option.some.inj houtcome)⟩

/-- An expansion that ends with a registry holds exactly the roles that can be reached, and all of them
can be read. -/
theorem closure_of_outcome_ok {registry : Registry}
    (h : (run source limit mode declarations).outcome = some (.ok registry)) :
    registry.keys.Nodup ∧ (∀ n, n ∈ registry.keys ↔ source.Reaches declarations n) ∧
      ∀ n, source.Reaches declarations n → source.Readable n := by
  classical
  obtain ⟨metadata, followed, hends, _, hfollows, rfl⟩ := exists_of_outcome_ok h
  have hcomplete := Reading.complete_of_ends hends
  refine ⟨Table.nodup_keys_ofList _, fun n => ?_, fun n hn =>
    hcomplete.readable n ((hcomplete.mem_keys_iff n).mpr hn)⟩
  rw [Registry.mem_keys_ofFollowed]
  exact hfollows.mem_names_iff n

/-- A role of an expansion stands under its name. -/
theorem name_of_get? {registry : Registry} {name : String} {role : Role}
    (h : (run source limit mode declarations).outcome = some (.ok registry))
    (hrole : registry.get? name = some role) : role.name = name := by
  classical
  obtain ⟨_, _, _, _, _, rfl⟩ := exists_of_outcome_ok h
  exact (Registry.eq_follow_of_get? hrole).1

/-! ## The closure -/

/-- **The registry is the closure of the declared roles.** Every role that can be reached is a key
and no other name is, each once; under a name stands the role of that name with the references that
the source declares for it, in order and each with its own mark. A reference is a name with a mark
and has no dependencies of its own. -/
theorem registry_eq_closure (source : Source) (declarations : List Declaration)
    (mode : ExpansionMode) (limit : Nat)
    (hfin : {n | source.Reaches declarations n}.Finite)
    (hread : ∀ n, source.Reaches declarations n → source.Readable n)
    (hmode : mode = .expandOnce ∨ source.Acyclic declarations)
    (hlimit : {n | source.Reaches declarations n}.ncard ≤ limit) :
    ∃ registry : Registry,
      (run source limit mode declarations).outcome = some (.ok registry) ∧
      registry.keys.Nodup ∧
      (∀ n, n ∈ registry.keys ↔ source.Reaches declarations n) ∧
      ∀ n role, registry.get? n = some role →
        role.name = n ∧ role.dependencies = (source.declared n).map Declaration.reference := by
  classical
  obtain ⟨followed, hfollows, houtcome⟩ := exists_outcome hfin hread hmode hlimit
  refine ⟨_, houtcome, Table.nodup_keys_ofList _, fun n => ?_,
    fun n role h => Registry.eq_follow_of_get? h⟩
  rw [Registry.mem_keys_ofFollowed]
  exact hfollows.mem_names_iff n

/-- Two roles that depend on each other, and a third one under a condition. -/
def ring : Table (List Declaration) :=
  .ofList [("app", [.bare "db", .mapping "cache" true]), ("db", [.bare "app"])]

theorem registry_eq_closure_ring :
    ∃ registry : Registry,
      (run (Metadata.ofTable ring) 4 .expandOnce [.bare "app"]).outcome = some (.ok registry) ∧
      registry.keys.Nodup ∧
      (∀ n, n ∈ registry.keys ↔ (Metadata.ofTable ring).Reaches [.bare "app"] n) ∧
      ∀ n role, registry.get? n = some role →
        role.name = n ∧
          role.dependencies = ((Metadata.ofTable ring).declared n).map Declaration.reference :=
  registry_eq_closure (Metadata.ofTable ring) [.bare "app"] .expandOnce 4
    (Metadata.finite_reaches_ofTable ring _) (fun n _ => Metadata.readable_ofTable ring n)
    (Or.inl rfl) ((Metadata.ncard_reaches_ofTable ring _).trans (by decide))

/-! ## The end of both loops -/

/-- A role on a cycle of the source lets its references join the queue at most once. -/
theorem expansions_le_one (h : Reading.Complete source declarations metadata)
    {followed : List Reference}
    (hfollows : Follows metadata.references (metadata.cyclic.contains · = true) []
      (declarations.map Declaration.reference) followed)
    {name : String} (hname : source.references.OnCycle name) :
    Walk.expansions name (Walk.visitsOf metadata metadata.cyclic.contains [] followed) ≤ 1 := by
  classical
  by_cases hmem : name ∈ names followed
  · have hreached := ((follows_source h hfollows).1.mem_names_iff name).mp hmem
    have hguarded : metadata.cyclic.contains name = true :=
      List.contains_iff_mem.mpr ((h.mem_cyclic_iff_onCycle hreached).mpr hname)
    rw [Walk.expansions_visitsOf hguarded, if_neg (by simp), if_pos hmem]
  · rw [Walk.expansions_eq_zero hmem []]
    exact Nat.zero_le 1

/-- **In the mode `expandOnce` both loops end.** The loop that reads comes to its end, and asks for
no more names than can be reached; it fails only at a role that can be reached and cannot be read,
and then the expansion fails so. Otherwise the walk comes to its end after finitely many visits, the
expansion has its registry, and each role on a cycle let its references join the queue at most
once. -/
theorem expandOnce_ends (source : Source) (declarations : List Declaration)
    (hfin : {n | source.Reaches declarations n}.Finite) :
    ∃ asked result,
      Reading.Ends source (names (declarations.map Declaration.reference)) .empty asked result ∧
      asked.length ≤ {n | source.Reaches declarations n}.ncard ∧
      (∀ limit, asked.length ≤ limit →
        (Reading.run source limit (declarations.map Declaration.reference)).outcome =
          some result) ∧
      (∀ e, result = .error e →
        (∃ n, source.Reaches declarations n ∧ (source n).outcome = .error e) ∧
        ∀ limit, asked.length ≤ limit →
          (run source limit .expandOnce declarations).outcome = some (.error e)) ∧
      ∀ metadata, result = .ok metadata →
        ∃ visits registry,
          (∀ limit, visits.length ≤ limit →
            Walk.run metadata metadata.cyclic.contains limit
              (declarations.map Declaration.reference) .empty = some (visits, registry)) ∧
          (∀ limit, asked.length ≤ limit →
            (run source limit .expandOnce declarations).outcome = some (.ok registry)) ∧
          ∀ name, source.references.OnCycle name → Walk.expansions name visits ≤ 1 := by
  obtain ⟨asked, result, hends, hlen⟩ := Reading.exists_ends hfin
  have hread : ∀ limit, asked.length ≤ limit →
      (Reading.run source limit (declarations.map Declaration.reference)).outcome = some result :=
    fun limit hl => (Reading.run_of_ends hends hl).2
  refine ⟨asked, result, hends, hlen, hread, ?_, ?_⟩
  · rintro e rfl
    obtain ⟨n, hn, he⟩ := hends.error_of_asked
    refine ⟨⟨n, hends.reaches_of_asked hn, he⟩, fun limit hl => ?_⟩
    exact outcome_of_read_error (hread limit hl)
  · rintro metadata rfl
    obtain ⟨followed, hfollows, hwalk⟩ :=
      exists_walk metadata (declarations.map Declaration.reference)
    refine ⟨Walk.visitsOf metadata metadata.cyclic.contains [] followed,
      Registry.ofFollowed metadata.references followed, fun limit hl => ?_, fun limit hl => ?_,
      fun name hname => ?_⟩
    · rw [Walk.length_visitsOf] at hl
      exact Walk.run_eq_some_iff.mpr ⟨followed, hfollows, hl, rfl, rfl⟩
    · rw [outcome_of_read_ok (hread limit hl), guarded, hwalk]
      rfl
    · exact expansions_le_one (Reading.complete_of_ends hends) hfollows hname

theorem expandOnce_ends_ring :
    ∃ asked result,
      Reading.Ends (Metadata.ofTable ring) ["app", "db"] .empty asked result ∧
      asked.length ≤ {n | (Metadata.ofTable ring).Reaches [.bare "app", .bare "db"] n}.ncard ∧
      (∀ limit, asked.length ≤ limit →
        (Reading.run (Metadata.ofTable ring) limit [⟨"app", false⟩, ⟨"db", false⟩]).outcome =
          some result) ∧
      (∀ e, result = .error e →
        (∃ n, (Metadata.ofTable ring).Reaches [.bare "app", .bare "db"] n ∧
          (Metadata.ofTable ring n).outcome = .error e) ∧
        ∀ limit, asked.length ≤ limit →
          (run (Metadata.ofTable ring) limit .expandOnce [.bare "app", .bare "db"]).outcome =
            some (.error e)) ∧
      ∀ metadata, result = .ok metadata →
        ∃ visits registry,
          (∀ limit, visits.length ≤ limit →
            Walk.run metadata metadata.cyclic.contains limit
              [⟨"app", false⟩, ⟨"db", false⟩] .empty = some (visits, registry)) ∧
          (∀ limit, asked.length ≤ limit →
            (run (Metadata.ofTable ring) limit .expandOnce [.bare "app", .bare "db"]).outcome =
              some (.ok registry)) ∧
          ∀ name, (Metadata.ofTable ring).references.OnCycle name →
            Walk.expansions name visits ≤ 1 :=
  expandOnce_ends (Metadata.ofTable ring) [.bare "app", .bare "db"]
    (Metadata.finite_reaches_ofTable ring _)

/-- A limit that admits all names that can be reached does not cut the expansion short. -/
theorem isSome_outcome (hfin : {n | source.Reaches declarations n}.Finite)
    (hlimit : {n | source.Reaches declarations n}.ncard ≤ limit) :
    (run source limit .expandOnce declarations).outcome.isSome := by
  classical
  obtain ⟨asked, result, hends, hlen⟩ := Reading.exists_ends hfin
  have hasked : asked.length ≤ limit := hlen.trans hlimit
  cases result with
  | error e =>
    rw [outcome_of_read_error (Reading.run_of_ends hends hasked).2]
    rfl
  | ok metadata =>
    obtain ⟨followed, _, houtcome⟩ := outcome_of_ends hends (Or.inl rfl) hasked
    rw [houtcome]
    rfl

theorem isSome_outcome_ofTable (table : Table (List Declaration))
    (declarations : List Declaration) : (ofTable table .expandOnce declarations).outcome.isSome :=
  isSome_outcome (Metadata.finite_reaches_ofTable table declarations)
    (Metadata.ncard_reaches_ofTable table declarations)

theorem isSome_outcome_ofDirectory (reader : Yaml.Reader) (disk : Disk) (root : Path)
    (declarations : List Declaration) :
    (ofDirectory reader disk root .expandOnce declarations).outcome.isSome :=
  isSome_outcome (Metadata.finite_reaches_ofDirectory reader disk root declarations)
    (Metadata.ncard_reaches_ofDirectory reader disk root declarations)

end Expansion

end RoleChart
