import RoleChart.Proofs.Distance
import RoleChart.Proofs.PlainWalk
/-!
The order of a registry. The loop that reads asks for each name once; the walk follows the references
of a role again whenever the role comes up, cycles apart. Yet both come upon the names in the same
order: when a role comes up again, all that it refers to was followed before or waits ahead
(`Beside`), so what it lets join the queue brings up no name earlier than the loop that reads meets
it (`exists_ends_of_follows`).

* `asked_eq_keys`: where an expansion succeeds, the names asked for are the keys of the registry, in
  order: every role that can be reached, once, and none closer to the declared roles than one before
  it.
-/
namespace RoleChart

open References (names joining Follows)

namespace Source

/-- The length of a shortest chain of dependencies from a declared role to a role. -/
noncomputable def distance (source : Source) (declarations : List Declaration) (name : String) :
    Nat :=
  source.references.distance (declarations.map Declaration.reference) name

end Source

namespace Expansion

variable {source : Source} {declarations : List Declaration} {mode : ExpansionMode} {limit : Nat}

/-- Reading beside a walk meets the names in the order in which they are first followed, whatever the
walk holds back. -/
theorem exists_ends_of_follows {once : String → Prop} [DecidablePred once]
    {earlier queue followed : List Reference} {known : Resolved}
    (h : Follows source.references once earlier queue followed) (hbeside : Beside source queue known)
    (hkeys : known.keys = (names earlier).eraseDups)
    (hread : ∀ r ∈ followed, source.Readable r.name) :
    ∃ asked metadata, Reading.Ends source (names queue) known asked (.ok metadata) ∧
      metadata.keys = (names (earlier ++ followed)).eraseDups := by
  induction h generalizing known with
  | done earlier => exact ⟨[], known, .done known, by rw [hkeys, List.append_nil]⟩
  | @next earlier rest followed r _ ih =>
    obtain ⟨⟨answer, ha⟩, hreadrest⟩ := List.forall_mem_cons.mp hread
    have hmem : r.name ∈ known.keys ↔ r.name ∈ names earlier := by
      rw [hkeys, List.mem_eraseDups]
    have hconcat : (names (earlier ++ [r])).eraseDups =
        if r.name ∈ names earlier then known.keys else known.keys ++ [r.name] := by
      rw [References.names_append, hkeys]
      exact eraseDups_concat (names earlier) r.name
    have hfollowed : earlier ++ r :: followed = earlier ++ [r] ++ followed := by
      rw [List.append_assoc, List.singleton_append]
    rw [hfollowed]
    by_cases hname : r.name ∈ known.keys
    · -- What joins the queue again was read or waits ahead, so reading passes it over.
      have hpassed := hbeside.pass hname
      rw [if_pos (hmem.mp hname)] at hconcat
      obtain ⟨asked, metadata, hends, hmetadata⟩ := ih (hpassed.join _) hconcat.symm hreadrest
      refine ⟨asked, metadata, .passed hname ?_, hmetadata⟩
      have hstale : ∀ n ∈ names (joining source.references once earlier r),
          n ∈ known.keys ∨ n ∈ names rest := by
        intro n hn
        obtain ⟨s, hs, rfl⟩ := List.mem_map.mp hn
        exact hpassed.ahead r.name hname s (References.mem_refs_of_mem_joining hs)
      have hdropped : Reading.Ends source (names rest ++ []) known asked (.ok metadata) :=
        hends.drop_stale (by rw [List.append_nil, References.names_append]) hstale
      rwa [List.append_nil] at hdropped
    · have hnew : r.name ∉ names earlier := mt hmem.mpr hname
      have hrefs := Source.references_of_ok ha
      have hjoining : joining source.references once earlier r = Reading.referencesOf answer := by
        rw [joining, if_neg fun h => hnew h.2, hrefs]
      rw [if_neg hnew] at hconcat
      rw [hjoining] at ih
      have hread := hbeside.read ⟨answer, ha⟩ (Reading.referencesOf answer)
      rw [hrefs] at hread
      obtain ⟨asked, metadata, hends, hmetadata⟩ :=
        ih hread (by rw [Table.keys_set, if_neg hname, hconcat]) hreadrest
      rw [References.names_append] at hends
      exact ⟨r.name :: asked, metadata, .read hname ha hends, hmetadata⟩

/-- **The names are asked for in the order of the registry.** Where an expansion succeeds, the names
that the source was asked for are the keys of the registry, in order. They are the roles that can be
reached, each once, and along them the distance from the declared roles never decreases. -/
theorem asked_eq_keys (source : Source) (declarations : List Declaration) (mode : ExpansionMode)
    (limit : Nat) (registry : Registry)
    (h : (run source limit mode declarations).outcome = some (.ok registry)) :
    (run source limit mode declarations).asked = registry.keys ∧
    registry.keys.Nodup ∧
    (∀ n, n ∈ registry.keys ↔ source.Reaches declarations n) ∧
    registry.keys.Pairwise
      fun m n => source.distance declarations m ≤ source.distance declarations n := by
  classical
  obtain ⟨metadata, followed, hends, _, hfollows, rfl⟩ := exists_of_outcome_ok h
  have hcomplete := Reading.complete_of_ends hends
  have hread : ∀ r ∈ followed, source.Readable r.name := fun r hr =>
    hcomplete.readable r.name ((hcomplete.mem_keys_iff r.name).mpr (hfollows.reaches hr))
  obtain ⟨asked, metadata', hends', hkeys⟩ :=
    exists_ends_of_follows hfollows (Beside.empty source _) rfl hread
  have hasked : (run source limit mode declarations).asked = (names followed).eraseDups := by
    rw [(hends.unique hends').1]
    exact hends'.keys_eq.symm.trans hkeys
  rw [Registry.keys_ofFollowed, hasked]
  refine ⟨rfl, nodup_eraseDups _, fun n => ?_, hfollows.pairwise_distance⟩
  rw [List.mem_eraseDups]
  exact hfollows.mem_names_iff n

theorem asked_eq_keys_ring :
    ∃ registry : Registry,
      (run (Metadata.ofTable ring) 4 .expandOnce [.bare "app"]).outcome = some (.ok registry) ∧
      (run (Metadata.ofTable ring) 4 .expandOnce [.bare "app"]).asked = registry.keys ∧
      registry.keys.Nodup ∧
      (∀ n, n ∈ registry.keys ↔ (Metadata.ofTable ring).Reaches [.bare "app"] n) ∧
      registry.keys.Pairwise fun m n =>
        (Metadata.ofTable ring).distance [.bare "app"] m ≤
          (Metadata.ofTable ring).distance [.bare "app"] n :=
  ⟨.ofList [("app", ⟨"app", false, [⟨"db", false⟩, ⟨"cache", true⟩]⟩),
      ("db", ⟨"db", false, [⟨"app", false⟩]⟩), ("cache", ⟨"cache", true, []⟩)], rfl,
    asked_eq_keys (Metadata.ofTable ring) [.bare "app"] .expandOnce 4 _ rfl⟩

end Expansion

end RoleChart
