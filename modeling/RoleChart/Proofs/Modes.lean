import RoleChart.Proofs.PlainWalk
/-!
The two modes. They differ in the roles that the walk guards: the mode `expandOnce` guards those on a
cycle, the mode `reexpand` none. Where no role that can be reached depends on itself, no role is found
to lie on a cycle (`Reading.Complete.cyclic_eq_nil_iff`), so both walks are one and the same.

* `modes_agree`: over metadata without cycles the walk that guards nothing comes to its end, and both
  modes give the registry that it fills.

A plain walk that ends shows that there are no cycles (`acyclic_of_plainWalk`).
-/
namespace RoleChart

namespace Expansion

variable {source : Source} {declarations : List Declaration}

theorem acyclic_of_plainWalk {pops : Nat} {registry : Registry}
    (h : plainWalk source pops (declarations.map Declaration.reference) .empty =
      some (.ok registry)) :
    source.Acyclic declarations := by
  have hempty : (Table.empty : Registry) = Registry.ofFollowed source.references [] := rfl
  obtain ⟨followed, hfollows, _⟩ := exists_follows_of_plainWalk h hempty
  exact hfollows.acyclic

/-- **Both modes give one registry where there are no cycles.** Reading succeeds and finds no role on
a cycle. The walk of the mode `reexpand`, which guards nothing, comes to its end after finitely many
visits, and an expansion in either mode ends with the registry that this walk fills: the same keys in
the same order, with the same marks and the same dependencies. -/
theorem modes_agree (source : Source) (declarations : List Declaration) (limit : Nat)
    (hfin : {n | source.Reaches declarations n}.Finite)
    (hread : ∀ n, source.Reaches declarations n → source.Readable n)
    (hacyclic : source.Acyclic declarations)
    (hlimit : {n | source.Reaches declarations n}.ncard ≤ limit) :
    ∃ (metadata : Resolved) (visits : List Visit) (registry : Registry),
      (Reading.run source limit (declarations.map Declaration.reference)).outcome =
        some (.ok metadata) ∧
      metadata.cyclic = [] ∧
      (∀ steps, visits.length ≤ steps →
        Walk.run metadata (guarded .reexpand metadata.cyclic).contains steps
          (declarations.map Declaration.reference) .empty = some (visits, registry)) ∧
      (run source limit .reexpand declarations).outcome = some (.ok registry) ∧
      (run source limit .expandOnce declarations).outcome = some (.ok registry) := by
  obtain ⟨asked, metadata, hends, hlen⟩ := Reading.exists_complete hfin hread
  have hcomplete : Reading.Complete source declarations metadata := Reading.complete_of_ends hends
  have hreading := (Reading.run_of_ends hends (hlen.trans hlimit)).2
  obtain ⟨followed, hfollows, hwalk⟩ :=
    exists_walk metadata (declarations.map Declaration.reference)
  have hguards : ∀ mode, guarded mode metadata.cyclic = metadata.cyclic := fun mode =>
    guarded_eq_cyclic hcomplete (Or.inr hacyclic)
  have houtcome : ∀ mode, (run source limit mode declarations).outcome =
      some (.ok (Registry.ofFollowed metadata.references followed)) := by
    intro mode
    rw [outcome_of_read_ok hreading, hguards, hwalk]
    rfl
  refine ⟨metadata, Walk.visitsOf metadata metadata.cyclic.contains [] followed, _, hreading,
    hcomplete.cyclic_eq_nil_iff.mpr hacyclic, fun steps hsteps => ?_, houtcome _, houtcome _⟩
  rw [Walk.length_visitsOf] at hsteps
  rw [hguards]
  exact Walk.run_eq_some_iff.mpr ⟨followed, hfollows, hsteps, rfl, rfl⟩

theorem modes_agree_shared :
    ∃ (metadata : Resolved) (visits : List Visit) (registry : Registry),
      (Reading.run (Metadata.ofTable shared) 4 [⟨"app", false⟩]).outcome = some (.ok metadata) ∧
      metadata.cyclic = [] ∧
      (∀ steps, visits.length ≤ steps →
        Walk.run metadata (guarded .reexpand metadata.cyclic).contains steps
          [⟨"app", false⟩] .empty = some (visits, registry)) ∧
      (run (Metadata.ofTable shared) 4 .reexpand [.bare "app"]).outcome = some (.ok registry) ∧
      (run (Metadata.ofTable shared) 4 .expandOnce [.bare "app"]).outcome = some (.ok registry) := by
  have hacyclic : (Metadata.ofTable shared).Acyclic [.bare "app"] :=
    acyclic_of_plainWalk (show plainWalk (Metadata.ofTable shared) 4 [⟨"app", false⟩] .empty =
      some (.ok _) from rfl)
  exact modes_agree (Metadata.ofTable shared) [.bare "app"] 4
    (Metadata.finite_reaches_ofTable shared _) (fun n _ => Metadata.readable_ofTable shared n)
    hacyclic ((Metadata.ncard_reaches_ofTable shared _).trans (by decide))

end Expansion

end RoleChart
