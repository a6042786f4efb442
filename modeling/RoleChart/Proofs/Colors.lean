import RoleChart.Listing
import RoleChart.Proofs.Styles
/-!
Where the picture and the listing of a registry can tell a role apart. The listing goes by the mark
that the registry keeps, which is that of the reference followed last. The picture goes by the last
mention in a pass over the registry. Where no role at or after a role lists it, the last mention is the
entry of the role itself (`Drawing.findRev?_drawn_or_listed`); elsewhere it is a reference of another
role, which may carry another mark.

* `color_of_contested_role`: the colour of a node differs from that of its entry only if the role is
  referred to both with and without a condition, and a role at or after it in the registry lists it.
-/
namespace RoleChart

open References (names)

theorem Reference.ext_of_name_eq {r r' : Reference} (hname : r.name = r'.name)
    (hmark : r.optional = r'.optional) : r = r' := by
  cases r
  cases r'
  cases hname
  cases hmark
  rfl

namespace Drawing

/-! ## The mention drawn last -/

theorem drawn_append (front rest : List Role) : drawn (front ++ rest) = drawn front ++ drawn rest :=
  List.flatMap_append

/-- The last mention of a role is its own entry, unless a role from there on lists it. -/
theorem findRev?_drawn_or_listed (before : List Role) {after : List Role} {role : Role}
    (hafter : ∀ other ∈ after, other.name ≠ role.name) :
    (drawn (before ++ role :: after)).findRev? (·.name = role.name) = some role.reference ∨
      ∃ dependent ∈ role :: after, role.name ∈ dependent.dependencyNames := by
  by_cases hlisted : ∃ dependent ∈ role :: after, role.name ∈ dependent.dependencyNames
  · exact Or.inr hlisted
  · refine Or.inl ?_
    have hnone : (role.dependencies ++ drawn after).findRev? (·.name = role.name) = none := by
      rw [findRev?_eq_none_iff]
      intro r hr hname
      have hname : r.name = role.name := of_decide_eq_true hname
      rcases List.mem_append.mp hr with hr | hr
      · exact hlisted ⟨role, List.mem_cons_self, hname ▸ List.mem_map_of_mem hr⟩
      · obtain ⟨other, hother, rfl | hr⟩ := mem_drawn_iff.mp hr
        · exact hafter other hother hname
        · exact hlisted ⟨other, List.mem_cons_of_mem role hother, hname ▸ List.mem_map_of_mem hr⟩
    have hsplit : drawn (before ++ role :: after) =
        drawn before ++ [role.reference] ++ (role.dependencies ++ drawn after) := by
      rw [drawn_append, List.append_assoc]
      rfl
    have hself : [role.reference].findRev? (·.name = role.name) = some role.reference := by
      simp [List.findRev?_eq_find?_reverse, Role.reference]
    rw [hsplit, findRev?_append, hnone, Option.none_or, findRev?_append, hself, Option.some_or]

/-- The colour of the node of a reference. -/
theorem get?_fillcolor {d : Drawing} (hhighlight : d.highlight = true) (catalog : Catalog)
    (r : Reference) :
    (d.referenceAttributes catalog r).get? "fillcolor" = some (r.fillColor catalog) := by
  rw [referenceAttributes, if_pos hhighlight]
  exact Table.get?_set_self _ "fillcolor" _

/-- A role of an expansion stands at one place, and no role behind it has its name. -/
theorem exists_values_eq {source : Source} {declarations : List Declaration}
    {mode : ExpansionMode} {limit : Nat} {registry : Registry} {name : String} {role : Role}
    (h : (Expansion.run source limit mode declarations).outcome = some (.ok registry))
    (hrole : registry.get? name = some role) :
    ∃ before after, registry.values = before ++ role :: after ∧
      ∀ other ∈ after, other.name ≠ name := by
  have hnodup := (Expansion.closure_of_outcome_ok h).1
  obtain ⟨before, after, hentries, hafter⟩ := Table.exists_entries_eq hnodup hrole
  refine ⟨before.map (·.2), after.map (·.2), ?_, fun other hother hname => ?_⟩
  · rw [Table.values, hentries, List.map_append, List.map_cons]
  · obtain ⟨entry, hentry, rfl⟩ := List.mem_map.mp hother
    have hmem : entry ∈ registry.entries := by
      rw [hentries]
      exact List.mem_append_right _ (List.mem_cons_of_mem _ hentry)
    have hkey := Expansion.name_of_get? h (Table.get?_of_mem_entries hnodup hmem)
    rw [← hname, hkey] at hafter
    exact hafter (List.mem_map_of_mem hentry)

/-! ## The mark that is listed -/

/-- A service is listed with its mark. -/
theorem text_mem_serviceListing {registry : Registry} {catalog : Catalog} {role : Role}
    (hrole : role ∈ registry.values) (hservice : catalog.contains role.name = true) :
    role.text ∈ Registry.serviceListing registry catalog := by
  unfold Registry.serviceListing Registry.services
  refine List.mem_map_of_mem (List.mem_mergeSort.mpr ?_)
  exact List.mem_filter.mpr ⟨hrole, hservice⟩

/-- **The picture and the listing disagree about contested roles only.** In the graph of an expansion
the node of a role has a colour. If this is not the colour of the role in the registry, the mark of
which the listing shows, then the role is referred to both with and without a condition, and a role
that stands at its place in the registry or behind it lists it as a dependency. Where all references to
a role carry one mark, so do its entry, its line in the listing and its colour. -/
theorem color_of_contested_role (source : Source) (declarations : List Declaration)
    (mode : ExpansionMode) (limit : Nat) (registry : Registry) (catalog : Catalog) (d : Drawing)
    (name : String) (role : Role) (hhighlight : d.highlight = true)
    (h : (Expansion.run source limit mode declarations).outcome = some (.ok registry))
    (hrole : registry.get? name = some role) :
    ∃ color before after,
      (d.graph catalog registry).attribute? name "fillcolor" = some color ∧
      registry.values = before ++ role :: after ∧
      (color ≠ role.reference.fillColor catalog →
        source.Makes declarations ⟨name, true⟩ ∧ source.Makes declarations ⟨name, false⟩ ∧
        ∃ dependent ∈ role :: after, name ∈ dependent.dependencyNames) ∧
      ∀ mark, (∀ r, source.Makes declarations r → r.name = name → r.optional = mark) →
        role.optional = mark ∧
        color = Reference.fillColor catalog ⟨name, mark⟩ ∧
        role.text = Reference.text ⟨name, mark⟩ ∧
        (catalog.contains name = true →
          Reference.text ⟨name, mark⟩ ∈ Registry.serviceListing registry catalog) := by
  have hname : role.name = name := Expansion.name_of_get? h hrole
  subst hname
  have hkey : role.name ∈ registry.keys := (registry.get?_isSome_iff _).mp (hrole ▸ rfl)
  have hmem : role ∈ registry.values :=
    (Table.mem_values_iff (Expansion.closure_of_outcome_ok h).1 role).mpr ⟨role.name, hrole⟩
  have hentry : source.Makes declarations role.reference :=
    makes_of_mem_drawn h (mem_drawn_iff.mpr ⟨role, hmem, Or.inl rfl⟩)
  obtain ⟨before, after, hvalues, hafter⟩ := exists_values_eq h hrole
  obtain ⟨r, hlast, hrname, hmakes, hnode⟩ := d.exists_last_drawn catalog h hkey
  have hself : r = role.reference ∨
      ∃ dependent ∈ role :: after, role.name ∈ dependent.dependencyNames := by
    have hor := findRev?_drawn_or_listed before hafter
    rw [← hvalues, hlast] at hor
    exact hor.imp_left Option.some.inj
  refine ⟨r.fillColor catalog, before, after, ?_, hvalues, fun hcolor => ?_, fun mark hmark => ?_⟩
  · rw [Graph.attribute?, hnode]
    exact get?_fillcolor hhighlight catalog r
  · have hne : r ≠ role.reference := fun heq => hcolor (heq ▸ rfl)
    have hmarks : r.optional ≠ role.optional := fun hmark =>
      hne (Reference.ext_of_name_eq hrname hmark)
    -- The two marks differ, so between them they are both marks that there are.
    have hboth : ∀ mark, source.Makes declarations ⟨role.name, mark⟩ := by
      intro mark
      by_cases hmark : mark = role.optional
      · exact hmark ▸ hentry
      · have hother : mark = r.optional := by
          revert hmark hmarks
          cases mark <;> cases r.optional <;> cases role.optional <;> simp
        rw [hother, ← hrname]
        exact hmakes
    exact ⟨hboth true, hboth false, hself.resolve_left hne⟩
  · have hrole' : role.optional = mark := hmark role.reference hentry rfl
    have hr : r = ⟨role.name, mark⟩ := Reference.ext_of_name_eq hrname (hmark r hmakes hrname)
    have htext : role.text = Reference.text ⟨role.name, mark⟩ := by
      rw [← hrole']
      rfl
    refine ⟨hrole', by rw [hr], htext, fun hservice => ?_⟩
    rw [← htext]
    exact text_mem_serviceListing hmem hservice

/-- Two roles with a third one in common, one of them under a condition; the other one depends on the
first. -/
def relayed : Table (List Declaration) :=
  .ofList [("app", [.mapping "db" true]), ("web", [.bare "db", .bare "app"])]

theorem color_of_contested_role_relayed :
    ∃ registry role,
      (Expansion.run (Metadata.ofTable relayed) 6 .expandOnce
        [.bare "db", .bare "app", .bare "web"]).outcome = some (.ok registry) ∧
      registry.get? "db" = some role ∧
      ∃ color before after,
        (highlighted.graph ⟨["db"]⟩ registry).attribute? "db" "fillcolor" = some color ∧
        registry.values = before ++ role :: after ∧
        (color ≠ role.reference.fillColor ⟨["db"]⟩ →
          (Metadata.ofTable relayed).Makes [.bare "db", .bare "app", .bare "web"] ⟨"db", true⟩ ∧
          (Metadata.ofTable relayed).Makes [.bare "db", .bare "app", .bare "web"] ⟨"db", false⟩ ∧
          ∃ dependent ∈ role :: after, "db" ∈ dependent.dependencyNames) ∧
        ∀ mark,
          (∀ r, (Metadata.ofTable relayed).Makes [.bare "db", .bare "app", .bare "web"] r →
            r.name = "db" → r.optional = mark) →
          role.optional = mark ∧
          color = Reference.fillColor ⟨["db"]⟩ ⟨"db", mark⟩ ∧
          role.text = Reference.text ⟨"db", mark⟩ ∧
          ((⟨["db"]⟩ : Catalog).contains "db" = true →
            Reference.text ⟨"db", mark⟩ ∈ Registry.serviceListing registry ⟨["db"]⟩) :=
  ⟨.ofList [("db", ⟨"db", true, []⟩), ("app", ⟨"app", false, [⟨"db", true⟩]⟩),
      ("web", ⟨"web", false, [⟨"db", false⟩, ⟨"app", false⟩]⟩)], ⟨"db", true, []⟩, rfl, rfl,
    color_of_contested_role (Metadata.ofTable relayed) [.bare "db", .bare "app", .bare "web"]
      .expandOnce 6 _ ⟨["db"]⟩ highlighted "db" _ rfl rfl rfl⟩

-- The mark that `db` keeps is that of `app`, which is followed again after `web`; the picture shows
-- the reference of `web`.
example :
    (highlighted.graph ⟨["db"]⟩ (.ofList [("db", ⟨"db", true, []⟩),
      ("app", ⟨"app", false, [⟨"db", true⟩]⟩),
      ("web", ⟨"web", false, [⟨"db", false⟩, ⟨"app", false⟩]⟩)])).attribute? "db" "fillcolor" =
    some serviceColor := by decide

end Drawing

end RoleChart
