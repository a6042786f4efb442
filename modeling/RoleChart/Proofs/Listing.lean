import RoleChart.Listing
import RoleChart.Proofs.ByteOrder
import RoleChart.Proofs.Expansion
/-!
The services of a registry. Sorted by names of which none stands twice, roles stand in strictly
increasing order (`mergeSort_pairwise_lt`), and in that order a list is determined by its entries
(`eq_of_pairwise_lt`). So a listing is determined by which roles there are and which names count: neither
the order of the registry nor that of the names shows (`Registry.services_by_name`). The order of the
names is that of their bytes (`Text.bytes_lt_bytes_iff`), and not that of the lines of the listing.
-/
namespace RoleChart

/-! ## Lists that increase by a key -/

section

variable {α : Type} (key : α → String)

/-- Where no key stands twice, what is sorted by the keys increases strictly. -/
theorem mergeSort_pairwise_lt {list : List α} (h : (list.map key).Nodup) :
    (list.mergeSort fun a b => key a ≤ key b).Pairwise fun a b => key a < key b := by
  have hle : (list.mergeSort fun a b => key a ≤ key b).Pairwise
      fun a b => decide (key a ≤ key b) = true := by
    apply List.pairwise_mergeSort
    · intro a b c hab hbc
      exact decide_eq_true (le_trans (of_decide_eq_true hab) (of_decide_eq_true hbc))
    · intro a b
      simpa using le_total (key a) (key b)
  have hperm : (list.mergeSort fun a b => key a ≤ key b).Perm list := List.mergeSort_perm _ _
  have hne : (list.mergeSort fun a b => key a ≤ key b).Pairwise fun a b => key a ≠ key b :=
    List.pairwise_map.mp ((hperm.map key).nodup_iff.mpr h)
  exact (hle.and hne).imp fun hboth => lt_of_le_of_ne (of_decide_eq_true hboth.1) hboth.2

/-- Lists that increase strictly are equal if they have the same entries. -/
theorem eq_of_pairwise_lt {list list' : List α} (h : list.Pairwise fun a b => key a < key b)
    (h' : list'.Pairwise fun a b => key a < key b) (hmem : ∀ a, a ∈ list ↔ a ∈ list') :
    list = list' := by
  have hirrefl : Std.Irrefl fun a b => key a < key b := ⟨fun a => lt_irrefl (key a)⟩
  have hantisymm : Std.Antisymm fun a b => key a < key b :=
    ⟨fun a b hab hba => absurd hba (lt_asymm hab)⟩
  exact h.eq_of_mem_iff h' hmem

end

/-! ## Catalogs -/

namespace Catalog

theorem contains_ofList_iff {names : List String} {name : String} :
    (ofList names).contains name = true ↔ name ∈ names := by
  unfold contains
  rw [List.contains_iff_mem, mem_names_ofList]

/-- A catalog is the set of its names: neither their order shows nor how often each stands. -/
theorem ofList_congr {names names' : List String} (h : ∀ name, name ∈ names ↔ name ∈ names') :
    ofList names = ofList names' := by
  have hsorted (names : List String) : (ofList names).names.Pairwise fun a b => id a < id b := by
    refine mergeSort_pairwise_lt id ?_
    rw [List.map_id]
    exact nodup_eraseDups names
  have hmem (name : String) : name ∈ (ofList names).names ↔ name ∈ (ofList names').names := by
    rw [mem_names_ofList, mem_names_ofList, h]
  exact congrArg Catalog.mk (eq_of_pairwise_lt id (hsorted names) (hsorted names') hmem)

/-- A YAML list of names gives the catalog of the names. -/
theorem ofValue_names (names : List String) :
    ofValue (.sequence (names.map .string)) = .ok (ofList names) := by
  have hnames : (names.map Yaml.Value.string).mapM nameOf = .ok names := by
    induction names with
    | nil => rfl
    | cons name names ih =>
      rw [List.map_cons, List.mapM_cons, ih]
      rfl
  show ofList <$> (names.map Yaml.Value.string).mapM nameOf = .ok (ofList names)
  rw [hnames]
  rfl

end Catalog

/-! ## Registries by name -/

namespace Registry

/-- Every role of a registry stands under its own name, and no name stands twice. -/
structure Named (registry : Registry) : Prop where
  nodup : registry.keys.Nodup
  name_eq : ∀ entry ∈ registry.entries, entry.2.name = entry.1

/-- The names of roles increase strictly, in the order of their bytes. -/
def Increasing (roles : List Role) : Prop :=
  roles.Pairwise fun a b => Text.bytes a.name < Text.bytes b.name

theorem increasing_iff {roles : List Role} :
    Increasing roles ↔ roles.Pairwise fun a b => a.name < b.name := by
  unfold Increasing
  simp only [Text.bytes_lt_bytes_iff]

variable {registry : Registry}

/-- The registry that an expansion gives has every role under its name. -/
theorem named_of_outcome_ok {source : Source} {declarations : List Declaration}
    {mode : ExpansionMode} {limit : Nat}
    (h : (Expansion.run source limit mode declarations).outcome = some (.ok registry)) :
    registry.Named := by
  classical
  obtain ⟨_, followed, _, _, _, rfl⟩ := Expansion.exists_of_outcome_ok h
  have hnodup : (ofFollowed source.references followed).keys.Nodup := Table.nodup_keys_ofList _
  refine ⟨hnodup, fun entry hentry => ?_⟩
  have hget := Table.get?_of_mem_entries hnodup hentry
  exact (eq_follow_of_get? hget).1

theorem Named.map_name_values (h : registry.Named) :
    registry.values.map Role.name = registry.keys := by
  unfold Table.values Table.keys
  rw [List.map_map]
  exact List.map_congr_left h.name_eq

/-- The entries of a registry, set in another order, give a registry with the same roles. -/
theorem Named.ofList_of_perm (h : registry.Named) {entries : List (String × Role)}
    (hperm : entries.Perm registry.entries) :
    Named (.ofList entries) ∧ (Table.ofList entries).values.Perm registry.values := by
  have hnodup : (⟨entries⟩ : Registry).keys.Nodup := (hperm.map Prod.fst).nodup_iff.mpr h.nodup
  rw [Table.ofList_entries hnodup]
  exact ⟨⟨hnodup, fun entry hentry => h.name_eq entry (hperm.mem_iff.mp hentry)⟩,
    hperm.map Prod.snd⟩

/-! ## Services -/

theorem mem_services_iff (registry : Registry) (names : List String) (role : Role) :
    role ∈ services registry (.ofList names) ↔ role ∈ registry.values ∧ role.name ∈ names := by
  unfold services
  rw [List.mem_mergeSort, List.mem_filter, Catalog.contains_ofList_iff]

theorem Named.pairwise_services (h : registry.Named) (catalog : Catalog) :
    (services registry catalog).Pairwise fun a b => a.name < b.name := by
  refine mergeSort_pairwise_lt Role.name ?_
  have hall : (registry.values.map Role.name).Nodup := h.map_name_values ▸ h.nodup
  exact hall.sublist (List.filter_sublist.map Role.name)

theorem Named.services_congr {registry' : Registry} (h : registry.Named) (h' : registry'.Named)
    (hroles : registry.values.Perm registry'.values) (names : List String) :
    services registry (.ofList names) = services registry' (.ofList names) := by
  refine eq_of_pairwise_lt Role.name (h.pairwise_services _) (h'.pairwise_services _) ?_
  intro role
  rw [mem_services_iff, mem_services_iff, hroles.mem_iff]

/-- **The services of a registry are its roles whose names are in the catalog, in increasing order.** In a
registry in which every role stands under its name, they are exactly the roles whose names are among
those that the catalog was built from, each once, and their names increase strictly in the order of their
bytes; no other list is such. The listing has a line for each in that order: its name, with a mark if it
holds only under a condition. Neither the order in which the registry was filled shows, nor the order of
the names of the catalog, nor whether a name stands among them more than once. -/
theorem services_by_name (registry : Registry) (h : registry.Named) (names : List String) :
    (∀ role, role ∈ services registry (.ofList names) ↔
      role ∈ registry.values ∧ role.name ∈ names) ∧
    (services registry (.ofList names)).Nodup ∧
    Increasing (services registry (.ofList names)) ∧
    (∀ roles, Increasing roles →
      (∀ role, role ∈ roles ↔ role ∈ registry.values ∧ role.name ∈ names) →
      roles = services registry (.ofList names)) ∧
    serviceListing registry (.ofList names) =
      (services registry (.ofList names)).map (fun role =>
        if role.optional then role.name ++ " (optional)" else role.name) ∧
    Catalog.ofValue (.sequence (names.map .string)) = .ok (.ofList names) ∧
    ∀ entries names', entries.Perm registry.entries → (∀ name, name ∈ names' ↔ name ∈ names) →
      services (.ofList entries) (.ofList names') = services registry (.ofList names) ∧
      serviceListing (.ofList entries) (.ofList names') =
        serviceListing registry (.ofList names) := by
  have hsorted := h.pairwise_services (.ofList names)
  refine ⟨mem_services_iff registry names, ?_, increasing_iff.mpr hsorted, ?_, rfl,
    Catalog.ofValue_names names, ?_⟩
  · exact hsorted.imp fun hlt heq => absurd (heq ▸ hlt) (lt_irrefl _)
  · intro roles hincreasing hroles
    refine eq_of_pairwise_lt Role.name (increasing_iff.mp hincreasing) hsorted fun role => ?_
    rw [hroles, mem_services_iff]
  · intro entries names' hperm hnames
    obtain ⟨hnamed, hroles⟩ := h.ofList_of_perm hperm
    have hservices : services (.ofList entries) (.ofList names') =
        services registry (.ofList names) := by
      rw [Catalog.ofList_congr hnames]
      exact hnamed.services_congr h hroles names
    refine ⟨hservices, ?_⟩
    unfold serviceListing
    rw [hservices]

/-- A role under a condition and two others. The name of the first comes before that of the second, and
its line after the line of the second. -/
def webRoles : List (String × Role) :=
  [("web (b)", ⟨"web (b)", false, []⟩), ("db", ⟨"db", false, []⟩), ("web", ⟨"web", true, []⟩)]

theorem services_by_name_web :
    Named (.ofList webRoles) ∧
    services (.ofList webRoles) (.ofList ["web", "web (b)"]) =
      [⟨"web", true, []⟩, ⟨"web (b)", false, []⟩] ∧
    serviceListing (.ofList webRoles) (.ofList ["web", "web (b)"]) =
      ["web (optional)", "web (b)"] ∧
    webRoles.reverse.Perm (Table.ofList webRoles).entries ∧
    serviceListing (.ofList webRoles.reverse) (.ofList ["web (b)", "web", "web"]) =
      ["web (optional)", "web (b)"] := by
  have hnamed : Named (.ofList webRoles) := ⟨by decide, by decide⟩
  obtain ⟨-, -, -, hunique, hlines, -, hcongr⟩ :=
    services_by_name (.ofList webRoles) hnamed ["web", "web (b)"]
  have hincreasing : Increasing [⟨"web", true, []⟩, ⟨"web (b)", false, []⟩] :=
    increasing_iff.mpr (by decide)
  have hservices : services (.ofList webRoles) (.ofList ["web", "web (b)"]) =
      [⟨"web", true, []⟩, ⟨"web (b)", false, []⟩] := by
    refine (hunique _ hincreasing fun role => ?_).symm
    have hvalues : (Table.ofList webRoles).values =
        [⟨"web (b)", false, []⟩, ⟨"db", false, []⟩, ⟨"web", true, []⟩] := by decide
    rw [hvalues]
    simp only [List.mem_cons, List.not_mem_nil, or_false]
    constructor
    · rintro (rfl | rfl) <;> simp
    · rintro ⟨rfl | rfl | rfl, hname⟩ <;> simp at hname ⊢
  have hlisting : serviceListing (.ofList webRoles) (.ofList ["web", "web (b)"]) =
      ["web (optional)", "web (b)"] := by
    rw [hlines, hservices]
    rfl
  have hperm : webRoles.reverse.Perm (Table.ofList webRoles).entries := by decide
  have hnames (name : String) : name ∈ ["web (b)", "web", "web"] ↔ name ∈ ["web", "web (b)"] := by
    simp only [List.mem_cons, List.not_mem_nil]
    tauto
  exact ⟨hnamed, hservices, hlisting, hperm, (hcongr _ _ hperm hnames).2.trans hlisting⟩

end Registry

end RoleChart
