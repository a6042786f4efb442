import RoleChart.Expansion
import RoleChart.Expansion.Component
import RoleChart.Proofs.Cycle
import RoleChart.Proofs.Numbering
import RoleChart.Proofs.Table
/-!
The roles on a cycle, by components. The components of a graph hold every node once, and two nodes stand
in one of them exactly if they lead to each other (`NumberedGraph.IsComponents`). A node of a component of
several nodes, or with an edge to itself, is a node from which edges lead back to it, and there are no
other such nodes (`IsComponents.mem_cyclic_iff`). The graph of the roles that were read has an edge from a
role to another exactly if the one refers to the other (`mem_links_dependencyGraph`), whatever the order
in which the roles are numbered.

* `cyclicOfComponents_eq_cyclic`: the roles that the components give are those from which references lead
  back, and so they are those that the search from each role gives.
* `runWith_cyclicOfComponents`: an expansion that guards the roles which components give is the expansion
  that guards those which the search gives, since guards count by membership alone.
-/
namespace RoleChart

open Relation (ReflTransGen TransGen)

/-! ## Components -/

namespace NumberedGraph

variable {α : Type} {g : NumberedGraph α}

/-- An edge leads from a number to another. -/
def Joins (g : NumberedGraph α) (n m : Nat) : Prop := (n, m) ∈ g.links

/-- The lists hold every node once, none of them is empty, and two nodes are in the same list exactly if
edges lead from each to the other. -/
structure IsComponents (g : NumberedGraph α) (components : List (List Nat)) : Prop where
  ne_nil : ∀ c ∈ components, c ≠ []
  perm : components.flatten.Perm (List.range g.nodes.length)
  mem_iff : ∀ c ∈ components, ∀ n ∈ c, ∀ m,
    m ∈ c ↔ m < g.nodes.length ∧ ReflTransGen g.Joins n m ∧ ReflTransGen g.Joins m n

namespace IsComponents

variable {components : List (List Nat)}

theorem nodup (h : g.IsComponents components) : components.flatten.Nodup :=
  h.perm.nodup_iff.mpr List.nodup_range

theorem mem_flatten_iff (h : g.IsComponents components) (n : Nat) :
    n ∈ components.flatten ↔ n < g.nodes.length := by
  rw [h.perm.mem_iff, List.mem_range]

/-- A component has a cycle if two of its nodes differ or one of them has an edge to itself. -/
theorem hasCycle_iff (h : g.IsComponents components) {c : List Nat} (hc : c ∈ components) {n : Nat}
    (hn : n ∈ c) : g.hasCycle c = true ↔ (∃ m ∈ c, m ≠ n) ∨ (n, n) ∈ g.links := by
  have hnodup : c.Nodup := (List.nodup_flatten.mp h.nodup).1 c hc
  rw [hasCycle, Bool.or_eq_true, decide_eq_true_iff]
  cases c with
  | nil => exact absurd hn List.not_mem_nil
  | cons first rest =>
    rw [List.head?_cons, Option.any_some, hasLink_iff]
    cases rest with
    | nil =>
      obtain rfl := List.mem_singleton.mp hn
      simp
    | cons second rest =>
      refine iff_of_true (Or.inl (by simp)) (Or.inl ?_)
      have hdistinct : first ≠ second := by
        rintro rfl
        exact (List.nodup_cons.mp hnodup).1 List.mem_cons_self
      by_cases hfirst : first = n
      · exact ⟨second, by simp, hfirst ▸ hdistinct.symm⟩
      · exact ⟨first, List.mem_cons_self, hfirst⟩

/-- The nodes that the components with a cycle hold are those from which edges lead back. -/
theorem mem_cyclic_iff (h : g.IsComponents components)
    (hlinks : ∀ l ∈ g.links, l.2 < g.nodes.length) (n : Nat) :
    n ∈ (components.filter g.hasCycle).flatten ↔
      n < g.nodes.length ∧ TransGen g.Joins n n := by
  constructor
  · intro hn
    obtain ⟨c, hfiltered, hnc⟩ := List.mem_flatten.mp hn
    obtain ⟨hc, hcycle⟩ := List.mem_filter.mp hfiltered
    refine ⟨((h.mem_iff c hc n hnc n).mp hnc).1, ?_⟩
    rcases (h.hasCycle_iff hc hnc).mp hcycle with ⟨m, hmc, hne⟩ | hself
    · obtain ⟨-, hthere, hback⟩ := (h.mem_iff c hc n hnc m).mp hmc
      have hsteps := (Relation.reflTransGen_iff_eq_or_transGen.mp hthere).resolve_left hne
      exact hsteps.trans_left hback
    · exact .single hself
  · rintro ⟨hlt, hreturn⟩
    obtain ⟨c, hc, hnc⟩ := List.mem_flatten.mp ((h.mem_flatten_iff n).mpr hlt)
    refine List.mem_flatten.mpr ⟨c, List.mem_filter.mpr ⟨hc, (h.hasCycle_iff hc hnc).mpr ?_⟩, hnc⟩
    -- The first node on the way back is in the component: it is the node itself or another one.
    obtain ⟨m, hfirst, hback⟩ := TransGen.head'_iff.mp hreturn
    have hmc : m ∈ c :=
      (h.mem_iff c hc n hnc m).mpr ⟨hlinks _ hfirst, .single hfirst, hback⟩
    by_cases hne : m = n
    · exact Or.inr (hne ▸ hfirst)
    · exact Or.inl ⟨m, hmc, hne⟩

/-- Lists that hold every node once are the components if edges lead to no later list, and in each list
some node leads to all the others and they lead to it. -/
theorem of_rank (rank : Nat → Nat) (hne : ∀ c ∈ components, c ≠ [])
    (hperm : components.flatten.Perm (List.range g.nodes.length))
    (hrank : ∀ c ∈ components, ∀ n ∈ c, ∀ m < g.nodes.length, m ∈ c ↔ rank m = rank n)
    (hlinks : ∀ l ∈ g.links, rank l.2 ≤ rank l.1)
    (hcentre : ∀ c ∈ components, ∃ centre, ∀ n ∈ c,
      ReflTransGen g.Joins n centre ∧ ReflTransGen g.Joins centre n) :
    g.IsComponents components := by
  -- No chain of edges climbs, so that two nodes that lead to each other have one rank.
  have hdescends : ∀ {n m}, ReflTransGen g.Joins n m → rank m ≤ rank n := by
    intro n m h
    induction h with
    | refl => exact Nat.le_refl _
    | tail _ hlast ih => exact (hlinks _ hlast).trans ih
  refine ⟨hne, hperm, fun c hc n hn m => ⟨fun hm => ?_, ?_⟩⟩
  · obtain ⟨centre, hleads⟩ := hcentre c hc
    have hlt := List.mem_range.mp (hperm.mem_iff.mp (List.mem_flatten.mpr ⟨c, hc, hm⟩))
    exact ⟨hlt, (hleads n hn).1.trans (hleads m hm).2, (hleads m hm).1.trans (hleads n hn).2⟩
  · rintro ⟨hlt, hthere, hback⟩
    exact (hrank c hc n hn m hlt).mpr (Nat.le_antisymm (hdescends hthere) (hdescends hback))

end IsComponents

end NumberedGraph

namespace Resolved

/-! ## The graph of the roles that were read -/

theorem numbered_concat (entries : List (String × List Reference))
    (entry : String × List Reference) :
    numbered (entries ++ [entry]) =
      ((numbered entries).1.addNode entry.1 |>.2,
        (numbered entries).2.set entry.1 (numbered entries).1.nodes.length) := by
  simp only [numbered, List.foldl_append, List.foldl_cons, List.foldl_nil]
  rfl

/-- Every role has a node, its number is its place, and there are no edges yet. -/
theorem numbered_eq (entries : List (String × List Reference)) :
    (numbered entries).1 = ⟨entries.map (·.1), []⟩ := by
  induction entries using List.reverseRecOn with
  | nil => rfl
  | append_singleton entries entry ih =>
    rw [numbered_concat, ih, List.map_append]
    rfl

theorem numbers_numbered {entries : List (String × List Reference)}
    (h : (entries.map (·.1)).Nodup) : (numbered entries).2.Numbers (entries.map (·.1)) := by
  induction entries using List.reverseRecOn with
  | nil => exact .empty
  | append_singleton entries entry ih =>
    rw [List.map_append, List.map_singleton] at h ⊢
    obtain ⟨hentries, -, hdisjoint⟩ := List.nodup_append.mp h
    have hnew : entry.1 ∉ entries.map (·.1) := fun hmem =>
      hdisjoint _ hmem _ (List.mem_singleton_self _) rfl
    rw [numbered_concat, numbered_eq]
    exact (ih hentries).concat hentries hnew

theorem nodes_linkReferences (index : Table Nat) (name : String) (references : List Reference)
    (graph : NumberedGraph String) :
    (linkReferences index name references graph).nodes = graph.nodes := by
  unfold linkReferences
  induction references generalizing graph with
  | nil => rfl
  | cons r rest ih =>
    rw [List.foldl_cons, ih]
    split
    · exact graph.nodes_link _ _
    · rfl

theorem mem_links_linkReferences (index : Table Nat) (name : String) (references : List Reference)
    (graph : NumberedGraph String) (l : Nat × Nat) :
    l ∈ (linkReferences index name references graph).links ↔
      l ∈ graph.links ∨
        index.get? name = some l.1 ∧ ∃ r ∈ references, index.get? r.name = some l.2 := by
  unfold linkReferences
  induction references generalizing graph with
  | nil => simp
  | cons r rest ih =>
    rw [List.foldl_cons, ih, List.exists_mem_cons_iff]
    split
    · next tail head htail hhead =>
      rw [NumberedGraph.mem_links_link, htail, hhead, Option.some_inj, Option.some_inj, or_assoc,
        Prod.ext_iff, eq_comm (a := l.1), eq_comm (a := l.2)]
      tauto
    · next hnone =>
      have hfirst : ¬ (index.get? name = some l.1 ∧ index.get? r.name = some l.2) := fun h =>
        hnone _ _ h.1 h.2
      tauto

theorem nodes_foldl_linkReferences (index : Table Nat) (entries : List (String × List Reference))
    (graph : NumberedGraph String) :
    (entries.foldl (fun graph entry => linkReferences index entry.1 entry.2 graph) graph).nodes =
      graph.nodes := by
  induction entries generalizing graph with
  | nil => rfl
  | cons entry rest ih => rw [List.foldl_cons, ih, nodes_linkReferences]

theorem mem_links_foldl_linkReferences (index : Table Nat)
    (entries : List (String × List Reference)) (graph : NumberedGraph String) (l : Nat × Nat) :
    l ∈ (entries.foldl (fun graph entry => linkReferences index entry.1 entry.2 graph) graph).links ↔
      l ∈ graph.links ∨ ∃ entry ∈ entries, index.get? entry.1 = some l.1 ∧
        ∃ r ∈ entry.2, index.get? r.name = some l.2 := by
  induction entries generalizing graph with
  | nil => simp
  | cons entry rest ih =>
    rw [List.foldl_cons, ih, mem_links_linkReferences, List.exists_mem_cons_iff, or_assoc]

/-- The graph has the roles as nodes, in the order given. -/
theorem nodes_dependencyGraph (entries : List (String × List Reference)) :
    (dependencyGraph entries).nodes = entries.map (·.1) := by
  have hkept : (dependencyGraph entries).nodes = (numbered entries).1.nodes :=
    nodes_foldl_linkReferences (numbered entries).2 entries (numbered entries).1
  rw [hkept, numbered_eq]

/-- An edge joins the number of a role to that of one that it refers to. -/
theorem mem_links_dependencyGraph (entries : List (String × List Reference)) (l : Nat × Nat) :
    l ∈ (dependencyGraph entries).links ↔
      ∃ entry ∈ entries, (numbered entries).2.get? entry.1 = some l.1 ∧
        ∃ r ∈ entry.2, (numbered entries).2.get? r.name = some l.2 := by
  have hnone : l ∉ (numbered entries).1.links := by
    rw [numbered_eq]
    exact List.not_mem_nil
  exact (mem_links_foldl_linkReferences _ entries _ l).trans (or_iff_right hnone)

section

variable {metadata : Resolved} {entries : List (String × List Reference)}

theorem map_fst_perm (hentries : entries.Perm metadata.entries) :
    (entries.map (·.1)).Perm metadata.keys := hentries.map _

/-- Between two roles there is an edge exactly if the one refers to the other. -/
theorem joins_dependencyGraph_iff (hkeys : metadata.keys.Nodup)
    (hentries : entries.Perm metadata.entries) {n m : Nat} {name other : String}
    (hn : (entries.map (·.1))[n]? = some name) (hm : (entries.map (·.1))[m]? = some other) :
    (dependencyGraph entries).Joins n m ↔ metadata.Step name other := by
  have hnodup : (entries.map (·.1)).Nodup := (map_fst_perm hentries).nodup_iff.mpr hkeys
  have hnumbers := numbers_numbered hnodup
  have hother : other ∈ metadata.keys :=
    (map_fst_perm hentries).mem_iff.mp (List.mem_of_getElem? hm)
  rw [NumberedGraph.Joins, mem_links_dependencyGraph, step_iff, References.LeadsTo]
  simp only [hnumbers _ _, hn, hm, Option.some_inj]
  constructor
  · rintro ⟨entry, hentry, rfl, r, hr, rfl⟩
    have hget := Table.get?_of_mem_entries hkeys (hentries.mem_iff.mp hentry)
    refine ⟨⟨r, ?_, rfl⟩, hother⟩
    rwa [references, hget]
  · rintro ⟨⟨r, hr, rfl⟩, -⟩
    have hname : name ∈ metadata.keys :=
      (map_fst_perm hentries).mem_iff.mp (List.mem_of_getElem? hn)
    obtain ⟨list, hget⟩ := Option.isSome_iff_exists.mp ((metadata.get?_isSome_iff name).mpr hname)
    obtain ⟨before, after, hsplit, -⟩ := List.lookup_eq_some_iff.mp hget
    have hentry : (name, list) ∈ entries := by
      rw [hentries.mem_iff, hsplit]
      exact List.mem_append_right before List.mem_cons_self
    rw [references, hget, Option.getD_some] at hr
    exact ⟨(name, list), hentry, rfl, r, hr, rfl⟩

/-- Every edge joins two nodes. -/
theorem lt_length_of_mem_links (hkeys : metadata.keys.Nodup)
    (hentries : entries.Perm metadata.entries) {l : Nat × Nat}
    (hl : l ∈ (dependencyGraph entries).links) :
    l.1 < (entries.map (·.1)).length ∧ l.2 < (entries.map (·.1)).length := by
  have hnumbers := numbers_numbered ((map_fst_perm hentries).nodup_iff.mpr hkeys)
  obtain ⟨entry, -, htail, r, -, hhead⟩ := (mem_links_dependencyGraph entries l).mp hl
  exact ⟨(List.getElem?_eq_some_iff.mp ((hnumbers _ _).mp htail)).1,
    (List.getElem?_eq_some_iff.mp ((hnumbers _ _).mp hhead)).1⟩

/-- Edges lead from a number back to it exactly if references lead from its role back to it. -/
theorem transGen_joins_self_iff (hkeys : metadata.keys.Nodup)
    (hentries : entries.Perm metadata.entries) {n : Nat} {name : String}
    (hn : (entries.map (·.1))[n]? = some name) :
    TransGen (dependencyGraph entries).Joins n n ↔ TransGen metadata.Step name name := by
  have hnodup : (entries.map (·.1)).Nodup := (map_fst_perm hentries).nodup_iff.mpr hkeys
  obtain ⟨hlt, hname⟩ := List.getElem?_eq_some_iff.mp hn
  -- A chain is carried over edge by edge: a number goes to the role there, a role to its place.
  constructor
  · intro hreturn
    have hstep : ∀ m k, (dependencyGraph entries).Joins m k →
        metadata.Step ((entries.map (·.1))[m]?.getD "") ((entries.map (·.1))[k]?.getD "") := by
      intro m k hmk
      obtain ⟨hm, hk⟩ := lt_length_of_mem_links hkeys hentries hmk
      rw [List.getElem?_eq_getElem hm, List.getElem?_eq_getElem hk]
      exact (joins_dependencyGraph_iff hkeys hentries (List.getElem?_eq_getElem hm)
        (List.getElem?_eq_getElem hk)).mp hmk
    have hlift : TransGen metadata.Step ((entries.map (·.1))[n]?.getD "")
        ((entries.map (·.1))[n]?.getD "") := hreturn.lift _ hstep
    rwa [hn] at hlift
  · intro hreturn
    have hstep : ∀ other next, metadata.Step other next → (dependencyGraph entries).Joins
        ((entries.map (·.1)).idxOf other) ((entries.map (·.1)).idxOf next) := by
      intro other next hnext
      obtain ⟨hleads, hread⟩ := step_iff.mp hnext
      have hmem := (map_fst_perm hentries).mem_iff (a := other)
      have hmem' := (map_fst_perm hentries).mem_iff (a := next)
      exact (joins_dependencyGraph_iff hkeys hentries
        (List.getElem?_idxOf (hmem.mpr (mem_keys_of_leadsTo hleads)))
        (List.getElem?_idxOf (hmem'.mpr hread))).mpr hnext
    have hlift : TransGen (dependencyGraph entries).Joins ((entries.map (·.1)).idxOf name)
        ((entries.map (·.1)).idxOf name) := hreturn.lift _ hstep
    have hplace : (entries.map (·.1)).idxOf name = n := hname ▸ hnodup.idxOf_getElem n hlt
    rwa [hplace] at hlift

end

section

variable {metadata : Resolved} {entries : List (String × List Reference)}
  {components : NumberedGraph String → List (List Nat)}

/-- The roles found are those that were read and from which references lead back. -/
theorem mem_cyclicOfComponents_iff (hkeys : metadata.keys.Nodup)
    (hentries : entries.Perm metadata.entries)
    (hcomponents : (dependencyGraph entries).IsComponents (components (dependencyGraph entries)))
    (name : String) :
    name ∈ cyclicOfComponents components entries ↔
      name ∈ metadata.keys ∧ TransGen metadata.Step name name := by
  have hperm := map_fst_perm hentries
  have hnodes := nodes_dependencyGraph entries
  have hlinks : ∀ l ∈ (dependencyGraph entries).links, l.2 < (dependencyGraph entries).nodes.length :=
    fun l hl => hnodes ▸ (lt_length_of_mem_links hkeys hentries hl).2
  rw [cyclicOfComponents, List.mem_filterMap]
  simp only [hcomponents.mem_cyclic_iff hlinks, hnodes]
  constructor
  · rintro ⟨n, ⟨-, hreturn⟩, hn⟩
    exact ⟨hperm.mem_iff.mp (List.mem_of_getElem? hn),
      (transGen_joins_self_iff hkeys hentries hn).mp hreturn⟩
  · rintro ⟨hname, hreturn⟩
    obtain ⟨n, hn⟩ := List.mem_iff_getElem?.mp (hperm.mem_iff.mpr hname)
    exact ⟨n, ⟨(List.getElem?_eq_some_iff.mp hn).1,
      (transGen_joins_self_iff hkeys hentries hn).mpr hreturn⟩, hn⟩

/-- Each role is found once. -/
theorem nodup_cyclicOfComponents (hkeys : metadata.keys.Nodup)
    (hentries : entries.Perm metadata.entries)
    (hcomponents : (dependencyGraph entries).IsComponents (components (dependencyGraph entries))) :
    (cyclicOfComponents components entries).Nodup := by
  have hnodup : (entries.map (·.1)).Nodup := (map_fst_perm hentries).nodup_iff.mpr hkeys
  refine List.Nodup.filterMap (fun n m name hn hm => ?_)
    (hcomponents.nodup.sublist List.filter_sublist.flatten)
  rw [nodes_dependencyGraph entries] at hn hm
  have hlt := (List.getElem?_eq_some_iff.mp hn).1
  exact (List.getElem?_inj hlt hnodup).mp (Eq.trans hn hm.symm)

/-- Components and the search from each role find the same roles. -/
theorem cyclicOfComponents_perm (hkeys : metadata.keys.Nodup)
    (hentries : entries.Perm metadata.entries)
    (hcomponents : (dependencyGraph entries).IsComponents (components (dependencyGraph entries))) :
    (cyclicOfComponents components entries).Perm metadata.cyclic := by
  have hfound := nodup_cyclicOfComponents hkeys hentries hcomponents
  have hsearched : metadata.cyclic.Nodup := hkeys.filter _
  refine (List.perm_ext_iff_of_nodup hfound hsearched).mpr fun name => ?_
  rw [mem_cyclicOfComponents_iff hkeys hentries hcomponents, cyclic, List.mem_filter, isCyclic_iff]

end

/-- **Components give the roles on a cycle.** For metadata in which every role stands once, in whatever
order its entries are numbered, and for components that are those of their graph, the roles found are
exactly those that were read and from which a chain of references, at least one and all to roles that were
read, leads back. Each is found once, and they are the roles that the search from each role finds. -/
theorem cyclicOfComponents_eq_cyclic (components : NumberedGraph String → List (List Nat))
    (metadata : Resolved) (entries : List (String × List Reference))
    (hkeys : metadata.keys.Nodup) (hentries : entries.Perm metadata.entries)
    (hcomponents : (dependencyGraph entries).IsComponents (components (dependencyGraph entries))) :
    (∀ name, name ∈ cyclicOfComponents components entries ↔
      name ∈ metadata.keys ∧ TransGen metadata.Step name name) ∧
    (cyclicOfComponents components entries).Nodup ∧
    (cyclicOfComponents components entries).Perm metadata.cyclic :=
  ⟨mem_cyclicOfComponents_iff hkeys hentries hcomponents,
    nodup_cyclicOfComponents hkeys hentries hcomponents,
    cyclicOfComponents_perm hkeys hentries hcomponents⟩

/-- Two cycles with a role in common, a role that refers to itself, one that leads to the cycles, and one
that they lead to, with references that are repeated or not known. -/
def knot : Resolved :=
  .ofList [("app", [⟨"web", false⟩]), ("web", [⟨"app", true⟩, ⟨"db", false⟩]),
    ("db", [⟨"web", false⟩, ⟨"disk", false⟩, ⟨"disk", true⟩]), ("cron", [⟨"cron", true⟩]),
    ("site", [⟨"app", false⟩, ⟨"absent", false⟩]), ("disk", [])]

/-- The entries of `knot` in another order. -/
def knotEntries : List (String × List Reference) :=
  [("disk", []), ("db", [⟨"web", false⟩, ⟨"disk", false⟩, ⟨"disk", true⟩]), ("cron", [⟨"cron", true⟩]),
    ("app", [⟨"web", false⟩]), ("site", [⟨"app", false⟩, ⟨"absent", false⟩]),
    ("web", [⟨"app", true⟩, ⟨"db", false⟩])]

/-- The components of the graph of `knotEntries`. -/
def knotComponents : NumberedGraph String → List (List Nat) := fun _ => [[0], [1, 5, 3], [2], [4]]

theorem isComponents_knotComponents :
    (dependencyGraph knotEntries).IsComponents (knotComponents (dependencyGraph knotEntries)) := by
  have hjoins : ∀ l ∈ [(1, 5), (5, 3), (3, 5), (5, 1)], (dependencyGraph knotEntries).Joins l.1 l.2 := by
    unfold NumberedGraph.Joins
    decide
  refine .of_rank (fun n => [[0], [1, 5, 3], [2], [4]].findIdx (·.contains n))
    (by decide) (by decide) (by decide) (by decide) fun c hc => ?_
  simp only [knotComponents, List.mem_cons, List.not_mem_nil, or_false] at hc
  rcases hc with rfl | rfl | rfl | rfl
  · exact ⟨0, fun n hn => List.mem_singleton.mp hn ▸ ⟨.refl, .refl⟩⟩
  · refine ⟨5, fun n hn => ?_⟩
    simp only [List.mem_cons, List.not_mem_nil, or_false] at hn
    rcases hn with rfl | rfl | rfl
    · exact ⟨.single (hjoins (1, 5) (by simp)), .single (hjoins (5, 1) (by simp))⟩
    · exact ⟨.refl, .refl⟩
    · exact ⟨.single (hjoins (3, 5) (by simp)), .single (hjoins (5, 3) (by simp))⟩
  · exact ⟨2, fun n hn => List.mem_singleton.mp hn ▸ ⟨.refl, .refl⟩⟩
  · exact ⟨4, fun n hn => List.mem_singleton.mp hn ▸ ⟨.refl, .refl⟩⟩

theorem cyclicOfComponents_eq_cyclic_knot :
    (knot.keys.Nodup ∧ knotEntries.Perm knot.entries ∧
      (dependencyGraph knotEntries).IsComponents (knotComponents (dependencyGraph knotEntries))) ∧
    (∀ name, name ∈ cyclicOfComponents knotComponents knotEntries ↔
      name ∈ knot.keys ∧ TransGen knot.Step name name) ∧
    (cyclicOfComponents knotComponents knotEntries).Nodup ∧
    (cyclicOfComponents knotComponents knotEntries).Perm knot.cyclic := by
  have hkeys : knot.keys.Nodup := by decide
  have hentries : knotEntries.Perm knot.entries := by decide
  exact ⟨⟨hkeys, hentries, isComponents_knotComponents⟩,
    cyclicOfComponents_eq_cyclic knotComponents knot knotEntries hkeys hentries
      isComponents_knotComponents⟩

-- `disk` is reached from the cycles and `site` leads to them; neither is on one.
example : cyclicOfComponents knotComponents knotEntries = ["db", "web", "app", "cron"] := by decide

end Resolved

/-! ## Guards from components -/

namespace Expansion

theorem guarded_perm (mode : ExpansionMode) {cyclic cyclic' : List String} (h : cyclic.Perm cyclic') :
    (guarded mode cyclic).Perm (guarded mode cyclic') := by
  cases mode with
  | expandOnce => exact h
  | reexpand => exact .refl []

/-- Guards count by membership alone: in whatever order they stand, the walk is the same. -/
theorem walk_congr (metadata : Resolved) (roots : List Reference)
    {cyclic cyclic' guards guards' : List String} (hcyclic : cyclic.Perm cyclic')
    (hguards : guards.Perm guards') :
    walk metadata cyclic guards roots = walk metadata cyclic' guards' roots := by
  have hcontains : guards.contains = guards'.contains := by
    funext name
    rw [Bool.eq_iff_iff, List.contains_iff_mem, List.contains_iff_mem, hguards.mem_iff]
  have hall : cyclic.all guards.contains = cyclic'.all guards'.contains := by
    rw [hcontains, Bool.eq_iff_iff, List.all_eq_true, List.all_eq_true]
    exact forall_congr' fun name => by rw [hcyclic.mem_iff]
  unfold walk
  rw [hall, hcontains]

/-- Two ways to find the roles on a cycle that find the same ones lead to the same expansion. -/
theorem runWith_congr {findCyclic findCyclic' : Resolved → List String}
    (h : ∀ metadata : Resolved, metadata.keys.Nodup →
      (findCyclic metadata).Perm (findCyclic' metadata))
    (source : Source) (limit : Nat) (mode : ExpansionMode) (declarations : List Declaration) :
    runWith findCyclic source limit mode declarations =
      runWith findCyclic' source limit mode declarations := by
  unfold runWith
  dsimp only
  cases hread : (Reading.run source limit (declarations.map Declaration.reference)).outcome with
  | none => rfl
  | some result =>
    cases result with
    | error e => rfl
    | ok metadata =>
      have hkeys : metadata.keys.Nodup := (Reading.ends_of_run hread).nodup_keys List.nodup_nil
      have hcyclic := h metadata hkeys
      have hguards := guarded_perm mode hcyclic
      dsimp only
      rw [walk_congr metadata _ hcyclic hguards, started, started, hguards.length_eq]

/-- **An expansion may find the roles on a cycle by components.** In whatever order the roles that were
read are numbered, and for components that are those of their graph, the expansion that guards the roles
which the components give asks for the same names, reports the same and comes to the same as the one that
searches from each role. -/
theorem runWith_cyclicOfComponents (components : NumberedGraph String → List (List Nat))
    (order : Resolved → List (String × List Reference))
    (horder : ∀ metadata : Resolved, (order metadata).Perm metadata.entries)
    (hcomponents : ∀ metadata : Resolved, metadata.keys.Nodup →
      (Resolved.dependencyGraph (order metadata)).IsComponents
        (components (Resolved.dependencyGraph (order metadata))))
    (source : Source) (limit : Nat) (mode : ExpansionMode) (declarations : List Declaration) :
    runWith (fun metadata => Resolved.cyclicOfComponents components (order metadata)) source limit mode
        declarations =
      run source limit mode declarations := by
  refine runWith_congr (fun metadata hkeys => ?_) source limit mode declarations
  exact Resolved.cyclicOfComponents_perm hkeys (horder metadata) (hcomponents metadata hkeys)

end Expansion

end RoleChart
