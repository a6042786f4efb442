import RoleChart.Drawing
import RoleChart.Proofs.Expansion
import RoleChart.Proofs.Store
/-!
The graph of a registry. Its nodes are the names of the legend, of the roles and of their
dependencies (`mem_keys_graph`), its edges lead from the dependencies of each role to the role
(`edges_graph`). The steps of a drawing can also be kept by number, in a store with an index
(`Drawing.store`); by `store_eq_graph` it holds the same graph, so that what is proved of the graph of
names is proved of the store.

* `graph_eq_dependencies`: the graph of the registry of an expansion shows the dependencies among the
  roles that can be reached: all of them, no others, and each once.
-/
namespace RoleChart

open References (names)

namespace Drawing

variable (d : Drawing) (catalog : Catalog)

/-! ## What the steps mention and join -/

/-- The names of the legend, where it is drawn. -/
def legend : List String := if d.highlight then [serviceLegend, optionalLegend] else []

theorem mem_legend_iff {name : String} :
    name ∈ d.legend ↔ d.highlight = true ∧ (name = serviceLegend ∨ name = optionalLegend) := by
  unfold legend
  split <;> simp [*]

theorem mentions_frameSteps : d.frameSteps.flatMap Graph.Step.mentions = [] := by
  unfold frameSteps
  cases d.label <;> rfl

theorem mentions_legendSteps : d.legendSteps.flatMap Graph.Step.mentions = d.legend := by
  unfold legendSteps legend
  split <;> rfl

theorem mem_mentions_roleSteps (role : Role) (name : String) :
    name ∈ (d.roleSteps catalog role).flatMap Graph.Step.mentions ↔
      name = role.name ∨ name ∈ names role.dependencies := by
  simp only [roleSteps, List.flatMap_cons, Graph.Step.mentions, List.singleton_append,
    List.mem_cons, List.mem_flatMap, List.mem_map]
  constructor
  · rintro (rfl | ⟨s, ⟨r, hr, hs⟩, hname⟩)
    · exact Or.inl rfl
    · rcases hs with rfl | rfl | hs
      · exact Or.inr ⟨r, hr, (List.mem_singleton.mp hname).symm⟩
      · rcases List.mem_cons.mp hname with rfl | hname
        · exact Or.inr ⟨r, hr, rfl⟩
        · exact Or.inl (List.mem_singleton.mp hname)
      · exact absurd hs List.not_mem_nil
  · rintro (rfl | ⟨r, hr, rfl⟩)
    · exact Or.inl rfl
    · exact Or.inr ⟨_, ⟨r, hr, Or.inl rfl⟩, List.mem_singleton.mpr rfl⟩

theorem pairs_frameSteps : d.frameSteps.flatMap Graph.Step.pairs = [] := by
  unfold frameSteps
  cases d.label <;> rfl

theorem pairs_legendSteps : d.legendSteps.flatMap Graph.Step.pairs = [] := by
  unfold legendSteps
  split <;> rfl

theorem pairs_roleSteps (role : Role) :
    (d.roleSteps catalog role).flatMap Graph.Step.pairs =
      role.dependencies.map fun r => (r.name, role.name) := by
  rw [roleSteps, List.flatMap_cons, Graph.Step.pairs, List.nil_append, List.flatMap_assoc]
  induction role.dependencies with
  | nil => rfl
  | cons r rest ih =>
    rw [List.flatMap_cons, ih]
    rfl

/-! ## Nodes and edges -/

variable (registry : Registry)

theorem nodup_keys_graph : (d.graph catalog registry).nodes.keys.Nodup := by
  rw [graph, Graph.keys_ofSteps]
  exact nodup_eraseDups _

/-- The nodes are the names of the legend, of the roles and of their dependencies. -/
theorem mem_keys_graph (name : String) :
    name ∈ (d.graph catalog registry).nodes.keys ↔
      name ∈ d.legend ∨
        ∃ role ∈ registry.values, name = role.name ∨ name ∈ names role.dependencies := by
  rw [graph, Graph.keys_ofSteps, List.mem_eraseDups, steps, List.flatMap_append,
    List.flatMap_append, mentions_frameSteps, mentions_legendSteps, List.nil_append,
    List.mem_append, List.flatMap_assoc, List.mem_flatMap]
  simp only [mem_mentions_roleSteps]

/-- The edges lead from the dependencies of each role to the role, in order. -/
theorem edges_graph :
    (d.graph catalog registry).edges =
      (registry.values.flatMap fun role =>
        role.dependencies.map fun r => (r.name, role.name)).eraseDups := by
  rw [graph, Graph.edges_ofSteps, steps, List.flatMap_append, List.flatMap_append,
    pairs_frameSteps, pairs_legendSteps, List.nil_append, List.nil_append, List.flatMap_assoc]
  simp only [pairs_roleSteps]

theorem nodup_edges_graph : (d.graph catalog registry).edges.Nodup := by
  rw [edges_graph]
  exact nodup_eraseDups _

theorem mem_edges_graph (tail head : String) :
    (tail, head) ∈ (d.graph catalog registry).edges ↔
      ∃ role ∈ registry.values, role.name = head ∧ tail ∈ names role.dependencies := by
  rw [edges_graph, List.mem_eraseDups, List.mem_flatMap]
  simp only [List.mem_map, Prod.mk.injEq]
  constructor
  · rintro ⟨role, hrole, r, hr, rfl, rfl⟩
    exact ⟨role, hrole, rfl, r, hr, rfl⟩
  · rintro ⟨role, hrole, rfl, r, hr, rfl⟩
    exact ⟨role, hrole, r, hr, rfl, rfl⟩

/-! ## The graph by number -/

/-- The store that the steps of a drawing build. -/
def store : Graph.Store := .ofSteps (d.steps catalog registry)

theorem toGraph_store : (d.store catalog registry).toGraph = d.graph catalog registry :=
  Graph.Store.toGraph_ofSteps _

/-- **The store of a drawing holds its graph.** Read as a graph of names the store is the graph of the
registry: the same names and edges in the same order, in the same number. In the store index and nodes
agree, and the look-ups that go through the index find the attributes of a name and the edges between
two names that the graph has. -/
theorem store_eq_graph :
    (d.store catalog registry).toGraph = d.graph catalog registry ∧
    (d.store catalog registry).Coherent ∧
    (d.store catalog registry).names = (d.graph catalog registry).nodes.keys ∧
    (d.store catalog registry).edges = (d.graph catalog registry).edges ∧
    (d.store catalog registry).nodeCount = (d.graph catalog registry).nodeCount ∧
    (d.store catalog registry).edgeCount = (d.graph catalog registry).edgeCount ∧
    (∀ name, ((d.store catalog registry).node? name).map (·.attributes) =
      (d.graph catalog registry).node? name) ∧
    ∀ tail head, (d.store catalog registry).hasEdge tail head =
      (d.graph catalog registry).hasEdge tail head := by
  have h : (d.store catalog registry).Coherent := Graph.Store.coherent_ofSteps _
  rw [← toGraph_store]
  refine ⟨rfl, h, Graph.Store.keys_toGraph.symm, rfl, ?_, h.length_edges.symm,
    fun name => (h.node?_toGraph name).symm, fun tail head => (h.hasEdge_toGraph tail head).symm⟩
  exact (List.length_map _).symm

/-! ## The graph of an expansion -/

variable {source : Source} {declarations : List Declaration}

variable (source) in
/-- The names that a source lists as dependencies of a role are those of its references. -/
theorem names_references (name : String) :
    names (source.references name) = (source.declared name).map (·.name) :=
  Declaration.names_map_reference _

section

variable {followed : List Reference}

/-- All that the roles of a registry refer to is followed, so the nodes are what was followed, and the
legend. -/
theorem mem_keys_graph_ofFollowed
    (hfollowed : ∀ n, n ∈ names followed ↔ source.Reaches declarations n) (name : String) :
    name ∈ (d.graph catalog (Registry.ofFollowed source.references followed)).nodes.keys ↔
      source.Reaches declarations name ∨ name ∈ d.legend := by
  rw [mem_keys_graph, or_comm]
  refine or_congr_left ⟨?_, fun h => ?_⟩
  · rintro ⟨role, hrole, hname⟩
    obtain ⟨hrolename, hdependencies⟩ := Registry.eq_follow_of_mem_values hrole
    have hreached : source.Reaches declarations role.name := (hfollowed role.name).mp hrolename
    rcases hname with rfl | hname
    · exact hreached
    · rw [hdependencies] at hname
      obtain ⟨r, hr, rfl⟩ := List.mem_map.mp hname
      exact hreached.step hr
  · obtain ⟨role, hrole, rfl, _⟩ :=
      Registry.exists_mem_values source.references ((hfollowed name).mpr h)
    exact ⟨role, hrole, Or.inl rfl⟩

theorem mem_edges_graph_ofFollowed
    (hfollowed : ∀ n, n ∈ names followed ↔ source.Reaches declarations n) (tail head : String) :
    (tail, head) ∈ (d.graph catalog (Registry.ofFollowed source.references followed)).edges ↔
      source.Reaches declarations head ∧ tail ∈ (source.declared head).map (·.name) := by
  rw [mem_edges_graph, ← names_references source head]
  constructor
  · rintro ⟨role, hrole, rfl, htail⟩
    obtain ⟨hrolename, hdependencies⟩ := Registry.eq_follow_of_mem_values hrole
    rw [hdependencies] at htail
    exact ⟨(hfollowed role.name).mp hrolename, htail⟩
  · rintro ⟨hhead, htail⟩
    obtain ⟨role, hrole, hname, hdependencies⟩ :=
      Registry.exists_mem_values source.references ((hfollowed head).mpr hhead)
    rw [← hdependencies] at htail
    exact ⟨role, hrole, hname, htail⟩

end

/-- **The graph of an expansion is the dependency relation.** Its nodes are the roles that can be
reached and, if services are to be highlighted, the two names of the legend, each once. An edge leads
from `tail` to `head` exactly if `head` can be reached and the source lists `tail` among its
dependencies. Each such pair is listed once, however often the dependency is repeated, so the number
of edges is the number of pairs. -/
theorem graph_eq_dependencies (source : Source) (declarations : List Declaration) (limit : Nat)
    (catalog : Catalog) (d : Drawing)
    (hfin : {n | source.Reaches declarations n}.Finite)
    (hread : ∀ n, source.Reaches declarations n → source.Readable n)
    (hlimit : {n | source.Reaches declarations n}.ncard ≤ limit) :
    ∃ registry : Registry,
      (Expansion.run source limit .expandOnce declarations).outcome = some (.ok registry) ∧
      (d.graph catalog registry).nodes.keys.Nodup ∧
      (∀ n, n ∈ (d.graph catalog registry).nodes.keys ↔
        source.Reaches declarations n ∨
          d.highlight = true ∧ (n = serviceLegend ∨ n = optionalLegend)) ∧
      (∀ tail head, (d.graph catalog registry).hasEdge tail head = true ↔
        source.Reaches declarations head ∧ tail ∈ (source.declared head).map (·.name)) ∧
      (d.graph catalog registry).edges.Nodup ∧
      (∀ tail head, (tail, head) ∈ (d.graph catalog registry).edges ↔
        source.Reaches declarations head ∧ tail ∈ (source.declared head).map (·.name)) ∧
      (d.graph catalog registry).edgeCount =
        {pair : String × String | source.Reaches declarations pair.2 ∧
          pair.1 ∈ (source.declared pair.2).map (·.name)}.ncard := by
  classical
  obtain ⟨followed, hfollows, houtcome⟩ :=
    Expansion.exists_outcome hfin hread (Or.inl rfl) hlimit
  have hfollowed : ∀ n, n ∈ names followed ↔ source.Reaches declarations n := hfollows.mem_names_iff
  have hedges := mem_edges_graph_ofFollowed d catalog hfollowed
  have hnodup := nodup_edges_graph d catalog (Registry.ofFollowed source.references followed)
  refine ⟨_, houtcome, nodup_keys_graph d catalog _, fun n => ?_, fun tail head => ?_, hnodup,
    hedges, ?_⟩
  · rw [mem_keys_graph_ofFollowed d catalog hfollowed, mem_legend_iff]
  · rw [Graph.hasEdge, List.contains_iff_mem]
    exact hedges tail head
  · rw [Graph.edgeCount, ← List.toFinset_card_of_nodup hnodup, ← Set.ncard_coe_finset]
    congr 1
    ext ⟨tail, head⟩
    rw [List.coe_toFinset]
    exact hedges tail head

/-- The usual drawing with colours and a legend. -/
def highlighted : Drawing := { usual with highlight := true }

theorem graph_eq_dependencies_ring :
    ∃ registry : Registry,
      (Expansion.run (Metadata.ofTable Expansion.ring) 4 .expandOnce [.bare "app"]).outcome =
        some (.ok registry) ∧
      (highlighted.graph .builtin registry).nodes.keys.Nodup ∧
      (∀ n, n ∈ (highlighted.graph .builtin registry).nodes.keys ↔
        (Metadata.ofTable Expansion.ring).Reaches [.bare "app"] n ∨
          highlighted.highlight = true ∧ (n = serviceLegend ∨ n = optionalLegend)) ∧
      (∀ tail head, (highlighted.graph .builtin registry).hasEdge tail head = true ↔
        (Metadata.ofTable Expansion.ring).Reaches [.bare "app"] head ∧
          tail ∈ ((Metadata.ofTable Expansion.ring).declared head).map (·.name)) ∧
      (highlighted.graph .builtin registry).edges.Nodup ∧
      (∀ tail head, (tail, head) ∈ (highlighted.graph .builtin registry).edges ↔
        (Metadata.ofTable Expansion.ring).Reaches [.bare "app"] head ∧
          tail ∈ ((Metadata.ofTable Expansion.ring).declared head).map (·.name)) ∧
      (highlighted.graph .builtin registry).edgeCount =
        {pair : String × String |
          (Metadata.ofTable Expansion.ring).Reaches [.bare "app"] pair.2 ∧
            pair.1 ∈ ((Metadata.ofTable Expansion.ring).declared pair.2).map (·.name)}.ncard :=
  graph_eq_dependencies (Metadata.ofTable Expansion.ring) [.bare "app"] 4 .builtin
    highlighted (Metadata.finite_reaches_ofTable Expansion.ring _)
    (fun n _ => Metadata.readable_ofTable Expansion.ring n)
    ((Metadata.ncard_reaches_ofTable Expansion.ring _).trans (by decide))

end Drawing

end RoleChart
