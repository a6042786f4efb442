import RoleChart.Graph.Store
import RoleChart.Proofs.Graph
import RoleChart.Proofs.Numbering
/-!
The store of a graph, and the graph that it stands for. In a store that steps build the index and the
nodes agree and every edge joins two nodes, once (`Store.Coherent`): the store without nodes is so, and
every step keeps it so (`Coherent.apply`). In such a store a step does to the nodes and edges by number
what it does to the graph of names (`Coherent.toGraph_apply`), so that the store of a list of steps stands
for the graph of these steps (`toGraph_ofSteps`).

* `index_agrees_with_nodes`: after any steps the look-ups by name say what the lists of nodes and edges
  say, and no later step takes a node or an edge away or changes its place.
-/
namespace RoleChart

/-- Where a function takes no value twice, a member of a list is the only one with its value. -/
theorem filter_eq_singleton {α β : Type} [DecidableEq β] {f : α → β} {list : List α} {a : α}
    (h : (list.map f).Nodup) (ha : a ∈ list) : list.filter (f · = f a) = [a] := by
  induction list with
  | nil => exact absurd ha List.not_mem_nil
  | cons b rest ih =>
    obtain ⟨hb, hrest⟩ : f b ∉ rest.map f ∧ (rest.map f).Nodup := List.nodup_cons.mp h
    rcases List.mem_cons.mp ha with rfl | ha
    · have hnone : rest.filter (f · = f a) = [] :=
        List.filter_eq_nil_iff.mpr fun c hc heq =>
          hb (of_decide_eq_true heq ▸ List.mem_map_of_mem hc)
      rw [List.filter_cons, if_pos (decide_eq_true rfl), hnone]
    · have hne : ¬ decide (f b = f a) = true := fun heq =>
        hb (of_decide_eq_true heq ▸ List.mem_map_of_mem ha)
      rw [List.filter_cons, if_neg hne, ih hrest ha]

namespace Graph

namespace Store

/-! ## Stores whose index and nodes agree -/

/-- No two nodes have one name, the index gives each name the number of its node and no number to any
other name, and every edge joins two nodes, no two of them the same two in the same order. -/
structure Coherent (s : Store) : Prop where
  nodup_names : s.names.Nodup
  numbers : s.index.Numbers s.names
  links_lt : ∀ l ∈ s.graph.links, l.1 < s.names.length ∧ l.2 < s.names.length
  nodup_links : s.graph.links.Nodup

theorem coherent_empty : Coherent empty where
  nodup_names := List.nodup_nil
  numbers := .empty
  links_lt _ hl := absurd hl List.not_mem_nil
  nodup_links := List.nodup_nil

variable {s : Store}

theorem names_getElem? {n : Nat} {name : String} :
    s.names[n]? = some name ↔ ∃ attributes, s.nodes[n]? = some ⟨name, attributes⟩ := by
  rw [names, List.getElem?_map, Option.map_eq_some_iff]
  constructor
  · rintro ⟨node, hnode, rfl⟩
    exact ⟨node.attributes, hnode⟩
  · rintro ⟨attributes, hnode⟩
    exact ⟨_, hnode, rfl⟩

/-- A name that is taken is that of some node. -/
theorem exists_getElem?_of_mem {name : String} (hname : name ∈ s.names) :
    ∃ (n : Nat) (attributes : Attributes), s.nodes[n]? = some ⟨name, attributes⟩ := by
  obtain ⟨n, hn⟩ := List.mem_iff_getElem?.mp hname
  exact ⟨n, names_getElem?.mp hn⟩

theorem length_names : s.names.length = s.nodes.length := List.length_map _

/-- The store with another node at a number. -/
def replace (s : Store) (n : Nat) (node : Node) : Store :=
  { s with graph := ⟨s.nodes.set n node, s.graph.links⟩ }

/-- The store with a node behind the others. -/
def append (s : Store) (node : Node) : Store :=
  { s with graph := ⟨s.nodes ++ [node], s.graph.links⟩, index := s.index.set node.name s.nodes.length }

theorem names_replace {n : Nat} {name : String} {old : Attributes}
    (hn : s.nodes[n]? = some ⟨name, old⟩) (attributes : Attributes) :
    (s.replace n ⟨name, attributes⟩).names = s.names := by
  have hname : s.names[n]? = some name := names_getElem?.mpr ⟨old, hn⟩
  obtain ⟨hlt, heq⟩ := List.getElem?_eq_some_iff.mp hname
  change (s.nodes.set n ⟨name, attributes⟩).map (·.name) = s.names
  rw [List.map_set, ← heq]
  exact List.set_getElem_self hlt

theorem names_append (node : Node) : (s.append node).names = s.names ++ [node.name] :=
  List.map_append

theorem names_link (tail head : Nat) :
    names { s with graph := s.graph.link tail head } = s.names := by
  change (s.graph.link tail head).nodes.map (·.name) = s.graph.nodes.map (·.name)
  rw [NumberedGraph.nodes_link]

namespace Coherent

variable (h : s.Coherent)
include h

/-- Another node of the same name takes the place of the first. -/
theorem replace {n : Nat} {name : String} {old : Attributes}
    (hn : s.nodes[n]? = some ⟨name, old⟩) (attributes : Attributes) :
    (s.replace n ⟨name, attributes⟩).Coherent := by
  have hnames := names_replace hn attributes
  refine ⟨?_, ?_, fun l hl => ?_, h.nodup_links⟩
  · exact hnames ▸ h.nodup_names
  · exact hnames ▸ h.numbers
  · exact hnames ▸ h.links_lt l hl

/-- A new name gets the next number. -/
theorem append {node : Node} (hname : node.name ∉ s.names) : (s.append node).Coherent := by
  have hindex : (s.append node).index = s.index.set node.name s.names.length := by
    rw [length_names]
    rfl
  refine ⟨?_, ?_, fun l hl => ?_, h.nodup_links⟩
  · rw [names_append]
    exact h.nodup_names.append (List.nodup_singleton _) fun other hother heq =>
      hname (List.mem_singleton.mp heq ▸ hother)
  · rw [hindex, names_append]
    exact h.numbers.concat h.nodup_names hname
  · rw [names_append, List.length_append]
    exact (h.links_lt l hl).imp (Nat.lt_add_right _) (Nat.lt_add_right _)

theorem addNode_of_getElem? {n : Nat} {name : String} {old : Attributes}
    (hn : s.nodes[n]? = some ⟨name, old⟩) (attributes : Attributes) :
    s.addNode name attributes = (n, s.replace n ⟨name, old.merge attributes⟩) := by
  have hindex : s.index.get? name = some n :=
    (h.numbers name n).mpr (names_getElem?.mpr ⟨old, hn⟩)
  have hgraph : s.graph.nodes[n]? = some ⟨name, old⟩ := hn
  simp only [addNode, hindex, NumberedGraph.updateNode, List.modify_eq_set_getElem?, hgraph]
  rfl

theorem addNode_of_notMem {name : String} (hname : name ∉ s.names) (attributes : Attributes) :
    s.addNode name attributes = (s.nodes.length, s.append ⟨name, attributes⟩) := by
  have hindex : s.index.get? name = none := (h.numbers.get?_eq_none_iff name).mpr hname
  simp only [addNode, hindex]
  rfl

theorem mention_of_getElem? {n : Nat} {name : String} {old : Attributes}
    (hn : s.nodes[n]? = some ⟨name, old⟩) : s.mention name = (n, s) := by
  have hindex : s.index.get? name = some n :=
    (h.numbers name n).mpr (names_getElem?.mpr ⟨old, hn⟩)
  simp only [mention, hindex]

theorem mention_of_notMem {name : String} (hname : name ∉ s.names) :
    s.mention name = s.addNode name .empty := by
  have hindex : s.index.get? name = none := (h.numbers.get?_eq_none_iff name).mpr hname
  simp only [mention, hindex]

/-- Adding a node keeps the index in step with the nodes, and the answer is the number of the name. -/
theorem addNode (name : String) (attributes : Attributes) :
    (s.addNode name attributes).2.Coherent ∧
      (s.addNode name attributes).2.names[(s.addNode name attributes).1]? = some name := by
  by_cases hname : name ∈ s.names
  · obtain ⟨n, old, hold⟩ := exists_getElem?_of_mem hname
    rw [h.addNode_of_getElem? hold, names_replace hold]
    exact ⟨h.replace hold _, names_getElem?.mpr ⟨old, hold⟩⟩
  · rw [h.addNode_of_notMem hname, names_append, ← length_names]
    exact ⟨h.append hname, List.getElem?_concat_length⟩

theorem mention (name : String) :
    (s.mention name).2.Coherent ∧ (s.mention name).2.names[(s.mention name).1]? = some name := by
  by_cases hname : name ∈ s.names
  · obtain ⟨n, old, hold⟩ := exists_getElem?_of_mem hname
    rw [h.mention_of_getElem? hold]
    exact ⟨h, names_getElem?.mpr ⟨old, hold⟩⟩
  · rw [h.mention_of_notMem hname]
    exact h.addNode name .empty

/-- A name that has a number keeps it when another one is mentioned. -/
theorem names_mention {n : Nat} {other : String} (hn : s.names[n]? = some other) (name : String) :
    (s.mention name).2.names[n]? = some other := by
  by_cases hname : name ∈ s.names
  · obtain ⟨m, old, hold⟩ := exists_getElem?_of_mem hname
    rwa [h.mention_of_getElem? hold]
  · have hlt : n < s.names.length := (List.getElem?_eq_some_iff.mp hn).1
    rw [h.mention_of_notMem hname, h.addNode_of_notMem hname, names_append,
      List.getElem?_append_left hlt, hn]

/-- After both ends of an edge are mentioned, each has its number, also where they are one. -/
theorem mention_ends (tail head : String) :
    ((s.mention tail).2.mention head).2.Coherent ∧
      ((s.mention tail).2.mention head).2.names[(s.mention tail).1]? = some tail ∧
      ((s.mention tail).2.mention head).2.names[((s.mention tail).2.mention head).1]? = some head := by
  obtain ⟨htail, hnumber⟩ := h.mention tail
  obtain ⟨hhead, hnumber'⟩ := htail.mention head
  exact ⟨hhead, htail.names_mention hnumber head, hnumber'⟩

/-- An edge between two numbers that are given keeps every edge between two nodes. -/
theorem link {tail head : Nat} (htail : tail < s.names.length) (hhead : head < s.names.length) :
    Coherent { s with graph := s.graph.link tail head } := by
  refine ⟨?_, ?_, fun l hl => ?_, ?_⟩
  · rw [names_link]
    exact h.nodup_names
  · rw [names_link]
    exact h.numbers
  · rw [names_link]
    rcases (s.graph.mem_links_link tail head l).mp hl with hl | rfl
    · exact h.links_lt l hl
    · exact ⟨htail, hhead⟩
  · change (s.graph.link tail head).links.Nodup
    rw [NumberedGraph.links_link]
    split
    · exact h.nodup_links
    · next hnew =>
      refine h.nodup_links.append (List.nodup_singleton _) fun l hl heq => hnew ?_
      exact List.mem_singleton.mp heq ▸ hl

theorem addEdge (tail head : String) : (s.addEdge tail head).Coherent := by
  obtain ⟨hends, htail, hhead⟩ := h.mention_ends tail head
  exact hends.link (List.getElem?_eq_some_iff.mp htail).1 (List.getElem?_eq_some_iff.mp hhead).1

/-- Every step keeps index and nodes in agreement. -/
theorem apply (step : Step) : (s.apply step).2.Coherent := by
  cases step with
  | addNode name attributes => exact (h.addNode name attributes).1
  | addEdge tail head => exact h.addEdge tail head
  | graphAttribute key value => exact ⟨h.nodup_names, h.numbers, h.links_lt, h.nodup_links⟩
  | edgeAttributes attributes => exact ⟨h.nodup_names, h.numbers, h.links_lt, h.nodup_links⟩

end Coherent

theorem ofSteps_concat (steps : List Step) (step : Step) :
    ofSteps (steps ++ [step]) = ((ofSteps steps).apply step).2 := by
  simp only [ofSteps, applyAll, List.foldl_append, List.foldl_cons, List.foldl_nil]

/-- Index and nodes agree after any steps. -/
theorem coherent_ofSteps (steps : List Step) : (ofSteps steps).Coherent := by
  induction steps using List.reverseRecOn with
  | nil => exact coherent_empty
  | append_singleton steps step ih =>
    rw [ofSteps_concat]
    exact ih.apply step

/-! ## The graph of names -/

/-- The names at the two numbers of an edge. -/
def namesAt (names : List String) (l : Nat × Nat) : Option (String × String) :=
  match names[l.1]?, names[l.2]? with
  | some tail, some head => some (tail, head)
  | _, _ => none

theorem namesAt_eq_some_iff {names : List String} {l : Nat × Nat} {tail head : String} :
    namesAt names l = some (tail, head) ↔
      names[l.1]? = some tail ∧ names[l.2]? = some head := by
  unfold namesAt
  split
  · next htail hhead => simp only [htail, hhead, Option.some_inj, Prod.mk.injEq]
  · next hnone =>
    refine ⟨fun heq => absurd heq (by simp), fun ⟨htail, hhead⟩ => ?_⟩
    exact absurd hhead (hnone tail head htail)

theorem edges_eq (s : Store) : s.edges = s.graph.links.filterMap (namesAt s.names) := by
  rw [edges, NumberedGraph.ends, List.map_filterMap]
  refine List.filterMap_congr fun l _ => ?_
  rw [namesAt, names, nodes, List.getElem?_map, List.getElem?_map]
  cases s.graph.nodes[l.1]? <;> cases s.graph.nodes[l.2]? <;> rfl

theorem mem_edges_iff {tail head : String} :
    (tail, head) ∈ s.edges ↔
      ∃ l ∈ s.graph.links, s.names[l.1]? = some tail ∧ s.names[l.2]? = some head := by
  rw [edges_eq, List.mem_filterMap]
  simp only [namesAt_eq_some_iff]

theorem keys_toGraph : s.toGraph.nodes.keys = s.names := List.map_map

namespace Coherent

variable (h : s.Coherent)
include h

/-- Between two nodes the edge by number and the edge by name are the same. -/
theorem mem_links_iff {tailNumber headNumber : Nat} {tail head : String}
    (htail : s.names[tailNumber]? = some tail) (hhead : s.names[headNumber]? = some head) :
    (tailNumber, headNumber) ∈ s.graph.links ↔ (tail, head) ∈ s.edges := by
  rw [mem_edges_iff]
  refine ⟨fun hl => ⟨_, hl, htail, hhead⟩, ?_⟩
  rintro ⟨⟨n, m⟩, hl, hn, hm⟩
  have htail' := (List.getElem?_inj (h.links_lt _ hl).1 h.nodup_names).mp (hn.trans htail.symm)
  have hhead' := (List.getElem?_inj (h.links_lt _ hl).2 h.nodup_names).mp (hm.trans hhead.symm)
  rwa [← htail', ← hhead']

theorem namesAt_isSome {l : Nat × Nat} (hl : l ∈ s.graph.links) : (namesAt s.names l).isSome := by
  obtain ⟨htail, hhead⟩ := h.links_lt l hl
  rw [namesAt, List.getElem?_eq_getElem htail, List.getElem?_eq_getElem hhead]
  rfl

theorem length_edges : s.edges.length = s.edgeCount := by
  rw [edges_eq, edgeCount]
  exact List.filterMap_length_eq_length.mpr fun l hl => h.namesAt_isSome hl

theorem get?_toGraph {n : Nat} {name : String} {attributes : Attributes}
    (hn : s.nodes[n]? = some ⟨name, attributes⟩) :
    s.toGraph.nodes.get? name = some attributes := by
  have hnodup : s.toGraph.nodes.keys.Nodup := keys_toGraph ▸ h.nodup_names
  have hentry : (name, attributes) ∈ s.toGraph.nodes.entries :=
    List.mem_map_of_mem (f := fun node : Node => (node.name, node.attributes))
      (List.mem_of_getElem? hn)
  exact Table.get?_of_mem_entries hnodup hentry

theorem toGraph_replace {n : Nat} {name : String} {old : Attributes}
    (hn : s.nodes[n]? = some ⟨name, old⟩) (attributes : Attributes) :
    (s.replace n ⟨name, attributes⟩).toGraph =
      { s.toGraph with nodes := s.toGraph.nodes.set name attributes } := by
  have hentry : (s.nodes.map fun node => (node.name, node.attributes))[n]? = some (name, old) := by
    rw [List.getElem?_map, hn]
    rfl
  have hkeys : ((s.nodes.map fun node => (node.name, node.attributes)).map (·.1)).Nodup := by
    rw [List.map_map]
    exact h.nodup_names
  have hnodes : (s.nodes.set n ⟨name, attributes⟩).map (fun node => (node.name, node.attributes)) =
      Table.setIn name attributes (s.nodes.map fun node => (node.name, node.attributes)) := by
    rw [Table.setIn_eq_set hkeys hentry, List.map_set]
  -- The names stay where they are, so that the edges are read as before.
  have hedges : (s.replace n ⟨name, attributes⟩).edges = s.edges := by
    rw [edges_eq, edges_eq, names_replace hn]
    rfl
  unfold toGraph
  rw [hedges]
  exact congrArg (Graph.mk ⟨·⟩ s.edges s.graphAttributes s.edgeAttributes) hnodes

theorem toGraph_append {node : Node} (hname : node.name ∉ s.names) :
    (s.append node).toGraph =
      { s.toGraph with nodes := s.toGraph.nodes.set node.name node.attributes } := by
  have hkeys : node.name ∉ (s.nodes.map fun node => (node.name, node.attributes)).map (·.1) := by
    rwa [List.map_map]
  have hnodes : (s.nodes ++ [node]).map (fun node => (node.name, node.attributes)) =
      Table.setIn node.name node.attributes
        (s.nodes.map fun node => (node.name, node.attributes)) := by
    rw [Table.setIn_of_notMem hkeys, List.map_append]
    rfl
  -- No edge joins the new number: those that there are lead between the earlier ones.
  have hedges : (s.append node).edges = s.edges := by
    rw [edges_eq, edges_eq, names_append]
    refine List.filterMap_congr fun l hl => ?_
    obtain ⟨htail, hhead⟩ := h.links_lt l hl
    rw [namesAt, namesAt, List.getElem?_append_left htail, List.getElem?_append_left hhead]
  unfold toGraph
  rw [hedges]
  exact congrArg (Graph.mk ⟨·⟩ s.edges s.graphAttributes s.edgeAttributes) hnodes

theorem toGraph_addNode (name : String) (attributes : Attributes) :
    (s.addNode name attributes).2.toGraph = s.toGraph.addNode name attributes := by
  by_cases hname : name ∈ s.names
  · obtain ⟨n, old, hold⟩ := exists_getElem?_of_mem hname
    rw [h.addNode_of_getElem? hold, h.toGraph_replace hold, Graph.addNode, h.get?_toGraph hold]
  · have hnone : s.toGraph.nodes.get? name = none := by
      rwa [Table.get?_eq_none_iff, keys_toGraph]
    rw [h.addNode_of_notMem hname, h.toGraph_append hname, Graph.addNode, hnone]

theorem toGraph_mention (name : String) : (s.mention name).2.toGraph = s.toGraph.mention name := by
  by_cases hname : name ∈ s.names
  · obtain ⟨n, old, hold⟩ := exists_getElem?_of_mem hname
    have hcontains : s.toGraph.nodes.contains name = true := by
      rwa [Table.contains_iff, keys_toGraph]
    rw [h.mention_of_getElem? hold, Graph.mention, if_pos hcontains]
  · have hcontains : ¬ s.toGraph.nodes.contains name = true := by
      rwa [Table.contains_iff, keys_toGraph]
    rw [h.mention_of_notMem hname, h.toGraph_addNode, Graph.mention, if_neg hcontains]

/-- An edge that is added between two numbers is added between their names. -/
theorem toGraph_link {tailNumber headNumber : Nat} {tail head : String}
    (htail : s.names[tailNumber]? = some tail) (hhead : s.names[headNumber]? = some head) :
    toGraph { s with graph := s.graph.link tailNumber headNumber } =
      if s.toGraph.edges.contains (tail, head) then s.toGraph
      else { s.toGraph with edges := s.toGraph.edges ++ [(tail, head)] } := by
  have hcontains : s.toGraph.edges.contains (tail, head) = true ↔
      (tailNumber, headNumber) ∈ s.graph.links :=
    List.contains_iff_mem.trans (h.mem_links_iff htail hhead).symm
  by_cases hold : (tailNumber, headNumber) ∈ s.graph.links
  · have hlink : s.graph.link tailNumber headNumber = s.graph :=
      if_pos ((s.graph.hasLink_iff _ _).mpr hold)
    rw [if_pos (hcontains.mpr hold), hlink]
  · have hlink : s.graph.link tailNumber headNumber =
        ⟨s.graph.nodes, s.graph.links ++ [(tailNumber, headNumber)]⟩ :=
      if_neg (mt (s.graph.hasLink_iff _ _).mp hold)
    have hedges : edges { s with
        graph := ⟨s.graph.nodes, s.graph.links ++ [(tailNumber, headNumber)]⟩ } =
        s.edges ++ [(tail, head)] := by
      have hlast : namesAt s.names (tailNumber, headNumber) = some (tail, head) :=
        namesAt_eq_some_iff.mpr ⟨htail, hhead⟩
      rw [edges_eq, edges_eq]
      change (s.graph.links ++ [(tailNumber, headNumber)]).filterMap (namesAt s.names) = _
      rw [List.filterMap_append, List.filterMap_cons_some hlast, List.filterMap_nil]
    rw [if_neg (mt hcontains.mp hold), hlink]
    unfold toGraph
    rw [hedges]
    rfl

theorem toGraph_addEdge (tail head : String) :
    (s.addEdge tail head).toGraph = s.toGraph.addEdge tail head := by
  obtain ⟨hends, htail, hhead⟩ := h.mention_ends tail head
  have hlinked := hends.toGraph_link htail hhead
  rw [(h.mention tail).1.toGraph_mention, h.toGraph_mention] at hlinked
  exact hlinked

/-- A step does to the nodes and edges by number what it does to the graph of names. -/
theorem toGraph_apply (step : Step) : (s.apply step).2.toGraph = step.apply s.toGraph := by
  cases step with
  | addNode name attributes => exact h.toGraph_addNode name attributes
  | addEdge tail head => exact h.toGraph_addEdge tail head
  | graphAttribute key value => rfl
  | edgeAttributes attributes => rfl

end Coherent

/-- The store that steps build stands for the graph that they build. -/
theorem toGraph_ofSteps (steps : List Step) : (ofSteps steps).toGraph = Graph.ofSteps steps := by
  induction steps using List.reverseRecOn with
  | nil => rfl
  | append_singleton steps step ih =>
    rw [ofSteps_concat, Graph.ofSteps_concat, (coherent_ofSteps steps).toGraph_apply, ih]

theorem applyAll_ofSteps (steps later : List Step) :
    (ofSteps steps).applyAll later = ofSteps (steps ++ later) := by
  simp only [ofSteps, applyAll, List.foldl_append]

/-- The names stand in the order in which they were first mentioned. -/
theorem names_ofSteps (steps : List Step) :
    (ofSteps steps).names = (steps.flatMap Step.mentions).eraseDups := by
  rw [← keys_toGraph, toGraph_ofSteps, keys_ofSteps]

/-- The edges stand in the order in which they were first joined. -/
theorem edges_ofSteps (steps : List Step) :
    (ofSteps steps).edges = (steps.flatMap Step.pairs).eraseDups := by
  rw [← Graph.edges_ofSteps, ← toGraph_ofSteps]
  rfl

/-- What is mentioned later comes after the names that there are. -/
theorem names_stay (steps later : List Step) :
    (ofSteps steps).names <+: (ofSteps (steps ++ later)).names := by
  rw [names_ofSteps, names_ofSteps, List.flatMap_append, List.eraseDups_append]
  exact List.prefix_append _ _

theorem edges_stay (steps later : List Step) :
    (ofSteps steps).edges <+: (ofSteps (steps ++ later)).edges := by
  rw [edges_ofSteps, edges_ofSteps, List.flatMap_append, List.eraseDups_append]
  exact List.prefix_append _ _

/-! ## Look-up by name -/

namespace Coherent

variable (h : s.Coherent)
include h

theorem node?_eq {n : Nat} {name : String} {attributes : Attributes}
    (hn : s.nodes[n]? = some ⟨name, attributes⟩) : s.node? name = some ⟨name, attributes⟩ := by
  rw [node?, (h.numbers name n).mpr (names_getElem?.mpr ⟨attributes, hn⟩)]
  exact hn

theorem node?_eq_none_iff (name : String) : s.node? name = none ↔ name ∉ s.names := by
  constructor
  · intro hnone hname
    obtain ⟨n, attributes, hnode⟩ := exists_getElem?_of_mem hname
    exact absurd ((h.node?_eq hnode).symm.trans hnone) (by simp)
  · intro hname
    rw [node?, (h.numbers.get?_eq_none_iff name).mpr hname]
    rfl

/-- The node that is found for a name is the only one of that name. -/
theorem filter_nodes (name : String) :
    s.nodes.filter (·.name = name) = (s.node? name).toList := by
  by_cases hname : name ∈ s.names
  · obtain ⟨n, attributes, hnode⟩ := exists_getElem?_of_mem hname
    rw [h.node?_eq hnode]
    exact filter_eq_singleton h.nodup_names (List.mem_of_getElem? hnode)
  · rw [(h.node?_eq_none_iff name).mpr hname]
    refine List.filter_eq_nil_iff.mpr fun node hmem heq => hname ?_
    rw [← of_decide_eq_true heq]
    exact List.mem_map_of_mem hmem

theorem hasEdge_iff (tail head : String) :
    s.hasEdge tail head = true ↔ (tail, head) ∈ s.edges := by
  unfold hasEdge
  split
  · next tailNumber headNumber htail hhead =>
    rw [NumberedGraph.hasLink_iff]
    exact h.mem_links_iff ((h.numbers _ _).mp htail) ((h.numbers _ _).mp hhead)
  · next hnone =>
    refine ⟨fun heq => absurd heq (by simp), fun hedge => ?_⟩
    obtain ⟨l, -, htail, hhead⟩ := mem_edges_iff.mp hedge
    exact absurd ((h.numbers _ _).mpr hhead) (hnone _ _ ((h.numbers _ _).mpr htail))

/-- The index finds for a name the attributes that the graph of names has for it. -/
theorem node?_toGraph (name : String) :
    s.toGraph.node? name = (s.node? name).map (·.attributes) := by
  by_cases hname : name ∈ s.names
  · obtain ⟨n, attributes, hnode⟩ := exists_getElem?_of_mem hname
    rw [Graph.node?, h.get?_toGraph hnode, h.node?_eq hnode]
    rfl
  · have hnone : s.toGraph.nodes.get? name = none := by
      rwa [Table.get?_eq_none_iff, keys_toGraph]
    rw [Graph.node?, hnone, (h.node?_eq_none_iff name).mpr hname]
    rfl

theorem hasEdge_toGraph (tail head : String) :
    s.toGraph.hasEdge tail head = s.hasEdge tail head := by
  rw [Bool.eq_iff_iff, h.hasEdge_iff, Graph.hasEdge, List.contains_iff_mem]
  rfl

end Coherent

/-- **The index and the nodes agree after any steps.** No two nodes have one name, the index gives the
names of the nodes their numbers and gives other names none, and every edge joins two nodes, once. So the
look-up of a name finds the only node of that name, and finds one exactly for the names of nodes; there
is an edge from one name to another exactly if it is listed; and the counts are the lengths of the lists.
Whatever steps follow, the nodes and edges that there are stay at the beginning of the lists. -/
theorem index_agrees_with_nodes (steps : List Step) :
    (ofSteps steps).Coherent ∧
    (∀ name, ((ofSteps steps).node? name).isSome ↔ name ∈ (ofSteps steps).names) ∧
    (∀ name, (ofSteps steps).nodes.filter (·.name = name) = ((ofSteps steps).node? name).toList) ∧
    (ofSteps steps).edges.Nodup ∧
    (∀ edge ∈ (ofSteps steps).edges,
      edge.1 ∈ (ofSteps steps).names ∧ edge.2 ∈ (ofSteps steps).names) ∧
    (∀ tail head, (ofSteps steps).hasEdge tail head = true ↔ (tail, head) ∈ (ofSteps steps).edges) ∧
    (ofSteps steps).nodeCount = (ofSteps steps).nodes.length ∧
    (ofSteps steps).edgeCount = (ofSteps steps).edges.length ∧
    ∀ later, (ofSteps steps).names <+: ((ofSteps steps).applyAll later).names ∧
      (ofSteps steps).edges <+: ((ofSteps steps).applyAll later).edges := by
  have h := coherent_ofSteps steps
  refine ⟨h, fun name => ?_, h.filter_nodes, ?_, fun edge hedge => ?_, h.hasEdge_iff, rfl,
    h.length_edges.symm, fun later => ?_⟩
  · rw [Option.isSome_iff_ne_none, Ne, h.node?_eq_none_iff, not_not]
  · rw [edges_ofSteps]
    exact nodup_eraseDups _
  · obtain ⟨l, -, htail, hhead⟩ := mem_edges_iff.mp hedge
    exact ⟨List.mem_of_getElem? htail, List.mem_of_getElem? hhead⟩
  · rw [applyAll_ofSteps]
    exact ⟨names_stay steps later, edges_stay steps later⟩

end Store

end Graph

end RoleChart
