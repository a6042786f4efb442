import RoleChart.Proofs.Store
/-!
What a list of steps builds, read off the steps. The nodes are the names that the steps mention, in the
order of their first mention, each with what the additions of its name give it; the edges are the pairs
that they join, in the order in which they were first joined (`Proofs/Graph`). The attributes of the graph
are set one after the other (`graphAttributes_ofSteps`), and of those given to all edges the last stay
(`edgeAttributes_ofSteps`).

* `store_eq_steps`: the whole store of a list of steps, and the number that each added node answers with,
  in terms of the steps alone.
-/
namespace RoleChart

/-- In a list without repetition the place of an entry is where it stands. -/
theorem idxOf?_of_getElem? {α : Type} [BEq α] [LawfulBEq α] {list : List α} {n : Nat} {a : α}
    (h : list.Nodup) (hn : list[n]? = some a) : list.idxOf? a = some n := by
  obtain ⟨hlt, heq⟩ := List.getElem?_eq_some_iff.mp hn
  refine List.idxOf?_eq_some_iff.mpr ⟨hlt, heq, fun m hm hother => ?_⟩
  have hsame : m = n := h.getElem_inj_iff.mp (hother.trans heq.symm)
  exact Nat.ne_of_lt hm hsame

namespace Graph

namespace Step

/-- The attribute of the graph as a whole that a step sets. -/
def graphSettings : Step → List (String × String)
  | .addNode _ _ => []
  | .addEdge _ _ => []
  | .graphAttribute key value => [(key, value)]
  | .edgeAttributes _ => []

/-- The attributes that a step gives to all edges. -/
def edgeSettings : Step → List Attributes
  | .addNode _ _ => []
  | .addEdge _ _ => []
  | .graphAttribute _ _ => []
  | .edgeAttributes attributes => [attributes]

theorem mem_additions_iff {s : Step} {name : String} {attributes : Attributes} :
    (name, attributes) ∈ s.additions ↔ s = .addNode name attributes := by
  cases s <;> simp [additions, eq_comm]

end Step

/-! ## Attributes of the graph and of its edges -/

theorem settings_addNode (g : Graph) (name : String) (attributes : Attributes) :
    (g.addNode name attributes).graphAttributes = g.graphAttributes ∧
      (g.addNode name attributes).edgeAttributes = g.edgeAttributes := by
  unfold addNode
  split <;> exact ⟨rfl, rfl⟩

theorem settings_mention (g : Graph) (name : String) :
    (g.mention name).graphAttributes = g.graphAttributes ∧
      (g.mention name).edgeAttributes = g.edgeAttributes := by
  unfold mention
  split
  · exact ⟨rfl, rfl⟩
  · exact settings_addNode g name .empty

theorem settings_addEdge (g : Graph) (tail head : String) :
    (g.addEdge tail head).graphAttributes = g.graphAttributes ∧
      (g.addEdge tail head).edgeAttributes = g.edgeAttributes := by
  obtain ⟨hgraph, hedge⟩ := settings_mention g tail
  obtain ⟨hgraph', hedge'⟩ := settings_mention (g.mention tail) head
  unfold addEdge
  dsimp only
  split <;> exact ⟨hgraph'.trans hgraph, hedge'.trans hedge⟩

/-- A step sets what it sets of the graph, and replaces what all edges have by what it gives them. -/
theorem settings_apply (g : Graph) (s : Step) :
    (s.apply g).graphAttributes = g.graphAttributes.setAll s.graphSettings ∧
      (s.apply g).edgeAttributes = s.edgeSettings.getLastD g.edgeAttributes := by
  cases s with
  | addNode name attributes => exact settings_addNode g name attributes
  | addEdge tail head => exact settings_addEdge g tail head
  | graphAttribute key value => exact ⟨rfl, rfl⟩
  | edgeAttributes attributes => exact ⟨rfl, rfl⟩

theorem graphAttributes_ofSteps (steps : List Step) :
    (ofSteps steps).graphAttributes = .ofList (steps.flatMap Step.graphSettings) := by
  induction steps using List.reverseRecOn with
  | nil => rfl
  | append_singleton steps s ih =>
    rw [ofSteps_concat, (settings_apply _ s).1, ih, List.flatMap_append, List.flatMap_singleton,
      Table.ofList, Table.ofList, Table.setAll, Table.setAll, Table.setAll, List.foldl_append]

theorem edgeAttributes_ofSteps (steps : List Step) :
    (ofSteps steps).edgeAttributes = (steps.flatMap Step.edgeSettings).getLastD .empty := by
  induction steps using List.reverseRecOn with
  | nil => rfl
  | append_singleton steps s ih =>
    rw [ofSteps_concat, (settings_apply _ s).2, ih, List.flatMap_append, List.flatMap_singleton,
      List.getLastD_eq_getLast?, List.getLastD_eq_getLast?, List.getLastD_eq_getLast?,
      List.getLast?_append, Option.getD_or]

end Graph

namespace Graph.Store

/-! ## Nodes and their numbers -/

/-- The nodes are the names in the order of their first mention, each with all that it is given. -/
theorem nodes_ofSteps {steps : List Step}
    (h : ∀ addition ∈ steps.flatMap Step.additions, addition.2.keys.Nodup) :
    (ofSteps steps).nodes =
      (steps.flatMap Step.mentions).eraseDups.map fun name =>
        ⟨name, (givenTo name (steps.flatMap Step.additions)).foldl Table.merge .empty⟩ := by
  have hkeys : (Graph.ofSteps steps).nodes.keys = (steps.flatMap Step.mentions).eraseDups :=
    keys_ofSteps steps
  have hnodup : (Graph.ofSteps steps).nodes.keys.Nodup := hkeys ▸ nodup_eraseDups _
  have hvalue : ∀ name ∈ (Graph.ofSteps steps).nodes.keys,
      (Graph.ofSteps steps).nodes.get? name =
        some ((givenTo name (steps.flatMap Step.additions)).foldl Table.merge .empty) := by
    intro name hname
    rw [hkeys, List.mem_eraseDups] at hname
    have hnode := node?_ofSteps h name
    rwa [if_pos hname] at hnode
  have hentries : (ofSteps steps).nodes.map (fun node => (node.name, node.attributes)) =
      (steps.flatMap Step.mentions).eraseDups.map fun name =>
        (name, (givenTo name (steps.flatMap Step.additions)).foldl Table.merge .empty) := by
    rw [← hkeys, ← Table.entries_eq_map_keys hnodup hvalue, ← toGraph_ofSteps]
    rfl
  have hnodes := congrArg (List.map fun entry => (⟨entry.1, entry.2⟩ : Node)) hentries
  rw [List.map_map, List.map_map] at hnodes
  exact (List.map_id _).symm.trans hnodes

/-- The number that an added node answers with is the place of its name among all the names that are
ever mentioned. -/
theorem idxOf?_names {steps before after : List Step} {name : String} {attributes : Attributes}
    (hsteps : steps = before ++ .addNode name attributes :: after) :
    (steps.flatMap Step.mentions).eraseDups.idxOf? name =
      some ((ofSteps before).addNode name attributes).1 := by
  have hsplit : steps = (before ++ [.addNode name attributes]) ++ after := by
    rw [hsteps, List.append_assoc, List.singleton_append]
  -- The answer is the place among the names so far, and later steps only put names behind these.
  have hnumber := ((coherent_ofSteps before).addNode name attributes).2
  have hafter : ofSteps (before ++ [.addNode name attributes]) =
      ((ofSteps before).addNode name attributes).2 := ofSteps_concat before _
  obtain ⟨rest, hrest⟩ := names_stay (before ++ [.addNode name attributes]) after
  rw [← hsplit, hafter] at hrest
  have hlt := (List.getElem?_eq_some_iff.mp hnumber).1
  rw [← names_ofSteps, ← hrest]
  refine idxOf?_of_getElem? (hrest ▸ (coherent_ofSteps steps).nodup_names) ?_
  rw [List.getElem?_append_left hlt, hnumber]

/-- **A store is a function of its steps.** The nodes are the names that the steps mention, an edge its
tail before its head, in the order of their first mention; a node has what the additions of its name give
it, merged from left to right, and nothing from edges. The edges are the pairs that the steps join, in the
order in which they were first joined. The attributes of the graph are those set one after the other from
none, and all edges have those that were given to them last. Every addition of a node, wherever it stands
among the steps, answers with the place of its name among the nodes. The graph of the steps is the store
read by names. -/
theorem store_eq_steps (steps : List Step)
    (h : ∀ name attributes, .addNode name attributes ∈ steps → attributes.keys.Nodup) :
    (ofSteps steps).nodes =
      ((steps.flatMap Step.mentions).eraseDups.map fun name =>
        ⟨name, (givenTo name (steps.flatMap Step.additions)).foldl Table.merge .empty⟩) ∧
    (ofSteps steps).edges = (steps.flatMap Step.pairs).eraseDups ∧
    (ofSteps steps).graphAttributes = .ofList (steps.flatMap Step.graphSettings) ∧
    (ofSteps steps).edgeAttributes = (steps.flatMap Step.edgeSettings).getLastD .empty ∧
    (∀ before name attributes after, steps = before ++ .addNode name attributes :: after →
      (steps.flatMap Step.mentions).eraseDups.idxOf? name =
        some ((ofSteps before).addNode name attributes).1) ∧
    (ofSteps steps).toGraph = Graph.ofSteps steps := by
  have hadditions : ∀ addition ∈ steps.flatMap Step.additions, addition.2.keys.Nodup := by
    rintro ⟨name, attributes⟩ haddition
    obtain ⟨s, hs, hmem⟩ := List.mem_flatMap.mp haddition
    exact h name attributes (Step.mem_additions_iff.mp hmem ▸ hs)
  refine ⟨nodes_ofSteps hadditions, edges_ofSteps steps, ?_, ?_,
    fun _ _ _ _ hsteps => idxOf?_names hsteps, toGraph_ofSteps steps⟩
  · rw [← graphAttributes_ofSteps, ← toGraph_ofSteps]
    rfl
  · rw [← edgeAttributes_ofSteps, ← toGraph_ofSteps]
    rfl

/-- Nodes that are born at both ends of edges and given attributes afterwards, with settings in
between that are made twice. -/
def woven : List Step :=
  [.addEdge "app" "app", .addNode "db" (.ofList [("style", "filled")]), .graphAttribute "label" "one",
    .edgeAttributes (.ofList [("dir", "back")]), .addEdge "web" "db",
    .addNode "app" (.ofList [("shape", "box"), ("style", "bold")]),
    .addNode "db" (.ofList [("color", "red"), ("style", "")]), .addEdge "app" "app",
    .graphAttribute "label" "two", .edgeAttributes .empty, .addEdge "db" "web"]

theorem store_eq_steps_woven :
    (∀ name attributes, .addNode name attributes ∈ woven → attributes.keys.Nodup) ∧
    (ofSteps woven).nodes =
      ((woven.flatMap Step.mentions).eraseDups.map fun name =>
        ⟨name, (givenTo name (woven.flatMap Step.additions)).foldl Table.merge .empty⟩) ∧
    (ofSteps woven).edges = (woven.flatMap Step.pairs).eraseDups ∧
    (ofSteps woven).graphAttributes = .ofList (woven.flatMap Step.graphSettings) ∧
    (ofSteps woven).edgeAttributes = (woven.flatMap Step.edgeSettings).getLastD .empty ∧
    (∀ before name attributes after, woven = before ++ .addNode name attributes :: after →
      (woven.flatMap Step.mentions).eraseDups.idxOf? name =
        some ((ofSteps before).addNode name attributes).1) ∧
    (ofSteps woven).toGraph = Graph.ofSteps woven := by
  have hall : ∀ s ∈ woven, ∀ addition ∈ s.additions, addition.2.keys.Nodup := by decide
  have h : ∀ name attributes, .addNode name attributes ∈ woven → attributes.keys.Nodup :=
    fun name attributes hmem => hall _ hmem (name, attributes) (List.mem_singleton_self _)
  exact ⟨h, store_eq_steps woven h⟩

-- `app` is born by an edge to itself and `web` by one to `db`; only what additions give them stays.
example :
    (ofSteps woven).nodes =
      [⟨"app", .ofList [("shape", "box"), ("style", "bold")]⟩,
        ⟨"db", .ofList [("style", ""), ("color", "red")]⟩, ⟨"web", .empty⟩] ∧
    (ofSteps woven).edges = [("app", "app"), ("web", "db"), ("db", "web")] := by decide

end Graph.Store

end RoleChart
