import RoleChart.Graph
import RoleChart.Proofs.Table
/-!
Graphs that a list of steps builds. A step mentions nodes and joins pairs of them
(`Graph.Step.mentions`, `Graph.Step.pairs`). The nodes of the graph are the names mentioned, in the
order of their first mention (`keys_ofSteps`), and its edges the pairs joined, in the order in which
they were first joined (`edges_ofSteps`); neither holds anything twice. A node has the attributes that
the additions of its name give it, merged from left to right (`node?_ofSteps`); where all of them set
the same keys, the last one replaces the others (`node?_ofSteps_of_keys`).
-/
namespace RoleChart

namespace Graph

namespace Step

/-- The names of the nodes that a step mentions, in order. -/
def mentions : Step → List String
  | .addNode name _ => [name]
  | .addEdge tail head => [tail, head]
  | .graphAttribute _ _ => []
  | .edgeAttributes _ => []

/-- The node that a step adds, with the attributes that it gives it. An edge gives its ends none. -/
def additions : Step → List (String × Attributes)
  | .addNode name attributes => [(name, attributes)]
  | .addEdge _ _ => []
  | .graphAttribute _ _ => []
  | .edgeAttributes _ => []

/-- The edge that a step adds, as a pair of tail and head. -/
def pairs : Step → List (String × String)
  | .addNode _ _ => []
  | .addEdge tail head => [(tail, head)]
  | .graphAttribute _ _ => []
  | .edgeAttributes _ => []

end Step

/-! ## Nodes -/

theorem keys_addNode (g : Graph) (name : String) (attributes : Attributes) :
    (g.addNode name attributes).nodes.keys =
      if name ∈ g.nodes.keys then g.nodes.keys else g.nodes.keys ++ [name] := by
  unfold addNode
  split
  · exact Table.keys_set g.nodes name _
  · exact Table.keys_set g.nodes name attributes

theorem keys_mention (g : Graph) (name : String) :
    (g.mention name).nodes.keys =
      if name ∈ g.nodes.keys then g.nodes.keys else g.nodes.keys ++ [name] := by
  unfold mention
  by_cases h : name ∈ g.nodes.keys
  · rw [if_pos ((g.nodes.contains_iff name).mpr h), if_pos h]
  · rw [if_neg (mt (g.nodes.contains_iff name).mp h), keys_addNode]

theorem nodes_addEdge (g : Graph) (tail head : String) :
    (g.addEdge tail head).nodes = ((g.mention tail).mention head).nodes := by
  unfold addEdge
  dsimp only
  split <;> rfl

/-- A name that is mentioned becomes the last node, unless it is one already. -/
theorem keys_apply_concat {g g' : Graph} {name : String} {before : List String}
    (h : g.nodes.keys = before.eraseDups)
    (h' : g'.nodes.keys =
      if name ∈ g.nodes.keys then g.nodes.keys else g.nodes.keys ++ [name]) :
    g'.nodes.keys = (before ++ [name]).eraseDups := by
  rw [h', h, eraseDups_concat]
  simp only [List.mem_eraseDups]

/-- A step adds the names that it mentions. -/
theorem keys_apply {g : Graph} {before : List String} (h : g.nodes.keys = before.eraseDups)
    (s : Step) : (s.apply g).nodes.keys = (before ++ s.mentions).eraseDups := by
  cases s with
  | addNode name attributes => exact keys_apply_concat h (keys_addNode g name attributes)
  | addEdge tail head =>
    have htail := keys_apply_concat h (keys_mention g tail)
    have hhead := keys_apply_concat htail (keys_mention (g.mention tail) head)
    rw [List.append_assoc] at hhead
    exact (congrArg Table.keys (nodes_addEdge g tail head)).trans hhead
  | graphAttribute key value => rwa [Step.mentions, List.append_nil]
  | edgeAttributes attributes => rwa [Step.mentions, List.append_nil]

theorem ofSteps_concat (steps : List Step) (s : Step) :
    ofSteps (steps ++ [s]) = s.apply (ofSteps steps) := by
  simp [ofSteps, applyAll, List.foldl_append]

/-- The nodes stand in the order of their first mention. -/
theorem keys_ofSteps (steps : List Step) :
    (ofSteps steps).nodes.keys = (steps.flatMap Step.mentions).eraseDups := by
  induction steps using List.reverseRecOn with
  | nil => rfl
  | append_singleton steps s ih =>
    rw [ofSteps_concat, List.flatMap_append, List.flatMap_singleton]
    exact keys_apply ih s

/-! ## Attributes of nodes -/

theorem node?_eq_none_iff (g : Graph) (name : String) : g.node? name = none ↔ name ∉ g.nodes.keys :=
  g.nodes.get?_eq_none_iff name

/-- A node that is added merges what it is given over what it has, if it is there already. -/
theorem node?_addNode (g : Graph) (name : String) {attributes : Attributes}
    (h : attributes.keys.Nodup) (other : String) :
    (g.addNode name attributes).node? other =
      if other = name then some (((g.node? name).getD .empty).merge attributes)
      else g.node? other := by
  unfold addNode node?
  cases g.nodes.get? name with
  | some old => exact Table.get?_set g.nodes name other _
  | none =>
    rw [Option.getD_none, Table.empty_merge h]
    exact Table.get?_set g.nodes name other attributes

theorem node?_mention (g : Graph) (name other : String) :
    (g.mention name).node? other =
      if other = name then some ((g.node? name).getD .empty) else g.node? other := by
  have hempty : Table.keys (.empty : Attributes) = [] := rfl
  unfold mention
  by_cases hname : name ∈ g.nodes.keys
  · rw [if_pos ((g.nodes.contains_iff name).mpr hname)]
    by_cases h : other = name
    · obtain ⟨old, hold⟩ := Option.isSome_iff_exists.mp ((g.nodes.get?_isSome_iff name).mpr hname)
      have hnode : g.node? name = some old := hold
      rw [if_pos h, h, hnode, Option.getD_some]
    · rw [if_neg h]
  · have hnode : g.node? name = none := (g.node?_eq_none_iff name).mpr hname
    rw [if_neg (mt (g.nodes.contains_iff name).mp hname),
      node?_addNode g name (by rw [hempty]; exact List.nodup_nil), hnode, Option.getD_none]
    rfl

/-- What a list of additions gives to a node, in order. -/
def givenTo (name : String) (additions : List (String × Attributes)) : List Attributes :=
  (additions.filter (·.1 = name)).map (·.2)

theorem givenTo_append (name : String) (front rest : List (String × Attributes)) :
    givenTo name (front ++ rest) = givenTo name front ++ givenTo name rest := by
  simp only [givenTo, List.filter_append, List.map_append]

theorem getLast?_givenTo (name : String) (additions : List (String × Attributes)) :
    (givenTo name additions).getLast? = (additions.findRev? (·.1 = name)).map (·.2) := by
  rw [givenTo, List.getLast?_map, List.findRev?_eq_find?_reverse, ← List.head?_filter,
    List.filter_reverse, List.head?_reverse]

theorem givenTo_of_notMem {name : String} {additions : List (String × Attributes)}
    (h : name ∉ additions.map (·.1)) : givenTo name additions = [] := by
  rw [givenTo, List.map_eq_nil_iff, List.filter_eq_nil_iff]
  intro addition ha hname
  rw [← of_decide_eq_true hname] at h
  exact h (List.mem_map_of_mem ha)

theorem additions_subset_mentions (s : Step) : s.additions.map (·.1) ⊆ s.mentions := by
  cases s <;> simp [Step.additions, Step.mentions]

theorem flatMap_additions_subset (steps : List Step) :
    (steps.flatMap Step.additions).map (·.1) ⊆ steps.flatMap Step.mentions := by
  intro name hname
  rw [List.map_flatMap] at hname
  obtain ⟨s, hs, hname⟩ := List.mem_flatMap.mp hname
  exact List.mem_flatMap.mpr ⟨s, hs, additions_subset_mentions s hname⟩

/-- A step merges what it gives to the nodes that it mentions over what they have. -/
theorem node?_apply (g : Graph) {s : Step} (h : ∀ addition ∈ s.additions, addition.2.keys.Nodup)
    (name : String) :
    (s.apply g).node? name =
      if name ∈ s.mentions then
        some ((givenTo name s.additions).foldl Table.merge ((g.node? name).getD .empty))
      else g.node? name := by
  cases s with
  | addNode other attributes =>
    have hnodup := h (other, attributes) (List.mem_singleton_self _)
    have hadded := node?_addNode g other hnodup name
    simp only [Step.apply, Step.mentions, Step.additions, List.mem_singleton]
    rw [hadded]
    by_cases hname : name = other
    · subst hname
      simp [givenTo]
    · rw [if_neg hname, if_neg hname]
  | addEdge tail head =>
    have hnodes : (g.addEdge tail head).node? name = ((g.mention tail).mention head).node? name :=
      congrArg (Table.get? · name) (nodes_addEdge g tail head)
    simp only [Step.apply, Step.mentions, Step.additions, List.mem_cons, List.not_mem_nil, or_false]
    rw [hnodes, node?_mention, node?_mention, node?_mention]
    by_cases htail : name = tail
    · subst htail
      by_cases hhead : name = head
      · subst hhead
        simp [givenTo]
      · simp [hhead, givenTo]
    · by_cases hhead : name = head
      · subst hhead
        simp [htail, givenTo]
      · simp [htail, hhead]
  | graphAttribute key value => rfl
  | edgeAttributes attributes => rfl

/-- A node has what it is given, merged from left to right. -/
theorem node?_ofSteps {steps : List Step}
    (h : ∀ addition ∈ steps.flatMap Step.additions, addition.2.keys.Nodup) (name : String) :
    (ofSteps steps).node? name =
      if name ∈ steps.flatMap Step.mentions then
        some ((givenTo name (steps.flatMap Step.additions)).foldl Table.merge .empty)
      else none := by
  induction steps using List.reverseRecOn with
  | nil => rfl
  | append_singleton steps s ih =>
    rw [List.flatMap_append, List.flatMap_singleton] at h
    have hbefore := ih fun addition ha => h addition (List.mem_append_left _ ha)
    have hstep := node?_apply (ofSteps steps)
      (fun addition ha => h addition (List.mem_append_right _ ha)) name
    rw [ofSteps_concat, hstep, hbefore, List.flatMap_append, List.flatMap_append,
      List.flatMap_singleton, List.flatMap_singleton, givenTo_append, List.foldl_append]
    by_cases hname : name ∈ steps.flatMap Step.mentions
    · by_cases hs : name ∈ s.mentions
      · rw [if_pos hname, if_pos hs, if_pos (List.mem_append_right _ hs), Option.getD_some]
      · have hnone := givenTo_of_notMem (mt (@additions_subset_mentions s name) hs)
        rw [if_pos hname, if_neg hs, if_pos (List.mem_append_left _ hname), hnone, List.foldl_nil]
    · have hnone := givenTo_of_notMem (mt (@flatMap_additions_subset steps name) hname)
      rw [if_neg hname, hnone, Option.getD_none, List.foldl_nil]
      simp only [List.mem_append, hname, false_or]

/-- Where all that is given sets the same keys, and no node is mentioned by edges alone, a node has what
the last addition gives it. -/
theorem node?_ofSteps_of_keys {steps : List Step} {keys : List String} (hnodup : keys.Nodup)
    (hkeys : ∀ addition ∈ steps.flatMap Step.additions, addition.2.keys = keys)
    (hadded : steps.flatMap Step.mentions ⊆ (steps.flatMap Step.additions).map (·.1))
    (name : String) :
    (ofSteps steps).node? name =
      ((steps.flatMap Step.additions).findRev? (·.1 = name)).map (·.2) := by
  have hgiven : ∀ attributes ∈ givenTo name (steps.flatMap Step.additions),
      attributes.keys = keys := by
    intro attributes ha
    obtain ⟨addition, haddition, rfl⟩ := List.mem_map.mp ha
    exact hkeys addition (List.mem_of_mem_filter haddition)
  rw [node?_ofSteps fun addition ha => hkeys addition ha ▸ hnodup,
    Table.foldl_merge_of_keys_eq hnodup hgiven, getLast?_givenTo]
  by_cases hname : name ∈ steps.flatMap Step.mentions
  · obtain ⟨addition, haddition, hfirst⟩ := List.mem_map.mp (hadded hname)
    obtain ⟨last, hlast, -⟩ :=
      exists_findRev?_eq_some (p := (·.1 = name)) haddition (decide_eq_true hfirst)
    rw [if_pos hname, hlast]
    rfl
  · have hnone := givenTo_of_notMem (mt (@flatMap_additions_subset steps name) hname)
    rw [if_neg hname, ← getLast?_givenTo, hnone]
    rfl

/-! ## Edges -/

theorem edges_addNode (g : Graph) (name : String) (attributes : Attributes) :
    (g.addNode name attributes).edges = g.edges := by
  unfold addNode
  split <;> rfl

theorem edges_mention (g : Graph) (name : String) : (g.mention name).edges = g.edges := by
  unfold mention
  split
  · rfl
  · exact edges_addNode g name .empty

theorem edges_addEdge (g : Graph) (tail head : String) :
    (g.addEdge tail head).edges =
      if (tail, head) ∈ g.edges then g.edges else g.edges ++ [(tail, head)] := by
  have hkept : ((g.mention tail).mention head).edges = g.edges := by
    rw [edges_mention, edges_mention]
  unfold addEdge
  dsimp only
  rw [hkept]
  simp only [List.contains_iff_mem]
  split
  · exact hkept
  · rfl

/-- A step adds the edge that it joins, unless it is there already. -/
theorem edges_apply {g : Graph} {before : List (String × String)}
    (h : g.edges = before.eraseDups) (s : Step) :
    (s.apply g).edges = (before ++ s.pairs).eraseDups := by
  cases s with
  | addNode name attributes =>
    rw [Step.pairs, List.append_nil, ← h]
    exact edges_addNode g name attributes
  | addEdge tail head =>
    rw [Step.pairs, eraseDups_concat, ← h]
    simp only [← List.mem_eraseDups (l := before), ← h]
    exact edges_addEdge g tail head
  | graphAttribute key value => rwa [Step.pairs, List.append_nil]
  | edgeAttributes attributes => rwa [Step.pairs, List.append_nil]

/-- The edges stand in the order in which they were first joined. -/
theorem edges_ofSteps (steps : List Step) :
    (ofSteps steps).edges = (steps.flatMap Step.pairs).eraseDups := by
  induction steps using List.reverseRecOn with
  | nil => rfl
  | append_singleton steps s ih =>
    rw [ofSteps_concat, List.flatMap_append, List.flatMap_singleton]
    exact edges_apply ih s

end Graph

end RoleChart
