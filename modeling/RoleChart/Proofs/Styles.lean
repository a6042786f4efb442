import RoleChart.Proofs.Drawing
import RoleChart.Proofs.Marks
/-!
How the nodes of a registry are drawn. All nodes of a drawing set the same attributes, so a node is
drawn as its last mention says, in a pass over the legend and then over the registry, each role before
its dependencies (`Drawing.node?_graph`).

The legend and the roles share one set of names. The legend stands apart from the roles only as far as
no role has its names.

* `legend_kept_unless_named`: the graph of an expansion has a node for each role and one for each name
  of the legend that is not the name of a role; such a node of the legend is filled with its colour and
  no edge touches it. A name of the legend that is the name of a role is drawn as that role.
* `legend_taken_by_role`: a role named like the legend takes its node, and the legend loses its colour.
-/
namespace RoleChart

open References (names Follows)

namespace Graph

/-- The value of an attribute of a node. -/
def attribute? (g : Graph) (name key : String) : Option String := (g.node? name).bind (·.get? key)

end Graph

/-! ## References that are made -/

namespace References

/-- A reference is one of the roots, or a role that can be reached makes it. -/
def Makes (refs : References) (roots : List Reference) (r : Reference) : Prop :=
  r ∈ roots ∨ ∃ name, refs.Reaches roots name ∧ r ∈ refs name

theorem Follows.makes {refs : References} {once : String → Prop} [DecidablePred once]
    {roots followed : List Reference} (h : Follows refs once [] roots followed) {r : Reference}
    (hr : r ∈ followed) : refs.Makes roots r := by
  rw [h.eq_append_joiningAll] at hr
  rcases List.mem_append.mp hr with hr | hr
  · exact Or.inl hr
  · obtain ⟨before, hbefore, hr⟩ := exists_of_mem_joiningAll hr
    exact Or.inr ⟨before.name, h.reaches hbefore, hr⟩

end References

namespace Source

/-- A reference is declared at the start, or a role that can be reached lists it. -/
def Makes (source : Source) (declarations : List Declaration) (r : Reference) : Prop :=
  source.references.Makes (declarations.map Declaration.reference) r

end Source

namespace Drawing

variable (d : Drawing) (catalog : Catalog) (registry : Registry)

/-! ## The last mention -/

/-- The nodes of the legend with their attributes. -/
def legendNodes : List (String × Attributes) :=
  if d.highlight then
    [(serviceLegend, d.legendAttributes serviceColor),
      (optionalLegend, d.legendAttributes optionalColor)]
  else []

/-- The references that are drawn: each role and then its dependencies, in the order of the
registry. -/
def drawn (roles : List Role) : List Reference :=
  roles.flatMap fun role => role.reference :: role.dependencies

/-- The node of a reference with its attributes. -/
def nodeOf (r : Reference) : String × Attributes := (r.name, d.referenceAttributes catalog r)

/-- The keys of the attributes of a node. -/
def styleKeys : List String :=
  if d.highlight then ["fontname", "style", "fillcolor"] else ["fontname"]

theorem nodup_styleKeys : d.styleKeys.Nodup := by
  unfold styleKeys
  split <;> decide

theorem keys_legendAttributes (color : String) :
    (d.legendAttributes color).keys = ["fontname", "style", "fillcolor"] := rfl

theorem keys_referenceAttributes (r : Reference) :
    (d.referenceAttributes catalog r).keys = d.styleKeys := by
  unfold referenceAttributes styleKeys
  split <;> rfl

theorem additions_frameSteps : d.frameSteps.flatMap Graph.Step.additions = [] := by
  unfold frameSteps
  cases d.label <;> rfl

theorem additions_legendSteps : d.legendSteps.flatMap Graph.Step.additions = d.legendNodes := by
  unfold legendSteps legendNodes
  split <;> rfl

theorem additions_roleSteps (role : Role) :
    (d.roleSteps catalog role).flatMap Graph.Step.additions =
      (role.reference :: role.dependencies).map (d.nodeOf catalog) := by
  rw [roleSteps, List.flatMap_cons, List.flatMap_assoc, List.map_cons]
  have hdependencies : ∀ list : List Reference,
      (list.flatMap fun r => [Graph.Step.addNode r.name (d.referenceAttributes catalog r),
        Graph.Step.addEdge r.name role.name].flatMap Graph.Step.additions) =
        list.map (d.nodeOf catalog) := by
    intro list
    induction list with
    | nil => rfl
    | cons r rest ih =>
      rw [List.flatMap_cons, ih]
      rfl
  rw [hdependencies]
  rfl

theorem additions_steps :
    (d.steps catalog registry).flatMap Graph.Step.additions =
      d.legendNodes ++ (drawn registry.values).map (d.nodeOf catalog) := by
  rw [steps, List.flatMap_append, List.flatMap_append, additions_frameSteps, additions_legendSteps,
    List.nil_append, List.flatMap_assoc, drawn, List.map_flatMap]
  simp only [additions_roleSteps]

theorem keys_of_mem_additions :
    ∀ addition ∈ d.legendNodes ++ (drawn registry.values).map (d.nodeOf catalog),
      addition.2.keys = d.styleKeys := by
  intro addition ha
  rcases List.mem_append.mp ha with ha | ha
  · unfold legendNodes at ha
    unfold styleKeys
    split at ha
    · next hhighlight =>
      rw [if_pos hhighlight]
      rcases List.mem_pair.mp ha with rfl | rfl
      · exact d.keys_legendAttributes serviceColor
      · exact d.keys_legendAttributes optionalColor
    · exact absurd ha List.not_mem_nil
  · obtain ⟨r, -, rfl⟩ := List.mem_map.mp ha
    exact d.keys_referenceAttributes catalog r

theorem names_legendNodes : d.legendNodes.map (·.1) = d.legend := by
  unfold legendNodes legend
  split <;> rfl

theorem mem_drawn_iff {roles : List Role} {r : Reference} :
    r ∈ drawn roles ↔ ∃ role ∈ roles, r = role.reference ∨ r ∈ role.dependencies := by
  simp only [drawn, List.mem_flatMap, List.mem_cons]

/-- The nodes are the names of the legend and of what is drawn. -/
theorem mem_keys_graph_iff_drawn (name : String) :
    name ∈ (d.graph catalog registry).nodes.keys ↔
      name ∈ d.legend ∨ name ∈ names (drawn registry.values) := by
  rw [mem_keys_graph]
  refine or_congr_right ⟨?_, fun h => ?_⟩
  · rintro ⟨role, hrole, rfl | hname⟩
    · exact List.mem_map_of_mem (mem_drawn_iff.mpr ⟨role, hrole, Or.inl rfl⟩)
    · obtain ⟨r, hr, rfl⟩ := List.mem_map.mp hname
      exact List.mem_map_of_mem (mem_drawn_iff.mpr ⟨role, hrole, Or.inr hr⟩)
  · obtain ⟨r, hr, rfl⟩ := List.mem_map.mp h
    obtain ⟨role, hrole, rfl | hr⟩ := mem_drawn_iff.mp hr
    · exact ⟨role, hrole, Or.inl rfl⟩
    · exact ⟨role, hrole, Or.inr (List.mem_map_of_mem hr)⟩

/-- An edge mentions no node that is not added as well. -/
theorem mentions_steps_subset :
    (d.steps catalog registry).flatMap Graph.Step.mentions ⊆
      ((d.steps catalog registry).flatMap Graph.Step.additions).map (·.1) := by
  intro name hname
  rw [← List.mem_eraseDups, ← Graph.keys_ofSteps] at hname
  have hnode := (d.mem_keys_graph_iff_drawn catalog registry name).mp hname
  rw [additions_steps, List.map_append, names_legendNodes, List.map_map]
  exact List.mem_append.mpr hnode

/-- A node is drawn as its last mention says: in the registry, or else in the legend. -/
theorem node?_graph (name : String) :
    (d.graph catalog registry).node? name =
      (((drawn registry.values).findRev? (·.name = name)).map (d.referenceAttributes catalog)).or
        ((d.legendNodes.findRev? (·.1 = name)).map (·.2)) := by
  have hkeys := d.keys_of_mem_additions catalog registry
  rw [← additions_steps] at hkeys
  rw [graph, Graph.node?_ofSteps_of_keys d.nodup_styleKeys hkeys
    (d.mentions_steps_subset catalog registry) name, additions_steps, findRev?_append, findRev?_map,
    Option.map_or, Option.map_map]
  rfl

/-! ## The legend -/

variable {source : Source} {declarations : List Declaration} {mode : ExpansionMode} {limit : Nat}
  {registry}

/-- The registry of an expansion has a role for every name that is drawn. -/
theorem mem_names_drawn_iff
    (h : (Expansion.run source limit mode declarations).outcome = some (.ok registry))
    (name : String) : name ∈ names (drawn registry.values) ↔ name ∈ registry.keys := by
  classical
  obtain ⟨_, followed, _, _, hfollows, rfl⟩ := Expansion.exists_of_outcome_ok h
  constructor
  · intro hname
    obtain ⟨r, hr, rfl⟩ := List.mem_map.mp hname
    obtain ⟨role, hrole, hr⟩ := mem_drawn_iff.mp hr
    obtain ⟨hfollowed, hdependencies⟩ := Registry.eq_follow_of_mem_values hrole
    rw [Registry.mem_keys_ofFollowed]
    rcases hr with rfl | hr
    · exact hfollowed
    · rw [hdependencies] at hr
      have hreached := (hfollows.mem_names_iff role.name).mp hfollowed
      exact (hfollows.mem_names_iff r.name).mpr (hreached.step hr)
  · intro hname
    have hfollowed := (Registry.mem_keys_ofFollowed followed name).mp hname
    obtain ⟨role, hrole, rfl, _⟩ := Registry.exists_mem_values source.references hfollowed
    exact List.mem_map_of_mem (mem_drawn_iff.mpr ⟨role, hrole, Or.inl rfl⟩)

/-- All that is drawn of an expansion is declared or made by a role that can be reached. -/
theorem makes_of_mem_drawn
    (h : (Expansion.run source limit mode declarations).outcome = some (.ok registry))
    {r : Reference} (hr : r ∈ drawn registry.values) : source.Makes declarations r := by
  classical
  obtain ⟨_, followed, _, _, hfollows, rfl⟩ := Expansion.exists_of_outcome_ok h
  obtain ⟨role, hrole, hr⟩ := mem_drawn_iff.mp hr
  rcases hr with rfl | hr
  · exact hfollows.makes (Registry.reference_mem_of_mem_values hrole)
  · obtain ⟨hfollowed, hdependencies⟩ := Registry.eq_follow_of_mem_values hrole
    rw [hdependencies] at hr
    exact Or.inr ⟨role.name, (hfollows.mem_names_iff role.name).mp hfollowed, hr⟩

/-- The node of a role is drawn as some reference to it says: the last one that is drawn. -/
theorem exists_last_drawn
    (h : (Expansion.run source limit mode declarations).outcome = some (.ok registry))
    {name : String} (hname : name ∈ registry.keys) :
    ∃ r, (drawn registry.values).findRev? (·.name = name) = some r ∧ r.name = name ∧
      source.Makes declarations r ∧
      (d.graph catalog registry).node? name = some (d.referenceAttributes catalog r) := by
  obtain ⟨r', hr', hname'⟩ := List.mem_map.mp ((mem_names_drawn_iff h name).mpr hname)
  obtain ⟨r, hlast, hmem, hrname⟩ :=
    exists_findRev?_eq_some (p := (·.name = name)) hr' (decide_eq_true hname')
  refine ⟨r, hlast, of_decide_eq_true hrname, makes_of_mem_drawn h hmem, ?_⟩
  rw [node?_graph, hlast, Option.map_some, Option.some_or]

/-- Both ends of an edge are roles. -/
theorem ends_mem_keys_of_mem_edges
    (h : (Expansion.run source limit mode declarations).outcome = some (.ok registry))
    {edge : String × String} (hedge : edge ∈ (d.graph catalog registry).edges) :
    edge.1 ∈ registry.keys ∧ edge.2 ∈ registry.keys := by
  obtain ⟨role, hrole, hhead, htail⟩ := (d.mem_edges_graph catalog registry edge.1 edge.2).mp hedge
  obtain ⟨r, hr, htail⟩ := List.mem_map.mp htail
  have htail' : r ∈ drawn registry.values := mem_drawn_iff.mpr ⟨role, hrole, Or.inr hr⟩
  have hhead' : role.reference ∈ drawn registry.values :=
    mem_drawn_iff.mpr ⟨role, hrole, Or.inl rfl⟩
  rw [← mem_names_drawn_iff h, ← mem_names_drawn_iff h, ← htail, ← hhead]
  exact ⟨List.mem_map_of_mem htail', List.mem_map_of_mem hhead'⟩

/-- The nodes are the roles, and the names of the legend that are not those of roles. -/
theorem length_keys_graph
    (h : (Expansion.run source limit mode declarations).outcome = some (.ok registry)) :
    (d.graph catalog registry).nodeCount =
      registry.size + (d.legend.filter (· ∉ registry.keys)).length := by
  have hnodup := (Expansion.closure_of_outcome_ok h).1
  have hlegend : d.legend.Nodup := by
    unfold legend
    split <;> decide
  have hall : (registry.keys ++ d.legend.filter (· ∉ registry.keys)).Nodup := by
    refine hnodup.append (hlegend.filter _) fun name hname hfree => ?_
    exact of_decide_eq_true (List.mem_filter.mp hfree).2 hname
  have hperm : (d.graph catalog registry).nodes.keys.Perm
      (registry.keys ++ d.legend.filter (· ∉ registry.keys)) := by
    refine (List.perm_ext_iff_of_nodup (d.nodup_keys_graph catalog registry) hall).mpr ?_
    intro name
    rw [mem_keys_graph_iff_drawn, mem_names_drawn_iff h, List.mem_append, List.mem_filter,
      decide_eq_true_iff]
    tauto
  rw [Graph.nodeCount, Table.size_eq_length_keys, Table.size_eq_length_keys, hperm.length_eq,
    List.length_append]

/-- A name of the legend that no role has is drawn as the legend says. -/
theorem node?_legend (hhighlight : d.highlight = true)
    (h : (Expansion.run source limit mode declarations).outcome = some (.ok registry))
    {name color : String}
    (hentry : (name, color) ∈ [(serviceLegend, serviceColor), (optionalLegend, optionalColor)])
    (hname : name ∉ registry.keys) :
    (d.graph catalog registry).node? name = some (d.legendAttributes color) := by
  have hnone : (drawn registry.values).findRev? (·.name = name) = none := by
    rw [findRev?_eq_none_iff]
    intro r hr hrname
    rw [← mem_names_drawn_iff h, ← of_decide_eq_true hrname] at hname
    exact hname (List.mem_map_of_mem hr)
  rw [node?_graph, hnone, Option.map_none, Option.none_or, legendNodes, if_pos hhighlight]
  rcases List.mem_pair.mp hentry with hentry | hentry
  · obtain ⟨rfl, rfl⟩ := Prod.mk.inj hentry
    rfl
  · obtain ⟨rfl, rfl⟩ := Prod.mk.inj hentry
    rfl

/-- **The legend stands as far as no role takes its names.** The graph of an expansion has a node for
each role and one for each name of the legend that is not the name of a role. Such a node of the legend
is filled with its colour, and no edge touches it. Where a role has a name of the legend, the node is
that of the role, drawn as some reference to the role says. -/
theorem legend_kept_unless_named (source : Source) (declarations : List Declaration)
    (mode : ExpansionMode) (limit : Nat) (registry : Registry) (catalog : Catalog) (d : Drawing)
    (hhighlight : d.highlight = true)
    (h : (Expansion.run source limit mode declarations).outcome = some (.ok registry)) :
    (d.graph catalog registry).nodeCount =
        registry.size + (if serviceLegend ∈ registry.keys then 0 else 1) +
          (if optionalLegend ∈ registry.keys then 0 else 1) ∧
    ∀ entry ∈ [(serviceLegend, serviceColor), (optionalLegend, optionalColor)],
      (entry.1 ∉ registry.keys →
        (d.graph catalog registry).attribute? entry.1 "style" = some "filled" ∧
        (d.graph catalog registry).attribute? entry.1 "fillcolor" = some entry.2 ∧
        ∀ edge ∈ (d.graph catalog registry).edges, edge.1 ≠ entry.1 ∧ edge.2 ≠ entry.1) ∧
      (entry.1 ∈ registry.keys →
        ∃ r, source.Makes declarations r ∧ r.name = entry.1 ∧
          (d.graph catalog registry).node? entry.1 = some (d.referenceAttributes catalog r)) := by
  have hcount := d.length_keys_graph catalog h
  have hlegend : d.legend = [serviceLegend, optionalLegend] := if_pos hhighlight
  refine ⟨?_, fun entry hentry => ⟨fun hfree => ⟨?_, ?_, fun edge hedge => ?_⟩, fun htaken => ?_⟩⟩
  · rw [hcount, hlegend]
    by_cases hservice : serviceLegend ∈ registry.keys <;>
      by_cases hoptional : optionalLegend ∈ registry.keys <;> simp [hservice, hoptional]
  · rw [Graph.attribute?, d.node?_legend catalog hhighlight h hentry hfree]
    rfl
  · rw [Graph.attribute?, d.node?_legend catalog hhighlight h hentry hfree]
    exact Table.get?_set_self _ "fillcolor" entry.2
  · obtain ⟨htail, hhead⟩ := d.ends_mem_keys_of_mem_edges catalog h hedge
    exact ⟨fun heq => hfree (heq ▸ htail), fun heq => hfree (heq ▸ hhead)⟩
  · obtain ⟨r, _, hr, hmakes, hnode⟩ := d.exists_last_drawn catalog h htaken
    exact ⟨r, hmakes, hr, hnode⟩

/-- A role that depends under a condition on one named like the legend. -/
def namesake : Table (List Declaration) := .ofList [("app", [.mapping "Service" true])]

theorem legend_kept_unless_named_namesake :
    ∃ registry : Registry,
      (Expansion.run (Metadata.ofTable namesake) 2 .expandOnce [.bare "app"]).outcome =
        some (.ok registry) ∧
      (highlighted.graph .builtin registry).nodeCount =
          registry.size + (if serviceLegend ∈ registry.keys then 0 else 1) +
            (if optionalLegend ∈ registry.keys then 0 else 1) ∧
      ∀ entry ∈ [(serviceLegend, serviceColor), (optionalLegend, optionalColor)],
        (entry.1 ∉ registry.keys →
          (highlighted.graph .builtin registry).attribute? entry.1 "style" = some "filled" ∧
          (highlighted.graph .builtin registry).attribute? entry.1 "fillcolor" = some entry.2 ∧
          ∀ edge ∈ (highlighted.graph .builtin registry).edges,
            edge.1 ≠ entry.1 ∧ edge.2 ≠ entry.1) ∧
        (entry.1 ∈ registry.keys →
          ∃ r, (Metadata.ofTable namesake).Makes [.bare "app"] r ∧ r.name = entry.1 ∧
            (highlighted.graph .builtin registry).node? entry.1 =
              some (highlighted.referenceAttributes .builtin r)) :=
  ⟨.ofList [("app", ⟨"app", false, [⟨"Service", true⟩]⟩), ("Service", ⟨"Service", true, []⟩)], rfl,
    legend_kept_unless_named (Metadata.ofTable namesake) [.bare "app"] .expandOnce 2 _ .builtin
      highlighted rfl rfl⟩

/-- A role named like the legend takes its node: no node is added for it, and the colour of the legend
is gone. -/
theorem legend_taken_by_role :
    ∃ registry : Registry,
      (Expansion.run (Metadata.ofTable .empty) 1 .expandOnce [.bare "Service"]).outcome =
        some (.ok registry) ∧
      (highlighted.graph .builtin registry).nodeCount ≠ registry.size + 2 ∧
      (highlighted.graph .builtin registry).attribute? serviceLegend "fillcolor" ≠
        some serviceColor := by
  refine ⟨.ofList [("Service", ⟨"Service", false, []⟩)], rfl, by decide, ?_⟩
  have hcatalog : Catalog.builtin.contains "Service" = false := by
    rw [Catalog.contains, Bool.eq_false_iff, Ne, List.contains_iff_mem, Catalog.builtin,
      Catalog.mem_names_ofList]
    decide
  have hcolor : Reference.fillColor .builtin ⟨"Service", false⟩ = noColor := by
    simp [Reference.fillColor, hcatalog]
  change some (Reference.fillColor .builtin ⟨"Service", false⟩) ≠ some serviceColor
  rw [hcolor]
  decide

end Drawing

end RoleChart
