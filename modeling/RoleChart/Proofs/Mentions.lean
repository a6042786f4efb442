import RoleChart.Proofs.Styles
/-!
The graph of a registry by mentions. A pass over the legend and then over the registry, each role before
its dependencies, mentions the nodes (`Drawing.mentions`). A mention says by itself how its node is drawn
(`Mention.style`): all mentions of a drawing set the same attributes in the same order
(`keys_style`), which is why a node that is added again has nothing left of what was said before.

* `graph_by_mentions`: the nodes are the names mentioned, in the order of their first mention, each drawn
  as its last mention says, and the edges lead from each dependency to its role, in the order in which they
  come up first.
-/
namespace RoleChart

open References (names)

namespace Drawing

/-- A mention of a node: an entry of the legend with its colour, or a reference to a role. -/
inductive Mention where
  | legend (name color : String)
  | role (reference : Reference)

namespace Mention

/-- The name of the node that is mentioned. -/
def name : Mention → String
  | .legend name _ => name
  | .role reference => reference.name

/-- How a mention by itself says that its node is drawn. -/
def style (d : Drawing) (catalog : Catalog) : Mention → Attributes
  | .legend _ color => ⟨[("fontname", d.font), ("style", "filled"), ("fillcolor", color)]⟩
  | .role r =>
    if d.highlight then
      ⟨[("fontname", d.font), ("style", (r.fillStyle catalog).text),
        ("fillcolor", r.fillColor catalog)]⟩
    else ⟨[("fontname", d.font)]⟩

end Mention

variable (d : Drawing) (catalog : Catalog) (registry : Registry)

/-- The mentions of a registry: the legend, where it is drawn, and then each role and its dependencies. -/
def mentions : List Mention :=
  (if d.highlight then
    [.legend serviceLegend serviceColor, .legend optionalLegend optionalColor] else []) ++
    registry.values.flatMap fun role =>
      .role role.reference :: role.dependencies.map .role

/-! ## Styles -/

theorem referenceAttributes_eq_style (r : Reference) :
    d.referenceAttributes catalog r = (Mention.role r).style d catalog := by
  unfold referenceAttributes Mention.style
  split <;> rfl

theorem map_mention_drawn (roles : List Role) :
    (roles.flatMap fun role => Mention.role role.reference :: role.dependencies.map Mention.role) =
      (drawn roles).map .role := by
  rw [drawn, List.map_flatMap]
  rfl

/-- The additions of the steps are the mentions with their styles. -/
theorem additions_eq_mentions :
    (d.steps catalog registry).flatMap Graph.Step.additions =
      (d.mentions registry).map fun m => (m.name, m.style d catalog) := by
  have hlegend : d.legendNodes =
      (if d.highlight then
        [Mention.legend serviceLegend serviceColor, .legend optionalLegend optionalColor]
      else []).map fun m => (m.name, m.style d catalog) := by
    unfold legendNodes
    split <;> rfl
  have hroles : (drawn registry.values).map (d.nodeOf catalog) =
      ((drawn registry.values).map Mention.role).map fun m => (m.name, m.style d catalog) := by
    rw [List.map_map]
    refine List.map_congr_left fun r _ => ?_
    exact congrArg (Prod.mk r.name) (d.referenceAttributes_eq_style catalog r)
  rw [additions_steps, hlegend, hroles, mentions, map_mention_drawn, List.map_append]

/-! ## The order of the nodes -/

theorem mentions_roleSteps (role : Role) :
    (d.roleSteps catalog role).flatMap Graph.Step.mentions =
      role.name :: role.dependencies.flatMap fun r => [r.name, r.name, role.name] := by
  rw [roleSteps, List.flatMap_cons, List.flatMap_assoc]
  rfl

/-- The edges from the dependencies of a role to the role mention no new names. -/
theorem eraseDups_dependencies {front : List String} {name : String} (hname : name ∈ front)
    (references : List Reference) :
    (front ++ references.flatMap fun r => [r.name, r.name, name]).eraseDups =
      (front ++ names references).eraseDups := by
  induction references generalizing front with
  | nil => rfl
  | cons r rest ih =>
    have hadded : (front ++ [r.name, r.name, name]).eraseDups = (front ++ [r.name]).eraseDups := by
      have hsubset : [r.name, name] ⊆ front ++ [r.name] := by
        simp [hname]
      have hsplit : front ++ [r.name, r.name, name] = front ++ [r.name] ++ [r.name, name] := by
        rw [List.append_assoc, List.singleton_append]
      rw [hsplit, eraseDups_append_of_subset hsubset]
    rw [List.flatMap_cons, ← List.append_assoc, eraseDups_append_congr hadded,
      ih (List.mem_append_left _ hname), List.append_assoc]
    rfl

theorem eraseDups_roles (front : List String) (roles : List Role) :
    (front ++ roles.flatMap fun role =>
      (d.roleSteps catalog role).flatMap Graph.Step.mentions).eraseDups =
      (front ++ names (drawn roles)).eraseDups := by
  induction roles generalizing front with
  | nil => rfl
  | cons role rest ih =>
    have hrole : (front ++ (d.roleSteps catalog role).flatMap Graph.Step.mentions).eraseDups =
        (front ++ role.name :: names role.dependencies).eraseDups := by
      rw [mentions_roleSteps, List.append_cons, List.append_cons front _ (names role.dependencies)]
      exact eraseDups_dependencies (List.mem_append_right _ (List.mem_singleton_self _)) _
    have hdrawn : names (drawn (role :: rest)) =
        (role.name :: names role.dependencies) ++ names (drawn rest) := by
      rw [drawn, List.flatMap_cons, names, List.map_append]
      rfl
    rw [List.flatMap_cons, ← List.append_assoc, ih, eraseDups_append_congr hrole,
      List.append_assoc, ← hdrawn]

/-- The nodes stand in the order of their first mention. -/
theorem keys_graph :
    (d.graph catalog registry).nodes.keys = ((d.mentions registry).map Mention.name).eraseDups := by
  have hnames : (d.mentions registry).map Mention.name = d.legend ++ names (drawn registry.values) := by
    rw [mentions, map_mention_drawn, List.map_append, List.map_map, legend]
    split <;> rfl
  rw [hnames, ← eraseDups_roles d catalog, graph, Graph.keys_ofSteps, steps, List.flatMap_append,
    List.flatMap_append, mentions_frameSteps, mentions_legendSteps, List.nil_append,
    List.flatMap_assoc]

/-! ## The last mention -/

/-- A node is drawn as its last mention says. -/
theorem node?_eq_last_mention (name : String) :
    (d.graph catalog registry).node? name =
      ((d.mentions registry).findRev? (·.name = name)).map (Mention.style d catalog) := by
  have hkeys := d.keys_of_mem_additions catalog registry
  rw [← additions_steps] at hkeys
  rw [graph, Graph.node?_ofSteps_of_keys d.nodup_styleKeys hkeys
    (d.mentions_steps_subset catalog registry) name, additions_eq_mentions, findRev?_map,
    Option.map_map]
  rfl

/-- **A graph is drawn by mentions.** The mentions of a registry are the entries of the legend, where it
is drawn, and then for each role in the order of the registry the role and its dependencies in order. The
nodes are the names that are mentioned, in the order of their first mention. The attributes of a node are
exactly those that its last mention gives by itself, in their order, whatever the mentions before it say.
The edges are the pairs of a dependency and its role, in the order in which they first come up. -/
theorem graph_by_mentions (d : Drawing) (catalog : Catalog) (registry : Registry) :
    (d.graph catalog registry).nodes.keys = ((d.mentions registry).map Mention.name).eraseDups ∧
    (∀ name ∈ (d.graph catalog registry).nodes.keys, ∃ before m after,
      d.mentions registry = before ++ m :: after ∧ m.name = name ∧
      name ∉ after.map Mention.name ∧
      (d.graph catalog registry).node? name = some (m.style d catalog)) ∧
    (d.graph catalog registry).edges =
      (registry.values.flatMap fun role =>
        role.dependencies.map fun r => (r.name, role.name)).eraseDups := by
  refine ⟨d.keys_graph catalog registry, fun name hname => ?_, d.edges_graph catalog registry⟩
  rw [keys_graph, List.mem_eraseDups] at hname
  obtain ⟨m', hm', hname'⟩ := List.mem_map.mp hname
  obtain ⟨m, hlast, -⟩ := exists_findRev?_eq_some (p := (·.name = name)) hm' (decide_eq_true hname')
  obtain ⟨hm, before, after, hsplit, hafter⟩ := findRev?_eq_some_iff_append.mp hlast
  refine ⟨before, m, after, hsplit, of_decide_eq_true hm, fun hmem => ?_, ?_⟩
  · obtain ⟨other, hother, hsame⟩ := List.mem_map.mp hmem
    exact hafter other hother (decide_eq_true hsame)
  · rw [node?_eq_last_mention, hlast]
    rfl

end Drawing

end RoleChart
