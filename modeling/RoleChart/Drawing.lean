import RoleChart.Graph
import RoleChart.Label
import RoleChart.Role
/-!
The graph of a registry. Every role is a node, and an edge leads from each of its dependencies to
it. Nodes come up in the order of the registry, each role before its dependencies; one that comes up
again takes the attributes of its last mention. On request services and roles under a condition are
coloured and explained by a legend.
-/
namespace RoleChart

/-- How a registry is drawn. -/
structure Drawing where
  highlight : Bool
  label : Option String
  font : String
  labelSize : Nat
  deriving Repr, BEq, DecidableEq, Inhabited

namespace Drawing

/-- The font where no other is given. -/
def usualFont : String := "helvetica"

/-- The size of the label, in points, where no other is given. -/
def usualLabelSize : Nat := 20

/-- The node of the legend that explains services. -/
def serviceLegend : String := "Service"

/-- The node of the legend that explains roles under a condition. -/
def optionalLegend : String := "Optional Service"

/-- A drawing without colours and label. -/
def usual : Drawing := ⟨false, none, usualFont, usualLabelSize⟩

/-- The attributes that all nodes have. -/
def nodeAttributes (d : Drawing) : Attributes :=
  .ofList [("fontname", d.font)]

/-- The attributes that all edges have. -/
def edgeAttributes : Attributes :=
  .ofList [("arrowsize", "0.5"), ("dir", "back"), ("style", "dashed")]

/-- The attributes of a node of the legend. -/
def legendAttributes (d : Drawing) (color : String) : Attributes :=
  (d.nodeAttributes.set "style" "filled").set "fillcolor" color

/-- The attributes of the node of a role. -/
def referenceAttributes (d : Drawing) (catalog : Catalog) (r : Reference) : Attributes :=
  if d.highlight then
    (d.nodeAttributes.set "style" (r.fillStyle catalog).text).set "fillcolor" (r.fillColor catalog)
  else d.nodeAttributes

/-- The steps that set what holds for the graph as a whole. -/
def frameSteps (d : Drawing) : List Graph.Step :=
  .edgeAttributes edgeAttributes ::
    (d.label.map fun text =>
      Graph.Step.graphAttribute "label" (Label.html text d.font d.labelSize)).toList

/-- The steps that add the legend. -/
def legendSteps (d : Drawing) : List Graph.Step :=
  if d.highlight then
    [.addNode serviceLegend (d.legendAttributes serviceColor),
      .addNode optionalLegend (d.legendAttributes optionalColor)]
  else []

/-- The steps that add a role and its dependencies. -/
def roleSteps (d : Drawing) (catalog : Catalog) (role : Role) : List Graph.Step :=
  .addNode role.name (d.referenceAttributes catalog role.reference) ::
    role.dependencies.flatMap fun r =>
      [.addNode r.name (d.referenceAttributes catalog r), .addEdge r.name role.name]

/-- All the steps that draw a registry. -/
def steps (d : Drawing) (catalog : Catalog) (registry : Registry) : List Graph.Step :=
  d.frameSteps ++ d.legendSteps ++ registry.values.flatMap (d.roleSteps catalog)

/-- The graph of a registry. -/
def graph (d : Drawing) (catalog : Catalog) (registry : Registry) : Graph :=
  .ofSteps (d.steps catalog registry)

/-- The report that a graph is complete. -/
def built (d : Drawing) (g : Graph) : Journal.Entry where
  level := .debug
  message := "Built role graph"
  fields := [("edges", .count g.edgeCount), ("highlight", .flag d.highlight),
    ("nodes", .count g.nodeCount)]

/-- The reports of drawing a registry. -/
def reports (d : Drawing) (catalog : Catalog) (registry : Registry) : List Journal.Entry :=
  Graph.empty.reportsOfAll (d.steps catalog registry) ++ [d.built (d.graph catalog registry)]

end Drawing

end RoleChart
