import RoleChart.Attributes
import RoleChart.Journal
/-!
Directed graphs with named nodes, built up node by node and edge by edge. A node added again merges
its attributes, and an edge added again changes nothing. Nodes and edges stay in the order in which
they first came up.
-/
namespace RoleChart

/-- A directed graph. -/
structure Graph where
  nodes : Table Attributes
  edges : List (String × String)
  graphAttributes : Attributes
  edgeAttributes : Attributes
  deriving Repr, BEq, DecidableEq, Inhabited

namespace Graph

/-- The graph without nodes. -/
def empty : Graph := ⟨.empty, [], .empty, .empty⟩

/-! ## Building -/

/-- Sets an attribute of the graph as a whole. -/
def setGraphAttribute (g : Graph) (key value : String) : Graph :=
  { g with graphAttributes := g.graphAttributes.set key value }

/-- Sets the attributes that all edges share. -/
def setEdgeAttributes (g : Graph) (attributes : Attributes) : Graph :=
  { g with edgeAttributes := attributes }

/-- Adds a node, or merges `attributes` into those of the node of that name. -/
def addNode (g : Graph) (name : String) (attributes : Attributes) : Graph :=
  match g.nodes.get? name with
  | some old => { g with nodes := g.nodes.set name (old.merge attributes) }
  | none => { g with nodes := g.nodes.set name attributes }

/-- Adds a node without attributes, unless there is one of that name. -/
def mention (g : Graph) (name : String) : Graph :=
  if g.nodes.contains name then g else g.addNode name .empty

/-- Adds an edge between two nodes, and the nodes where they are missing. -/
def addEdge (g : Graph) (tail head : String) : Graph :=
  let g := (g.mention tail).mention head
  if g.edges.contains (tail, head) then g else { g with edges := g.edges ++ [(tail, head)] }

/-! ## Looking up -/

/-- The attributes of a node. -/
def node? (g : Graph) (name : String) : Option Attributes := g.nodes.get? name

/-- Whether there is an edge between two nodes. -/
def hasEdge (g : Graph) (tail head : String) : Bool := g.edges.contains (tail, head)

/-- The number of nodes. -/
def nodeCount (g : Graph) : Nat := g.nodes.size

/-- The number of edges. -/
def edgeCount (g : Graph) : Nat := g.edges.length

/-! ## Steps of building -/

/-- One step of building a graph. -/
inductive Step where
  | addNode (name : String) (attributes : Attributes)
  | addEdge (tail head : String)
  | graphAttribute (key value : String)
  | edgeAttributes (attributes : Attributes)
  deriving Repr, BEq, DecidableEq, Inhabited

namespace Step

/-- The graph after a step. -/
def apply (g : Graph) : Step → Graph
  | .addNode name attributes => g.addNode name attributes
  | .addEdge tail head => g.addEdge tail head
  | .graphAttribute key value => g.setGraphAttribute key value
  | .edgeAttributes attributes => g.setEdgeAttributes attributes

/-- The report that a node was added, or that one was there. -/
def nodeReport (g : Graph) (name : String) : Journal.Entry :=
  ⟨.trace, (if g.nodes.contains name then "Updated" else "Added") ++ " node '" ++ name ++ "'", []⟩

/-- The report of a node that is named by an edge, if it was missing. -/
def mentionReports (g : Graph) (name : String) : List Journal.Entry :=
  if g.nodes.contains name then [] else [nodeReport g name]

/-- The reports of a step. -/
def reports (g : Graph) : Step → List Journal.Entry
  | .addNode name _ => [nodeReport g name]
  | .addEdge tail head => mentionReports g tail ++ mentionReports (g.mention tail) head
  | _ => []

end Step

/-- The graph after a list of steps. -/
def applyAll (g : Graph) (steps : List Step) : Graph :=
  steps.foldl Step.apply g

/-- The reports of a list of steps. -/
def reportsOfAll : Graph → List Step → List Journal.Entry
  | _, [] => []
  | g, s :: rest => s.reports g ++ reportsOfAll (s.apply g) rest

/-- The graph that a list of steps builds. -/
def ofSteps (steps : List Step) : Graph := empty.applyAll steps

end Graph

end RoleChart
