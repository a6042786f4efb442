import RoleChart.Graph
import RoleChart.NumberedGraph
/-!
How a graph is stored, while it is built and afterwards. The nodes have numbers, the edges join numbers,
and an index gives the number of each name. A node that is added answers with its number. `toGraph`
reads a store as a graph of names.
-/
namespace RoleChart

namespace Graph

/-- A node with its name. -/
structure Node where
  name : String
  attributes : Attributes
  deriving Repr, BEq, DecidableEq, Inhabited

/-- The nodes and edges by number, and the number of each name. -/
structure Store where
  graph : NumberedGraph Node
  index : Table Nat
  graphAttributes : Attributes
  edgeAttributes : Attributes
  deriving Repr, BEq, DecidableEq, Inhabited

namespace Store

/-- The store without nodes. -/
def empty : Store := ⟨.empty, .empty, .empty, .empty⟩

/-! ## Building -/

/-- Adds a node, or merges `attributes` into those of the node of that name, and gives its number. -/
def addNode (s : Store) (name : String) (attributes : Attributes) : Nat × Store :=
  match s.index.get? name with
  | some n =>
    (n, { s with graph := s.graph.updateNode n fun node =>
      { node with attributes := node.attributes.merge attributes } })
  | none =>
    let (n, graph) := s.graph.addNode ⟨name, attributes⟩
    (n, { s with graph, index := s.index.set name n })

/-- The number of a name, for which a node without attributes is added where there is none. -/
def mention (s : Store) (name : String) : Nat × Store :=
  match s.index.get? name with
  | some n => (n, s)
  | none => s.addNode name .empty

/-- Adds an edge between two nodes, and the nodes where they are missing. -/
def addEdge (s : Store) (tail head : String) : Store :=
  let (tailNumber, s) := s.mention tail
  let (headNumber, s) := s.mention head
  { s with graph := s.graph.link tailNumber headNumber }

/-- A step of building: what it answers, which for an added node is its number, and the store after
it. -/
def apply (s : Store) : Step → Option Nat × Store
  | .addNode name attributes =>
    let (n, s) := s.addNode name attributes
    (some n, s)
  | .addEdge tail head => (none, s.addEdge tail head)
  | .graphAttribute key value =>
    (none, { s with graphAttributes := s.graphAttributes.set key value })
  | .edgeAttributes attributes => (none, { s with edgeAttributes := attributes })

/-- The store after a list of steps. -/
def applyAll (s : Store) (steps : List Step) : Store :=
  steps.foldl (fun s step => (s.apply step).2) s

/-- The store that a list of steps builds. -/
def ofSteps (steps : List Step) : Store := empty.applyAll steps

/-! ## Looking up -/

/-- The nodes, by number. -/
def nodes (s : Store) : List Node := s.graph.nodes

/-- The names of the nodes, by number. -/
def names (s : Store) : List String := s.nodes.map (·.name)

/-- The edges, as pairs of names. -/
def edges (s : Store) : List (String × String) :=
  s.graph.ends.map fun (tail, head) => (tail.name, head.name)

/-- The node of a name. -/
def node? (s : Store) (name : String) : Option Node :=
  (s.index.get? name).bind (s.graph.nodes[·]?)

/-- Whether there is an edge between two nodes. -/
def hasEdge (s : Store) (tail head : String) : Bool :=
  match s.index.get? tail, s.index.get? head with
  | some tailNumber, some headNumber => s.graph.hasLink tailNumber headNumber
  | _, _ => false

/-- The number of nodes. -/
def nodeCount (s : Store) : Nat := s.graph.nodes.length

/-- The number of edges. -/
def edgeCount (s : Store) : Nat := s.graph.links.length

/-- The store as a graph of names. -/
def toGraph (s : Store) : Graph where
  nodes := ⟨s.nodes.map fun node => (node.name, node.attributes)⟩
  edges := s.edges
  graphAttributes := s.graphAttributes
  edgeAttributes := s.edgeAttributes

end Store

end Graph

end RoleChart
