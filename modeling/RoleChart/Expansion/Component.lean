import RoleChart.Expansion.Cycle
import RoleChart.NumberedGraph
/-!
The roles on a cycle, by the components of a graph. The roles that were read are numbered in some order,
and an edge leads from each to those that it refers to. Nodes that lead to each other form a component. A
component of several nodes consists of roles on a cycle, and one of a single node does if the node has an
edge to itself. How the components are found is left open.
-/
namespace RoleChart

/-- Whether a component has several nodes, or one with an edge to itself. -/
def NumberedGraph.hasCycle {α : Type} (g : NumberedGraph α) (component : List Nat) : Bool :=
  component.length > 1 || component.head?.any fun n => g.hasLink n n

namespace Resolved

/-- The roles as the nodes of a graph, in the order given, and the number of each. -/
def numbered (entries : List (String × List Reference)) : NumberedGraph String × Table Nat :=
  entries.foldl (fun (graph, index) entry =>
    let (n, graph) := graph.addNode entry.1
    (graph, index.set entry.1 n)) (.empty, .empty)

/-- Adds the edges from a role to those that it refers to, as far as they have numbers. -/
def linkReferences (index : Table Nat) (name : String) (references : List Reference)
    (graph : NumberedGraph String) : NumberedGraph String :=
  references.foldl (fun graph r =>
    match index.get? name, index.get? r.name with
    | some tail, some head => graph.link tail head
    | _, _ => graph) graph

/-- The graph of the roles that were read, in the order given. -/
def dependencyGraph (entries : List (String × List Reference)) : NumberedGraph String :=
  let (graph, index) := numbered entries
  entries.foldl (fun graph entry => linkReferences index entry.1 entry.2 graph) graph

/-- The roles on a cycle, where `components` finds the components of a graph. -/
def cyclicOfComponents (components : NumberedGraph String → List (List Nat))
    (entries : List (String × List Reference)) : List String :=
  let graph := dependencyGraph entries
  ((components graph).filter graph.hasCycle).flatten.filterMap (graph.nodes[·]?)

end Resolved

end RoleChart
