/-!
Directed graphs over numbered nodes. A node has the number of nodes that were added before it, edges
join two numbers, and both stand in the order in which they were added. An edge that is there already
is not added again.
-/
namespace RoleChart

/-- A directed graph over numbered nodes. -/
structure NumberedGraph (α : Type) where
  nodes : List α
  links : List (Nat × Nat)
  deriving Repr, BEq, DecidableEq, Inhabited

namespace NumberedGraph

variable {α : Type}

/-- The graph without nodes. -/
def empty : NumberedGraph α := ⟨[], []⟩

/-- Adds a node behind the others, and gives its number. -/
def addNode (g : NumberedGraph α) (node : α) : Nat × NumberedGraph α :=
  (g.nodes.length, { g with nodes := g.nodes ++ [node] })

/-- Changes the node with a number. -/
def updateNode (g : NumberedGraph α) (n : Nat) (change : α → α) : NumberedGraph α :=
  { g with nodes := g.nodes.modify n change }

/-- Whether an edge leads from a number to another. -/
def hasLink (g : NumberedGraph α) (tail head : Nat) : Bool := g.links.contains (tail, head)

/-- Adds an edge from a number to another, unless it is there. -/
def link (g : NumberedGraph α) (tail head : Nat) : NumberedGraph α :=
  if g.hasLink tail head then g else { g with links := g.links ++ [(tail, head)] }

/-- The nodes at the two ends of each edge, in the order of the edges. -/
def ends (g : NumberedGraph α) : List (α × α) :=
  g.links.filterMap fun l =>
    match g.nodes[l.1]?, g.nodes[l.2]? with
    | some tail, some head => some (tail, head)
    | _, _ => none

/-! ## Edges after adding -/

theorem hasLink_iff (g : NumberedGraph α) (tail head : Nat) :
    g.hasLink tail head = true ↔ (tail, head) ∈ g.links :=
  List.contains_iff_mem

@[simp] theorem nodes_link (g : NumberedGraph α) (tail head : Nat) :
    (g.link tail head).nodes = g.nodes := by
  unfold link
  split <;> rfl

theorem links_link (g : NumberedGraph α) (tail head : Nat) :
    (g.link tail head).links =
      if (tail, head) ∈ g.links then g.links else g.links ++ [(tail, head)] := by
  unfold link
  by_cases h : (tail, head) ∈ g.links
  · rw [if_pos ((g.hasLink_iff tail head).mpr h), if_pos h]
  · rw [if_neg (mt (g.hasLink_iff tail head).mp h), if_neg h]

theorem mem_links_link (g : NumberedGraph α) (tail head : Nat) (l : Nat × Nat) :
    l ∈ (g.link tail head).links ↔ l ∈ g.links ∨ l = (tail, head) := by
  rw [links_link]
  split
  · next h => exact ⟨Or.inl, fun hl => hl.elim id fun heq => heq ▸ h⟩
  · rw [List.mem_append, List.mem_singleton]

end NumberedGraph

end RoleChart
