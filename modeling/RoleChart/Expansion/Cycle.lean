import RoleChart.Expansion.Reading
/-!
Roles that depend on themselves, directly or through other roles.
-/
namespace RoleChart

namespace Resolved

/-- The names that a role refers to, of those that were read. -/
def successors (metadata : Resolved) (name : String) : List String :=
  ((metadata.references name).map (·.name)).filter metadata.contains

/-- The names in `seen`, those in `pending`, and all that the latter lead to, where at most `limit`
names are new. -/
def closure (metadata : Resolved) : Nat → List String → List String → List String
  | 0, _, seen => seen
  | limit + 1, pending, seen =>
    match pending.dropWhile seen.contains with
    | [] => seen
    | name :: rest => closure metadata limit (rest ++ metadata.successors name) (name :: seen)

/-- Whether references lead from a role back to itself. -/
def isCyclic (metadata : Resolved) (name : String) : Bool :=
  (metadata.closure metadata.size (metadata.successors name) []).contains name

/-- The roles from which references lead back to themselves. -/
def cyclic (metadata : Resolved) : List String :=
  metadata.keys.filter metadata.isCyclic

end Resolved

end RoleChart
