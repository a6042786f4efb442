import RoleChart.Catalog
import RoleChart.Table
/-!
References to roles, roles, and how they are coloured. A reference is a name together with the mark
that it holds only under a condition; a role is a reference together with what it depends on.
-/
namespace RoleChart

/-- A mention of a role by a playbook or by another role. In the program a role holds whole roles as its
dependencies; each of them is made from a declaration and holds none itself, so the type of references
leaves no room for any. -/
structure Reference where
  name : String
  optional : Bool
  deriving Repr, BEq, DecidableEq, Inhabited

/-- A role: the reference to it that was last followed, and its own references, in order. -/
structure Role where
  name : String
  optional : Bool
  dependencies : List Reference
  deriving Repr, BEq, DecidableEq, Inhabited

/-- The roles that are known, by name, in the order in which they were first followed. -/
abbrev Registry := Table Role

/-- Whether the background of a role is painted. -/
inductive FillStyle where
  | filled
  | unfilled
  deriving Repr, BEq, DecidableEq, Inhabited

/-- The name of a style in a graph. -/
def FillStyle.text : FillStyle → String
  | .filled => "filled"
  | .unfilled => ""

/-- The colour of a service. -/
def serviceColor : String := "cornflowerblue"

/-- The colour of a role that holds only under a condition. -/
def optionalColor : String := "darkolivegreen1"

/-- The colour of any other role. -/
def noColor : String := "transparent"

namespace Reference

/-- The reference as it is listed: its name, and a mark if it holds only under a condition. -/
def text (r : Reference) : String :=
  if r.optional then r.name ++ " (optional)" else r.name

/-- The colour of the role: the condition counts before the catalog. -/
def fillColor (catalog : Catalog) (r : Reference) : String :=
  if r.optional then optionalColor
  else if catalog.contains r.name then serviceColor
  else noColor

/-- Whether the background is painted: for services alone. -/
def fillStyle (catalog : Catalog) (r : Reference) : FillStyle :=
  if catalog.contains r.name then .filled else .unfilled

end Reference

namespace Role

/-- The reference to a role without its dependencies. -/
def reference (role : Role) : Reference := ⟨role.name, role.optional⟩

/-- The role as it is listed. -/
def text (role : Role) : String := role.reference.text

/-- The names of the dependencies, in order. -/
def dependencyNames (role : Role) : List String :=
  role.dependencies.map (·.name)

end Role

end RoleChart
