import RoleChart.Table
/-!
The attributes of a graph, a node or an edge: texts under keys, in the order in which the keys were
first set.
-/
namespace RoleChart

/-- Attribute values under their keys. -/
abbrev Attributes := Table String

end RoleChart
