import RoleChart.Role
/-!
The services of a registry, in increasing order of their names.
-/
namespace RoleChart

namespace Registry

/-- The roles of a registry that are services, by name. -/
def services (registry : Registry) (catalog : Catalog) : List Role :=
  (registry.values.filter fun role => catalog.contains role.name).mergeSort
    fun a b => a.name ≤ b.name

/-- The services of a registry as they are listed. -/
def serviceListing (registry : Registry) (catalog : Catalog) : List String :=
  (services registry catalog).map Role.text

end Registry

end RoleChart
