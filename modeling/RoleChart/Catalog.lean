import RoleChart.Error
import RoleChart.Yaml.Described
/-!
The catalog of services: the names of the roles that count as application services, in increasing
order and each once. A catalog is the built-in one or is read from a YAML list of names.
-/
namespace RoleChart

/-- The names of the services, in increasing order. -/
structure Catalog where
  names : List String
  deriving Repr, BEq, DecidableEq, Inhabited

namespace Catalog

/-- The catalog of the names in a list. -/
def ofList (names : List String) : Catalog :=
  ⟨names.eraseDups.mergeSort⟩

/-- Whether a role of this name is a service. -/
def contains (catalog : Catalog) (name : String) : Bool :=
  catalog.names.contains name

/-- The services where no other catalog is given. -/
def builtinNames : List String :=
  ["analytics_api", "certs", "ecommerce", "ecomworker", "edxapp", "elasticsearch", "forum",
    "insights", "memcache", "mongo", "mysql", "nginx", "notifier", "programs", "rabbitmq",
    "supervisor", "xqueue"]

/-- The catalog where no other is given. -/
def builtin : Catalog := ofList builtinNames

theorem mem_names_ofList {names : List String} {name : String} :
    name ∈ (ofList names).names ↔ name ∈ names := by
  simp [ofList, List.mem_mergeSort]

/-! ## Reading a services file -/

/-- The name that an entry of a services file gives. -/
def nameOf : Yaml.Value → Except ServicesFault String
  | .string name => .ok name
  | other => .error (.entryNotName other.described)

/-- The catalog that a YAML value gives: a list of names. -/
def ofValue : Yaml.Value → Except ServicesFault Catalog
  | .sequence entries => ofList <$> entries.mapM nameOf
  | _ => .error .notList

/-- The catalog that the text of a services file gives; `path` names the file in errors. -/
def ofText (reader : Yaml.Reader) (text : String) (path : Path) : Except InputError Catalog := do
  let value ← (reader text).mapError (.notYaml path)
  (ofValue value).mapError (.invalidServices path)

/-- The catalog that a services file gives. -/
def load (reader : Yaml.Reader) (disk : Disk) (path : Path) : Except InputError Catalog := do
  let text ← (disk.readText path).mapError (.unreadable .services path)
  ofText reader text path

end Catalog

end RoleChart
