import RoleChart.Declaration
/-!
Playbooks. Of a playbook only the first play is read, and of that only its list of roles.
-/
namespace RoleChart

/-- The roles of the first play of a playbook, and the path that it was read from. -/
structure Playbook where
  path : Path
  roles : List Declaration
  deriving Repr, BEq, DecidableEq, Inhabited

namespace Playbook

/-- The entries under `roles` in the first play of a document. -/
def entries : Yaml.Value → Except PlaybookFault (List Yaml.Value)
  | .sequence [] => .error .noPlay
  | .sequence (.mapping play :: _) =>
    match Yaml.Value.lookup? "roles" play with
    | some (.sequence roles) => .ok roles
    | some _ => .error .rolesNotList
    | none => .error .noRoles
  | .sequence _ => .error .playNotMapping
  | _ => .error .notList

/-- The playbook that a document holds; `path` is where it was read from. -/
def ofValue (path : Path) (document : Yaml.Value) : Logged InputError Playbook := do
  let entries ← .ofExcept ((entries document).mapError (.invalidPlaybook path))
  let roles ← Declaration.ofValues path.display entries
  return ⟨path, roles⟩

/-- The playbook that a text holds. -/
def ofText (reader : Yaml.Reader) (text : String) (path : Path) : Logged InputError Playbook := do
  let document ← .ofExcept ((reader text).mapError (.notYaml path))
  ofValue path document

/-- The playbook that a file holds. -/
def load (reader : Yaml.Reader) (disk : Disk) (path : Path) : Logged InputError Playbook := do
  let text ← .ofExcept ((disk.readText path).mapError (.unreadable .playbook path))
  ofText reader text path

/-- The name of the file that a playbook was read from, as it is shown, or its path where that names no
file. -/
def fileName (playbook : Playbook) : String :=
  (playbook.path.fileName?.getD playbook.path).display

end Playbook

end RoleChart
