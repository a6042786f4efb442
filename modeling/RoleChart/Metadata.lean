import RoleChart.Declaration
/-!
The metadata of roles: what a role declares to depend on. A directory of roles keeps the metadata of
each role in a file of its own. A role without metadata, and one whose metadata says nothing about
dependencies, depend on nothing.
-/
namespace RoleChart

/-- Where metadata comes from: for the name of a role its declared dependencies, none where the role
has no metadata. -/
abbrev Source := String → Logged InputError (Option (List Declaration))

namespace Metadata

/-- The entries under `dependencies` in the metadata of a role. -/
def entries : Yaml.Value → Except MetadataFault (List Yaml.Value)
  | .null => .ok []
  | .mapping fields =>
    match Yaml.Value.lookup? "dependencies" fields with
    | none => .ok []
    | some .null => .ok []
    | some (.sequence entries) => .ok entries
    | some _ => .error .dependenciesNotList
  | _ => .error .notMapping

/-- The dependencies that a document declares; `path` is where it was read from. -/
def ofValue (path : Path) (document : Yaml.Value) : Logged InputError (List Declaration) := do
  let entries ← .ofExcept ((entries document).mapError (.invalidMetadata path))
  Declaration.ofValues path.display entries

/-- The dependencies that a text declares. A text of blanks declares none. -/
def ofText (reader : Yaml.Reader) (text : String) (path : Path) :
    Logged InputError (List Declaration) :=
  if Text.isBlankText text then pure []
  else do
    let document ← .ofExcept ((reader text).mapError (.notYaml path))
    ofValue path document

/-- The file that holds the metadata of a role in a directory of roles. -/
def path (root : Path) (role : String) : Path :=
  Path.join (Path.join (Path.join root role) "meta") "main.yml"

/-- The report that a role has no metadata. -/
def missing (role : String) (path : Path) : Journal.Entry where
  level := .trace
  message := "No metadata file for role"
  fields := [("path", .text path.display), ("role", .text role)]

/-- The metadata of the roles in a directory. -/
def ofDirectory (reader : Yaml.Reader) (disk : Disk) (root : Path) : Source := fun role =>
  let path := path root role
  match disk.readText path with
  | .ok text => some <$> ofText reader text path
  | .error .notFound => do
    .write (missing role path)
    return none
  | .error cause => .fail (.unreadable .metadata path cause)

/-- The metadata that a table lists. -/
def ofTable (table : Table (List Declaration)) : Source := fun role =>
  pure (table.get? role)

/-- Every name that some file declares as a dependency, when it is read as metadata. -/
def declaredNames (reader : Yaml.Reader) (disk : Disk) : List String :=
  disk.entries.flatMap fun (_, entry) =>
    match entry with
    | .directory => []
    | .file content _ =>
      match String.fromUTF8? content with
      | none => []
      | some text =>
        match (ofText reader text .empty).outcome with
        | .ok declarations => declarations.map (·.name)
        | .error _ => []

end Metadata

end RoleChart
