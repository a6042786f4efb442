import RoleChart.Program
import RoleChart.Session
import RoleChart.Yaml.Document
/-!
The program. It brings the files that its arguments lead to into memory, runs the session over them,
writes back the files that changed, and prints what the session prints. Entries of the journal go to
the error output.
-/
namespace RoleChart.Main

/-- The files with everything brought in that stands along a path. Every file counts as one that can
be started. -/
def bringIn (disk : Disk) (path : Path) : IO Disk := do
  let mut disk := disk
  for place in Disk.placesAlong path do
    if (disk.find? place).isNone then
      let found := (← IO.currentDir) / (Disk.pathOf place).display
      if ← found.isDir then
        disk := disk.install place .directory
      else if ← found.pathExists then
        disk := disk.install place (.file (← IO.FS.readBinFile found) true)
  return disk

/-- The files with the metadata of the given roles brought in, and of all that they lead to. -/
partial def bringInRoles (root : Path) (disk : Disk) (known names : List String) : IO Disk := do
  match names.filter fun name => !known.contains name with
  | [] => return disk
  | name :: others =>
    let disk ← bringIn disk (Metadata.path root name)
    let found := match (Metadata.ofDirectory Yaml.plainReader disk root name).outcome with
      | .ok (some declarations) => declarations.map (·.name)
      | _ => []
    bringInRoles root disk (name :: known) (others ++ found)

/-- The files that a run with the given arguments can see. -/
def filesFor (home : Except HomeFault Path) (a : Arguments) : IO Disk := do
  let mut disk := Disk.empty
  for path in [a.playbook, a.output, (a.layout : Path)] ++ a.servicesFile.toList do
    disk ← bringIn disk path
  match Command.roleDirectory home a, (Playbook.load Yaml.plainReader disk a.playbook).outcome with
  | .ok root, .ok playbook =>
    bringInRoles root (← bringIn disk root) [] (playbook.roles.map (·.name))
  | .ok root, .error _ => bringIn disk root
  | .error _, _ => return disk

/-- The text of a level. -/
def levelText : Journal.Level → String
  | .error => "ERROR"
  | .warn => "WARN"
  | .info => "INFO"
  | .debug => "DEBUG"
  | .trace => "TRACE"

/-- The text of a field of an entry. -/
def fieldText : String × Journal.Datum → String
  | (name, .text value) => " " ++ name ++ "=" ++ value
  | (name, .count value) => " " ++ name ++ "=" ++ toString value
  | (name, .flag value) => " " ++ name ++ "=" ++ toString value

/-- An entry on one line. -/
def entryText (e : Journal.Entry) : String :=
  levelText e.level ++ " " ++ e.message ++ String.join (e.fields.map fieldText)

/-- Runs the program. -/
def run (arguments : List String) : IO UInt32 := do
  let environment : Environment :=
    ⟨← IO.getEnv "GRAPH_PLAYBOOK_ROLE_DIR", ← IO.getEnv "GRAPH_PLAYBOOK_LAYOUT"⟩
  let program ← IO.appPath
  let home : Except HomeFault Path := match program.parent with
    | some directory => .ok directory.toString
    | none => .error (.noDirectory program.toString)
  let surroundings : Surroundings Unit :=
    ⟨home, environment, Yaml.plainReader, Program.engine Program.scripts⟩
  let parsed := Arguments.ofList environment arguments
  let disk ← match parsed with
    | .ok a => filesFor home a
    | .error _ => pure Disk.empty
  match Session.run surroundings arguments disk () with
  | none =>
    IO.eprintln "The expansion does not end"
    return 3
  | some s =>
    for (place, content) in Disk.changedSince disk s.disk do
      IO.FS.writeBinFile ((← IO.currentDir) / (Disk.pathOf place).display) content
    let level := match parsed with
      | .ok a => a.level
      | .error _ => .warn
    for e in Journal.atLevel level s.entries do
      IO.eprintln (entryText e)
    IO.print s.printed
    IO.eprint s.complaint
    return UInt32.ofNat s.exitCode

end RoleChart.Main

/-- The program, called with its arguments. -/
def main (arguments : List String) : IO UInt32 :=
  RoleChart.Main.run arguments
