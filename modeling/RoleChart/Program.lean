import RoleChart.Script
import RoleChart.Text.Blank
/-!
Layout programs. A program is started with the format and the output as arguments, is fed the DOT text,
and is waited for (`Program.engine`). How a system starts programs is left open (`Launcher`); the one
launcher here knows the scripts among the files (`Program.scripts`).
-/
namespace RoleChart.Program

/-! ## Starting programs -/

/-- What a program is started with: its path, or its name among the programs of the system, its
arguments, which are bytes as paths are, and what it can read. -/
structure Launch where
  program : String
  arguments : List Path
  input : ByteArray
  deriving Inhabited

/-- How it ended with a program that was to be started. One that leaves what it can read unread has ended
as any other. -/
inductive Ending where
  | notStarted (cause : SystemError)
  | notFed (cause : SystemError)
  | notAwaited (cause : SystemError)
  | ended (status : ExitStatus) (errors : ByteArray)
  deriving Inhabited

/-- What came of starting a program: how it ended, the files afterwards, and the state of the system. -/
structure Launched (σ : Type) where
  ending : Ending
  disk : Disk
  state : σ

/-- A system that starts programs: what it does to the files and to its own state. -/
abbrev Launcher (σ : Type) := Launch → Disk → σ → Launched σ

/-! ## The engine -/

/-- The report that a program is about to be started. -/
def starting (program : String) (request : LayoutRequest) : Journal.Entry where
  level := .debug
  message := "Spawning layout engine"
  fields := [("format", .text request.format), ("output", .text request.output.display),
    ("program", .text program)]

/-- What a program is started with to lay out a graph. -/
def launch (program : String) (request : LayoutRequest) : Launch where
  program
  arguments := ["-T" ++ request.format, "-o", request.output]
  input := request.dot.toUTF8

/-- What the end of a program means for its request. -/
def answer (program : String) (request : LayoutRequest) : Ending → Except RenderError Unit
  | .notStarted cause => .error (.engineNotFound program cause)
  | .notFed cause => .error (.unwritable ("piping graph to " ++ program) request.output cause)
  | .notAwaited cause => .error (.unwritable ("waiting for " ++ program) request.output cause)
  | .ended status errors =>
    if status.isSuccess then .ok ()
    else .error (.engineFailed program request.format status (Text.trim (Text.decodeLossy errors)))

/-- The engine that starts a program for each request. -/
def engine {σ : Type} (launcher : Launcher σ) (program : String) : LayoutEngine σ :=
  fun request disk state =>
    let launched := launcher (launch program request) disk state
    ⟨do .write (starting program request); .ofExcept (answer program request launched.ending),
      launched.disk, launched.state⟩

/-! ## Scripts -/

/-- The programs of the system that need no file here, and the status with which each ends. -/
def systemPrograms : List (String × Nat) := [("true", 0), ("false", 1)]

/-- Whether a content names the shell as its interpreter in its first line. -/
def interpreter? (source : String) : Option String :=
  match source.toList with
  | '#' :: '!' :: rest =>
    let line := (rest.takeWhile (· ≠ '\n')).dropWhile fun c => c == ' ' || c == '\t'
    some (String.ofList (line.takeWhile fun c => c ≠ ' ' ∧ c ≠ '\t'))
  | _ => none

/-- The shells of the system. -/
def shells : List String := ["/bin/sh", "/usr/bin/sh", "/bin/dash", "/bin/bash"]

/-- The script under a path that can be started. -/
def findScript (disk : Disk) (path : Path) : Except SystemError String := do
  match ← disk.lookup path with
  | .directory => throw .permissionDenied
  | .file content executable =>
    if !executable then throw .permissionDenied
    let source := Text.decodeLossy content
    match interpreter? source with
    | none => throw .notExecutableFormat
    | some interpreter =>
      if shells.contains interpreter then return source else throw .notFound

/-- Starts a program and waits for its end. A script sees its arguments as they are shown. -/
def start (disk : Disk) (l : Launch) : Except SystemError Script.Outcome :=
  if l.program.toList.contains '\x00' || l.arguments.any (·.bytes.contains 0) then
    .error .zeroInArgument
  else if l.program.toList.contains '/' then do
    let source ← findScript disk l.program
    return Script.run source (l.program :: l.arguments.map Path.display) l.input.toList disk
  else if l.program.isEmpty then .error .notFound
  else if l.program.utf8ByteSize > Disk.maxName then .error .nameTooLong
  else match systemPrograms.lookup l.program with
    | some code => .ok ⟨disk, [], .code code⟩
    | none => .error .notFound

/-- The system whose programs are the scripts among the files, beside those that lay out nothing. -/
def scripts : Launcher Unit := fun l disk _ =>
  match start disk l with
  | .error cause => ⟨.notStarted cause, disk, ()⟩
  | .ok outcome => ⟨.ended outcome.status ⟨outcome.errors.toArray⟩, outcome.disk, ()⟩

end RoleChart.Program
