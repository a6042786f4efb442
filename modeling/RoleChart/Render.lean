import RoleChart.Disk
import RoleChart.Dot
/-!
Rendering a graph to a file. The extension of the file, in lower case, is the format; an extension
whose bytes are not UTF-8 is none. The formats `dot` and `gv` are the DOT text itself, which is written
to the file; any other is left to a layout engine, which is given the text, the format and the path, and
writes the file itself.
-/
namespace RoleChart

/-- How a program came to its end. -/
inductive ExitStatus where
  | code (n : Nat)
  | signal (n : Nat)
  deriving Repr, BEq, DecidableEq, Inhabited

namespace ExitStatus

/-- The name of a signal. -/
def signalName : Nat → String
  | 1 => "SIGHUP"
  | 2 => "SIGINT"
  | 3 => "SIGQUIT"
  | 4 => "SIGILL"
  | 6 => "SIGABRT"
  | 7 => "SIGBUS"
  | 8 => "SIGFPE"
  | 9 => "SIGKILL"
  | 10 => "SIGUSR1"
  | 11 => "SIGSEGV"
  | 12 => "SIGUSR2"
  | 13 => "SIGPIPE"
  | 14 => "SIGALRM"
  | 15 => "SIGTERM"
  | _ => ""

/-- The text of a status. -/
def text : ExitStatus → String
  | .code n => "exit status: " ++ toString n
  | .signal n =>
    "signal: " ++ toString n ++ (if signalName n = "" then "" else " (" ++ signalName n ++ ")")

/-- Whether a program ended well. -/
def isSuccess (s : ExitStatus) : Bool := s == .code 0

end ExitStatus

/-- Why a graph cannot be rendered. -/
inductive RenderError where
  | missingExtension (path : Path)
  | engineNotFound (program : String) (cause : SystemError)
  | engineFailed (program format : String) (status : ExitStatus) (output : String)
  | unwritable (activity : String) (path : Path) (cause : SystemError)
  deriving Repr, BEq, DecidableEq, Inhabited

namespace RenderError

/-- The message of an error. -/
def message : RenderError → String
  | .missingExtension path =>
    "Cannot determine output format of " ++ path.display ++ ": the file has no extension"
  | .engineNotFound program cause =>
    "Layout engine '" ++ program ++ "' could not be started: " ++ cause.message
  | .engineFailed program format status output =>
    "Layout engine '" ++ program ++ "' failed to render " ++ format ++ " (" ++ status.text ++
      "): " ++ output
  | .unwritable activity path cause =>
    "I/O error during " ++ activity ++ " at " ++ path.display ++ ": " ++ cause.message

/-- The code of an error. -/
def code : RenderError → String
  | .missingExtension _ => "rolegraph::graph::missing_extension"
  | .engineNotFound .. => "rolegraph::graph::engine_not_found"
  | .engineFailed .. => "rolegraph::graph::engine_failed"
  | .unwritable .. => "rolegraph::graph::io_error"

/-- The advice that goes with an error. -/
def help : RenderError → String
  | .missingExtension _ =>
    "Use an extension supported by Graphviz, e.g. graph.png, graph.svg or graph.dot"
  | .engineNotFound .. =>
    "Install Graphviz or pass --layout with the path to a Graphviz layout program"
  | .engineFailed .. => "The output format may not be supported by this Graphviz build"
  | .unwritable .. => "Check that the output directory exists and is writable"

end RenderError

/-! ## Formats -/

/-- The format of a file: its extension, which is UTF-8 and not empty, with ASCII capitals in lower
case. -/
def outputFormat (path : Path) : Except RenderError String :=
  match path.extension?.bind Path.toString? with
  | some extension =>
    if extension.isEmpty then .error (.missingExtension path)
    else .ok (String.ofList (extension.toList.map Char.toLower))
  | none => .error (.missingExtension path)

/-- The formats that are the DOT text itself. -/
def rawFormats : List String := ["dot", "gv"]

/-! ## Engines -/

/-- What a layout engine is asked for. -/
structure LayoutRequest where
  dot : String
  format : String
  output : Path
  deriving Repr, BEq, DecidableEq, Inhabited

/-- What came of rendering: the outcome with its reports, the files afterwards, and the state of the
engine. -/
structure Rendering (σ : Type) where
  answer : Logged RenderError Unit
  disk : Disk
  state : σ

/-- A layout engine with a state: what it does to the files when it is asked. -/
abbrev LayoutEngine (σ : Type) := LayoutRequest → Disk → σ → Rendering σ

/-- The engine that writes no file and notes what it is asked for. -/
def LayoutEngine.recording : LayoutEngine (List LayoutRequest) := fun request disk requests =>
  ⟨pure (), disk, requests ++ [request]⟩

/-- The report that a graph was rendered. -/
def renderedReport (output : Path) (format : String) : Journal.Entry where
  level := .info
  message := "Rendered role graph"
  fields := [("format", .text format), ("output", .text output.display)]

/-- Renders a graph to a file. -/
def render {σ : Type} (engine : LayoutEngine σ) (g : Graph) (output : Path) (disk : Disk)
    (state : σ) : Rendering σ :=
  match outputFormat output with
  | .error e => ⟨.fail e, disk, state⟩
  | .ok format =>
    let report : Logged RenderError Unit := .write (renderedReport output format)
    if rawFormats.contains format then
      match disk.write output (Dot.text g).toUTF8 with
      | .error cause => ⟨.fail (.unwritable "writing DOT source" output cause), disk, state⟩
      | .ok disk => ⟨report, disk, state⟩
    else
      let r := engine ⟨Dot.text g, format, output⟩ disk state
      ⟨do r.answer; report, r.disk, r.state⟩

end RoleChart
