import RoleChart.Command
/-!
A session: one run of the program, from its arguments to what it prints and the status with which it
ends. With the switch for JSON one line is printed, the envelope of the report or of the failure;
without it the services, if they were asked for. What is not part of the program, the reader of YAML and
the layout programs, is among the surroundings of a session.
-/
namespace RoleChart

/-- What a session finds around it: the directory of the program, if it is known, the environment, the
reader of YAML, and the layout engine that stands for the name of a layout program. -/
structure Surroundings (σ : Type) where
  home : Except HomeFault Path
  environment : Environment
  reader : Yaml.Reader
  engine : String → LayoutEngine σ

/-- What came of a session: the entries written, the text printed, what is said to the reader beside
it, the status, and the files afterwards. -/
structure Session where
  entries : List Journal.Entry
  printed : String
  complaint : String
  exitCode : Nat
  disk : Disk

namespace Session

/-- What is printed when the version is asked for. -/
def versionText : String := "graph-playbook 0.1.0\n"

/-- How the program is called. -/
def usageText : String :=
  "Usage: graph-playbook [OPTIONS] <YAML_FILE> <OUTPUT_FILE>\n"

/-- A text on a line of its own. -/
def line (text : String) : String := text ++ "\n"

/-- The session that ends with its arguments. -/
def ofUsageError (e : UsageError) (disk : Disk) : Session :=
  if e = .version then ⟨[], versionText, "", e.exitCode, disk⟩
  else ⟨[], "", usageText, e.exitCode, disk⟩

/-- What is printed after a success. A report that has no JSON is not printed. -/
def successText (json : Bool) (r : Report) : String :=
  if json then String.join ((r.toJson?.map fun data => line (Json.okEnvelope data).text).toList)
  else String.join ((r.services.getD []).map line)

/-- What is said of a success whose report has no JSON. -/
def successComplaint (json : Bool) (r : Report) : String :=
  if json && r.toJson?.isNone then line "Error serializing response" else ""

/-- What is printed after a failure. -/
def failureText (json : Bool) (e : CommandError) : String :=
  if json then line (Json.errorEnvelope e.toJson).text else ""

/-- The entry for a failure whose envelope is printed. -/
def failureEntries (json : Bool) (e : CommandError) : List Journal.Entry :=
  if json then [⟨.error, e.message, [("code", .text e.blame.word)]⟩] else []

/-- What is said of a failure whose envelope is not printed. -/
def failureComplaint (json : Bool) (e : CommandError) : String :=
  if json then ""
  else line e.message ++ String.join ((e.help.map fun help => line ("help: " ++ help)).toList)

/-- The session that ends with the outcome of a command. -/
def ofOutcome (json : Bool) (entries : List Journal.Entry) (disk : Disk) :
    Except CommandError Report → Session
  | .ok r => ⟨entries, successText json r, successComplaint json r, 0, disk⟩
  | .error e =>
    ⟨entries ++ failureEntries json e, failureText json e, failureComplaint json e,
      e.blame.exitCode, disk⟩

variable {σ : Type}

/-- The session with arguments that are understood, over given files and with the layout engine in the
state `state`. There is none if the expansion does not end. -/
def ofArguments (s : Surroundings σ) (a : Arguments) (disk : Disk) (state : σ) : Option Session :=
  match Command.ofArguments disk s.home a with
  | .error e => some (ofOutcome a.json [] disk (.error e))
  | .ok c =>
    let r := c.execute s.reader (s.engine c.layout) disk state
    r.outcome.map (ofOutcome a.json r.entries r.disk)

/-- The session with a command line. -/
def run (s : Surroundings σ) (words : List String) (disk : Disk) (state : σ) : Option Session :=
  match Arguments.ofList s.environment words with
  | .error e => some (ofUsageError e disk)
  | .ok a => ofArguments s a disk state

end Session

end RoleChart
