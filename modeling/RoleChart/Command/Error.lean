import RoleChart.Json
import RoleChart.Render
import RoleChart.Error
/-!
Why a command fails. Every failure is one of three kinds; it keeps the message and the advice of
what caused it.
-/
namespace RoleChart

/-- What a failure is blamed on. -/
inductive Blame where
  | config
  | input
  | render
  deriving Repr, BEq, DecidableEq, Inhabited

namespace Blame

/-- The word for a kind of failure. -/
def word : Blame → String
  | .config => "config"
  | .input => "input"
  | .render => "render"

/-- How a message of that kind starts. -/
def heading : Blame → String
  | .config => "CLI/configuration error: "
  | .input => "Input error: "
  | .render => "Render error: "

/-- The code of a kind of failure. -/
def code (b : Blame) : String := "rolegraph::cli::" ++ b.word

/-- The status with which the program ends. -/
def exitCode : Blame → Nat
  | .config => 2
  | .input => 3
  | .render => 3

end Blame

/-- Why the directory of the program is not known. -/
inductive HomeFault where
  | programUnknown (cause : SystemError)
  | noDirectory (program : Path)
  deriving Repr, BEq, DecidableEq, Inhabited

/-- The fault in words. -/
def HomeFault.message : HomeFault → String
  | .programUnknown cause => "Cannot locate the running executable: " ++ cause.message
  | .noDirectory program => "Executable " ++ program.display ++ " has no parent directory"

/-- Why a command fails. -/
structure CommandError where
  blame : Blame
  detail : String
  help : Option String
  deriving Repr, BEq, DecidableEq, Inhabited

namespace CommandError

/-- The message of a failure. -/
def message (e : CommandError) : String := e.blame.heading ++ e.detail

/-- The failure to read what is to be drawn. -/
def ofInput (e : InputError) : CommandError := ⟨.input, e.message, some e.help⟩

/-- The failure to read the catalog of services, which is a matter of configuration. -/
def ofCatalog (e : InputError) : CommandError := ⟨.config, e.message, some e.help⟩

/-- The failure to draw. -/
def ofRender (e : RenderError) : CommandError := ⟨.render, e.message, some e.help⟩

/-- There is no such directory of roles. -/
def missingRoleDirectory (path : Path) : CommandError :=
  ⟨.config, "Role directory " ++ path.display ++ " does not exist",
    some "Pass --role-dir or set GRAPH_PLAYBOOK_ROLE_DIR"⟩

/-- There is no such playbook. -/
def missingPlaybook (path : Path) : CommandError :=
  ⟨.config, "Playbook " ++ path.display ++ " does not exist", some "Check the YAML_FILE argument"⟩

/-- The directory of the program is wanted and is not known. -/
def ofHome (e : HomeFault) : CommandError := ⟨.config, e.message, some "Pass --role-dir explicitly"⟩

/-- A failure as JSON. -/
def toJson (e : CommandError) : Json :=
  .object [("code", .string e.blame.word), ("message", .string e.message)]

end CommandError

/-- The envelope of an answer. -/
def Json.okEnvelope (data : Json) : Json :=
  .object [("status", .string "ok"), ("data", data)]

/-- The envelope of a failure. -/
def Json.errorEnvelope (error : Json) : Json :=
  .object [("status", .string "error"), ("error", error)]

end RoleChart
