import RoleChart.Journal
/-!
What a command line has given so far: values for settings, switches and operands. Each setting and
each switch can be given once, and every value is checked when it is given.
-/
namespace RoleChart

/-- Why a command line is not understood, or what it asks for in place of a run. -/
inductive UsageError where
  | missingOperand
  | unknownArgument
  | invalidValue
  | givenTwice
  | unwantedValue
  | help
  | version
  deriving Repr, BEq, DecidableEq, Inhabited

/-- The status with which the program ends. -/
def UsageError.exitCode : UsageError → Nat
  | .help => 0
  | .version => 0
  | _ => 2

/-- How reports are written. -/
inductive LogFormat where
  | pretty
  | compact
  | json
  deriving Repr, BEq, DecidableEq, Inhabited

/-- The format of a name. -/
def LogFormat.ofName? : String → Option LogFormat
  | "pretty" => some .pretty
  | "compact" => some .compact
  | "json" => some .json
  | _ => none

/-- The level of a name. -/
def Journal.Level.ofName? : String → Option Journal.Level
  | "error" => some .error
  | "warn" => some .warn
  | "info" => some .info
  | "debug" => some .debug
  | "trace" => some .trace
  | _ => none

/-- What takes a value on the command line. -/
inductive Setting where
  | roleDir
  | servicesFile
  | layout
  | level
  | logFormat
  deriving Repr, BEq, DecidableEq, Inhabited

/-- The setting of a name. -/
def Setting.ofName? : String → Option Setting
  | "role-dir" => some .roleDir
  | "services-file" => some .servicesFile
  | "layout" => some .layout
  | "level" => some .level
  | "log-format" => some .logFormat
  | _ => none

/-- What is turned on by its name alone. -/
inductive Switch where
  | highlightServices
  | listServices
  | reexpand
  | json
  deriving Repr, BEq, DecidableEq, Inhabited

/-- The switch of a name. -/
def Switch.ofName? : String → Option Switch
  | "highlight-services" => some .highlightServices
  | "list-services" => some .listServices
  | "reexpand" => some .reexpand
  | "json" => some .json
  | _ => none

/-- What a command line has given. -/
structure Given where
  roleDir : Option String
  servicesFile : Option String
  layout : Option String
  level : Option Journal.Level
  logFormat : Option LogFormat
  switches : List Switch
  operands : List String
  deriving Repr, BEq, DecidableEq, Inhabited

namespace Given

/-- Nothing. -/
def nothing : Given := ⟨none, none, none, none, none, [], []⟩

/-- The value of a setting that had `old`, where it is read by `check`. -/
def once {α : Type} (old : Option α) (check : String → Option α) (value : String) :
    Except UsageError (Option α) :=
  if old.isSome then .error .givenTwice
  else match check value with
    | some a => .ok (some a)
    | none => .error .invalidValue

/-- A path, which has a character. -/
def path? (value : String) : Option String :=
  if value.isEmpty then none else some value

/-- Gives a value for a setting. -/
def set (g : Given) (setting : Setting) (value : String) : Except UsageError Given :=
  match setting with
  | .roleDir => do return { g with roleDir := ← once g.roleDir path? value }
  | .servicesFile => do return { g with servicesFile := ← once g.servicesFile path? value }
  | .layout => do return { g with layout := ← once g.layout some value }
  | .level => do return { g with level := ← once g.level Journal.Level.ofName? value }
  | .logFormat => do return { g with logFormat := ← once g.logFormat LogFormat.ofName? value }

/-- Turns a switch on. -/
def turnOn (g : Given) (switch : Switch) : Except UsageError Given :=
  if g.switches.contains switch then .error .givenTwice
  else .ok { g with switches := g.switches ++ [switch] }

/-- Adds an operand, which is a path. -/
def addOperand (g : Given) (value : String) : Except UsageError Given :=
  match path? value with
  | some path => .ok { g with operands := g.operands ++ [path] }
  | none => .error .invalidValue

/-- Whether a switch is on. -/
def has (g : Given) (switch : Switch) : Bool := g.switches.contains switch

end Given

end RoleChart
