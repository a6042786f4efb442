import RoleChart.Arguments.Given
import RoleChart.Path
/-!
The arguments of the program: two operands, the playbook and the output, and settings and switches
between them. A setting takes its value after an equals sign or from the next argument; after `--`
every argument is an operand. What is given by the next argument counts only when the argument after
it is read, so an argument that is not known is reported before a value that is not valid. Command lines
and the environment are texts here, and so are the paths that are read from them.
-/
namespace RoleChart

/-- What the environment gives. -/
structure Environment where
  roleDir : Option String
  layout : Option String
  deriving Repr, BEq, DecidableEq, Inhabited

/-- The arguments of a run. -/
structure Arguments where
  playbook : Path
  output : Path
  roleDir : Option Path
  highlightServices : Bool
  listServices : Bool
  servicesFile : Option Path
  layout : String
  reexpand : Bool
  level : Journal.Level
  logFormat : LogFormat
  json : Bool
  deriving Repr, BEq, DecidableEq, Inhabited

namespace Arguments

/-- The layout program where no other is given. -/
def usualLayout : String := "dot"

/-- The format of reports: with the switch for JSON it is JSON. -/
def effectiveFormat (a : Arguments) : LogFormat :=
  if a.json then .json else a.logFormat

/-! ## Reading arguments -/

/-- The form of an argument. -/
inductive Form where
  | separator
  | long (name : String) (value : Option String)
  | short (letter : Char) (rest : List Char)
  | plain
  deriving Repr, BEq, DecidableEq, Inhabited

/-- The form of an argument: the equals sign that comes first ends a long name. -/
def Form.of (argument : String) : Form :=
  match argument.toList with
  | ['-', '-'] => .separator
  | '-' :: '-' :: cs =>
    let name := String.ofList (cs.takeWhile (· ≠ '='))
    match cs.dropWhile (· ≠ '=') with
    | [] => .long name none
    | _ :: value => .long name (some (String.ofList value))
  | '-' :: c :: cs => .short c cs
  | _ => .plain

/-- What was read last and does not count yet. -/
inductive Pending where
  | nothing
  | setting (setting : Setting) (value : Option String)
  | operand (value : String)
  deriving Repr, BEq, DecidableEq, Inhabited

/-- How far a command line has been read. -/
structure Progress where
  given : Given
  pending : Pending
  separated : Bool
  deriving Repr, BEq, DecidableEq, Inhabited

namespace Progress

/-- Before the first argument. -/
def start : Progress := ⟨.nothing, .nothing, false⟩

/-- What is given once all that was read counts. -/
def settled (p : Progress) : Except UsageError Given :=
  match p.pending with
  | .nothing => .ok p.given
  | .setting setting (some value) => p.given.set setting value
  | .setting _ none => .error .invalidValue
  | .operand value => p.given.addOperand value

/-- The number of operands that were read. -/
def operandCount (p : Progress) : Nat :=
  p.given.operands.length + (match p.pending with
    | .operand _ => 1
    | _ => 0)

/-- Reads an operand. There are two at most. -/
def readOperand (p : Progress) (value : String) : Except UsageError Progress :=
  if p.operandCount ≥ 2 then .error .unknownArgument
  else do return ⟨← p.settled, .operand value, p.separated⟩

/-- Reads a setting with the value that is written with it. -/
def readSetting (p : Progress) (setting : Setting) (value : Option String) :
    Except UsageError Progress := do
  let given ← p.settled
  match value with
  | some value => return ⟨← given.set setting value, .nothing, p.separated⟩
  | none => return ⟨given, .setting setting none, p.separated⟩

/-- Reads a switch. -/
def readSwitch (p : Progress) (switch : Switch) : Except UsageError Progress := do
  return ⟨← (← p.settled).turnOn switch, .nothing, p.separated⟩

/-- Reads what ends the reading, once all before it counts. -/
def stop (p : Progress) (reason : UsageError) : Except UsageError Progress := do
  let _ ← p.settled
  throw reason

/-- Reads an argument that starts with two dashes. -/
def readLong (p : Progress) (name : String) (value : Option String) :
    Except UsageError Progress :=
  match Setting.ofName? name with
  | some setting => p.readSetting setting value
  | none =>
    if !(name == "help" || name == "version" || (Switch.ofName? name).isSome) then
      .error .unknownArgument
    else if value.isSome then .error .unwantedValue
    else match Switch.ofName? name with
      | some switch => p.readSwitch switch
      | none => p.stop (if name = "help" then .help else .version)

/-- Reads an argument that starts with one dash: the letter of the level takes what follows it as
its value, leaving aside an equals sign. -/
def readShort (p : Progress) (letter : Char) (rest : List Char) : Except UsageError Progress :=
  match letter, rest with
  | 'h', _ => p.stop .help
  | 'V', _ => p.stop .version
  | 'L', [] => p.readSetting .level none
  | 'L', '=' :: value => p.readSetting .level (some (String.ofList value))
  | 'L', value => p.readSetting .level (some (String.ofList value))
  | _, _ => .error .unknownArgument

/-- Reads an argument without a dash: the value that is waited for, or an operand. -/
def readPlain (p : Progress) (argument : String) : Except UsageError Progress :=
  match p.pending with
  | .setting setting none => .ok { p with pending := .setting setting (some argument) }
  | _ => p.readOperand argument

/-- Reads one argument. -/
def read (p : Progress) (argument : String) : Except UsageError Progress :=
  if p.separated then p.readOperand argument
  else match Form.of argument with
    | .separator => .ok { p with separated := true }
    | .long name value => p.readLong name value
    | .short letter rest => p.readShort letter rest
    | .plain => p.readPlain argument

end Progress

/-- What a list of arguments gives. -/
def given (arguments : List String) : Except UsageError Given := do
  (← arguments.foldlM Progress.read Progress.start).settled

/-! ## Completing what is given -/

/-- The directory of roles from the environment, which is a path if it is looked at. -/
def roleDirFrom (environment : Environment) (g : Given) : Except UsageError (Option String) :=
  match g.roleDir, environment.roleDir with
  | some path, _ => .ok (some path)
  | none, none => .ok none
  | none, some value =>
    match Given.path? value with
    | some path => .ok (some path)
    | none => .error .invalidValue

/-- The arguments where what is not given comes from the environment, or is as usual. -/
def complete (environment : Environment) (g : Given) : Except UsageError Arguments := do
  let roleDir ← roleDirFrom environment g
  match g.operands with
  | [playbook, output] =>
    return {
      playbook := playbook
      output := output
      roleDir := roleDir.map Path.ofString
      highlightServices := g.has .highlightServices
      listServices := g.has .listServices
      servicesFile := g.servicesFile.map Path.ofString
      layout := (g.layout <|> environment.layout).getD usualLayout
      reexpand := g.has .reexpand
      level := g.level.getD .warn
      logFormat := g.logFormat.getD .pretty
      json := g.has .json }
  | _ => throw .missingOperand

/-- The arguments that a command line gives, without the name of the program. -/
def ofList (environment : Environment) (arguments : List String) :
    Except UsageError Arguments := do
  complete environment (← given arguments)

end Arguments

end RoleChart
