import RoleChart.Render
import RoleChart.Script.Format
import RoleChart.Script.Words
/-!
Running small shell scripts, as layout programs are often wrapped in. A script is a list of simple
commands, each with words and redirections; parameters stand for the arguments. The commands
`printf`, `echo`, `cat`, `exit`, `kill`, `true`, `false` and `:` are known.
-/
namespace RoleChart.Script

/-- Where the output of a command goes. -/
inductive Sink where
  | nowhere
  | errors
  | file (place : Place)
  deriving Repr, BEq, DecidableEq, Inhabited

/-- The state of a script that runs: the files, what is left to read, what was written as errors,
and the status of the last command. The path and the arguments of the script do not change. -/
structure Shell where
  disk : Disk
  input : Bytes
  errors : Bytes
  status : Nat
  arguments : List String

/-- What happens after a command. -/
inductive Next where
  | goOn
  | leave (status : ExitStatus)

namespace Shell

/-- The number that stands for the script itself among the running programs. -/
def ownNumber : String := "4242"

/-- The text of a parameter. -/
def parameter (s : Shell) (name : String) : String :=
  match name with
  | "$" => ownNumber
  | "#" => toString (s.arguments.length - 1)
  | "?" => toString s.status
  | "@" | "*" => String.intercalate " " (s.arguments.drop 1)
  | name => (name.toNat?.bind (s.arguments[·]?)).getD ""

/-- The text of a word. -/
def expand (s : Shell) (w : Word) : String :=
  String.join (w.map fun piece => match piece with
    | .text chars => String.ofList chars
    | .parameter name => s.parameter name)

/-- Writes bytes to a sink. -/
def emit (s : Shell) (sink : Sink) (bytes : Bytes) : Shell :=
  match sink with
  | .nowhere => s
  | .errors => { s with errors := s.errors ++ bytes }
  | .file place =>
    match s.disk.find? place with
    | some (.file old executable) =>
      { s with disk := s.disk.put place (.file (old ++ ByteArray.mk bytes.toArray) executable) }
    | _ => { s with disk := s.disk.put place (.file (ByteArray.mk bytes.toArray) false) }

/-- Why a file cannot be opened, in the words of the shell. -/
def openFault (verb : String) : SystemError → String
  | .notFound | .notDirectory =>
    if verb = "create" then "Directory nonexistent" else "No such file"
  | .isDirectory => "Is a directory"
  | .nameTooLong => "File name too long"
  | .permissionDenied => "Permission denied"
  | cause => cause.message

/-- The shell after a message about a redirection of the command on a line. -/
def refuse (s : Shell) (line : Nat) (verb file : String) (cause : SystemError) : Shell :=
  let message := s.parameter "0" ++ ": " ++ toString line ++ ": cannot " ++ verb ++ " " ++ file ++
    ": " ++ openFault verb cause ++ "\n"
  { s with errors := s.errors ++ bytesOf message, status := 2 }

/-- The streams of a command. -/
structure Streams where
  input : Option Bytes
  out : Sink
  err : Sink

/-- The streams with one of them led to a sink. -/
def Streams.lead (t : Streams) (stream : Nat) (sink : Sink) : Streams :=
  if stream = 2 then { t with err := sink } else { t with out := sink }

/-- Opens what the redirections of a command name. On failure the shell has reported it. -/
def openAll (line : Nat) : List Redirect → Shell → Streams → Except Shell (Shell × Streams)
  | [], s, t => .ok (s, t)
  | .copyOf stream other :: rest, s, t =>
    openAll line rest s (t.lead stream (if other = 2 then t.err else t.out))
  | .readFrom w :: rest, s, t =>
    let file := s.expand w
    match s.disk.readBytes file with
    | .ok bytes => openAll line rest s { t with input := some bytes.toList }
    | .error cause => .error (s.refuse line "open" file cause)
  | .writeTo stream w :: rest, s, t =>
    let file := s.expand w
    match s.disk.write file ByteArray.empty, s.disk.target file with
    | .ok disk, .ok place => openAll line rest { s with disk } (t.lead stream (.file place))
    | .error cause, _ => .error (s.refuse line "create" file cause)
    | _, .error cause => .error (s.refuse line "create" file cause)
  | .appendTo stream w :: rest, s, t =>
    let file := s.expand w
    match s.disk.append file ByteArray.empty, s.disk.target file with
    | .ok disk, .ok place => openAll line rest { s with disk } (t.lead stream (.file place))
    | .error cause, _ => .error (s.refuse line "create" file cause)
    | _, .error cause => .error (s.refuse line "create" file cause)

/-! ## Commands -/

/-- The bytes of the files in a list, where `-` is the input of the command. -/
def concatenate (s : Shell) (t : Streams) : List String → Shell × Bytes
  | [] => (s, [])
  | file :: rest =>
    if file = "-" then
      let left := if t.input.isSome then s.input else []
      let (s', bytes) := concatenate { s with input := left } t rest
      (s', t.input.getD s.input ++ bytes)
    else
      match s.disk.readBytes file with
      | .ok content =>
        let (s', bytes) := concatenate s t rest
        (s', content.toList ++ bytes)
      | .error cause =>
        let fault := match cause with
          | .isDirectory => "Is a directory"
          | .notDirectory => "Not a directory"
          | .nameTooLong => "File name too long"
          | _ => "No such file or directory"
        let message := bytesOf ("cat: " ++ file ++ ": " ++ fault ++ "\n")
        let (s', bytes) := concatenate { s.emit t.err message with status := 1 } t rest
        (s', bytes)

/-- The number of a signal, given by its number or name. -/
def signalNumber? (text : String) : Option Nat :=
  text.toNat?.or (((List.range 16).filter fun n =>
    ExitStatus.signalName n ≠ "" ∧
      (ExitStatus.signalName n = text ∨ ExitStatus.signalName n = "SIG" ++ text)).head?)

/-- Runs one command with its words and streams. -/
def runWords (s : Shell) (line : Nat) (t : Streams) : List String → Shell × Next
  | [] => ({ s with status := 0 }, .goOn)
  | ":" :: _ | "true" :: _ => ({ s with status := 0 }, .goOn)
  | "false" :: _ => ({ s with status := 1 }, .goOn)
  | "exit" :: args =>
    (s, .leave (.code ((args.head?.bind String.toNat?).getD s.status % 256)))
  | "echo" :: args =>
    ({ s.emit t.out (bytesOf (String.intercalate " " args ++ "\n")) with status := 0 }, .goOn)
  | "printf" :: format :: args =>
    ({ s.emit t.out (formatAll (args.length + 1) format.toList args) with status := 0 }, .goOn)
  | "cat" :: args =>
    let (s, bytes) := concatenate { s with status := 0 } t (if args.isEmpty then ["-"] else args)
    (s.emit t.out bytes, .goOn)
  | ["kill", signal, number] =>
    match signal.toList with
    | '-' :: name =>
      match signalNumber? (String.ofList name) with
      | some n =>
        if number = ownNumber ∧ n ≠ 0 then (s, .leave (.signal n))
        else ({ s with status := 1 }, .goOn)
      | none => ({ s with status := 2 }, .goOn)
    | _ => ({ s with status := 2 }, .goOn)
  | ["kill", number] =>
    if number = ownNumber then (s, .leave (.signal 15)) else ({ s with status := 1 }, .goOn)
  | name :: _ =>
    let message := s.parameter "0" ++ ": " ++ toString line ++ ": " ++ name ++ ": not found\n"
    ({ s.emit t.err (bytesOf message) with status := 127 }, .goOn)

/-- Runs one command. -/
def runCommand (s : Shell) (c : SimpleCommand) : Shell × Next :=
  match openAll c.line c.redirects s ⟨none, .nowhere, .errors⟩ with
  | .error s => (s, .goOn)
  | .ok (s, t) => s.runWords c.line t (c.words.map s.expand)

/-- Runs commands one after another until one of them leaves the script. -/
def runAll (s : Shell) : List SimpleCommand → Shell × ExitStatus
  | [] => (s, .code s.status)
  | c :: rest =>
    match s.runCommand c with
    | (s, .leave status) => (s, status)
    | (s, .goOn) => runAll s rest

end Shell

/-- What a script leaves behind. -/
structure Outcome where
  disk : Disk
  errors : Bytes
  status : ExitStatus

/-- Runs a script with its arguments, the first of which is its own path, and with `input` to
read. What it writes as output is not kept. -/
def run (source : String) (arguments : List String) (input : Bytes) (disk : Disk) : Outcome :=
  let (s, status) := Shell.runAll ⟨disk, input, [], 0, arguments⟩ (commands source)
  ⟨s.disk, s.errors, status⟩

end RoleChart.Script
