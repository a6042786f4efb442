/-!
The words of a small shell script, and the simple commands that they make. Words are quoted as in a
shell; an operator leads a stream of a command to a file or to another stream.
-/
namespace RoleChart.Script

/-- A piece of a word: characters as they are, or a parameter. -/
inductive Piece where
  | text (chars : List Char)
  | parameter (name : String)
  deriving Repr, BEq, DecidableEq, Inhabited

/-- A word: pieces side by side. -/
abbrev Word := List Piece

/-- Where a redirection leads. -/
inductive Redirect where
  | readFrom (file : Word)
  | writeTo (stream : Nat) (file : Word)
  | appendTo (stream : Nat) (file : Word)
  | copyOf (stream other : Nat)
  deriving Repr, BEq, DecidableEq, Inhabited

/-- A part of a line of a script. -/
inductive Lexeme where
  | word (w : Word)
  | less
  | greater (stream : Nat)
  | doubleGreater (stream : Nat)
  | greaterAnd (stream : Nat)
  | stop
  | newline
  deriving Repr, BEq, DecidableEq, Inhabited

/-! ## Commands -/

/-- A command with its redirections, and the line on which it stands. -/
structure SimpleCommand where
  line : Nat
  words : List Word
  redirects : List Redirect
  deriving Repr, BEq, DecidableEq, Inhabited

/-- The parameter whose name starts here, after its dollar sign, and what follows it. -/
def readParameter : List Char → Piece × List Char
  | '\x7b' :: rest =>
    (.parameter (String.ofList (rest.takeWhile (· ≠ '\x7d'))),
      (rest.dropWhile (· ≠ '\x7d')).drop 1)
  | c :: rest =>
    if c.isDigit || c == '$' || c == '#' || c == '?' || c == '@' || c == '*' then
      (.parameter c.toString, rest)
    else (.text ['$'], c :: rest)
  | [] => (.text ['$'], [])

/-- The pieces between double quotes, and what follows the closing one. -/
def readDouble : Nat → List Char → Word × List Char
  | 0, cs => ([], cs)
  | limit + 1, cs =>
    match cs with
    | [] => ([], [])
    | '"' :: rest => ([], rest)
    | '\\' :: c :: rest =>
      let (pieces, rest) := readDouble limit rest
      let kept := if c == '"' || c == '\\' || c == '$' || c == '\x60' then [c] else ['\\', c]
      (.text kept :: pieces, rest)
    | '$' :: rest =>
      let (piece, rest) := readParameter rest
      let (pieces, rest) := readDouble limit rest
      (piece :: pieces, rest)
    | c :: rest =>
      let (pieces, rest) := readDouble limit rest
      (.text [c] :: pieces, rest)

/-- Whether a character ends a word that is not quoted. -/
def endsWord (c : Char) : Bool :=
  c == ' ' || c == '\t' || c == '\n' || c == ';' || c == '<' || c == '>' || c == '&' || c == '|'

/-- The word that starts here, and what follows it. -/
def readWord : Nat → List Char → Word × List Char
  | 0, cs => ([], cs)
  | limit + 1, cs =>
    match cs with
    | [] => ([], [])
    | '\'' :: rest =>
      let (pieces, after) := readWord limit ((rest.dropWhile (· ≠ '\'')).drop 1)
      (.text (rest.takeWhile (· ≠ '\'')) :: pieces, after)
    | '"' :: rest =>
      let (quoted, rest) := readDouble limit rest
      let (pieces, rest) := readWord limit rest
      (.text [] :: quoted ++ pieces, rest)
    | '\\' :: c :: rest =>
      let (pieces, rest) := readWord limit rest
      (.text [c] :: pieces, rest)
    | '$' :: rest =>
      let (piece, rest) := readParameter rest
      let (pieces, rest) := readWord limit rest
      (piece :: pieces, rest)
    | c :: rest =>
      if endsWord c then ([], c :: rest)
      else
        let (pieces, rest) := readWord limit rest
        (.text [c] :: pieces, rest)

/-- The operator that starts with a greater-than sign on a stream; the sign lies before. -/
def readGreater (stream : Nat) : List Char → Lexeme × List Char
  | '>' :: rest => (.doubleGreater stream, rest)
  | '&' :: rest => (.greaterAnd stream, rest)
  | rest => (.greater stream, rest)

/-- The parts of a script. -/
def lexemes : Nat → List Char → List Lexeme
  | 0, _ => []
  | limit + 1, cs =>
    match cs with
    | [] => []
    | '\n' :: rest => .newline :: lexemes limit rest
    | ';' :: rest => .stop :: lexemes limit rest
    | '#' :: rest => lexemes limit (rest.dropWhile (· ≠ '\n'))
    | '<' :: rest => .less :: lexemes limit rest
    | '>' :: rest =>
      let (lexeme, rest) := readGreater 1 rest
      lexeme :: lexemes limit rest
    | '1' :: '>' :: rest =>
      let (lexeme, rest) := readGreater 1 rest
      lexeme :: lexemes limit rest
    | '2' :: '>' :: rest =>
      let (lexeme, rest) := readGreater 2 rest
      lexeme :: lexemes limit rest
    | c :: rest =>
      if c == ' ' || c == '\t' || c == '&' || c == '|' then lexemes limit rest
      else
        let (word, rest) := readWord (rest.length + 1) (c :: rest)
        .word word :: lexemes limit rest

/-- The characters of a word without parameters. -/
def plainText (w : Word) : String :=
  String.join (w.map fun piece => match piece with
    | .text chars => String.ofList chars
    | .parameter _ => "")

/-- The commands that the parts of a script make, where `current` is the command before them. -/
def commandsFrom (current : SimpleCommand) : List Lexeme → List SimpleCommand
  | [] => [current]
  | .newline :: rest => current :: commandsFrom ⟨current.line + 1, [], []⟩ rest
  | .stop :: rest => current :: commandsFrom ⟨current.line, [], []⟩ rest
  | .less :: .word w :: rest =>
    commandsFrom { current with redirects := current.redirects ++ [.readFrom w] } rest
  | .greater n :: .word w :: rest =>
    commandsFrom { current with redirects := current.redirects ++ [.writeTo n w] } rest
  | .doubleGreater n :: .word w :: rest =>
    commandsFrom { current with redirects := current.redirects ++ [.appendTo n w] } rest
  | .greaterAnd n :: .word w :: rest =>
    let other := if plainText w = "2" then 2 else 1
    commandsFrom { current with redirects := current.redirects ++ [.copyOf n other] } rest
  | .word w :: rest => commandsFrom { current with words := current.words ++ [w] } rest
  | _ :: rest => commandsFrom current rest

/-- The commands of a script. -/
def commands (source : String) : List SimpleCommand :=
  let cs := source.toList
  (commandsFrom ⟨1, [], []⟩ (lexemes (cs.length + 1) cs)).filter fun c =>
    !(c.words.isEmpty && c.redirects.isEmpty)

end RoleChart.Script
