import RoleChart.Yaml.Character
import RoleChart.Yaml.Scalar
/-!
How a text is written as a scalar in block style: plain, between single quotes, between double
quotes or as a literal block. Each style is possible for some texts only. A text of several lines
is written as a literal block where that is possible. A text that would read as something else when
plain stands between single quotes. Any other text is plain where that is possible. Double quotes,
with escapes, are possible always.
-/
namespace RoleChart.Yaml.Block

/-- The style of a scalar. -/
inductive Style where
  | plain
  | single
  | double
  | literal
  deriving Repr, BEq, DecidableEq

/-- Whether a character is written as itself. -/
def isPrintable (c : Char) : Bool :=
  let n := c.toNat
  n = 0x0A || (0x20 ≤ n && n ≤ 0x7E) || (0xA0 ≤ n && n ≤ 0xD7FF) ||
    (0xE000 ≤ n && n ≤ 0xFFFD && c != byteOrderMark) || 0x10000 ≤ n

/-- Whether somewhere in the text a character with `p` is followed by one with `q`. -/
def hasPair (p q : Char → Bool) : List Char → Bool
  | a :: b :: rest => (p a && q b) || hasPair p q (b :: rest)
  | _ => false

/-- Whether a text starts with the mark that begins or ends a document. -/
def startsMarker : List Char → Bool
  | a :: b :: c :: _ => (a == '-' && b == '-' && c == '-') || (a == '.' && b == '.' && c == '.')
  | _ => false

/-- Whether the first character of a text would not be read as part of a plain scalar. -/
def startsIndicator : List Char → Bool
  | [] => false
  | c :: rest =>
    if c == '-' || c == '?' || c == ':' then startsBlank rest else isIndicator c

/-- Whether, after its first character, a text holds a colon before a blank or at its end, or a
number sign after a blank. -/
def holdsIndicator : List Char → Bool
  | a :: b :: rest =>
    (b == ':' && startsBlank rest) || (isSpaceOrBreak a && b == '#') || holdsIndicator (b :: rest)
  | _ => false

/-- Whether a text has a character with `p` at an end. -/
def hasAtEnd (p : Char → Bool) (cs : List Char) : Bool :=
  cs.head?.any p || cs.getLast?.any p

/-- Whether a text can be written between single quotes. -/
def allowsSingle (cs : List Char) : Bool :=
  cs.all isPrintable && !hasPair isBreak (· == ' ') cs && !hasPair (· == ' ') isBreak cs

/-- Whether a text can be written as a plain scalar. -/
def allowsPlain (cs : List Char) : Bool :=
  cs.all isPrintable && !cs.any isBreak && !hasAtEnd (· == ' ') cs &&
    !startsMarker cs && !startsIndicator cs && !holdsIndicator cs

/-- Whether a text can be written as a literal block. -/
def allowsLiteral (cs : List Char) : Bool :=
  !cs.isEmpty && cs.all isPrintable && cs.getLast? != some ' ' && !hasPair (· == ' ') isBreak cs

/-- Whether a plain text would not read as itself, or looks like a number with zeros in front. -/
def readsOtherwise (s : String) : Bool :=
  match Scalar.read s with
  | .text => Scalar.isPaddedDigits s.toList
  | _ => true

/-- The style in which a text is written. -/
def style (s : String) : Style :=
  let cs := s.toList
  let quoted := if allowsSingle cs then Style.single else .double
  if cs.contains '\n' then if allowsLiteral cs then .literal else .double
  else if readsOtherwise s then quoted
  else if allowsPlain cs then .plain
  else quoted

/-! ## The text of a scalar -/

/-- A digit in base sixteen, in upper case. -/
def upperHexDigit (d : Nat) : Char :=
  (Nat.digitChar d).toUpper

/-- A number in base sixteen, in upper case and `width` digits wide. -/
def upperHex (width n : Nat) : List Char :=
  match width with
  | 0 => []
  | width + 1 => upperHex width (n / 16) ++ [upperHexDigit (n % 16)]

/-- A character between double quotes. -/
def doubleQuoted (c : Char) : List Char :=
  if isPrintable c && !isBreak c && c != '"' && c != '\\' then [c]
  else
    let n := c.toNat
    '\\' :: match c with
      | '\x00' => ['0']
      | '\x07' => ['a']
      | '\x08' => ['b']
      | '\t' => ['t']
      | '\n' => ['n']
      | '\x0b' => ['v']
      | '\x0c' => ['f']
      | '\r' => ['r']
      | '\x1b' => ['e']
      | '"' => ['"']
      | '\\' => ['\\']
      | '\u0085' => ['N']
      | '\u2028' => ['L']
      | '\u2029' => ['P']
      | _ =>
        if n ≤ 0xFF then 'x' :: upperHex 2 n
        else if n ≤ 0xFFFF then 'u' :: upperHex 4 n
        else 'U' :: upperHex 8 n

/-- `count` spaces. -/
def spaces (count : Nat) : List Char :=
  List.replicate count ' '

/-- The characters between single quotes, where further lines start at `indent`: a quote is written
twice. The first argument tells whether a line starts. -/
def singleQuotedFrom (indent : Nat) : Bool → List Char → List Char
  | fresh, [] => if fresh then spaces indent else []
  | fresh, c :: rest =>
    if c == ' ' then c :: singleQuotedFrom indent fresh rest
    else if isBreak c then c :: singleQuotedFrom indent true rest
    else
      (if fresh then spaces indent else []) ++ (if c == '\'' then [c, c] else [c]) ++
        singleQuotedFrom indent false rest

/-- The lines of a literal block, each that is not empty starting at `indent`. The first argument
tells whether a line starts. -/
def literalFrom (indent : Nat) : Bool → List Char → List Char
  | _, [] => []
  | fresh, c :: rest =>
    if isBreak c then c :: literalFrom indent true rest
    else (if fresh then spaces indent else []) ++ c :: literalFrom indent false rest

/-- The header of a literal block: the indentation where the text itself starts with a blank, and
what to do with the breaks at its end. -/
def literalHeader (cs : List Char) : List Char :=
  let hint := if cs.head?.any fun c => c == ' ' || isBreak c then ['2'] else []
  let chomp := match cs.reverse with
    | [] => ['-']
    | [c] => if isBreak c then ['+'] else ['-']
    | c :: d :: _ => if !isBreak c then ['-'] else if isBreak d then ['+'] else []
  '|' :: hint ++ chomp

/-- A text written as a scalar whose further lines start at `indent`. -/
def scalarText (indent : Nat) (s : String) : List Char :=
  let cs := s.toList
  match style s with
  | .plain => cs
  | .single => '\'' :: singleQuotedFrom indent false cs ++ ['\'']
  | .double => '"' :: cs.flatMap doubleQuoted ++ ['"']
  | .literal => literalHeader cs ++ '\n' :: literalFrom indent true cs

end RoleChart.Yaml.Block
