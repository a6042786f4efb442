import RoleChart.Yaml.Character
import RoleChart.Yaml.Fault
/-!
A place in a YAML text, and the white space between the pieces of a scalar. A gap is either blanks
on one line, which stay as they are, or line breaks, which are folded: a single break becomes a
space, and of several the first is dropped. Line and paragraph separators are never folded away.
-/
namespace RoleChart.Yaml

/-- A place in a text of `total` characters: what is left of it, and how many characters and lines
lie before it. -/
structure Cursor where
  rest : List Char
  total : Nat
  index : Nat
  line : Nat
  column : Nat
  deriving Repr, Inhabited

namespace Cursor

/-- The start of a text. -/
def start (text : List Char) : Cursor := ⟨text, text.length, 0, 0, 0⟩

/-- The number of characters from here on. -/
def left (c : Cursor) : Nat := c.total - c.index

/-- The place `count` characters further on the same line. -/
def advance (c : Cursor) (count : Nat) : Cursor :=
  { c with rest := c.rest.drop count, index := c.index + count, column := c.column + count }

/-- The next character. -/
def next? (c : Cursor) : Option Char := c.rest.head?

/-- Whether the next character is `ch`. -/
def nextIs (c : Cursor) (ch : Char) : Bool := c.rest.head? == some ch

/-- Whether the text is at its end. -/
def atEnd (c : Cursor) : Bool := c.rest.isEmpty

/-- The characters from here on that satisfy `p`, and the place after them. No line break
satisfies `p`. -/
def span (c : Cursor) (p : Char → Bool) : List Char × Cursor :=
  let run := c.rest.takeWhile p
  (run, c.advance run.length)

/-- The place after the characters from here on that satisfy `p`. -/
def skipWhile (c : Cursor) (p : Char → Bool) : Cursor := (c.span p).2

/-- The start of the next line, where the break takes `count` characters. -/
def nextLine (c : Cursor) (count : Nat) : Cursor :=
  { c with
    rest := c.rest.drop count
    index := c.index + count
    line := c.line + 1
    column := 0 }

/-- The line break that stands here, as it is kept in a text, and the start of the next line. Line
feeds, carriage returns, their pair and the next-line character are all kept as line feeds. -/
def takeBreak? (c : Cursor) : Option (Char × Cursor) :=
  match c.rest with
  | '\r' :: '\n' :: _ => some ('\n', c.nextLine 2)
  | ch :: _ =>
    if ch = '\u2028' ∨ ch = '\u2029' then some (ch, c.nextLine 1)
    else if isBreak ch then some ('\n', c.nextLine 1)
    else none
  | [] => none

/-- The place after the line break that stands here, or this place if none does. -/
def skipBreak (c : Cursor) : Cursor :=
  match c.takeBreak? with
  | some (_, c') => c'
  | none => c

/-- Whether a line starts here with `mark` three times, followed by a blank, a break or the end. -/
def atMarker (c : Cursor) (mark : Char) : Bool :=
  c.column = 0 && match c.rest with
  | a :: b :: d :: rest => a = mark && b = mark && d = mark && startsBlank rest
  | _ => false

/-- Whether a line starts here with the mark that begins or ends a document. -/
def atDocumentMarker (c : Cursor) : Bool :=
  c.atMarker '-' || c.atMarker '.'

end Cursor

/-- White space between two pieces of a scalar: blanks on one line, or breaks, the first of which
is missing where it was escaped. -/
inductive Gap where
  | blanks (spaces : List Char)
  | breaks (first : Option Char) (others : List Char)
  deriving Repr, Inhabited

namespace Gap

/-- No white space. -/
def none : Gap := .blanks []

/-- Whether the gap holds a line break. -/
def isBroken : Gap → Bool
  | .blanks _ => false
  | .breaks _ _ => true

/-- The gap followed by one more break. -/
def addBreak : Gap → Char → Gap
  | .blanks _, b => .breaks (some b) []
  | .breaks first others, b => .breaks first (others ++ [b])

/-- The text that stands for the gap. -/
def text : Gap → List Char
  | .blanks spaces => spaces
  | .breaks (some '\n') [] => [' ']
  | .breaks (some '\n') others => others
  | .breaks first others => first.toList ++ others

end Gap

namespace Cursor

/-- Extends `gap` by the white space from here on, at most `limit` characters of it. On a line that
holds nothing else yet, a tab before the column `indent` is refused. -/
def extendGap (indent : Nat) : Nat → Gap → Cursor → Except Fault (Gap × Cursor)
  | 0, gap, c => .ok (gap, c)
  | limit + 1, gap, c =>
    match c.takeBreak?, gap with
    | some (b, c'), gap => extendGap indent limit (gap.addBreak b) c'
    | none, .blanks spaces =>
      let (run, c') := c.span isSpace
      if run.isEmpty then .ok (gap, c)
      else extendGap indent limit (.blanks (spaces ++ run)) c'
    | none, .breaks _ _ =>
      let (run, c') := c.span isSpace
      if run.isEmpty then .ok (gap, c)
      else if (run.take (indent - c.column)).contains '\t' then .error .tabIndentation
      else extendGap indent limit gap c'

/-- The white space from here on. -/
def readGap (indent : Nat) (gap : Gap) (c : Cursor) : Except Fault (Gap × Cursor) :=
  extendGap indent (c.left + 1) gap c

end Cursor

end RoleChart.Yaml
