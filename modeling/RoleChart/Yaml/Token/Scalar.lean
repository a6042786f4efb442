import RoleChart.Yaml.Cursor
/-!
Reading the text of a scalar: plain, quoted or as an indented block.
-/
namespace RoleChart.Yaml

namespace Cursor

/-! ## Plain scalars -/

/-- The characters of a plain scalar up to a blank, or up to an indicator that ends it. -/
def plainRun (inFlow : Bool) : List Char → Except Fault (List Char)
  | [] => .ok []
  | c :: rest =>
    if isSpaceOrBreak c then .ok []
    else if inFlow && c == ':' && rest.head?.any fun d => d == '?' || isFlowIndicator d then
      .error .unexpectedColon
    else if (c == ':' && startsBlank rest) || (inFlow && isFlowIndicator c) then .ok []
    else (c :: ·) <$> plainRun inFlow rest

/-- Goes on with a plain scalar after `text` and `gap`, at most `limit` runs. The answer tells also
whether the scalar is followed by a line break. -/
def readPlainFrom (inFlow : Bool) (indent : Nat) :
    Nat → List Char → Gap → Cursor → Except Fault (List Char × Bool × Cursor)
  | 0, text, gap, c => .ok (text, gap.isBroken, c)
  | limit + 1, text, gap, c =>
    if c.atDocumentMarker || c.nextIs '#' then .ok (text, gap.isBroken, c)
    else do
      let run ← plainRun inFlow c.rest
      let (text, gap, c) :=
        if run.isEmpty then (text, gap, c)
        else (text ++ gap.text ++ run, Gap.none, c.advance run.length)
      match c.next? with
      | some ch =>
        if isSpaceOrBreak ch then do
          let (gap, c) ← c.readGap indent gap
          if !inFlow && c.column < indent then return (text, gap.isBroken, c)
          else readPlainFrom inFlow indent limit text gap c
        else return (text, gap.isBroken, c)
      | none => return (text, gap.isBroken, c)

/-- The plain scalar that starts here, whose further lines start at the column `indent` or after
it, and whether a line break follows it. -/
def readPlain (inFlow : Bool) (indent : Nat) (c : Cursor) :
    Except Fault (List Char × Bool × Cursor) :=
  c.readPlainFrom inFlow indent (c.left + 1) [] Gap.none

/-! ## Quoted scalars -/

/-- The number of the character that stands for itself after a backslash, and the number of
hexadecimal digits that follow where its number is given by them. -/
def escape? (c : Char) : Option (Char ⊕ Nat) :=
  match c with
  | '0' => some (.inl '\x00')
  | 'a' => some (.inl '\x07')
  | 'b' => some (.inl '\x08')
  | 't' => some (.inl '\t')
  | '\t' => some (.inl '\t')
  | 'n' => some (.inl '\n')
  | 'v' => some (.inl '\x0b')
  | 'f' => some (.inl '\x0c')
  | 'r' => some (.inl '\r')
  | 'e' => some (.inl '\x1b')
  | ' ' => some (.inl ' ')
  | '"' => some (.inl '"')
  | '/' => some (.inl '/')
  | '\\' => some (.inl '\\')
  | 'N' => some (.inl '\u0085')
  | '_' => some (.inl '\u00a0')
  | 'L' => some (.inl '\u2028')
  | 'P' => some (.inl '\u2029')
  | 'x' => some (.inr 2)
  | 'u' => some (.inr 4)
  | 'U' => some (.inr 8)
  | _ => none

/-- The number written by hexadecimal digits. -/
def hexNumber? (digits : List Char) : Option Nat :=
  digits.foldlM (fun n d => (16 * n + ·) <$> hexValue? d) 0

/-- The character that an escape stands for, and the place after it; the backslash lies before. -/
def readEscape (c : Cursor) : Except Fault (Char × Cursor) :=
  match c.next?.bind escape? with
  | none => .error .unknownEscape
  | some (.inl ch) => .ok (ch, c.advance 1)
  | some (.inr width) =>
    let digits := (c.rest.drop 1).take width
    match hexNumber? digits with
    | none => .error .unknownEscape
    | some n =>
      if digits.length < width then .error .unknownEscape
      else if (0xD800 ≤ n ∧ n ≤ 0xDFFF) ∨ n > 0x10FFFF then .error .invalidCharacterNumber
      else .ok (Char.ofNat n, c.advance (width + 1))

/-- How a run of characters inside quotes ends. -/
inductive RunEnd where
  | blank
  | quote
  | escapedBreak
  deriving BEq

/-- The characters inside quotes up to a blank, the closing quote or an escaped line break. -/
def readQuotedRun (single : Bool) : Nat → Cursor → Except Fault (List Char × RunEnd × Cursor)
  | 0, c => .ok ([], .blank, c)
  | limit + 1, c =>
    match c.rest with
    | [] => .ok ([], .blank, c)
    | ch :: rest =>
      if isSpaceOrBreak ch then .ok ([], .blank, c)
      else if single && ch == '\'' && rest.head? == some '\'' then do
        let (text, ends, c') ← readQuotedRun single limit (c.advance 2)
        return ('\'' :: text, ends, c')
      else if ch = (if single then '\'' else '"') then .ok ([], .quote, c)
      else if !single && ch == '\\' then
        if rest.head?.any isBreak then .ok ([], .escapedBreak, (c.advance 1).skipBreak)
        else do
          let (e, c') ← (c.advance 1).readEscape
          let (text, ends, c'') ← readQuotedRun single limit c'
          return (e :: text, ends, c'')
      else do
        let (text, ends, c') ← readQuotedRun single limit (c.advance 1)
        return (ch :: text, ends, c')

/-- Goes on with a quoted scalar after `text`, at most `limit` runs. -/
def readQuotedFrom (single : Bool) : Nat → List Char → Cursor → Except Fault (List Char × Cursor)
  | 0, _, _ => .error .unclosedQuote
  | limit + 1, text, c =>
    if c.atDocumentMarker then .error .markerInQuote
    else if c.atEnd then .error .unclosedQuote
    else do
      let (run, ends, c) ← c.readQuotedRun single (c.left + 1)
      let text := text ++ run
      let go (gap : Gap) : Except Fault (List Char × Cursor) := do
        let (gap, c) ← c.readGap 0 gap
        readQuotedFrom single limit (text ++ gap.text) c
      match ends with
      | .quote => return (text, c.advance 1)
      | .blank => go Gap.none
      | .escapedBreak =>
        if c.nextIs (if single then '\'' else '"') then return (text, c.advance 1)
        else go (.breaks none [])

/-- The quoted scalar that starts here, at its opening quote. -/
def readQuoted (single : Bool) (c : Cursor) : Except Fault (List Char × Cursor) :=
  (c.advance 1).readQuotedFrom single (c.left + 1) []

/-! ## Block scalars -/

/-- What becomes of the line breaks at the end of a block scalar. -/
inductive Chomp where
  | strip
  | clip
  | keep
  deriving Repr, BEq, DecidableEq

/-- The sign of a block header. -/
def chomp? (c : Char) : Option Chomp :=
  if c = '+' then some .keep else if c = '-' then some .strip else none

/-- The indentation that a block header gives: one digit, which is not zero. -/
def indentDigit? (c : Char) : Option Nat :=
  if c.isDigit then some (c.toNat - '0'.toNat) else none

/-- The header of a block scalar after its indicator: what becomes of the breaks at its end and its
indentation where given, in either order; a comment may follow. The place is the next line. -/
def readBlockHeader (c : Cursor) : Except Fault (Chomp × Option Nat × Cursor) := do
  let (chomp, digit, c) :=
    match c.next?.bind chomp?, c.next?.bind indentDigit? with
    | some chomp, _ =>
      let c := c.advance 1
      match c.next?.bind indentDigit? with
      | some n => (chomp, some n, c.advance 1)
      | none => (chomp, none, c)
    | none, some n =>
      let c := c.advance 1
      match c.next?.bind chomp? with
      | some chomp => (chomp, some n, c.advance 1)
      | none => (.clip, some n, c)
    | none, none => (.clip, none, c)
  if digit = some 0 then throw .malformedBlockHeader
  let c := c.skipWhile isSpace
  let c := if c.nextIs '#' then c.skipWhile (!isBreak ·) else c
  if startsBreak c.rest then return (chomp, digit, c.skipBreak)
  else throw .malformedBlockHeader

/-- Skips empty lines and the indentation of the next line, which is `indent` wide where known. The
answer holds the breaks and the widest column reached, which is `widest` at the start. -/
def readBlockBreaks (indent : Option Nat) :
    Nat → List Char → Nat → Cursor → Except Fault (List Char × Nat × Cursor)
  | 0, breaks, widest, c => .ok (breaks, widest, c)
  | limit + 1, breaks, widest, c =>
    let run := (c.span (· == ' ')).1.length
    let c := c.advance (match indent with
      | none => run
      | some n => min run (n - c.column))
    let widest := max widest c.column
    if (indent.all (c.column < ·)) && c.nextIs '\t' then .error .tabIndentation
    else match c.takeBreak? with
      | some (b, c') => readBlockBreaks indent limit (breaks ++ [b]) widest c'
      | none => .ok (breaks, widest, c)

/-- Goes on with the lines of a block scalar after `text`: `break?` ended the line before, `empty`
are the breaks of the empty lines since, and `afterBlank` tells whether that line started with a
blank. The answer also holds what stands after the last line. -/
def readBlockLines (literal : Bool) (indent : Nat) :
    Nat → List Char → Option Char → List Char → Bool → Cursor →
      Except Fault (List Char × Option Char × List Char × Cursor)
  | 0, text, break?, empty, _, c => .ok (text, break?, empty, c)
  | limit + 1, text, break?, empty, afterBlank, c =>
    if c.column ≠ indent || c.atEnd then .ok (text, break?, empty, c)
    else do
      let blank := c.next?.any isSpace
      let joint :=
        if !literal && break? == some '\n' && !afterBlank && !blank then
          if empty.isEmpty then [' '] else empty
        else break?.toList ++ empty
      let (line, c) := c.span (!isBreak ·)
      let (break?, c) := match c.takeBreak? with
        | some (b, c') => (some b, c')
        | none => (none, c)
      let (empty, _, c) ← c.readBlockBreaks (some indent) (c.left + 1) [] 0
      readBlockLines literal indent limit (text ++ joint ++ line) break? empty blank c

/-- The block scalar that starts here, at its indicator, in a collection indented by `parent`, or
in none. -/
def readBlock (literal : Bool) (parent : Option Nat) (c : Cursor) :
    Except Fault (List Char × Cursor) := do
  let (chomp, digit, c) ← (c.advance 1).readBlockHeader
  let given := digit.map (parent.getD 0 + ·)
  let (empty, widest, c) ← c.readBlockBreaks given (c.left + 1) [] 0
  let indent := given.getD (max widest (max (parent.elim 0 (· + 1)) 1))
  let (text, break?, empty, c) ←
    c.readBlockLines literal indent (c.left + 1) [] none empty false
  return match chomp with
    | .strip => (text, c)
    | .clip => (text ++ break?.toList, c)
    | .keep => (text ++ break?.toList ++ empty, c)

end Cursor

end RoleChart.Yaml
