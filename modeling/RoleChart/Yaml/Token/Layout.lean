import RoleChart.Yaml.Token.Property
import RoleChart.Yaml.Token.Scalar
/-!
From a YAML text to its tokens. Indentation opens and closes block collections, and a colon turns
the piece before it into a key: its key token, and the start of a block mapping where one begins
there, are put in front of the tokens that the piece has already given.
-/
namespace RoleChart.Yaml

/-- A piece that a colon may turn into a key: how many tokens stand before it, where it starts, and
whether nothing but a key may stand there. -/
structure KeyStart where
  before : Nat
  index : Nat
  line : Nat
  column : Nat
  required : Bool
  deriving Repr

/-- The tokens found so far, newest first, and what decides the next one. In `keys` the innermost
flow collection comes first and the block context last. The indentation of the block collections
that are open is in `indents`, the innermost first. -/
structure Layout where
  place : Cursor
  tokens : List Token
  count : Nat
  indents : List Nat
  keyAllowed : Bool
  keys : List (Option KeyStart)
  finished : Bool

namespace Layout

/-- The start of a text. -/
def start (text : List Char) : Layout where
  place := Cursor.start text
  tokens := []
  count := 0
  indents := []
  keyAllowed := true
  keys := [none]
  finished := false

/-- Whether a flow collection is open. -/
def inFlow (s : Layout) : Bool := s.keys.length > 1

/-- The state with one more token. -/
def emit (s : Layout) (token : Token) : Layout :=
  { s with tokens := token :: s.tokens, count := s.count + 1 }

/-- The state with `token` put after the first `before` tokens. -/
def insertAt (s : Layout) (before : Nat) (token : Token) : Layout :=
  let (newer, older) := s.tokens.splitAt (s.count - before)
  { s with tokens := newer ++ token :: older, count := s.count + 1 }

/-- The place `count` characters further. -/
def skip (s : Layout) (count : Nat) : Layout :=
  { s with place := s.place.advance count }

/-! ## Keys -/

/-- Gives up the innermost candidate for a key, which must not be one that has to be a key. -/
def dropKey (s : Layout) : Except Fault Layout :=
  match s.keys with
  | some k :: keys =>
    if k.required then .error .missingColon else .ok { s with keys := none :: keys }
  | _ => .ok s

/-- Makes the piece that starts here the innermost candidate for a key, if keys are allowed. -/
def saveKey (s : Layout) : Except Fault Layout :=
  if !s.keyAllowed then .ok s
  else do
    let s ← s.dropKey
    let c := s.place
    let required := !s.inFlow && s.indents.head? == some c.column
    return { s with keys := some ⟨s.count, c.index, c.line, c.column, required⟩ :: s.keys.tail }

/-- Gives up a candidate on an earlier line or more than 1024 characters back. -/
def freshKey (c : Cursor) : Option KeyStart → Except Fault (Option KeyStart)
  | none => .ok none
  | some k =>
    if k.line < c.line ∨ k.index + 1024 < c.index then
      if k.required then .error .missingColon else .ok none
    else .ok (some k)

/-- Gives up the candidates that lie too far back. -/
def dropStaleKeys (s : Layout) : Except Fault Layout := do
  let keys ← s.keys.mapM (freshKey s.place)
  return { s with keys }

/-! ## Indentation -/

/-- Opens a block collection at `column`, its token after the first `before` tokens, if it is
indented deeper than those that are open. -/
def openBlock (s : Layout) (column before : Nat) (token : Token) : Layout :=
  if s.inFlow ∨ s.indents.head?.any (column ≤ ·) then s
  else { s.insertAt before token with indents := column :: s.indents }

/-- The innermost indentations that are deeper than `column`, given up, and their number. -/
def closedBy (column : Nat) (indents : List Nat) : Nat :=
  (indents.takeWhile (column < ·)).length

/-- Closes the `count` innermost block collections. -/
def closeBlocks (s : Layout) (count : Nat) : Layout :=
  { s with
    tokens := List.replicate count Token.blockEnd ++ s.tokens
    count := s.count + count
    indents := s.indents.drop count }

/-- Closes the block collections that are indented deeper than this place. -/
def closeDeeper (s : Layout) : Layout :=
  if s.inFlow then s else s.closeBlocks (closedBy s.place.column s.indents)

/-- Closes all block collections. -/
def closeAll (s : Layout) : Layout :=
  if s.inFlow then s else s.closeBlocks s.indents.length

/-! ## The white space between tokens -/

/-- Skips blanks, comments and line breaks, at most `limit` lines of them. A tab is skipped only
where it cannot be indentation; a line break in the block context makes keys possible again. -/
def skipLines : Nat → Layout → Layout
  | 0, s => s
  | limit + 1, s =>
    let c := s.place
    let c := if c.column = 0 ∧ c.nextIs byteOrderMark then c.advance 1 else c
    let c := c.skipWhile fun ch => ch == ' ' || ((s.inFlow || !s.keyAllowed) && ch == '\t')
    let c := if c.nextIs '#' then c.skipWhile (!isBreak ·) else c
    match c.takeBreak? with
    | some (_, c') =>
      skipLines limit { s with place := c', keyAllowed := s.keyAllowed || !s.inFlow }
    | none => { s with place := c }

/-! ## Tokens -/

/-- The end of the text. -/
def readEnd (s : Layout) : Except Fault Layout := do
  let s ← s.closeAll.dropKey
  return { s.emit .streamEnd with keyAllowed := false, finished := true }

/-- A directive. -/
def readDirective (s : Layout) : Except Fault Layout := do
  let s ← s.closeAll.dropKey
  let (token, c) ← s.place.readDirective
  return { s.emit token with place := c, keyAllowed := false }

/-- The mark that starts or ends a document. -/
def readMarker (s : Layout) (token : Token) : Except Fault Layout := do
  let s ← s.closeAll.dropKey
  return { (s.emit token).skip 3 with keyAllowed := false }

/-- The start of a flow collection. -/
def readFlowStart (s : Layout) (token : Token) : Except Fault Layout := do
  let s ← s.saveKey
  return { (s.emit token).skip 1 with keys := none :: s.keys, keyAllowed := true }

/-- The end of a flow collection. -/
def readFlowEnd (s : Layout) (token : Token) : Except Fault Layout := do
  let s ← s.dropKey
  let keys := if s.inFlow then s.keys.tail else s.keys
  return { (s.emit token).skip 1 with keys, keyAllowed := false }

/-- The comma between the entries of a flow collection. -/
def readFlowEntry (s : Layout) : Except Fault Layout := do
  let s ← s.dropKey
  return { (s.emit .flowEntry).skip 1 with keyAllowed := true }

/-- The hyphen before an entry of a block sequence. -/
def readBlockEntry (s : Layout) : Except Fault Layout := do
  if !s.inFlow && !s.keyAllowed then throw .entryNotAllowed
  let s := s.openBlock s.place.column s.count .blockSequenceStart
  let s ← s.dropKey
  return { (s.emit .blockEntry).skip 1 with keyAllowed := true }

/-- The question mark before a key. -/
def readKey (s : Layout) : Except Fault Layout := do
  if !s.inFlow && !s.keyAllowed then throw .keyNotAllowed
  let s := s.openBlock s.place.column s.count .blockMappingStart
  let s ← s.dropKey
  return { (s.emit .key).skip 1 with keyAllowed := !s.inFlow }

/-- The colon before a value. -/
def readValue (s : Layout) : Except Fault Layout :=
  match s.keys with
  | some k :: keys =>
    let s := (s.insertAt k.before .key).openBlock k.column k.before .blockMappingStart
    .ok { (s.emit .value).skip 1 with keys := none :: keys, keyAllowed := false }
  | _ =>
    if !s.inFlow && !s.keyAllowed then .error .valueNotAllowed
    else
      let s := s.openBlock s.place.column s.count .blockMappingStart
      .ok { (s.emit .value).skip 1 with keyAllowed := !s.inFlow }

/-- An alias or anchor, at its mark. -/
def readAnchor (s : Layout) (token : String → Token) : Except Fault Layout := do
  let s ← s.saveKey
  let (name, c) ← (s.place.advance 1).readAnchorName
  return { s.emit (token name) with place := c, keyAllowed := false }

/-- A tag. -/
def readTag (s : Layout) : Except Fault Layout := do
  let s ← s.saveKey
  let (token, c) ← s.place.readTag s.inFlow
  return { s.emit token with place := c, keyAllowed := false }

/-- A block scalar. -/
def readBlock (s : Layout) (literal : Bool) : Except Fault Layout := do
  let s ← s.dropKey
  let (text, c) ← s.place.readBlock literal s.indents.head?
  return { s.emit (.scalar (String.ofList text) false) with place := c, keyAllowed := true }

/-- A quoted scalar. -/
def readQuoted (s : Layout) (single : Bool) : Except Fault Layout := do
  let s ← s.saveKey
  let (text, c) ← s.place.readQuoted single
  return { s.emit (.scalar (String.ofList text) false) with place := c, keyAllowed := false }

/-- A plain scalar. Keys are possible after it only on a new line. -/
def readPlain (s : Layout) : Except Fault Layout := do
  let s ← s.saveKey
  let indent := s.indents.head?.elim 0 (· + 1)
  let (text, broken, c) ← s.place.readPlain s.inFlow indent
  return { s.emit (.scalar (String.ofList text) true) with place := c, keyAllowed := broken }

/-- The token that starts at this place. -/
def readToken (s : Layout) : Except Fault Layout :=
  let c := s.place
  match c.rest with
  | [] => s.readEnd
  | ch :: rest =>
    let blank := startsBlank rest
    if c.column = 0 && ch == '%' then s.readDirective
    else if c.atMarker '-' then s.readMarker .documentStart
    else if c.atMarker '.' then s.readMarker .documentEnd
    else if ch = '[' then s.readFlowStart .flowSequenceStart
    else if ch = '{' then s.readFlowStart .flowMappingStart
    else if ch = ']' then s.readFlowEnd .flowSequenceEnd
    else if ch = '}' then s.readFlowEnd .flowMappingEnd
    else if ch = ',' then s.readFlowEntry
    else if ch == '-' && blank then s.readBlockEntry
    else if ch == '?' && (s.inFlow || blank) then s.readKey
    else if ch == ':' && (s.inFlow || blank) then s.readValue
    else if ch = '*' then s.readAnchor .alias
    else if ch = '&' then s.readAnchor .anchor
    else if ch = '!' then s.readTag
    else if ch == '|' && !s.inFlow then s.readBlock true
    else if ch == '>' && !s.inFlow then s.readBlock false
    else if ch = '\'' then s.readQuoted true
    else if ch = '"' then s.readQuoted false
    else if !(isIndicator ch || isSpace ch) || ch == '-' || ((ch == '?' || ch == ':') && !s.inFlow)
    then s.readPlain
    else .error .unexpectedCharacter

/-- Reads the next token, and closes the block collections that end before it. -/
def step (s : Layout) : Except Fault Layout := do
  let s := s.skipLines (s.place.left + 1)
  let s ← s.dropStaleKeys
  s.closeDeeper.readToken

/-- Reads tokens to the end of the text, at most `limit` of them. -/
def run : Nat → Layout → Except Fault Layout
  | 0, s => .ok s
  | limit + 1, s => if s.finished then .ok s else do run limit (← s.step)

end Layout

/-- The tokens of a text. Every step but the last takes at least one character. -/
def Token.ofText (text : List Char) : Except Fault (List Token) :=
  if !text.all isAllowed then .error .forbiddenCharacter
  else do
    let s ← (Layout.start text).run (text.length + 2)
    return s.tokens.reverse

end RoleChart.Yaml
