import RoleChart.Yaml.Cursor
import RoleChart.Yaml.Token
/-!
Reading anchors, tags and directives from a YAML text.
-/
namespace RoleChart.Yaml

namespace Cursor

/-- The name of an anchor or alias, which starts after its mark. -/
def readAnchorName (c : Cursor) : Except Fault (String × Cursor) :=
  let (name, c') := c.span isWord
  let ends := match c'.next? with
    | none => true
    | some ch => isSpaceOrBreak ch || "?:,]\x7d%@\x60".toList.contains ch
  if name.isEmpty ∨ !ends then .error .malformedAnchor
  else .ok (String.ofList name, c')

/-! ## Tags -/

/-- A byte written as a percent sign and two hexadecimal digits. -/
def percentByte? : List Char → Option UInt8
  | '%' :: a :: b :: _ => do
    let high ← hexValue? a
    let low ← hexValue? b
    return UInt8.ofNat (16 * high + low)
  | _ => none

/-- How many bytes the character has that starts with byte `b`. -/
def characterWidth? (b : UInt8) : Option Nat :=
  if b.toNat < 0x80 then some 1
  else if b.toNat / 32 = 6 then some 2
  else if b.toNat / 16 = 14 then some 3
  else if b.toNat / 8 = 30 then some 4
  else none

/-- `count` further bytes of a character, each written with a percent sign. -/
def readMoreBytes : Nat → Cursor → Except Fault (TagBytes × Cursor)
  | 0, c => .ok ([], c)
  | count + 1, c =>
    match percentByte? c.rest with
    | some b =>
      if b.toNat / 64 = 2 then do
        let (more, c') ← readMoreBytes count (c.advance 3)
        return (b :: more, c')
      else .error .malformedTag
    | none => .error .malformedTag

/-- The bytes of one character written with percent signs. -/
def readPercentCharacter (c : Cursor) : Except Fault (TagBytes × Cursor) :=
  match percentByte? c.rest with
  | none => .error .malformedTag
  | some b =>
    match characterWidth? b with
    | none => .error .malformedTag
    | some width => do
      let (more, c') ← readMoreBytes (width - 1) (c.advance 3)
      return (b :: more, c')

/-- The bytes of the tag characters from here on, where a comma and brackets count only if
`brackets` says so. -/
def readTagBytesUpTo (brackets : Bool) : Nat → Cursor → Except Fault (TagBytes × Cursor)
  | 0, c => .ok ([], c)
  | limit + 1, c =>
    match c.next? with
    | none => .ok ([], c)
    | some ch =>
      if !isTagCharacter ch ∨ (!brackets ∧ isFlowIndicator ch) then .ok ([], c)
      else do
        let (bytes, c') ←
          if ch = '%' then c.readPercentCharacter
          else .ok ([UInt8.ofNat ch.toNat], c.advance 1)
        let (more, c'') ← readTagBytesUpTo brackets limit c'
        return (bytes ++ more, c'')

/-- The bytes of the tag characters from here on. Bytes from a zero byte on do not count. At least
one character is there unless `mayBeEmpty`. -/
def readTagBytes (brackets mayBeEmpty : Bool) (before : TagBytes) (c : Cursor) :
    Except Fault (TagBytes × Cursor) := do
  let (bytes, c') ← c.readTagBytesUpTo brackets (c.left + 1)
  if bytes.isEmpty ∧ !mayBeEmpty then .error .malformedTag
  else return ((before ++ bytes).takeWhile (· ≠ 0), c')

/-- The handle of a tag, from its first exclamation mark on. -/
def readTagHandle (c : Cursor) : Except Fault (List Char × Cursor) :=
  if !c.nextIs '!' then .error .malformedTag
  else
    let (word, c') := (c.advance 1).span isWord
    if c'.nextIs '!' then .ok ('!' :: word ++ ['!'], c'.advance 1)
    else .ok ('!' :: word, c')

/-- The bytes of an ASCII text. -/
def asciiBytes (cs : List Char) : TagBytes :=
  cs.map fun c => UInt8.ofNat c.toNat

/-- The tag that starts here, at its exclamation mark: its handle and its bytes after the handle.
The lone exclamation mark has the empty handle. -/
def readTag (inFlow : Bool) (c : Cursor) : Except Fault (Token × Cursor) := do
  let (handle, suffix, c') ←
    if (c.advance 1).nextIs '<' then do
      let (bytes, c') ← (c.advance 2).readTagBytes true false []
      if c'.nextIs '>' then pure ("", bytes, c'.advance 1) else .error .malformedTag
    else do
      let (handle, c') ← c.readTagHandle
      if handle.length > 1 ∧ handle.getLast? = some '!' then do
        let (bytes, c'') ← c'.readTagBytes false false []
        pure (String.ofList handle, bytes, c'')
      else do
        let (bytes, c'') ← c'.readTagBytes false true (asciiBytes (handle.drop 1))
        if bytes.isEmpty then pure ("", asciiBytes ['!'], c'') else pure ("!", bytes, c'')
  if startsBlank c'.rest ∨ (inFlow ∧ c'.nextIs ',') then return (.tag handle suffix, c')
  else .error .malformedTag

/-! ## Directives -/

/-- A number of one to nine digits. -/
def readVersionNumber (c : Cursor) : Except Fault (Nat × Cursor) :=
  let (digits, c') := c.span Char.isDigit
  if digits.isEmpty ∨ digits.length > 9 then .error .malformedDirective
  else .ok (digits.foldl (fun n d => 10 * n + (d.toNat - '0'.toNat)) 0, c')

/-- The two numbers of a version. -/
def readVersion (c : Cursor) : Except Fault (Token × Cursor) := do
  let (major, c) ← (c.skipWhile isSpace).readVersionNumber
  if !c.nextIs '.' then throw .malformedDirective
  let (minor, c) ← (c.advance 1).readVersionNumber
  return (.version major minor, c)

/-- A tag handle and what it stands for. -/
def readTagShorthand (c : Cursor) : Except Fault (Token × Cursor) := do
  let (handle, c) ← (c.skipWhile isSpace).readTagHandle
  if handle ≠ ['!'] ∧ handle.getLast? ≠ some '!' then throw .malformedDirective
  if (c.span isSpace).1.isEmpty then throw .malformedDirective
  let (bytes, c) ← (c.skipWhile isSpace).readTagBytes true false []
  if startsBlank c.rest then return (.tagShorthand (String.ofList handle) bytes, c)
  else throw .malformedDirective

/-- The directive that starts here, at its percent sign, up to the start of the next line. -/
def readDirective (c : Cursor) : Except Fault (Token × Cursor) := do
  let (name, c) := (c.advance 1).span isWord
  if name.isEmpty ∨ !startsBlank c.rest then throw .malformedDirective
  let (token, c) ←
    if name = "YAML".toList then c.readVersion
    else if name = "TAG".toList then c.readTagShorthand
    else .error .unknownDirective
  let c := c.skipWhile isSpace
  let c := if c.nextIs '#' then c.skipWhile (!isBreak ·) else c
  if startsBreak c.rest then return (token, c.skipBreak) else throw .malformedDirective

end Cursor

end RoleChart.Yaml
