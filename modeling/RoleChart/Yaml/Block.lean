import RoleChart.Yaml.Block.Style
/-!
Writing a value as a YAML document in block style. Mappings are indented by two, lists under a key
not at all. An empty collection is written in flow style. A key that fits in 128 bytes on one line
stands before its colon; any other has a question mark before it, and its value a line of its own.
-/
namespace RoleChart.Yaml

namespace Block

/-! ## What can be written -/

/-- Whether a value has a tag. -/
def isTagged : Value → Bool
  | .tagged _ _ => true
  | _ => false

/-- Whether a value, as the only key of a mapping, would be mistaken for a tag. -/
def actsAsTag : Value → Bool
  | .tagged _ _ => true
  | .mapping [_] => true
  | _ => false

mutual

/-- Whether a value can be written: no tag stands on a tag, and no mapping of one entry, other than
one under a tag, has a key that would be mistaken for a tag. -/
def isWritable (underTag : Bool) : Value → Bool
  | .sequence items => areWritable items
  | .mapping entries =>
    (underTag || match entries with
      | [(key, _)] => !actsAsTag key
      | _ => true) && entriesWritable entries
  | .tagged _ v => !isTagged v && isWritable true v
  | _ => true

/-- Whether all values of a list can be written. -/
def areWritable : List Value → Bool
  | [] => true
  | v :: rest => isWritable false v && areWritable rest

/-- Whether all keys and values of a mapping can be written. -/
def entriesWritable : List (Value × Value) → Bool
  | [] => true
  | (k, v) :: rest => isWritable false k && isWritable false v && entriesWritable rest

end

/-! ## Tags -/

/-- The characters that stand for themselves in a tag. -/
def standsInTag (c : Char) : Bool :=
  isTagCharacter c && c != '!' && c != '%'

/-- A character in a tag: itself, or its bytes after percent signs. -/
def tagCharacter (c : Char) : List Char :=
  if standsInTag c then [c]
  else c.toString.toUTF8.toList.flatMap fun b => '%' :: upperHex 2 b.toNat

/-- A tag with its exclamation mark. -/
def fullTag (tag : String) : List Char :=
  match bareTag tag with
  | '!' :: rest => '!' :: rest
  | cs => '!' :: cs

/-- The text of a tag. -/
def tagText (tag : String) : List Char :=
  match fullTag tag with
  | ['!'] => "!<%21>".toList
  | cs => '!' :: (cs.drop 1).flatMap tagCharacter

/-! ## Scalars and keys -/

/-- The number of bytes of a text. -/
def byteCount (cs : List Char) : Nat :=
  (String.ofList cs).utf8ByteSize

/-- The text of a value that is a scalar or an empty collection, whose further lines start at
`indent`. -/
def flatText? (indent : Nat) : Value → Option (List Char)
  | .null => some "null".toList
  | .bool b => some (if b then "true".toList else "false".toList)
  | .number n => some n.text.toList
  | .string s => some (scalarText indent s)
  | .sequence [] => some ['[', ']']
  | .mapping [] => some ['\x7b', '\x7d']
  | _ => none

/-- The number of bytes that count towards the length of a key, if it takes one line: those of the
text of a scalar before it is quoted. -/
def keyBytes? : Value → Option Nat
  | .string s => if s.toList.any isBreak then none else some s.utf8ByteSize
  | .sequence [] | .mapping [] => some 0
  | .tagged tag v => (byteCount (fullTag tag) + ·) <$> keyBytes? v
  | v => (flatText? 0 v).map byteCount

/-- Whether a value can stand as a key before its colon. -/
def isSimpleKey (v : Value) : Bool :=
  (keyBytes? v).any (· ≤ 128)

/-! ## Collections -/

/-- Where a value stands in the collection around it: nowhere, after the hyphen of a list, after
the colon of a simple key, or after the question mark or colon of a key that is not simple. A tag
may stand in front of it. -/
inductive Place where
  | root
  | item
  | afterKey
  | complex
  deriving BEq, DecidableEq

/-- The end of what is written so far and the start of a line indented by `indent`. A text that ends
with a line break needs no other. -/
def freshLine (out : List Char) (indent : Nat) : List Char :=
  let out := if out.getLast?.all isBreak then out else out ++ ['\n']
  out ++ spaces indent

/-- The indentation of a list or mapping in a collection indented by `indent`. -/
def indentAt (place : Place) (tagged isList : Bool) (indent : Nat) : Nat :=
  match place with
  | .root => 0
  | .item => indent + 2
  | .afterKey => if isList then indent else indent + 2
  | .complex => if isList && tagged then indent else indent + 2

/-- What is written so far with the start of a list or mapping indented by `indent`: on the same
line after a hyphen or question mark, and otherwise on a line of its own. -/
def openAt (out : List Char) (place : Place) (tagged : Bool) (indent : Nat) : List Char :=
  if (place == .item || place == .complex) && !tagged then out ++ [' ']
  else freshLine out indent

/-- What is written so far with a piece after it, a space between the two unless a document
starts. -/
def joined (out : List Char) (place : Place) (piece : List Char) : List Char :=
  if place == .root && out.isEmpty then piece else out ++ ' ' :: piece

/-- The indentation of the further lines of a scalar. -/
def scalarIndent (place : Place) (indent : Nat) : Nat :=
  if place == .root then 2 else indent + 2

mutual

/-- What is written so far with a value after it, in a collection indented by `indent`. -/
def write (out : List Char) (place : Place) (tagged : Bool) (indent : Nat) : Value → List Char
  | .tagged tag v => write (joined out place (tagText tag)) place true indent v
  | .sequence (item :: items) =>
    let inner := indentAt place tagged true indent
    let out := write (openAt out place tagged inner ++ ['-']) .item false inner item
    writeItems out inner items
  | .mapping ((key, value) :: entries) =>
    let inner := indentAt place tagged false indent
    let out := openAt out place tagged inner
    let out :=
      if isSimpleKey key then
        write (writeKey out key ++ [':']) .afterKey false inner value
      else
        let out := write (out ++ ['?']) .complex false inner key
        write (freshLine out inner ++ [':']) .complex false inner value
    writeEntries out inner entries
  | v => joined out place ((flatText? (scalarIndent place indent) v).getD [])

/-- What is written so far with a simple key after it. -/
def writeKey (out : List Char) : Value → List Char
  | .tagged tag v => out ++ tagText tag ++ ' ' :: (flatText? 0 v).getD []
  | v => out ++ (flatText? 0 v).getD []

/-- What is written so far with further entries of a list, each on a line indented by `indent`. -/
def writeItems (out : List Char) (indent : Nat) : List Value → List Char
  | [] => out
  | item :: items =>
    let out := write (freshLine out indent ++ ['-']) .item false indent item
    writeItems out indent items

/-- What is written so far with further entries of a mapping, each on a line indented by
`indent`. -/
def writeEntries (out : List Char) (indent : Nat) : List (Value × Value) → List Char
  | [] => out
  | (key, value) :: entries =>
    let out := freshLine out indent
    let out :=
      if isSimpleKey key then
        write (writeKey out key ++ [':']) .afterKey false indent value
      else
        let out := write (out ++ ['?']) .complex false indent key
        write (freshLine out indent ++ [':']) .complex false indent value
    writeEntries out indent entries

end

end Block

/-- The value as a YAML document in block style, without the break at its end; none where the value
cannot be written. -/
def Value.block? (v : Value) : Option String :=
  if Block.isWritable false v then some (String.ofList (Block.write [] .root false 0 v)) else none

end RoleChart.Yaml
