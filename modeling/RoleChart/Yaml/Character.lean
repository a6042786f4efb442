/-!
The character classes of YAML text.
-/
namespace RoleChart.Yaml

/-- A line break: line feed, carriage return, next line, line separator or paragraph separator. -/
def isBreak (c : Char) : Bool :=
  c = '\n' || c = '\r' || c = '\u0085' || c = '\u2028' || c = '\u2029'

/-- A space or a tab. -/
def isSpace (c : Char) : Bool :=
  c = ' ' || c = '\t'

/-- A space, a tab or a line break. -/
def isSpaceOrBreak (c : Char) : Bool :=
  isSpace c || isBreak c

/-- Whether a text ends or goes on with a space, a tab or a line break. -/
def startsBlank : List Char → Bool
  | [] => true
  | c :: _ => isSpaceOrBreak c

/-- Whether a text ends or goes on with a line break. -/
def startsBreak : List Char → Bool
  | [] => true
  | c :: _ => isBreak c

/-- The characters of anchors, of tag handles and of directive names: ASCII letters and digits, the
hyphen and the underscore. -/
def isWord (c : Char) : Bool :=
  c.isAlphanum || c = '-' || c = '_'

/-- The characters of a tag. -/
def isTagCharacter (c : Char) : Bool :=
  isWord c || ";/?:@&=+$,.!~*'()[]%".toList.contains c

/-- The characters that end or separate the entries of a flow collection. -/
def isFlowIndicator (c : Char) : Bool :=
  c = ',' || c = '[' || c = ']' || c = '{' || c = '}'

/-- The characters that cannot start a plain scalar, whatever follows. -/
def isIndicator (c : Char) : Bool :=
  "-?:,[]\x7b\x7d#&*!|>'\"%@\x60".toList.contains c

/-- The characters that may stand in a document at all. -/
def isAllowed (c : Char) : Bool :=
  let n := c.toNat
  n = 0x09 || n = 0x0A || n = 0x0D || (0x20 ≤ n && n ≤ 0x7E) || n = 0x85 ||
    (0xA0 ≤ n && n ≤ 0xD7FF) || (0xE000 ≤ n && n ≤ 0xFFFD) || 0x10000 ≤ n

/-- The byte order mark. -/
def byteOrderMark : Char := '\ufeff'

/-- The value of a hexadecimal digit. -/
def hexValue? (c : Char) : Option Nat :=
  if '0' ≤ c ∧ c ≤ '9' then some (c.toNat - '0'.toNat)
  else if 'a' ≤ c ∧ c ≤ 'f' then some (c.toNat - 'a'.toNat + 10)
  else if 'A' ≤ c ∧ c ≤ 'F' then some (c.toNat - 'A'.toNat + 10)
  else none

end RoleChart.Yaml
