/-!
JSON values and their compact text. A number keeps the digits that it was written with, and an
object keeps the order of its fields.
-/
namespace RoleChart

/-- A JSON value. -/
inductive Json where
  | null
  | bool (value : Bool)
  | number (digits : String)
  | string (value : String)
  | array (items : List Json)
  | object (fields : List (String × Json))
  deriving Repr, BEq, Inhabited

namespace Json

/-- The number of a count. -/
def ofNat (n : Nat) : Json := .number (toString n)

/-- The array of a list of texts. -/
def ofTexts (texts : List String) : Json := .array (texts.map .string)

/-- A value that may be missing. -/
def ofOption (value : Option Json) : Json := value.getD .null

/-- The first field of that name, if the value is an object. -/
def field? (name : String) : Json → Option Json
  | .object fields => fields.lookup name
  | _ => none

/-! ## Text -/

/-- The hexadecimal digit of a number below 16. -/
def hexDigit (n : Nat) : Char :=
  if n < 10 then Char.ofNat ('0'.toNat + n) else Char.ofNat ('a'.toNat + (n - 10))

/-- A character inside quotes: quotes, backslashes and control characters are escaped. -/
def escapeChar (c : Char) : List Char :=
  if c = '"' then ['\\', '"']
  else if c = '\\' then ['\\', '\\']
  else if c = '\x08' then ['\\', 'b']
  else if c = '\x0c' then ['\\', 'f']
  else if c = '\n' then ['\\', 'n']
  else if c = '\r' then ['\\', 'r']
  else if c = '\t' then ['\\', 't']
  else if c.toNat < 32 then ['\\', 'u', '0', '0', hexDigit (c.toNat / 16), hexDigit (c.toNat % 16)]
  else [c]

/-- A text between quotes. -/
def quoted (text : String) : List Char :=
  '"' :: text.toList.flatMap escapeChar ++ ['"']

mutual

/-- The characters of a value, without blanks. -/
def chars : Json → List Char
  | .null => "null".toList
  | .bool true => "true".toList
  | .bool false => "false".toList
  | .number digits => digits.toList
  | .string value => quoted value
  | .array items => '[' :: itemChars items
  | .object fields => '{' :: fieldChars fields

/-- The items of an array up to its closing bracket. -/
def itemChars : List Json → List Char
  | [] => [']']
  | [item] => item.chars ++ [']']
  | item :: items => item.chars ++ ',' :: itemChars items

/-- The fields of an object up to its closing brace. -/
def fieldChars : List (String × Json) → List Char
  | [] => ['}']
  | [(name, value)] => quoted name ++ ':' :: value.chars ++ ['}']
  | (name, value) :: fields => quoted name ++ ':' :: value.chars ++ ',' :: fieldChars fields

end

theorem chars_number (digits : String) : (number digits).chars = digits.toList := rfl

theorem chars_string (value : String) : (string value).chars = quoted value := rfl

theorem chars_array (items : List Json) : (array items).chars = '[' :: itemChars items := rfl

theorem chars_object (fields : List (String × Json)) :
    (object fields).chars = '{' :: fieldChars fields := rfl

/-- The compact text of a value. -/
def text (value : Json) : String := String.ofList value.chars

end Json

end RoleChart
