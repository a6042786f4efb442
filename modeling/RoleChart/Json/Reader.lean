import RoleChart.Json
/-!
Reading JSON. Blanks may stand between all parts; a number keeps its digits. The reader follows the
text with a bound on the number of its steps that every text stays below.
-/
namespace RoleChart.Json

/-! ## Strings -/

/-- The value of a hexadecimal digit. -/
def hexValue? (c : Char) : Option Nat :=
  if '0' ≤ c ∧ c ≤ '9' then some (c.toNat - '0'.toNat)
  else if 'a' ≤ c ∧ c ≤ 'f' then some (c.toNat - 'a'.toNat + 10)
  else if 'A' ≤ c ∧ c ≤ 'F' then some (c.toNat - 'A'.toNat + 10)
  else none

/-- The number that four hexadecimal digits give. -/
def hexUnit? (a b c d : Char) : Option Nat := do
  let a ← hexValue? a
  let b ← hexValue? b
  let c ← hexValue? c
  let d ← hexValue? d
  return ((a * 16 + b) * 16 + c) * 16 + d

/-- The character that stands for itself or for a control character after a backslash. -/
def escaped? (c : Char) : Option Char :=
  match c with
  | '"' => some '"'
  | '\\' => some '\\'
  | '/' => some '/'
  | 'b' => some '\x08'
  | 'f' => some '\x0c'
  | 'n' => some '\n'
  | 'r' => some '\r'
  | 't' => some '\t'
  | _ => none

/-- The character of a number that is not one half of a pair. -/
def single? (n : Nat) : Option Char :=
  if 0xd800 ≤ n ∧ n < 0xe000 then none else some (Char.ofNat n)

/-- The character that two halves of a pair give. -/
def pair? (high low : Nat) : Option Char :=
  if (0xd800 ≤ high ∧ high < 0xdc00) ∧ (0xdc00 ≤ low ∧ low < 0xe000) then
    some (Char.ofNat (0x10000 + (high - 0xd800) * 0x400 + (low - 0xdc00)))
  else none

/-- Takes the first character of an escape written with a number: what follows its `u`, and the rest
after it. -/
def numbered? : List Char → Option (Char × List Char)
  | a :: b :: c :: d :: rest => do
    let unit ← hexUnit? a b c d
    match single? unit with
    | some c => some (c, rest)
    | none =>
      match rest with
      | '\\' :: 'u' :: e :: f :: g :: h :: rest =>
        let low ← hexUnit? e f g h
        let c ← pair? unit low
        some (c, rest)
      | _ => none
  | _ => none

/-- Takes one character of a string, which is not the closing quote, and gives the rest. -/
def oneChar? : List Char → Option (Char × List Char)
  | '\\' :: 'u' :: rest => numbered? rest
  | '\\' :: c :: rest => (escaped? c).map (·, rest)
  | c :: rest => if c.toNat < 32 ∨ c = '\\' then none else some (c, rest)
  | [] => none

/-- Takes the characters of a string up to its closing quote, at most `limit` of them. -/
def stringChars? : Nat → List Char → Option (List Char × List Char)
  | 0, _ => none
  | _ + 1, '"' :: rest => some ([], rest)
  | limit + 1, cs => do
    let (c, rest) ← oneChar? cs
    let (others, rest) ← stringChars? limit rest
    return (c :: others, rest)

/-- Takes a string whose opening quote was taken. -/
def stringAfterQuote? (cs : List Char) : Option (String × List Char) :=
  (stringChars? (cs.length + 1) cs).map fun (value, rest) => (String.ofList value, rest)

/-! ## Numbers -/

/-- Drops a run of digits, which is not empty. -/
def afterDigits? (cs : List Char) : Option (List Char) :=
  if (cs.takeWhile Char.isDigit).isEmpty then none else some (cs.dropWhile Char.isDigit)

/-- Drops the digits before the point: a zero, or a run that does not start with one. -/
def afterWhole? : List Char → Option (List Char)
  | '0' :: rest => some rest
  | cs => afterDigits? cs

/-- Drops a point with digits after it, if there is one. -/
def afterFraction? : List Char → Option (List Char)
  | '.' :: rest => afterDigits? rest
  | cs => some cs

/-- Drops an exponent, if there is one. -/
def afterExponent? : List Char → Option (List Char)
  | c :: rest =>
    if c = 'e' ∨ c = 'E' then
      match rest with
      | sign :: digits => afterDigits? (if sign = '+' ∨ sign = '-' then digits else rest)
      | [] => none
    else some (c :: rest)
  | [] => some []

/-- Takes a number. -/
def number? (cs : List Char) : Option (Json × List Char) := do
  let unsigned := match cs with
    | '-' :: rest => rest
    | cs => cs
  let rest ← afterExponent? (← afterFraction? (← afterWhole? unsigned))
  return (.number (String.ofList (cs.take (cs.length - rest.length))), rest)

/-! ## Values -/

/-- Whether a character may stand between the parts of a value. -/
def isBlank (c : Char) : Bool := c == ' ' || c == '\n' || c == '\r' || c == '\t'

/-- Drops blanks. -/
def afterBlanks (cs : List Char) : List Char := cs.dropWhile isBlank

mutual

/-- Takes a value that starts at once, in at most `limit` steps. -/
def value? : Nat → List Char → Option (Json × List Char)
  | 0, _ => none
  | limit + 1, cs =>
    match cs with
    | 'n' :: 'u' :: 'l' :: 'l' :: rest => some (.null, rest)
    | 't' :: 'r' :: 'u' :: 'e' :: rest => some (.bool true, rest)
    | 'f' :: 'a' :: 'l' :: 's' :: 'e' :: rest => some (.bool false, rest)
    | '"' :: rest => (stringAfterQuote? rest).map fun (value, rest) => (.string value, rest)
    | '[' :: rest =>
      match afterBlanks rest with
      | ']' :: rest => some (.array [], rest)
      | rest => (items? limit rest).map fun (items, rest) => (.array items, rest)
    | '{' :: rest =>
      match afterBlanks rest with
      | '}' :: rest => some (.object [], rest)
      | rest => (fields? limit rest).map fun (fields, rest) => (.object fields, rest)
    | cs => number? cs

/-- Takes the items of an array up to its closing bracket. -/
def items? : Nat → List Char → Option (List Json × List Char)
  | 0, _ => none
  | limit + 1, cs => do
    let (item, rest) ← value? limit (afterBlanks cs)
    match afterBlanks rest with
    | ',' :: rest =>
      let (items, rest) ← items? limit rest
      some (item :: items, rest)
    | ']' :: rest => some ([item], rest)
    | _ => none

/-- Takes the fields of an object up to its closing brace. -/
def fields? : Nat → List Char → Option (List (String × Json) × List Char)
  | 0, _ => none
  | limit + 1, cs => do
    match afterBlanks cs with
    | '"' :: rest =>
      let (name, rest) ← stringAfterQuote? rest
      match afterBlanks rest with
      | ':' :: rest =>
        let (value, rest) ← value? limit (afterBlanks rest)
        match afterBlanks rest with
        | ',' :: rest =>
          let (fields, rest) ← fields? limit rest
          some ((name, value) :: fields, rest)
        | '}' :: rest => some ([(name, value)], rest)
        | _ => none
      | _ => none
    | _ => none

end

theorem value?_array (limit : Nat) (cs : List Char) :
    value? (limit + 1) ('[' :: cs) =
      match afterBlanks cs with
      | ']' :: rest => some (.array [], rest)
      | rest => (items? limit rest).map fun (items, rest) => (.array items, rest) := rfl

/-- The value that a text holds, with blanks around it. -/
def ofText? (text : String) : Option Json := do
  let cs := afterBlanks text.toList
  let (value, rest) ← value? (2 * cs.length + 1) cs
  if (afterBlanks rest).isEmpty then some value else none

end RoleChart.Json
