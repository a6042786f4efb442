import RoleChart.Yaml.Fault
import RoleChart.Yaml.Value
/-!
What a plain scalar stands for: null, a truth value, a number or its own text. The first reading
that fits wins, in this order.
-/
namespace RoleChart.Yaml

open Decimal (Binary64)

namespace Scalar

/-- Whether a text, itself not empty, is one of the spellings of null. -/
def isNull (s : String) : Bool :=
  s == "null" || s == "Null" || s == "NULL" || s == "~"

/-- The truth value that a text spells. -/
def bool? (s : String) : Option Bool :=
  if s = "true" ∨ s = "True" ∨ s = "TRUE" then some true
  else if s = "false" ∨ s = "False" ∨ s = "FALSE" then some false
  else none

/-! ## Integers -/

/-- The value of a digit in a base up to sixteen. -/
def digit? (base : Nat) (c : Char) : Option Nat :=
  let value :=
    if c.isDigit then c.toNat - '0'.toNat
    else if 'a' ≤ c ∧ c ≤ 'f' then c.toNat - 'a'.toNat + 10
    else if 'A' ≤ c ∧ c ≤ 'F' then c.toNat - 'A'.toNat + 10
    else 16
  if value < base then some value else none

/-- The number that digits write in a base. -/
def digits? (base : Nat) (cs : List Char) : Option Nat :=
  if cs.isEmpty then none else cs.foldlM (fun n c => (base * n + ·) <$> digit? base c) 0

/-- Whether a text is, after at most one sign, two or more digits of which the first is zero. Such a
text is no number. -/
def isPaddedDigits (cs : List Char) : Bool :=
  let cs := match cs with
    | '+' :: rest => rest
    | '-' :: rest => rest
    | cs => cs
  match cs with
  | '0' :: c :: rest => (c :: rest).all Char.isDigit
  | _ => false

/-- The number that a text without a sign writes: in base sixteen, eight or two after `0x`, `0o` or
`0b`, otherwise in base ten. -/
def magnitude? (cs : List Char) : Option Nat :=
  let based := match cs with
    | '0' :: 'x' :: rest => digits? 16 rest
    | '0' :: 'o' :: rest => digits? 8 rest
    | '0' :: 'b' :: rest => digits? 2 rest
    | _ => none
  based.or (if isPaddedDigits cs then none else digits? 10 cs)

/-- The integer that a text writes, with a sign or without. -/
def integer? (cs : List Char) : Option Int :=
  match cs with
  | '-' :: rest => (magnitude? rest).map fun n => -(n : Int)
  | '+' :: rest => (magnitude? rest).map Int.ofNat
  | cs => (magnitude? cs).map Int.ofNat

/-! ## Binary numbers -/

/-- The number that an exponent writes: digits after at most one sign. -/
def exponent? (cs : List Char) : Option Int :=
  match cs with
  | '-' :: rest => (digits? 10 rest).map fun n => -(n : Int)
  | '+' :: rest => (digits? 10 rest).map Int.ofNat
  | cs => (digits? 10 cs).map Int.ofNat

/-- The finite number that a text without a sign writes: digits, among which a point may stand, and
after them an exponent may follow. -/
def unsignedFloat? (negative : Bool) (cs : List Char) : Option Binary64 := do
  let whole := cs.takeWhile Char.isDigit
  let rest := cs.dropWhile Char.isDigit
  let (fraction, rest) := match rest with
    | '.' :: rest => (rest.takeWhile Char.isDigit, rest.dropWhile Char.isDigit)
    | rest => ([], rest)
  let digits ← digits? 10 (whole ++ fraction)
  let exponent ← match rest with
    | [] => some 0
    | c :: rest => if c = 'e' ∨ c = 'E' then exponent? rest else none
  let x := Binary64.ofDecimal negative digits (exponent - fraction.length)
  if x.isFinite then some x else none

/-- The binary number that a text writes. -/
def float? (s : String) : Option Binary64 :=
  if [".inf", ".Inf", ".INF", "+.inf", "+.Inf", "+.INF"].contains s then some (.infinite false)
  else if ["-.inf", "-.Inf", "-.INF"].contains s then some (.infinite true)
  else if [".nan", ".NaN", ".NAN"].contains s then some .nan
  else match s.toList with
    | '+' :: rest => unsignedFloat? false rest
    | '-' :: rest => unsignedFloat? true rest
    | cs => unsignedFloat? false cs

/-! ## The reading that fits -/

/-- What a plain text reads as. -/
inductive Reading where
  | null
  | bool (b : Bool)
  | integer (n : Int)
  | float (x : Binary64)
  | text
  deriving Repr

/-- The least and the greatest integer for which there is room in 128 bits. -/
def fits128 (n : Int) : Bool :=
  -Int.pow 2 127 ≤ n && n < Int.pow 2 128

/-- The integer that a text writes, if 128 bits hold it. -/
def boundedInteger? (s : String) : Option Int :=
  (integer? s.toList).filter fits128

/-- What a plain text reads as. -/
def read (s : String) : Reading :=
  if s = "" ∨ isNull s then .null
  else match bool? s with
    | some b => .bool b
    | none =>
      match boundedInteger? s with
      | some n => .integer n
      | none =>
        if isPaddedDigits s.toList then .text
        else match float? s with
          | some x => .float x
          | none => .text

/-- The value of an integer. One that neither 64 bits with a sign nor 64 bits without one hold has
no value. -/
def integerValue (n : Int) : Except Fault Value :=
  if -Int.pow 2 63 ≤ n ∧ n < Int.pow 2 64 then .ok (.number (.integer n)) else .error .integerOutOfRange

/-- The value that a plain text stands for. -/
def plainValue (s : String) : Except Fault Value :=
  match read s with
  | .null => .ok .null
  | .bool b => .ok (.bool b)
  | .integer n => integerValue n
  | .float x => .ok (.number (.float x))
  | .text => .ok (.string s)

end Scalar

end RoleChart.Yaml
