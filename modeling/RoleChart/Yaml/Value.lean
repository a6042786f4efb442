import RoleChart.Decimal.Notation
/-!
The values that a YAML document stands for. A mapping keeps its entries in order; two mappings are
the same value when they have the same entries in any order.
-/
namespace RoleChart.Yaml

open Decimal (Binary64)

/-- A number: an integer between `-2 ^ 63` and `2 ^ 64 - 1`, or a binary one. -/
inductive Number where
  | integer (n : Int)
  | float (x : Binary64)
  deriving Repr, BEq, DecidableEq, Inhabited

namespace Number

/-- Whether two numbers are the same value. An integer differs from every binary number. -/
def same : Number → Number → Bool
  | .integer a, .integer b => a == b
  | .float a, .float b => a.same b
  | _, _ => false

/-- The text of a number. -/
def text : Number → String
  | .integer n => toString n
  | .float x => x.text

end Number

/-- A YAML value. -/
inductive Value where
  | null
  | bool (b : Bool)
  | number (n : Number)
  | string (s : String)
  | sequence (items : List Value)
  | mapping (entries : List (Value × Value))
  | tagged (tag : String) (value : Value)
  deriving Repr, Inhabited

/-- A tag without the exclamation mark at its start, if something follows it. -/
def bareTag (tag : String) : List Char :=
  match tag.toList with
  | '!' :: rest => if rest.isEmpty then ['!'] else rest
  | cs => cs

/-- A reader of YAML: the value that a text stands for, or what is said of a text that stands for
none. -/
abbrev Reader := String → Except String Value

namespace Value

mutual

/-- Whether two values are the same. -/
def same : Value → Value → Bool
  | .null, .null => true
  | .bool a, .bool b => a == b
  | .number a, .number b => a.same b
  | .string a, .string b => a == b
  | .sequence as, .sequence bs => sameItems as bs
  | .mapping as, .mapping bs => as.length == bs.length && entriesIn as bs
  | .tagged t a, .tagged u b => bareTag t == bareTag u && same a b
  | _, _ => false

/-- Whether two lists hold the same values in the same order. -/
def sameItems : List Value → List Value → Bool
  | [], [] => true
  | a :: as, b :: bs => same a b && sameItems as bs
  | _, _ => false

/-- Whether every entry of the first mapping stands in the second. -/
def entriesIn : List (Value × Value) → List (Value × Value) → Bool
  | [], _ => true
  | (k, v) :: rest, bs => bs.any (fun b => same k b.1 && same v b.2) && entriesIn rest bs

end

/-- The value under a text key of a mapping. -/
def lookup? (key : String) : List (Value × Value) → Option Value
  | [] => none
  | (.string k, v) :: rest => if k = key then some v else lookup? key rest
  | _ :: rest => lookup? key rest

end Value

end RoleChart.Yaml
