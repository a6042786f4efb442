/-!
Binary floating-point numbers of 64 bits, and the number nearest to a given decimal. A finite number
is a sign, a significand below `2 ^ 53` and an exponent of two that is at least `-1074`; its
significand is at least `2 ^ 52` unless its exponent is the least one. Rounding is exact: it
compares natural numbers, and a tie goes to the even significand.
-/
namespace RoleChart.Decimal

/-- A binary floating-point number of 64 bits. -/
inductive Binary64 where
  | finite (negative : Bool) (significand : Nat) (exponent : Int)
  | infinite (negative : Bool)
  | nan
  deriving Repr, BEq, DecidableEq, Inhabited

namespace Binary64

/-- The least exponent of two of a finite number. -/
def minExponent : Int := -1074

/-- The greatest exponent of two of a finite number. -/
def maxExponent : Int := 971

/-- Zero, with a sign. -/
def zero (negative : Bool) : Binary64 := .finite negative 0 minExponent

/-- Whether two numbers are equal as numbers: the two zeros are, and so are two that are no
number. -/
def same : Binary64 → Binary64 → Bool
  | .finite n s e, .finite n' s' e' =>
    (s == 0 && s' == 0) || (n == n' && s == s' && e == e')
  | .infinite n, .infinite n' => n == n'
  | .nan, .nan => true
  | _, _ => false

/-- Whether a number is finite. -/
def isFinite : Binary64 → Bool
  | .finite _ _ _ => true
  | _ => false

/-- The quotient `num / den` rounded to a whole number, a tie to the even one. -/
def roundDiv (num den : Nat) : Nat :=
  let q := num / den
  let r := num % den
  if 2 * r > den ∨ (2 * r = den ∧ q % 2 = 1) then q + 1 else q

/-- The numerator and denominator of `num / den` divided by `2 ^ e`. -/
def scaleDown (num den : Nat) (e : Int) : Nat × Nat :=
  (num * Nat.pow 2 (-e).toNat, den * Nat.pow 2 e.toNat)

/-- The number nearest to `num / den`, where both are positive. -/
def nearest (negative : Bool) (num den : Nat) : Binary64 :=
  let guess : Int := (num.log2 : Int) - den.log2 - 53
  let (n, d) := scaleDown num den guess
  let fitted := if n / d < Nat.pow 2 53 then guess else guess + 1
  let e := max fitted minExponent
  let (n, d) := scaleDown num den e
  let s := roundDiv n d
  let (s, e) := if s = Nat.pow 2 53 then (Nat.pow 2 52, e + 1) else (s, e)
  if e > maxExponent then .infinite negative else .finite negative s e

/-- The number nearest to `digits * 10 ^ exponent`. A number of more than 310 places before the
point is beyond all finite ones, and one whose first digit stands more than 330 places after it is
nearest to zero. -/
def ofDecimal (negative : Bool) (digits : Nat) (exponent : Int) : Binary64 :=
  if digits = 0 then zero negative
  else
    let places : Int := (Nat.toDigits 10 digits).length + exponent
    if places > 310 then .infinite negative
    else if places < -330 then zero negative
    else nearest negative (digits * Nat.pow 10 exponent.toNat) (Nat.pow 10 (-exponent).toNat)

end Binary64

end RoleChart.Decimal
