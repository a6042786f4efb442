import RoleChart.Decimal.Binary64
/-!
The shortest decimal of a binary number: of all decimals that round to the number, one with the
fewest digits, and of those the nearest. The search tries one digit, two digits and so on up to
seventeen, which always suffice. On each grid only the two neighbours of the number can be nearest.
-/
namespace RoleChart.Decimal

/-- A decimal `digits * 10 ^ exponent`. -/
structure Digits where
  digits : Nat
  exponent : Int
  deriving Repr, BEq, DecidableEq, Inhabited

namespace Digits

/-- The same decimal without zeros at the end of its digits, of which there are at most `limit`. -/
def strip : Nat → Digits → Digits
  | 0, d => d
  | limit + 1, d =>
    if d.digits ≠ 0 ∧ d.digits % 10 = 0 then strip limit ⟨d.digits / 10, d.exponent + 1⟩ else d

end Digits

/-- The numbers that round to a given one: `low ≤ x ≤ high` over the common denominator `den`, the
ends included if `closed`. -/
structure Interval where
  low : Nat
  value : Nat
  high : Nat
  den : Nat
  closed : Bool
  deriving Repr

namespace Interval

/-- The numbers that round to `significand * 2 ^ exponent`. Below a power of two the next number is
half as far away as above it. -/
def around (significand : Nat) (exponent : Int) : Interval :=
  let up := Nat.pow 2 (exponent - 2).toNat
  let down := Nat.pow 2 (2 - exponent).toNat
  let below := if significand = Nat.pow 2 52 ∧ exponent > Binary64.minExponent then 1 else 2
  { low := (4 * significand - below) * up
    value := 4 * significand * up
    high := (4 * significand + 2) * up
    den := down
    closed := significand % 2 = 0 }

/-- Whether `digits * 10 ^ exponent` lies in the interval. -/
def holds (i : Interval) (d : Digits) : Bool :=
  let x := d.digits * Nat.pow 10 d.exponent.toNat * i.den
  let scale := Nat.pow 10 (-d.exponent).toNat
  if i.closed then i.low * scale ≤ x && x ≤ i.high * scale
  else i.low * scale < x && x < i.high * scale

/-- The distance of `digits * 10 ^ exponent` from the value, in units that depend on the exponent
alone. -/
def distance (i : Interval) (d : Digits) : Nat :=
  let x := d.digits * Nat.pow 10 d.exponent.toNat * i.den
  let v := i.value * Nat.pow 10 (-d.exponent).toNat
  (x - v) + (v - x)

/-- The exponent of ten of the value's first digit. -/
def leadExponent (i : Interval) : Int :=
  let guess : Int := (Nat.toDigits 10 i.value).length - (Nat.toDigits 10 i.den).length
  if i.value * Nat.pow 10 (-guess).toNat ≥ i.den * Nat.pow 10 guess.toNat then guess else guess - 1

/-- The neighbour of the value on the grid of `10 ^ exponent` that lies in the interval and is
nearest to the value; a tie goes to the even one. -/
def onGrid? (i : Interval) (exponent : Int) : Option Digits :=
  let floor := i.value * Nat.pow 10 (-exponent).toNat / (i.den * Nat.pow 10 exponent.toNat)
  let low : Digits := ⟨floor, exponent⟩
  let high : Digits := ⟨floor + 1, exponent⟩
  match i.holds low, i.holds high with
  | false, false => none
  | true, false => some low
  | false, true => some high
  | true, true =>
    let a := i.distance low
    let b := i.distance high
    if a < b ∨ (a = b ∧ floor % 2 = 0) then some low else some high

/-- The first hit on the grids of `done + 1`, `done + 2`, … digits, `limit` of them. -/
def search (i : Interval) (lead : Int) : Nat → Nat → Option Digits
  | 0, _ => none
  | limit + 1, done => (i.onGrid? (lead - done)).or (search i lead limit (done + 1))

end Interval

/-- The shortest decimal that rounds to `significand * 2 ^ exponent`. -/
def shortest (significand : Nat) (exponent : Int) : Digits :=
  if significand = 0 then ⟨0, 0⟩
  else
    let i := Interval.around significand exponent
    match i.search i.leadExponent 17 0 with
    | some d => d.strip 20
    | none => ⟨0, 0⟩

end RoleChart.Decimal
