import RoleChart.Decimal.Shortest
/-!
The text of a binary number: its shortest decimal, with the point inside or beside the digits where
the first digit stands at most sixteen places before and five places after the point, and with an
exponent otherwise. A text without an exponent always has a point.
-/
namespace RoleChart.Decimal

/-- `count` zeros. -/
def zeros (count : Nat) : String :=
  String.ofList (List.replicate count '0')

/-- The text of a decimal without a sign. -/
def Digits.text (d : Digits) : String :=
  let ds := Nat.toDigits 10 d.digits
  let point : Int := ds.length + d.exponent
  if d.digits = 0 then "0.0"
  else if 0 ≤ d.exponent ∧ point ≤ 16 then
    String.ofList ds ++ zeros d.exponent.toNat ++ ".0"
  else if 0 < point ∧ point ≤ 16 then
    String.ofList (ds.take point.toNat) ++ "." ++ String.ofList (ds.drop point.toNat)
  else if -5 < point ∧ point ≤ 0 then
    "0." ++ zeros (-point).toNat ++ String.ofList ds
  else
    let fraction := if ds.length = 1 then "" else "." ++ String.ofList (ds.drop 1)
    String.ofList (ds.take 1) ++ fraction ++ "e" ++ toString (point - 1)

/-- The text of a binary number. -/
def Binary64.text : Binary64 → String
  | .nan => ".nan"
  | .infinite false => ".inf"
  | .infinite true => "-.inf"
  | .finite negative significand exponent =>
    (if negative then "-" else "") ++ (shortest significand exponent).text

end RoleChart.Decimal
