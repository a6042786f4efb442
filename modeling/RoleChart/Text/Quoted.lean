import RoleChart.Text.Printable
/-!
Quoted text: a text between double quotes on one line, in which a quote, a backslash and every
character that would not show are written as escapes.
-/
namespace RoleChart.Text

/-- The digit of value `d < 16`, in lower case. -/
def hexDigit (d : Nat) : Char :=
  Nat.digitChar d

/-- A number in base sixteen, in lower case and without leading zeros. -/
def hexText (n : Nat) : String :=
  String.ofList (Nat.toDigits 16 n)

/-- One character inside a quoted text. -/
def quotedChar (c : Char) : String :=
  match c with
  | '\x00' => "\\0"
  | '\t' => "\\t"
  | '\r' => "\\r"
  | '\n' => "\\n"
  | '\\' => "\\\\"
  | '"' => "\\\""
  | c => if isShown c then c.toString else "\\u\x7b" ++ hexText c.toNat ++ "\x7d"

/-- A text between double quotes. -/
def quoted (s : String) : String :=
  "\"" ++ String.join (s.toList.map quotedChar) ++ "\""

end RoleChart.Text
