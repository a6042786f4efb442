/-!
HTML-like labels. A label shows a text in a font of some size; the characters that the notation
itself uses are written as entities.
-/
namespace RoleChart.Label

/-- A character inside a label. -/
def escapeChar (c : Char) : List Char :=
  match c with
  | '&' => "&amp;".toList
  | '<' => "&lt;".toList
  | '>' => "&gt;".toList
  | '"' => "&quot;".toList
  | c => [c]

/-- A text inside a label. -/
def escape (text : String) : String :=
  String.ofList (text.toList.flatMap escapeChar)

/-- The label that shows `text` in a font at a size in points. -/
def html (text font : String) (size : Nat) : String :=
  "<<FONT FACE=\"" ++ escape font ++ "\" POINT-SIZE=\"" ++ toString size ++ "\">" ++ escape text ++
    "</FONT>>"

end RoleChart.Label
