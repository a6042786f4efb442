import RoleChart.Graph
/-!
The DOT text of a graph: its attributes, its nodes and its edges, one statement on a line. Names and
values are quoted, with escapes for quotes, backslashes and line feeds; a value between angle
brackets is an HTML-like label and stands as it is.
-/
namespace RoleChart.Dot

/-- A character inside quotes. -/
def quotedChar (c : Char) : List Char :=
  match c with
  | '"' => ['\\', '"']
  | '\\' => ['\\', '\\']
  | '\n' => ['\\', 'n']
  | c => [c]

/-- A text between quotes. -/
def quoted (text : String) : String :=
  String.ofList ('"' :: text.toList.flatMap quotedChar ++ ['"'])

/-- Whether a value is an HTML-like label: at least two characters, the first and last of which are
angle brackets. -/
def isLabel (value : List Char) : Bool :=
  value.length ≥ 2 && value.head? == some '<' && value.getLast? == some '>'

/-- The value of an attribute. -/
def valueText (value : String) : String :=
  if isLabel value.toList then value else quoted value

/-- Attributes in a statement. -/
def attributesText (attributes : Attributes) : String :=
  String.intercalate ", " (attributes.entries.map fun (key, value) => key ++ "=" ++ valueText value)

/-- The statement that sets attributes for all that it names; none where there are none. -/
def settingText (subject : String) (attributes : Attributes) : String :=
  if attributes.isEmpty then ""
  else "\t" ++ subject ++ " [" ++ attributesText attributes ++ "];\n"

/-- The statement of a node. -/
def nodeText (name : String) (attributes : Attributes) : String :=
  if attributes.isEmpty then "\t" ++ quoted name ++ ";\n"
  else "\t" ++ quoted name ++ " [" ++ attributesText attributes ++ "];\n"

/-- The statement of an edge. -/
def edgeText (tail head : String) : String :=
  "\t" ++ quoted tail ++ " -> " ++ quoted head ++ ";\n"

/-- The DOT text of a graph. -/
def text (g : Graph) : String :=
  "strict digraph \x7b\n" ++ settingText "graph" g.graphAttributes ++
    settingText "edge" g.edgeAttributes ++
    String.join (g.nodes.entries.map fun (name, attributes) => nodeText name attributes) ++
    String.join (g.edges.map fun (tail, head) => edgeText tail head) ++ "\x7d\n"

end RoleChart.Dot
