import RoleChart.Text.Quoted
import RoleChart.Yaml.Value
/-!
The description of a value: every value with the name of its kind, for messages that quote a value
as it is and not as YAML. Scalars that are keys of a mapping are written without their kind.
-/
namespace RoleChart.Yaml

namespace Value

/-- The text of a truth value. -/
def boolText (b : Bool) : String :=
  if b then "true" else "false"

mutual

/-- The description of a value. -/
def described : Value → String
  | .null => "Null"
  | .bool b => "Bool(" ++ boolText b ++ ")"
  | .number n => "Number(" ++ n.text ++ ")"
  | .string s => "String(" ++ Text.quoted s ++ ")"
  | .sequence items => "Sequence [" ++ String.intercalate ", " (describedItems items) ++ "]"
  | .mapping entries =>
    "Mapping \x7b" ++ String.intercalate ", " (describedEntries entries) ++ "\x7d"
  | .tagged tag v =>
    "TaggedValue \x7b tag: !" ++ String.ofList (bareTag tag) ++ ", value: " ++ described v ++
      " \x7d"

/-- The description of a key. -/
def describedKey : Value → String
  | .bool b => boolText b
  | .number n => n.text
  | .string s => Text.quoted s
  | v => described v

/-- The descriptions of the values of a list. -/
def describedItems : List Value → List String
  | [] => []
  | v :: rest => described v :: describedItems rest

/-- The descriptions of the entries of a mapping. -/
def describedEntries : List (Value × Value) → List String
  | [] => []
  | (k, v) :: rest => (describedKey k ++ ": " ++ described v) :: describedEntries rest

end

end Value

end RoleChart.Yaml
