/-!
The tokens of a YAML text. Indentation shows in them as starts and ends of block collections, and
the start of a key on its own line as a token before the key.
-/
namespace RoleChart.Yaml

/-- The bytes of a tag or of a part of one. -/
abbrev TagBytes := List UInt8

/-- A token of a YAML text. -/
inductive Token where
  | streamEnd
  | version (major minor : Nat)
  | tagShorthand (handle : String) (meaning : TagBytes)
  | documentStart
  | documentEnd
  | blockSequenceStart
  | blockMappingStart
  | blockEnd
  | flowSequenceStart
  | flowSequenceEnd
  | flowMappingStart
  | flowMappingEnd
  | blockEntry
  | flowEntry
  | key
  | value
  | alias (name : String)
  | anchor (name : String)
  | tag (handle : String) (suffix : TagBytes)
  | scalar (text : String) (plain : Bool)
  deriving Repr, BEq, DecidableEq, Inhabited

end RoleChart.Yaml
