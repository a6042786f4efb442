/-!
Why a text is not a YAML document that can be read. A fault says the kind of reason alone; the words for
it, and where in the text it was found, are left to whoever reports it.
-/
namespace RoleChart.Yaml

/-- A reason for which a text cannot be read as one YAML document. -/
inductive Fault where
  | forbiddenCharacter
  | unexpectedCharacter
  | unclosedQuote
  | markerInQuote
  | unknownEscape
  | invalidCharacterNumber
  | missingColon
  | unexpectedColon
  | entryNotAllowed
  | keyNotAllowed
  | valueNotAllowed
  | tabIndentation
  | malformedBlockHeader
  | malformedAnchor
  | malformedTag
  | malformedDirective
  | unknownDirective
  | repeatedDirective
  | unsupportedVersion
  | undefinedTagHandle
  | unexpectedToken
  | moreDocuments
  | unknownAnchor
  | aliasLimit
  | nestingLimit
  | duplicateKey
  | integerOutOfRange
  | tagMismatch
  deriving Repr, BEq, DecidableEq, Inhabited

end RoleChart.Yaml
