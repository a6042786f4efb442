import RoleChart.Yaml.Fault
import RoleChart.Yaml.Token
/-!
The nodes of a YAML document: scalars, sequences and mappings as they are written, with their
anchors and tags, before anything is known about what they stand for.
-/
namespace RoleChart.Yaml

/-- The anchor and the tag of a node. -/
structure Properties where
  anchor : Option String
  tag : Option TagBytes
  deriving Repr, BEq, Inhabited

namespace Properties

/-- No anchor and no tag. -/
def none : Properties := ⟨.none, .none⟩

/-- Whether there is an anchor or a tag. -/
def isPresent (p : Properties) : Bool := p.anchor.isSome || p.tag.isSome

end Properties

/-- A node of a document. -/
inductive Node where
  | alias (name : String)
  | scalar (props : Properties) (text : String) (plain : Bool)
  | sequence (props : Properties) (items : List Node)
  | mapping (props : Properties) (entries : List (Node × Node))
  deriving Repr, Inhabited

namespace Node

/-- The node where nothing is written. -/
def blank : Node := .scalar .none "" true

/-- What the handles of tags stand for. -/
abbrev Shorthands := List (String × TagBytes)

/-! ## Properties -/

/-- The tag that a handle and the bytes after it stand for. -/
def fullTag (known : Shorthands) (handle : String) (suffix : TagBytes) : Except Fault TagBytes :=
  if handle = "" then .ok suffix
  else match known.lookup handle with
    | some meaning => .ok (meaning ++ suffix)
    | none => .error .undefinedTagHandle

/-- The anchor and the tag in front of a node, in either order. -/
def properties (known : Shorthands) : List Token → Except Fault (Properties × List Token)
  | .anchor a :: .tag handle suffix :: rest => do
    return (⟨some a, some (← fullTag known handle suffix)⟩, rest)
  | .tag handle suffix :: .anchor a :: rest => do
    return (⟨some a, some (← fullTag known handle suffix)⟩, rest)
  | .anchor a :: rest => .ok (⟨some a, none⟩, rest)
  | .tag handle suffix :: rest => do
    return (⟨none, some (← fullTag known handle suffix)⟩, rest)
  | rest => .ok (.none, rest)

/-! ## Nodes -/

/-- Whether the tokens start with one after which an entry of a block sequence is empty. -/
def endsEntry : List Token → Bool
  | .blockEntry :: _ | .blockEnd :: _ => true
  | _ => false

/-- Whether the tokens start with one after which an entry of a sequence that is not indented is
empty. -/
def endsFlatEntry : List Token → Bool
  | .blockEntry :: _ | .key :: _ | .value :: _ | .blockEnd :: _ => true
  | _ => false

/-- Whether the tokens start with one after which a key or value of a block mapping is empty. -/
def endsField : List Token → Bool
  | .key :: _ | .value :: _ | .blockEnd :: _ => true
  | _ => false

/-- Whether the tokens start with one after which the key of a pair in a flow sequence is empty. -/
def endsPairKey : List Token → Bool
  | .value :: _ | .flowEntry :: _ | .flowSequenceEnd :: _ => true
  | _ => false

/-- Whether the tokens start with one after which the value of a pair in a flow sequence is
empty. -/
def endsPairValue : List Token → Bool
  | .flowEntry :: _ | .flowSequenceEnd :: _ => true
  | _ => false

/-- Whether the tokens start with one after which a key of a flow mapping is empty. -/
def endsFlowKey : List Token → Bool
  | .value :: _ | .flowEntry :: _ | .flowMappingEnd :: _ => true
  | _ => false

/-- Whether the tokens start with one after which a value of a flow mapping is empty. -/
def endsFlowValue : List Token → Bool
  | .flowEntry :: _ | .flowMappingEnd :: _ => true
  | _ => false

mutual

/-- The node that starts here. Block collections are read only if `block` says so, and a sequence
that is no deeper than its key only if `flat` does. Every call lowers `limit`. -/
def parse (known : Shorthands) :
    Nat → Bool → Bool → List Token → Except Fault (Node × List Token)
  | 0, _, _, _ => .error .unexpectedToken
  | limit + 1, block, flat, tokens =>
    match tokens with
    | .alias name :: rest => .ok (.alias name, rest)
    | tokens => do
      let (props, tokens) ← properties known tokens
      match tokens with
      | .scalar text plain :: rest => return (.scalar props text plain, rest)
      | .flowSequenceStart :: rest => do
        let (items, rest) ← parseFlowItems known limit true rest
        return (.sequence props items, rest)
      | .flowMappingStart :: rest => do
        let (entries, rest) ← parseFlowEntries known limit true rest
        return (.mapping props entries, rest)
      | .blockEntry :: _ =>
        if flat then do
          let (items, rest) ← parseFlatItems known limit tokens
          return (.sequence props items, rest)
        else if props.isPresent then return (.scalar props "" true, tokens)
        else throw .unexpectedToken
      | .blockSequenceStart :: rest =>
        if block then do
          let (items, rest) ← parseItems known limit rest
          return (.sequence props items, rest)
        else if props.isPresent then return (.scalar props "" true, tokens)
        else throw .unexpectedToken
      | .blockMappingStart :: rest =>
        if block then do
          let (entries, rest) ← parseFields known limit rest
          return (.mapping props entries, rest)
        else if props.isPresent then return (.scalar props "" true, tokens)
        else throw .unexpectedToken
      | tokens =>
        if props.isPresent then return (.scalar props "" true, tokens)
        else throw .unexpectedToken

/-- The entries of a block sequence, to its end. -/
def parseItems (known : Shorthands) : Nat → List Token → Except Fault (List Node × List Token)
  | 0, _ => .error .unexpectedToken
  | limit + 1, tokens =>
    match tokens with
    | .blockEnd :: rest => .ok ([], rest)
    | .blockEntry :: rest => do
      let (item, rest) ←
        if endsEntry rest then pure (blank, rest) else parse known limit true false rest
      let (items, rest) ← parseItems known limit rest
      return (item :: items, rest)
    | _ => .error .unexpectedToken

/-- The entries of a sequence that is no deeper than the key before it. -/
def parseFlatItems (known : Shorthands) : Nat → List Token → Except Fault (List Node × List Token)
  | 0, _ => .error .unexpectedToken
  | limit + 1, tokens =>
    match tokens with
    | .blockEntry :: rest => do
      let (item, rest) ←
        if endsFlatEntry rest then pure (blank, rest) else parse known limit true false rest
      let (items, rest) ← parseFlatItems known limit rest
      return (item :: items, rest)
    | rest => .ok ([], rest)

/-- The entries of a block mapping, to its end. -/
def parseFields (known : Shorthands) :
    Nat → List Token → Except Fault (List (Node × Node) × List Token)
  | 0, _ => .error .unexpectedToken
  | limit + 1, tokens =>
    match tokens with
    | .blockEnd :: rest => .ok ([], rest)
    | .key :: rest => do
      let (key, rest) ←
        if endsField rest then pure (blank, rest) else parse known limit true true rest
      let (value, rest) ← match rest with
        | .value :: rest =>
          if endsField rest then pure (blank, rest) else parse known limit true true rest
        | rest => pure (blank, rest)
      let (entries, rest) ← parseFields known limit rest
      return ((key, value) :: entries, rest)
    | _ => .error .unexpectedToken

/-- The entries of a flow sequence, to its end; `first` if none stands before. An entry with a key
is a mapping of one entry. Where its key is empty, the token after the key mark does not count. -/
def parseFlowItems (known : Shorthands) :
    Nat → Bool → List Token → Except Fault (List Node × List Token)
  | 0, _, _ => .error .unexpectedToken
  | limit + 1, first, tokens =>
    match tokens with
    | .flowSequenceEnd :: rest => .ok ([], rest)
    | tokens => do
      let tokens ← match first, tokens with
        | true, tokens => pure tokens
        | false, .flowEntry :: rest => pure rest
        | false, _ => throw .unexpectedToken
      match tokens with
      | .flowSequenceEnd :: rest => return ([], rest)
      | .key :: rest => do
        let (key, rest) ←
          if endsPairKey rest then pure (blank, rest.tail) else parse known limit false false rest
        let (value, rest) ← match rest with
          | .value :: rest =>
            if endsPairValue rest then pure (blank, rest) else parse known limit false false rest
          | rest => pure (blank, rest)
        let (items, rest) ← parseFlowItems known limit false rest
        return (.mapping .none [(key, value)] :: items, rest)
      | tokens => do
        let (item, rest) ← parse known limit false false tokens
        let (items, rest) ← parseFlowItems known limit false rest
        return (item :: items, rest)

/-- The entries of a flow mapping, to its end; `first` if none stands before. -/
def parseFlowEntries (known : Shorthands) :
    Nat → Bool → List Token → Except Fault (List (Node × Node) × List Token)
  | 0, _, _ => .error .unexpectedToken
  | limit + 1, first, tokens =>
    match tokens with
    | .flowMappingEnd :: rest => .ok ([], rest)
    | tokens => do
      let tokens ← match first, tokens with
        | true, tokens => pure tokens
        | false, .flowEntry :: rest => pure rest
        | false, _ => throw .unexpectedToken
      match tokens with
      | .flowMappingEnd :: rest => return ([], rest)
      | .key :: rest => do
        let (key, rest) ←
          if endsFlowKey rest then pure (blank, rest) else parse known limit false false rest
        let (value, rest) ← match rest with
          | .value :: rest =>
            if endsFlowValue rest then pure (blank, rest) else parse known limit false false rest
          | rest => pure (blank, rest)
        let (entries, rest) ← parseFlowEntries known limit false rest
        return ((key, value) :: entries, rest)
      | tokens => do
        let (key, rest) ← parse known limit false false tokens
        let (entries, rest) ← parseFlowEntries known limit false rest
        return ((key, blank) :: entries, rest)

end

/-! ## Documents -/

/-- What the handles of tags stand for unless a directive says otherwise. -/
def usualShorthands : Shorthands :=
  [("!", "!".toUTF8.toList), ("!!", "tag:yaml.org,2002:".toUTF8.toList)]

/-- The directives in front of a document, and the tokens after them. At most one version is given,
which is 1.1 or 1.2, and no handle twice. -/
def directives (versioned : Bool) (known : Shorthands) :
    List Token → Except Fault (Shorthands × List Token)
  | .version major minor :: rest =>
    if versioned then .error .repeatedDirective
    else if major = 1 ∧ (minor = 1 ∨ minor = 2) then directives true known rest
    else .error .unsupportedVersion
  | .tagShorthand handle meaning :: rest =>
    if (known.lookup handle).isSome then .error .repeatedDirective
    else directives versioned (known ++ [(handle, meaning)]) rest
  | rest => .ok (known, rest)

/-- A limit that the reading of `tokens` never reaches: between two tokens it makes at most two
calls. -/
def limitFor (tokens : List Token) : Nat := 2 * tokens.length + 2

/-- The root node of a document, and the tokens after it. -/
def parseDocument (known : Shorthands) (tokens : List Token) : Except Fault (Node × List Token) :=
  parse known (limitFor tokens) true false tokens

/-- The node of a document whose start is marked. -/
def parseMarked (known : Shorthands) (tokens : List Token) : Except Fault (Node × List Token) :=
  match tokens with
  | .version .. :: _ | .tagShorthand .. :: _ | .documentStart :: _ | .documentEnd :: _
  | .streamEnd :: _ => .ok (blank, tokens)
  | tokens => parseDocument known tokens

/-- Whether nothing but the ends of documents follows. -/
def atStreamEnd : List Token → Bool
  | .documentEnd :: rest => atStreamEnd rest
  | [.streamEnd] => true
  | _ => false

/-- The root node of the only document that `tokens` hold, if they hold one. -/
def ofTokens (tokens : List Token) : Except Fault (Option Node) := do
  let (known, rest) ← directives false [] tokens
  let shorthands := known ++ usualShorthands
  match tokens, rest with
  | [.streamEnd], _ => return none
  | _, .documentStart :: rest =>
    let (node, rest) ← parseMarked shorthands rest
    if atStreamEnd rest then return some node else throw .moreDocuments
  | .version .. :: _, _ | .tagShorthand .. :: _, _ => throw .unexpectedToken
  | _, rest =>
    let (node, rest) ← parseDocument shorthands rest
    if atStreamEnd rest then return some node else throw .moreDocuments

end Node

end RoleChart.Yaml
