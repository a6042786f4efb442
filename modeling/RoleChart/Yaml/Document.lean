import RoleChart.Yaml.Node
import RoleChart.Yaml.Scalar
import RoleChart.Yaml.Token.Layout
/-!
From a YAML text to its value. An alias stands for a copy of the node that bears its anchor. Every
anchor takes as its number the count of the names known when it appears, an alias means the number
that its name had last, and a number means the node that took it last.
-/
namespace RoleChart.Yaml

/-! ## Tags -/

/-- The bytes of a tag of the core vocabulary. -/
def coreTag (name : String) : TagBytes :=
  ("tag:yaml.org,2002:" ++ name).toUTF8.toList

/-- The name of a local tag: what follows its exclamation mark, or the mark itself where nothing
does. -/
def localTag? : Option TagBytes → Option String
  | some (b :: rest) =>
    if b.toNat = '!'.toNat then
      String.fromUTF8? (ByteArray.mk (if rest.isEmpty then [b] else rest).toArray)
    else none
  | _ => none

/-- Whether a tag starts with an exclamation mark. -/
def startsLocal : TagBytes → Bool
  | b :: _ => b.toNat == '!'.toNat
  | [] => false

namespace Scalar

/-- The value of a scalar without a tag. -/
def untagged (text : String) (plain : Bool) : Except Fault Value :=
  if plain then plainValue text else .ok (.string text)

/-- The value of a scalar whose tag is not local. The tags of the core vocabulary decide how the
text is read; any other tag makes the value the text. -/
def withTag (tag : TagBytes) (text : String) (plain : Bool) : Except Fault Value :=
  if tag = coreTag "bool" then
    match bool? text with
    | some b => .ok (.bool b)
    | none => .error .tagMismatch
  else if tag = coreTag "int" then
    match boundedInteger? text with
    | some n => integerValue n
    | none => .error .tagMismatch
  else if tag = coreTag "float" then
    match float? text with
    | some x => .ok (.number (.float x))
    | none => .error .tagMismatch
  else if tag = coreTag "null" then
    if isNull text then .ok .null else .error .tagMismatch
  else if startsLocal tag then untagged text plain
  else .ok (.string text)

/-- The value of a scalar. -/
def value (tag : Option TagBytes) (text : String) (plain : Bool) : Except Fault Value :=
  match localTag? tag, tag with
  | some name, _ => .tagged name <$> untagged text plain
  | none, some tag => withTag tag text plain
  | none, none => untagged text plain

end Scalar

/-! ## Anchors -/

/-- A node whose aliases are numbers of anchors. -/
inductive Tree where
  | alias (number : Nat)
  | scalar (tag : Option TagBytes) (text : String) (plain : Bool)
  | sequence (tag : Option TagBytes) (items : List Tree)
  | mapping (tag : Option TagBytes) (entries : List (Tree × Tree))
  deriving Repr, Inhabited

/-- What is known of the anchors of a document: the number that each name had last, which anchored
node took each number last, and the nodes themselves, counted in the order in which they start.
Also the count of the pieces of the document: an alias or scalar is one, a collection two besides
its contents. -/
structure Anchors where
  names : List (String × Nat)
  owners : List (Nat × Nat)
  trees : List (Nat × Tree)
  started : Nat
  pieces : Nat
  deriving Inhabited

namespace Anchors

/-- No anchors. -/
def none : Anchors := ⟨[], [], [], 0, 0⟩

/-- The number of the names known. -/
def nameCount (a : Anchors) : Nat := (a.names.map (·.1)).eraseDups.length

/-- A node starts, with an anchor or without, and counts for `pieces` pieces. The answer is its
place among the anchored nodes. -/
def start (anchor : Option String) (pieces : Nat) (a : Anchors) : Nat × Anchors :=
  let a := { a with pieces := a.pieces + pieces }
  match anchor with
  | .none => (a.started, a)
  | some name =>
    let number := a.nameCount
    (a.started,
      { a with
        names := (name, number) :: a.names
        owners := (number, a.started) :: a.owners
        started := a.started + 1 })

/-- The node that started at place `start` is `tree`. -/
def finish (anchor : Option String) (start : Nat) (tree : Tree) (a : Anchors) : Anchors :=
  if anchor.isSome then { a with trees := (start, tree) :: a.trees } else a

/-- The node that a number means. -/
def find? (a : Anchors) (number : Nat) : Option Tree :=
  (a.owners.lookup number).bind fun start => a.trees.lookup start

end Anchors

namespace Node

mutual

/-- The node with its aliases resolved, and the anchors known after it. -/
def link : Node → Anchors → Except Fault (Tree × Anchors)
  | .alias name, a =>
    match a.names.lookup name with
    | some number => .ok (.alias number, { a with pieces := a.pieces + 1 })
    | none => .error .unknownAnchor
  | .scalar props text plain, a =>
    let (start, a) := a.start props.anchor 1
    let tree := Tree.scalar props.tag text plain
    .ok (tree, a.finish props.anchor start tree)
  | .sequence props items, a => do
    let (start, a) := a.start props.anchor 2
    let (items, a) ← linkItems items a
    let tree := Tree.sequence props.tag items
    return (tree, a.finish props.anchor start tree)
  | .mapping props entries, a => do
    let (start, a) := a.start props.anchor 2
    let (entries, a) ← linkEntries entries a
    let tree := Tree.mapping props.tag entries
    return (tree, a.finish props.anchor start tree)

/-- The nodes of a sequence with their aliases resolved. -/
def linkItems : List Node → Anchors → Except Fault (List Tree × Anchors)
  | [], a => .ok ([], a)
  | item :: items, a => do
    let (item, a) ← link item a
    let (items, a) ← linkItems items a
    return (item :: items, a)

/-- The nodes of a mapping with their aliases resolved. -/
def linkEntries : List (Node × Node) → Anchors → Except Fault (List (Tree × Tree) × Anchors)
  | [], a => .ok ([], a)
  | (key, value) :: entries, a => do
    let (key, a) ← link key a
    let (value, a) ← link value a
    let (entries, a) ← linkEntries entries a
    return ((key, value) :: entries, a)

end

end Node

/-! ## Values -/

namespace Value

/-- Whether no key stands twice. -/
def distinctKeys : List (Value × Value) → Bool
  | [] => true
  | (k, _) :: rest => !rest.any (fun e => same k e.1) && distinctKeys rest

/-- The value with a tag where the tag is a local one. -/
def underTag (tag : Option TagBytes) (v : Value) : Value :=
  match localTag? tag with
  | some name => .tagged name v
  | none => v

/-- The node that an alias means; any other node means itself. The state counts the aliases that
may still be followed. -/
def follow (anchors : Anchors) (tree : Tree) : StateT Nat (Except Fault) Tree := fun jumps =>
  match tree with
  | .alias n =>
    if jumps = 0 then .error .aliasLimit
    else (anchors.find? n).elim (.error .unknownAnchor) fun tree => .ok (tree, jumps - 1)
  | tree => .ok (tree, jumps)

/-- The value of a node in which collections are nested at most `depth` deep. -/
def ofTree (anchors : Anchors) : Nat → Tree → StateT Nat (Except Fault) Value
  | depth, tree => do
    match depth, ← follow anchors tree with
    | _, .alias _ => throw .unknownAnchor
    | _, .scalar tag text plain => Scalar.value tag text plain
    | 0, _ => throw .nestingLimit
    | depth + 1, .sequence tag items => do
      let items ← items.mapM (ofTree anchors depth)
      return underTag tag (.sequence items)
    | depth + 1, .mapping tag entries => do
      let entries ← entries.mapM fun entry => do
        let key ← ofTree anchors depth entry.1
        let value ← ofTree anchors depth entry.2
        return (key, value)
      if distinctKeys entries then return underTag tag (.mapping entries)
      else throw .duplicateKey

/-- How deep collections may be nested. -/
def maxDepth : Nat := 128

/-- How many aliases may be followed for each piece of a document. -/
def jumpsPerPiece : Nat := 100

/-- The value of the document that a text holds. A text without a document is null. -/
def ofText (text : String) : Except Fault Value := do
  match ← Node.ofTokens (← Token.ofText text.toList) with
  | none => return .null
  | some node =>
    let (tree, anchors) ← node.link .none
    let (value, _) ← (ofTree anchors maxDepth tree).run (jumpsPerPiece * anchors.pieces)
    return value

end Value

/-- The reader of YAML that says of a text with a fault what `describe` says of the two. -/
def reader (describe : String → Fault → String) : Reader := fun text =>
  (Value.ofText text).mapError (describe text)

/-- The reader of YAML that gives the name of a fault and no more. -/
def plainReader : Reader := reader fun _ fault => reprStr fault

end RoleChart.Yaml
