import RoleChart.Dot
/-!
Reading DOT text. A text is cut into tokens first: words, texts between quotes with their escapes
undone, HTML-like labels up to the bracket that closes them, and marks; blanks divide tokens and are
dropped. A digraph is then a list of statements, each of which ends with a semicolon and sets
attributes of the graph or of all edges, or stands for a node or for an edge between two nodes.
-/
namespace RoleChart.Dot

/-! ## Tokens -/

/-- A part of a DOT text that is read as a whole. -/
inductive Token where
  | word (text : String)
  | quoted (text : String)
  | label (text : String)
  | mark (c : Char)
  | arrow
  deriving Repr, DecidableEq, Inhabited

/-- Whether a character may stand in a word. -/
def isWordChar (c : Char) : Bool := c.isAlphanum || c == '_'

/-- Whether a character is a token of its own. -/
def isMark (c : Char) : Bool := ['{', '}', '[', ']', '=', ',', ';'].contains c

/-- Whether a character may stand between tokens. -/
def isBlank (c : Char) : Bool := c == ' ' || c == '\t' || c == '\n'

/-- The character that stands inside quotes as a backslash and `c`. -/
def unescaped? : Char → Option Char
  | '"' => some '"'
  | '\\' => some '\\'
  | 'n' => some '\n'
  | _ => none

/-- Takes the characters of a quoted text up to its closing quote, and undoes their escapes. -/
def quotedChars? : List Char → Option (List Char × List Char)
  | [] => none
  | '"' :: rest => some ([], rest)
  | '\\' :: c :: rest =>
    match unescaped? c with
    | some c => (quotedChars? rest).map fun (others, rest) => (c :: others, rest)
    | none => none
  | c :: rest => (quotedChars? rest).map fun (others, rest) => (c :: others, rest)

/-- The number of angle brackets that are open after a character, where `opened` were before it. -/
def openAfter (opened : Nat) (c : Char) : Nat :=
  if c = '<' then opened + 1 else if c = '>' then opened - 1 else opened

/-- Takes the characters of a label up to the bracket that closes the last of `opened` ones. -/
def labelChars? : Nat → List Char → Option (List Char × List Char)
  | _, [] => none
  | opened, c :: rest =>
    if openAfter opened c = 0 then some ([c], rest)
    else (labelChars? (openAfter opened c) rest).map fun (others, rest) => (c :: others, rest)

/-- Takes a token that starts at once. -/
def token? : List Char → Option (Token × List Char)
  | [] => none
  | '"' :: rest => (quotedChars? rest).map fun (cs, rest) => (.quoted (String.ofList cs), rest)
  | '<' :: rest =>
    (labelChars? 1 rest).map fun (cs, rest) => (.label (String.ofList ('<' :: cs)), rest)
  | '-' :: '>' :: rest => some (.arrow, rest)
  | c :: rest =>
    if isMark c then some (.mark c, rest)
    else if isWordChar c then
      some (.word (String.ofList (c :: rest.takeWhile isWordChar)), rest.dropWhile isWordChar)
    else none

theorem length_lt_of_quotedChars? {cs value rest : List Char}
    (h : quotedChars? cs = some (value, rest)) : rest.length < cs.length := by
  fun_induction quotedChars? cs generalizing value with
  | case1 => cases h
  | case2 => cases h; exact Nat.lt_succ_self _
  | case3 _ _ _ _ ih =>
    obtain ⟨⟨others, later⟩, hothers, hpair⟩ := Option.map_eq_some_iff.mp h
    cases hpair
    have := ih hothers
    simp only [List.length_cons]
    omega
  | case4 => cases h
  | case5 _ _ _ _ ih =>
    obtain ⟨⟨others, later⟩, hothers, hpair⟩ := Option.map_eq_some_iff.mp h
    cases hpair
    exact Nat.lt_succ_of_lt (ih hothers)

theorem length_lt_of_labelChars? {opened : Nat} {cs value rest : List Char}
    (h : labelChars? opened cs = some (value, rest)) : rest.length < cs.length := by
  induction cs generalizing opened value with
  | nil => cases h
  | cons c cs ih =>
    unfold labelChars? at h
    split at h
    · cases h
      exact Nat.lt_succ_self _
    · obtain ⟨⟨others, later⟩, hothers, hpair⟩ := Option.map_eq_some_iff.mp h
      cases hpair
      exact Nat.lt_succ_of_lt (ih hothers)

/-- A token is not empty. -/
theorem length_lt_of_token? {cs rest : List Char} {token : Token}
    (h : token? cs = some (token, rest)) : rest.length < cs.length := by
  unfold token? at h
  split at h
  · cases h
  · obtain ⟨⟨value, later⟩, hvalue, hpair⟩ := Option.map_eq_some_iff.mp h
    cases hpair
    exact Nat.lt_succ_of_lt (length_lt_of_quotedChars? hvalue)
  · obtain ⟨⟨value, later⟩, hvalue, hpair⟩ := Option.map_eq_some_iff.mp h
    cases hpair
    exact Nat.lt_succ_of_lt (length_lt_of_labelChars? hvalue)
  · cases h
    exact Nat.lt_succ_of_lt (Nat.lt_succ_self _)
  · split at h
    · cases h
      exact Nat.lt_succ_self _
    · split at h
      · cases h
        exact Nat.lt_succ_of_le (List.dropWhile_sublist _).length_le
      · cases h

/-- The tokens of a text. -/
def tokens? : List Char → Option (List Token)
  | [] => some []
  | c :: rest =>
    match _ : token? (c :: rest) with
    | some (token, later) => (tokens? later).map (token :: ·)
    | none => if isBlank c then tokens? rest else none
termination_by cs => cs.length
decreasing_by
  · exact length_lt_of_token? (by assumption)
  · exact Nat.lt_succ_self _

/-! ## Statements -/

/-- A statement of a digraph. -/
inductive Statement where
  | graphAttributes (attributes : Attributes)
  | edgeAttributes (attributes : Attributes)
  | node (name : String) (attributes : Attributes)
  | edge (tail head : String)
  deriving Repr, DecidableEq, Inhabited

/-- The attribute that tokens set. -/
def attribute? : List Token → Option (String × String)
  | [.word key, .mark '=', .quoted value] => some (key, value)
  | [.word key, .mark '=', .label value] => some (key, value)
  | _ => none

/-- The attributes that tokens set, a closing bracket at their end. -/
def attributes? (tokens : List Token) : Option Attributes :=
  if tokens.getLast? = some (.mark ']') then
    ((tokens.dropLast.splitOn (.mark ',')).mapM attribute?).map Table.mk
  else none

/-- The statement that tokens make. -/
def statement? : List Token → Option Statement
  | .word "graph" :: .mark '[' :: rest => (attributes? rest).map .graphAttributes
  | .word "edge" :: .mark '[' :: rest => (attributes? rest).map .edgeAttributes
  | .quoted name :: .mark '[' :: rest => (attributes? rest).map (.node name)
  | [.quoted name] => some (.node name .empty)
  | [.quoted tail, .arrow, .quoted head] => some (.edge tail head)
  | _ => none

/-- The statements that tokens make, a closing brace at their end. -/
def statements? (tokens : List Token) : Option (List Statement) :=
  let parts := tokens.splitOn (.mark ';')
  if parts.getLast? = some [.mark '}'] then parts.dropLast.mapM statement? else none

namespace Statement

/-- The attributes of the graph as a whole that a statement sets. -/
def graphAttributes? : Statement → Option Attributes
  | .graphAttributes attributes => some attributes
  | _ => none

/-- The attributes of all edges that a statement sets. -/
def edgeAttributes? : Statement → Option Attributes
  | .edgeAttributes attributes => some attributes
  | _ => none

/-- The node that a statement stands for. -/
def node? : Statement → Option (String × Attributes)
  | .node name attributes => some (name, attributes)
  | _ => none

/-- The edge that a statement stands for. -/
def edge? : Statement → Option (String × String)
  | .edge tail head => some (tail, head)
  | _ => none

/-- The graph that a list of statements makes up. -/
def graph (statements : List Statement) : Graph where
  nodes := ⟨statements.filterMap node?⟩
  edges := statements.filterMap edge?
  graphAttributes := (statements.filterMap graphAttributes?).headD .empty
  edgeAttributes := (statements.filterMap edgeAttributes?).headD .empty

end Statement

/-! ## Graphs -/

/-- The graph that tokens describe. -/
def graph? : List Token → Option Graph
  | .word "strict" :: .word "digraph" :: .mark '{' :: rest =>
    (statements? rest).map Statement.graph
  | _ => none

/-- The graph that a DOT text describes. -/
def read? (text : String) : Option Graph := (tokens? text.toList).bind graph?

end RoleChart.Dot
