import RoleChart.Proofs.Dot.Tokens
/-!
Reading back the DOT text of a graph. The text is a list of statements (`statements`, `toList_text`),
and falls into their tokens (`lexes_text`). No semicolon stands among the tokens of a statement and
no comma among those of an attribute, so they can be told apart again (`statements?_tokens`,
`attributes?_tokens`).

* `read_text`: reading the text of a graph gives the graph back.
-/
namespace RoleChart.Dot

open Label (ClosesAtEnd)

/-! ## Graphs that can be read back -/

/-- Whether attributes can be read back. -/
def LegibleAttributes (attributes : Attributes) : Prop :=
  ∀ pair ∈ attributes.entries, IsWord pair.1 ∧ IsValue pair.2

instance (attributes : Attributes) : Decidable (LegibleAttributes attributes) :=
  inferInstanceAs (Decidable (∀ pair ∈ attributes.entries, _))

/-- A graph whose attributes can be read back. Its names need nothing, they stand in quotes. -/
structure Legible (g : Graph) : Prop where
  graphAttributes : LegibleAttributes g.graphAttributes
  edgeAttributes : LegibleAttributes g.edgeAttributes
  nodes : ∀ node ∈ g.nodes.entries, LegibleAttributes node.2

instance (g : Graph) : Decidable (Legible g) :=
  decidable_of_iff
    (LegibleAttributes g.graphAttributes ∧ LegibleAttributes g.edgeAttributes ∧
      ∀ node ∈ g.nodes.entries, LegibleAttributes node.2)
    ⟨fun ⟨hgraph, hedge, hnodes⟩ => ⟨hgraph, hedge, hnodes⟩,
      fun h => ⟨h.graphAttributes, h.edgeAttributes, h.nodes⟩⟩

/-! ## Tokens of a statement -/

/-- The token of a value. -/
def valueToken (value : String) : Token :=
  if isLabel value.toList then .label value else .quoted value

/-- The tokens of an attribute. -/
def attributeTokens (pair : String × String) : List Token :=
  [.word pair.1, .mark '=', valueToken pair.2]

/-- The tokens of attributes, brackets included. -/
def attributesTokens (attributes : Attributes) : List Token :=
  .mark '[' :: [.mark ','].intercalate (attributes.entries.map attributeTokens) ++ [.mark ']']

namespace Statement

/-- The text of a statement. -/
def text : Statement → String
  | .graphAttributes attributes => settingText "graph" attributes
  | .edgeAttributes attributes => settingText "edge" attributes
  | .node name attributes => nodeText name attributes
  | .edge tail head => edgeText tail head

/-- The tokens of a statement, up to its semicolon. -/
def tokens : Statement → List Token
  | .graphAttributes attributes => .word "graph" :: attributesTokens attributes
  | .edgeAttributes attributes => .word "edge" :: attributesTokens attributes
  | .node name attributes =>
    .quoted name :: if attributes.isEmpty then [] else attributesTokens attributes
  | .edge tail head => [.quoted tail, .arrow, .quoted head]

/-- Whether a statement has a text that can be read back. One that sets no attributes has none. -/
def Legible : Statement → Prop
  | .graphAttributes attributes => attributes.isEmpty = false ∧ LegibleAttributes attributes
  | .edgeAttributes attributes => attributes.isEmpty = false ∧ LegibleAttributes attributes
  | .node _ attributes => LegibleAttributes attributes
  | .edge _ _ => True

end Statement

theorem lexes_value {value : String} (h : IsValue value) :
    Lexes (valueText value).toList [valueToken value] := by
  unfold valueText valueToken
  split
  · exact .label ‹_› (h ‹_›)
  · exact .quoted value

theorem lexes_attributesText {attributes : Attributes} (h : LegibleAttributes attributes) :
    Lexes (attributesText attributes).toList
      ([.mark ','].intercalate (attributes.entries.map attributeTokens)) := by
  have hsep : Lexes [',', ' '] [.mark ','] := .mark rfl (.blank rfl .nil)
  rw [attributesText, String.toList_intercalate, List.map_map]
  refine hsep.intercalate fun pair hpair => ?_
  obtain ⟨hkey, hvalue⟩ := h pair hpair
  have hpair : Lexes (pair.1.toList ++ '=' :: (valueText pair.2).toList) (attributeTokens pair) :=
    .word hkey rfl (.mark rfl (lexes_value hvalue))
  simpa using hpair

/-- The end of a statement with attributes. -/
theorem lexes_bracketed {attributes : Attributes} (h : LegibleAttributes attributes) :
    Lexes (' ' :: '[' :: ((attributesText attributes).toList ++ [']', ';', '\n']))
      (attributesTokens attributes ++ [.mark ';']) := by
  have hend : Lexes [']', ';', '\n'] [.mark ']', .mark ';'] :=
    .mark rfl (.mark rfl (.blank rfl .nil))
  have := Lexes.blank (c := ' ') rfl (.mark (c := '[') rfl ((lexes_attributesText h).append hend))
  simpa [attributesTokens] using this

theorem lexes_settingText {subject : String} {attributes : Attributes} (hsubject : IsWord subject)
    (hne : attributes.isEmpty = false) (h : LegibleAttributes attributes) :
    Lexes (settingText subject attributes).toList
      (.word subject :: attributesTokens attributes ++ [.mark ';']) := by
  have hstatement := Lexes.blank (c := '\t') rfl (.word hsubject rfl (lexes_bracketed h))
  rw [settingText, hne, if_neg Bool.false_ne_true]
  simpa using hstatement

theorem lexes_nodeText (name : String) {attributes : Attributes} (h : LegibleAttributes attributes) :
    Lexes (nodeText name attributes).toList
      ((Statement.node name attributes).tokens ++ [.mark ';']) := by
  have hname : Lexes ('\t' :: (quoted name).toList) [.quoted name] := .blank rfl (.quoted name)
  have hend : Lexes [';', '\n'] [.mark ';'] := .mark rfl (.blank rfl .nil)
  rw [nodeText, Statement.tokens]
  cases attributes.isEmpty with
  | true => simpa using hname.append hend
  | false => simpa using hname.append (lexes_bracketed h)

theorem lexes_edgeText (tail head : String) :
    Lexes (edgeText tail head).toList ((Statement.edge tail head).tokens ++ [.mark ';']) := by
  have htail : Lexes ('\t' :: (quoted tail).toList) [.quoted tail] := .blank rfl (.quoted tail)
  have harrow : Lexes [' ', '-', '>', ' '] [.arrow] := .blank rfl (.arrow (.blank rfl .nil))
  have hend : Lexes [';', '\n'] [.mark ';'] := .mark rfl (.blank rfl .nil)
  have hstatement := htail.append (harrow.append ((Lexes.quoted head).append hend))
  simpa [edgeText, Statement.tokens] using hstatement

/-- The text of a statement falls into its tokens. -/
theorem lexes_text {s : Statement} (h : s.Legible) :
    Lexes s.text.toList (s.tokens ++ [.mark ';']) := by
  cases s with
  | graphAttributes attributes => exact lexes_settingText (by decide) h.1 h.2
  | edgeAttributes attributes => exact lexes_settingText (by decide) h.1 h.2
  | node name attributes => exact lexes_nodeText name h
  | edge tail head => exact lexes_edgeText tail head

/-! ## Statements from tokens -/

theorem mem_intercalate {α : Type} {sep : List α} {lists : List (List α)} {x : α}
    (h : x ∈ sep.intercalate lists) : x ∈ sep ∨ ∃ list ∈ lists, x ∈ list := by
  induction lists with
  | nil => cases h
  | cons list lists ih =>
    by_cases hlists : lists = []
    · subst hlists
      rw [List.intercalate_singleton] at h
      exact Or.inr ⟨list, List.mem_singleton_self list, h⟩
    · rw [List.intercalate_cons_of_ne_nil hlists, List.append_assoc, List.mem_append,
        List.mem_append] at h
      rcases h with h | h | h
      · exact Or.inr ⟨list, List.mem_cons_self, h⟩
      · exact Or.inl h
      · exact (ih h).imp_right fun ⟨l, hl, hx⟩ => ⟨l, List.mem_cons_of_mem _ hl, hx⟩

theorem flatMap_append_eq_intercalate {α β : Type} (f : α → List β) (sep last : List β)
    (xs : List α) :
    (xs.flatMap fun x => f x ++ sep) ++ last = sep.intercalate (xs.map f ++ [last]) := by
  induction xs with
  | nil => simp
  | cons x xs ih =>
    rw [List.flatMap_cons, List.map_cons, List.cons_append,
      List.intercalate_cons_of_ne_nil (by simp), List.append_assoc, ih]

theorem mapM_map_eq_some {α β : Type} {f : β → Option α} {g : α → β} {xs : List α}
    (h : ∀ x ∈ xs, f (g x) = some x) : (xs.map g).mapM f = some xs := by
  induction xs with
  | nil => rfl
  | cons x xs ih =>
    obtain ⟨hx, hxs⟩ := List.forall_mem_cons.mp h
    rw [List.map_cons, List.mapM_cons, hx, ih hxs]
    rfl

theorem attribute?_tokens (pair : String × String) :
    attribute? (attributeTokens pair) = some pair := by
  unfold attributeTokens valueToken
  split <;> rfl

theorem mark_notMem_attributeTokens {c : Char} (hc : c ≠ '=') (pair : String × String) :
    .mark c ∉ attributeTokens pair := by
  unfold attributeTokens valueToken
  split <;> simp [hc]

/-- The attributes of a statement are read from their tokens. -/
theorem attributes?_tokens {attributes : Attributes} (hne : attributes.isEmpty = false) :
    attributes? ([.mark ','].intercalate (attributes.entries.map attributeTokens) ++ [.mark ']']) =
      some attributes := by
  have hcomma : ∀ ts ∈ attributes.entries.map attributeTokens, .mark ',' ∉ ts := by
    intro ts hts
    obtain ⟨pair, _, rfl⟩ := List.mem_map.mp hts
    exact mark_notMem_attributeTokens (by decide) pair
  have hentries : attributes.entries.map attributeTokens ≠ [] := by
    rintro hnil
    rw [Table.isEmpty, List.map_eq_nil_iff.mp hnil] at hne
    cases hne
  rw [attributes?, if_pos List.getLast?_concat, List.dropLast_concat,
    List.splitOn_intercalate _ hcomma hentries,
    mapM_map_eq_some fun pair _ => attribute?_tokens pair]
  rfl

theorem statement?_tokens {s : Statement} (h : s.Legible) : statement? s.tokens = some s := by
  cases s with
  | graphAttributes attributes =>
    rw [Statement.tokens, attributesTokens, List.cons_append, statement?, attributes?_tokens h.1]
    rfl
  | edgeAttributes attributes =>
    rw [Statement.tokens, attributesTokens, List.cons_append, statement?, attributes?_tokens h.1]
    rfl
  | node name attributes =>
    rw [Statement.tokens]
    cases hempty : attributes.isEmpty with
    | true =>
      obtain ⟨entries⟩ := attributes
      obtain rfl : entries = [] := List.isEmpty_iff.mp hempty
      rfl
    | false =>
      rw [if_neg Bool.false_ne_true, attributesTokens, List.cons_append, statement?,
        attributes?_tokens hempty]
      rfl
  | edge tail head => rfl

theorem semicolon_notMem_attributesTokens (attributes : Attributes) :
    .mark ';' ∉ attributesTokens attributes := by
  intro h
  rw [attributesTokens, List.cons_append, List.mem_cons, List.mem_append] at h
  rcases h with h | h | h
  · cases h
  · rcases mem_intercalate h with h | ⟨ts, hts, h⟩
    · exact absurd h (by decide)
    · obtain ⟨pair, _, rfl⟩ := List.mem_map.mp hts
      exact mark_notMem_attributeTokens (by decide) pair h
  · exact absurd h (by decide)

theorem semicolon_notMem_tokens (s : Statement) : .mark ';' ∉ s.tokens := by
  unfold Statement.tokens
  cases s with
  | graphAttributes attributes => simpa using semicolon_notMem_attributesTokens attributes
  | edgeAttributes attributes => simpa using semicolon_notMem_attributesTokens attributes
  | node name attributes =>
    dsimp only
    split
    · simp
    · simpa using semicolon_notMem_attributesTokens attributes
  | edge tail head => simp

/-- A list of statements is read from its tokens. -/
theorem statements?_tokens {statements : List Statement} (h : ∀ s ∈ statements, s.Legible) :
    statements? ((statements.flatMap fun s => s.tokens ++ [.mark ';']) ++ [.mark '}']) =
      some statements := by
  have hsemicolon : ∀ ts ∈ statements.map Statement.tokens ++ [[.mark '}']],
      Token.mark ';' ∉ ts := by
    intro ts hts
    rcases List.mem_append.mp hts with hts | hts
    · obtain ⟨s, _, rfl⟩ := List.mem_map.mp hts
      exact semicolon_notMem_tokens s
    · rw [List.mem_singleton.mp hts]
      decide
  rw [flatMap_append_eq_intercalate, statements?,
    List.splitOn_intercalate _ hsemicolon (by simp), if_pos List.getLast?_concat,
    List.dropLast_concat, mapM_map_eq_some fun s hs => statement?_tokens (h s hs)]

/-! ## Graphs from statements -/

/-- The statement that sets attributes, none where there are none. -/
def setting (make : Attributes → Statement) (attributes : Attributes) : List Statement :=
  if attributes.isEmpty then [] else [make attributes]

/-- The statements of a graph. -/
def statements (g : Graph) : List Statement :=
  setting .graphAttributes g.graphAttributes ++ setting .edgeAttributes g.edgeAttributes ++
    (g.nodes.entries.map fun (name, attributes) => .node name attributes) ++
    (g.edges.map fun (tail, head) => .edge tail head)

theorem mem_setting {make : Attributes → Statement} {attributes : Attributes} {s : Statement} :
    s ∈ setting make attributes ↔ attributes.isEmpty = false ∧ s = make attributes := by
  unfold setting
  cases attributes.isEmpty <;> simp

theorem Legible.statements {g : Graph} (h : Legible g) : ∀ s ∈ statements g, s.Legible := by
  intro s hs
  simp only [Dot.statements, List.mem_append, mem_setting, List.mem_map] at hs
  rcases hs with ((⟨hne, rfl⟩ | ⟨hne, rfl⟩) | ⟨node, hnode, rfl⟩) | ⟨edge, _, rfl⟩
  · exact ⟨hne, h.graphAttributes⟩
  · exact ⟨hne, h.edgeAttributes⟩
  · exact h.nodes node hnode
  · exact True.intro

theorem flatMap_setting (make : Attributes → Statement) {subject : String}
    (hmake : ∀ attributes, (make attributes).text = settingText subject attributes)
    (attributes : Attributes) :
    ((setting make attributes).flatMap fun s => s.text.toList) =
      (settingText subject attributes).toList := by
  unfold setting
  split
  · rw [settingText, if_pos ‹_›]
    rfl
  · rw [List.flatMap_singleton, hmake]

/-- The text of a graph is that of its statements. -/
theorem toList_text (g : Graph) :
    (text g).toList =
      "strict digraph \x7b\n".toList ++ ((statements g).flatMap fun s => s.text.toList) ++
        "\x7d\n".toList := by
  have hgraph := flatMap_setting .graphAttributes (fun _ => rfl) g.graphAttributes
  have hedge := flatMap_setting .edgeAttributes (fun _ => rfl) g.edgeAttributes
  unfold text statements
  simp only [String.toList_append, String.toList_join, List.flatMap_append, List.flatMap_map,
    List.append_assoc, hgraph, hedge]
  -- Only now: `Statement.text` is not to be opened in what a setting stands for.
  simp only [Statement.text]

/-- The text of a graph falls into the tokens of its statements. -/
theorem tokens?_text {g : Graph} (h : Legible g) :
    tokens? (text g).toList =
      some (.word "strict" :: .word "digraph" :: .mark '{' ::
        (((statements g).flatMap fun s => s.tokens ++ [.mark ';']) ++ [.mark '}'])) := by
  have hstrict : Lexes ("strict".toList ++ ' ' :: ("digraph".toList ++ [' ', '{', '\n']))
      [.word "strict", .word "digraph", .mark '{'] :=
    .word (by decide) rfl (.blank rfl (.word (by decide) rfl (.blank rfl
      (.mark rfl (.blank rfl .nil)))))
  have hstatements := Lexes.flatMap fun s hs => lexes_text (h.statements s hs)
  have hend : Lexes ['}', '\n'] [.mark '}'] := .mark rfl (.blank rfl .nil)
  have htext := ((hstrict.append hstatements).append hend) []
  rw [List.append_nil, tokens?, Option.map_some] at htext
  rw [toList_text]
  simpa using htext

theorem filterMap_setting {α : Type} (make : Attributes → Statement) (f : Statement → Option α)
    (attributes : Attributes) :
    (setting make attributes).filterMap f =
      if attributes.isEmpty then [] else (f (make attributes)).toList := by
  unfold setting
  split
  · rfl
  · cases h : f (make attributes) <;> simp [h]

theorem headD_setting (attributes : Attributes) :
    (if attributes.isEmpty then [] else [attributes]).headD .empty = attributes := by
  split
  · obtain ⟨entries⟩ := attributes
    obtain rfl : entries = [] := List.isEmpty_iff.mp ‹_›
    rfl
  · rfl

/-- A graph is made up of its statements. -/
theorem graph_statements (g : Graph) : Statement.graph (statements g) = g := by
  have hnodes : (statements g).filterMap Statement.node? = g.nodes.entries := by
    simp [statements, filterMap_setting, Statement.node?, List.filterMap_map, Function.comp_def]
  have hedges : (statements g).filterMap Statement.edge? = g.edges := by
    simp [statements, filterMap_setting, Statement.edge?, List.filterMap_map, Function.comp_def]
  have hgraph : ((statements g).filterMap Statement.graphAttributes?).headD .empty =
      g.graphAttributes := by
    simpa [statements, filterMap_setting, Statement.graphAttributes?, List.filterMap_map,
      Function.comp_def] using headD_setting g.graphAttributes
  have hedge : ((statements g).filterMap Statement.edgeAttributes?).headD .empty =
      g.edgeAttributes := by
    simpa [statements, filterMap_setting, Statement.edgeAttributes?, List.filterMap_map,
      Function.comp_def] using headD_setting g.edgeAttributes
  rw [Statement.graph, hnodes, hedges, hgraph, hedge]

theorem isLabel_html (label font : String) (size : Nat) :
    isLabel (Label.html label font size).toList = true := by
  rw [isLabel, Label.toList_html, List.getLast?_concat]
  simp

/-- **Reading the text of a graph gives the graph back**: the attributes of the graph and of the
edges, every node with its attributes and every edge, in order. So two graphs that have one text are
one graph. A label of the usual form has brackets that close at its end, whatever it shows. -/
theorem read_text (g : Graph) (h : Legible g) :
    read? (text g) = some g ∧
    (∀ g', Legible g' → text g' = text g → g' = g) ∧
    ∀ label font size, isLabel (Label.html label font size).toList = true ∧
      ClosesAtEnd (Label.html label font size).toList := by
  have hread (g : Graph) (h : Legible g) : read? (text g) = some g := by
    rw [read?, tokens?_text h, Option.bind_some, graph?, statements?_tokens h.statements,
      Option.map_some, graph_statements]
  refine ⟨hread g h, fun g' h' htext => ?_, fun label font size =>
    ⟨isLabel_html label font size, Label.closesAtEnd_html label font size⟩⟩
  have hread' := hread g' h'
  rw [htext, hread g h] at hread'
  exact (Option.some.inj hread').symm

/-- A graph whose names and values hold quotes, line breaks, brackets, arrows and semicolons. -/
def tangled : Graph where
  nodes := ⟨[("a\"; \"b\" -> \"c", .empty), ("\\n\n", ⟨[("x", "]"), ("label", "<<B>, \";</B>>")]⟩),
    ("", ⟨[("y_1", "<"), ("z", "\\\"")]⟩)]⟩
  edges := [("", "a\"; \"b\" -> \"c"), ("", "")]
  graphAttributes := .empty
  edgeAttributes := ⟨[("graph", "<>"), ("edge", ">a<\x7d")]⟩

theorem read_text_tangled :
    read? (text tangled) = some tangled ∧
    (∀ g', Legible g' → text g' = text tangled → g' = tangled) ∧
    ∀ label font size, isLabel (Label.html label font size).toList = true ∧
      ClosesAtEnd (Label.html label font size).toList :=
  read_text tangled (by decide)

end RoleChart.Dot
