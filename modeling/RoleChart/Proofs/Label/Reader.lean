import RoleChart.Proofs.Dot
import RoleChart.Proofs.Text
/-!
Reading a label. The entities of a text are undone from left to right (`unescape`), which gives back what
was escaped even where it held entities itself (`unescape_escape`). Quotes end the font and the size of a
label and an angle bracket its text, and none of the three has such a character of its own, so a label
falls into its parts (`read?`).

* `read_html`: a label stands as it is in DOT, is open up to its last character, and shows exactly one
  text in one font at one size.
-/
namespace RoleChart.Label

/-! ## Entities -/

/-- Characters with an entity in place of every `mark`. -/
def withEntity (mark : Char) (entity : String) (cs : List Char) : List Char :=
  cs.flatMap fun c => if c = mark then entity.toList else [c]

/-- Characters with their entities undone. -/
def unescape : List Char → List Char
  | '&' :: 'a' :: 'm' :: 'p' :: ';' :: cs => '&' :: unescape cs
  | '&' :: 'l' :: 't' :: ';' :: cs => '<' :: unescape cs
  | '&' :: 'g' :: 't' :: ';' :: cs => '>' :: unescape cs
  | '&' :: 'q' :: 'u' :: 'o' :: 't' :: ';' :: cs => '"' :: unescape cs
  | c :: cs => c :: unescape cs
  | [] => []

theorem toList_escape (text : String) : (escape text).toList = text.toList.flatMap escapeChar :=
  String.toList_ofList

/-- The marks can be replaced one after the other if the ampersand comes first: no later step meets the
ampersand of an entity. -/
theorem escape_eq_withEntity (text : String) :
    (escape text).toList = withEntity '"' "&quot;" (withEntity '>' "&gt;"
      (withEntity '<' "&lt;" (withEntity '&' "&amp;" text.toList))) := by
  unfold withEntity
  rw [toList_escape, List.flatMap_assoc, List.flatMap_assoc, List.flatMap_assoc]
  refine List.flatMap_congr fun c _ => ?_
  unfold escapeChar
  split
  · rfl
  · rfl
  · rfl
  · rfl
  · rename_i hamp hlt hgt hquot
    simp only [if_neg hamp, if_neg hlt, if_neg hgt, if_neg hquot, List.flatMap_singleton]

theorem unescape_cons {c : Char} (h : c ≠ '&') (cs : List Char) :
    unescape (c :: cs) = c :: unescape cs := by
  rw [unescape]
  all_goals simp [h]

theorem unescape_escapeChar_append (c : Char) (cs : List Char) :
    unescape (escapeChar c ++ cs) = c :: unescape cs := by
  unfold escapeChar
  split
  · rfl
  · rfl
  · rfl
  · rfl
  · rename_i hamp _ _ _
    exact unescape_cons hamp cs

/-- Entities that the text itself holds are kept, since their ampersands are escaped too. -/
theorem unescape_escape (text : String) : unescape (escape text).toList = text.toList := by
  rw [toList_escape]
  induction text.toList with
  | nil => rfl
  | cons c cs ih => rw [List.flatMap_cons, unescape_escapeChar_append, ih]

theorem ne_of_mem_escapeChar {c d : Char} (h : d ∈ escapeChar c) : d ≠ '<' ∧ d ≠ '"' := by
  have hentity {entity : List Char} (hall : entity.all (fun e => e ≠ '<' ∧ e ≠ '"') = true)
      (hd : d ∈ entity) : d ≠ '<' ∧ d ≠ '"' := of_decide_eq_true (List.all_eq_true.mp hall d hd)
  unfold escapeChar at h
  split at h
  · exact hentity rfl h
  · exact hentity rfl h
  · exact hentity rfl h
  · exact hentity rfl h
  · rename_i hlt _ hquot
    rw [List.mem_singleton.mp h]
    exact ⟨hlt, hquot⟩

theorem ne_of_mem_escape {text : String} {c : Char} (h : c ∈ (escape text).toList) :
    c ≠ '<' ∧ c ≠ '"' := by
  rw [toList_escape] at h
  obtain ⟨d, -, hd⟩ := List.mem_flatMap.mp h
  exact ne_of_mem_escapeChar hd

/-! ## Labels -/

/-- What stands between `front` and the next `stop`, and all from there on. -/
def part? (front : String) (stop : Char) (cs : List Char) : Option (List Char × List Char) :=
  (cs.dropPrefix? front.toList).map fun rest =>
    (rest.takeWhile (· ≠ stop), rest.dropWhile (· ≠ stop))

/-- What a label shows, in which font and at which size. -/
def read? (label : String) : Option (String × String × Nat) := do
  let (font, cs) ← part? "<<FONT FACE=\"" '"' label.toList
  let (size, cs) ← part? "\" POINT-SIZE=\"" '"' cs
  let (text, cs) ← part? "\">" '<' cs
  if cs = "</FONT>>".toList then
    return (String.ofList (unescape text), String.ofList (unescape font), Nat.ofDigitChars 10 size 0)
  else none

theorem part?_append {cs : List Char} {stop : Char} (h : stop ∉ cs) (front : String)
    (rest : List Char) :
    part? front stop (front.toList ++ (cs ++ stop :: rest)) = some (cs, stop :: rest) := by
  have hfront : (front.toList ++ (cs ++ stop :: rest)).dropPrefix? front.toList =
      some (cs ++ stop :: rest) :=
    List.dropPrefix?_eq_some_iff.mpr ⟨front.toList, rfl, beq_self_eq_true front.toList⟩
  rw [part?, hfront, Option.map_some, takeWhile_ne_append h, dropWhile_ne_append h]

/-- A label shows what it was made of. -/
theorem read?_html (text font : String) (size : Nat) :
    read? (html text font size) = some (text, font, size) := by
  have hfont : '"' ∉ (escape font).toList := fun h => (ne_of_mem_escape h).2 rfl
  have hsize : '"' ∉ (toString size).toList := notMem_toString rfl size
  have htext : '<' ∉ (escape text).toList := fun h => (ne_of_mem_escape h).1 rfl
  have hnumber : Nat.ofDigitChars 10 (toString size).toList 0 = size := by
    rw [Nat.toString_eq_repr, Nat.toList_repr]
    exact Nat.ofDigitChars_toDigits (by decide) (by decide)
  -- Each part is followed by the character that ends it.
  have hchars : (html text font size).toList =
      "<<FONT FACE=\"".toList ++ ((escape font).toList ++ '"' :: (" POINT-SIZE=\"".toList ++
        ((toString size).toList ++ '"' :: '>' :: ((escape text).toList ++ '<' ::
          "/FONT>>".toList)))) := by
    unfold html
    simp
  have hfonts := part?_append hfont "<<FONT FACE=\""
  have hsizes : ∀ rest, part? "\" POINT-SIZE=\"" '"'
      ('"' :: (" POINT-SIZE=\"".toList ++ ((toString size).toList ++ '"' :: rest))) =
        some ((toString size).toList, '"' :: rest) :=
    fun rest => by simpa using part?_append hsize "\" POINT-SIZE=\"" rest
  have htexts : ∀ rest, part? "\">" '<' ('"' :: '>' :: ((escape text).toList ++ '<' :: rest)) =
      some ((escape text).toList, '<' :: rest) :=
    fun rest => by simpa using part?_append htext "\">" rest
  have hend : '<' :: "/FONT>>".toList = "</FONT>>".toList := rfl
  simp only [read?, hchars, hfonts, hsizes, htexts, Option.bind_eq_bind, Option.bind_some]
  rw [if_pos hend, unescape_escape, unescape_escape, hnumber, String.ofList_toList,
    String.ofList_toList]
  rfl

/-- **A label is complete and shows one text in one font at one size.** In DOT it stands as it is. Counted
from its start, more angle brackets are open than closed after every part in front, and as many at the
end, so neither the text nor the font can close the label early or leave it open. The four marks are
replaced by entities one after the other, the ampersand first, and to undo the entities recovers the text
and the font, whatever entities they held before. So labels are equal only if they show the same. -/
theorem read_html (text font : String) (size : Nat) :
    Dot.valueText (html text font size) = html text font size ∧
    (∀ front, front <+: (html text font size).toList → front ≠ [] →
      front ≠ (html text font size).toList → 0 < nesting front) ∧
    nesting (html text font size).toList = 0 ∧
    (∀ shown : String,
      (escape shown).toList = withEntity '"' "&quot;" (withEntity '>' "&gt;"
        (withEntity '<' "&lt;" (withEntity '&' "&amp;" shown.toList))) ∧
      unescape (escape shown).toList = shown.toList) ∧
    read? (html text font size) = some (text, font, size) ∧
    ∀ text' font' size', html text font size = html text' font' size' →
      text = text' ∧ font = font' ∧ size = size' := by
  refine ⟨?_, ?_, ?_, fun shown => ⟨escape_eq_withEntity shown, unescape_escape shown⟩,
    read?_html text font size, fun text' font' size' heq => ?_⟩
  · rw [Dot.valueText, if_pos (Dot.isLabel_html text font size)]
  · rw [toList_html]
    intro front hfront hne hproper
    exact pos_of_prefix_bracketed (staysOpen_element text font size) hfront hne hproper
  · have hclosed := closesAtEnd_html text font size _ (List.prefix_refl _) (by rw [toList_html]; simp)
    exact hclosed.mpr rfl
  · have hread := read?_html text font size
    rw [heq, read?_html text' font' size'] at hread
    cases hread
    exact ⟨rfl, rfl, rfl⟩

/-- A text with an entity and a font with a quote, which leave the label open up to its end. -/
theorem read_html_entities :
    0 < nesting "<<FONT FACE=\"a&quot;b\"".toList ∧
      read? (html "&lt;b>" "a\"b" 16) = some ("&lt;b>", "a\"b", 16) ∧
      html "&lt;b>" "a\"b" 16 ≠ html "<b>" "a\"b" 16 := by
  obtain ⟨-, hopen, -, -, hread, hinjective⟩ := read_html "&lt;b>" "a\"b" 16
  refine ⟨hopen _ (by decide) (by decide) (by decide), hread, fun heq => ?_⟩
  exact absurd (hinjective _ _ _ heq).1 (by decide)

-- A text that looks like an entity is not taken for one.
example : (escape "&lt;").toList = "&amp;lt;".toList := by decide

end RoleChart.Label
