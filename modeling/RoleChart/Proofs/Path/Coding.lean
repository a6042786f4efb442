import RoleChart.Proofs.Path
import RoleChart.Proofs.ByteOrder
/-!
Codings that keep the marks of paths. A path that is a text is divided as its characters are: in UTF-8
the bytes of the slash and of the dot stand for these two alone. Small letters in place of capitals are a
coding of the same kind. Whatever the coding, to divide what it spells is to spell what was divided
(`Coding.pieces_list`, `Coding.lastPiece?_list`, `Coding.afterLastDot?_list`), and so it is with
extensions (`Coding.extension?_list`).
-/
namespace RoleChart.Path

namespace Marks

variable {α : Type} [DecidableEq α] {sep : α}

theorem splitOn_eq (sep : α) (xs : List α) : splitOn sep xs = xs.splitOn sep := by
  induction xs with
  | nil => rfl
  | cons x xs ih =>
    rw [List.splitOn_cons_eq_if_modifyHead, splitOn, ih]
    by_cases h : x = sep
    · simp [h]
    · obtain ⟨piece, pieces, hpieces⟩ := List.exists_cons_of_ne_nil (List.splitOn_ne_nil sep xs)
      simp [h, hpieces]

theorem splitOn_ne_nil (sep : α) (xs : List α) : splitOn sep xs ≠ [] :=
  splitOn_eq sep xs ▸ List.splitOn_ne_nil sep xs

/-- What stands in front of the first mark joins the first piece. -/
theorem splitOn_append_of_notMem {front : List α} (h : sep ∉ front) (rest : List α) :
    splitOn sep (front ++ rest) = (splitOn sep rest).modifyHead (front ++ ·) := by
  induction front with
  | nil => exact List.modifyHead_id.symm ▸ rfl
  | cons x front ih =>
    have hx : x ≠ sep := fun heq => h (heq ▸ List.mem_cons_self)
    rw [splitOn_eq] at ih ⊢
    rw [List.cons_append, List.splitOn_cons_eq_if_modifyHead, ih (mt (List.mem_cons_of_mem x) h)]
    simp [hx, Function.comp_def]

end Marks

/-- Spellings of the members of one kind by members of another: none is empty, a mark is spelled by the
same mark, and the marks stand in no other spelling. -/
structure Coding {α β : Type} (m : Marks α) (m' : Marks β) where
  spell : α → List β
  spell_ne_nil : ∀ a, spell a ≠ []
  spell_slash : spell m.slash = [m'.slash]
  spell_dot : spell m.dot = [m'.dot]
  eq_slash_of_mem : ∀ a, m'.slash ∈ spell a → a = m.slash
  eq_dot_of_mem : ∀ a, m'.dot ∈ spell a → a = m.dot

namespace Coding

variable {α β : Type} [DecidableEq α] [DecidableEq β] {m : Marks α} {m' : Marks β}

/-- A list spelled member by member. -/
def list (c : Coding m m') (xs : List α) : List β := xs.flatMap c.spell

variable (c : Coding m m')

omit [DecidableEq α] [DecidableEq β] in
theorem list_append (xs ys : List α) : c.list (xs ++ ys) = c.list xs ++ c.list ys :=
  List.flatMap_append

omit [DecidableEq α] [DecidableEq β] in
theorem list_dot_cons (xs : List α) : c.list (m.dot :: xs) = m'.dot :: c.list xs := by
  rw [list, List.flatMap_cons, c.spell_dot]
  rfl

omit [DecidableEq α] [DecidableEq β] in
theorem dot_mem_list_iff {xs : List α} : m'.dot ∈ c.list xs ↔ m.dot ∈ xs := by
  rw [list, List.mem_flatMap]
  constructor
  · rintro ⟨x, hx, hdot⟩
    rwa [← c.eq_dot_of_mem x hdot]
  · intro h
    exact ⟨m.dot, h, by rw [c.spell_dot]; exact List.mem_singleton_self _⟩

omit [DecidableEq α] [DecidableEq β] in
theorem length_list_pos_iff {xs : List α} : 0 < (c.list xs).length ↔ 0 < xs.length := by
  cases xs with
  | nil => exact Iff.rfl
  | cons x xs =>
    refine iff_of_true ?_ (Nat.zero_lt_succ _)
    rw [List.length_pos_iff]
    exact fun h => c.spell_ne_nil x (List.flatMap_eq_nil_iff.mp h x List.mem_cons_self)

omit [DecidableEq α] [DecidableEq β] in
/-- Only dots spell dots. -/
theorem list_eq_dots_iff {xs : List α} {n : Nat} :
    c.list xs = List.replicate n m'.dot ↔ xs = List.replicate n m.dot := by
  induction n generalizing xs with
  | zero =>
    rw [List.replicate_zero, List.replicate_zero, ← List.length_eq_zero_iff,
      ← List.length_eq_zero_iff, ← not_iff_not]
    simpa only [Nat.pos_iff_ne_zero] using c.length_list_pos_iff
  | succ n ih =>
    constructor
    · intro h
      cases xs with
      | nil => cases h
      | cons x xs =>
        obtain ⟨b, bs, hspell⟩ := List.exists_cons_of_ne_nil (c.spell_ne_nil x)
        have hdot : x = m.dot := by
          refine c.eq_dot_of_mem x ?_
          rw [list, List.flatMap_cons, hspell, List.replicate_succ, List.cons_append] at h
          rw [hspell, (List.cons.inj h).1]
          exact List.mem_cons_self
        rw [hdot, list_dot_cons, List.replicate_succ] at h
        rw [hdot, ih.mp (List.cons.inj h).2, List.replicate_succ]
    · rintro rfl
      rw [List.replicate_succ, list_dot_cons, ih.mpr rfl, List.replicate_succ]

theorem pieces_list (xs : List α) : m'.pieces (c.list xs) = (m.pieces xs).map c.list := by
  unfold Marks.pieces
  induction xs with
  | nil => rfl
  | cons x xs ih =>
    have hcons : c.list (x :: xs) = c.spell x ++ c.list xs := List.flatMap_cons
    rw [hcons]
    by_cases hx : x = m.slash
    · rw [hx, c.spell_slash, List.singleton_append, Marks.splitOn, if_pos rfl, ih, Marks.splitOn,
        if_pos rfl]
      rfl
    · rw [Marks.splitOn_append_of_notMem (mt (c.eq_slash_of_mem x) hx), ih, Marks.splitOn, if_neg hx]
      obtain ⟨piece, pieces, hpieces⟩ :=
        List.exists_cons_of_ne_nil (Marks.splitOn_ne_nil m.slash xs)
      rw [hpieces]
      simp [list]

theorem lastPiece?_list (xs : List α) :
    m'.lastPiece? (c.list xs) = (m.lastPiece? xs).map c.list := by
  have haside (piece : List α) :
      (c.list piece ≠ [] ∧ c.list piece ≠ [m'.dot]) ↔ (piece ≠ [] ∧ piece ≠ [m.dot]) :=
    and_congr (not_congr (c.list_eq_dots_iff (n := 0))) (not_congr (c.list_eq_dots_iff (n := 1)))
  rw [Marks.lastPiece?, pieces_list, ← List.map_reverse, List.find?_map, Marks.lastPiece?]
  simp only [Function.comp_def, haside]

theorem fileName?_list (xs : List α) :
    m'.fileName? (c.list xs) = (m.fileName? xs).map c.list := by
  have hparent (piece : List α) : c.list piece ≠ [m'.dot, m'.dot] ↔ piece ≠ [m.dot, m.dot] :=
    not_congr (c.list_eq_dots_iff (n := 2))
  rw [Marks.fileName?, lastPiece?_list, Option.filter_map, Marks.fileName?]
  simp only [Function.comp_def, hparent]

theorem afterLastDot?_list (name : List α) :
    m'.afterLastDot? (c.list name) =
      (m.afterLastDot? name).map fun (after, inside) => (c.list after, inside) := by
  by_cases h : m.dot ∈ name
  · obtain ⟨stem, extension, rfl, hdot⟩ := Marks.exists_eq_append_of_dot_mem h
    rw [list_append, list_dot_cons, Marks.afterLastDot?_append _ (mt c.dot_mem_list_iff.mp hdot),
      Marks.afterLastDot?_append _ hdot, Option.map_some]
    simp only [c.length_list_pos_iff]
  · rw [Marks.afterLastDot?_of_notMem (mt c.dot_mem_list_iff.mp h), Marks.afterLastDot?_of_notMem h,
      Option.map_none]

/-- The extension of what is spelled is the spelling of the extension. -/
theorem extension?_list (xs : List α) :
    m'.extension? (c.list xs) = (m.extension? xs).map c.list := by
  rw [Marks.extension?, fileName?_list, Marks.extension?]
  cases m.fileName? xs with
  | none => rfl
  | some name =>
    simp only [Option.bind_eq_bind, Option.map_some, Option.bind_some, afterLastDot?_list]
    cases m.afterLastDot? name with
    | none => rfl
    | some found =>
      obtain ⟨after, inside⟩ := found
      cases inside <;> rfl

end Coding

/-! ## UTF-8 -/

/-- The marks as characters. -/
def characters : Marks Char := ⟨'/', '.'⟩

/-- A byte of ASCII stands for its character alone. -/
theorem toNat_of_mem_utf8EncodeChar {c : Char} {b : UInt8} (h : b ∈ String.utf8EncodeChar c)
    (hb : b.toNat ≤ 127) : c.toNat = b.toNat := by
  have hgreater (n : Nat) (hn : 128 ≤ n) (hn' : n < 256) : b ≠ UInt8.ofNat n := by
    rintro rfl
    rw [UInt8.toNat_ofNat_of_lt' hn'] at hb
    omega
  unfold String.utf8EncodeChar at h
  dsimp only at h
  split_ifs at h with hone
  · have hlt : c.val.toNat < 256 := by omega
    rw [List.mem_singleton.mp h, UInt8.toNat_ofNat_of_lt' hlt]
    rfl
  -- every byte of a longer spelling is greater
  all_goals
    simp (disch := omega) only [List.mem_cons, List.not_mem_nil, or_false, hgreater] at h

theorem eq_of_mem_utf8EncodeChar {c mark : Char} {b : UInt8} (h : b ∈ String.utf8EncodeChar c)
    (hb : b.toNat ≤ 127) (hmark : mark.toNat = b.toNat) : c = mark :=
  Char.toNat_inj.mp ((toNat_of_mem_utf8EncodeChar h hb).trans hmark.symm)

/-- Characters are spelled by their bytes. -/
def utf8 : Coding characters marks where
  spell := String.utf8EncodeChar
  spell_ne_nil c h := by
    have hpos := Char.utf8Size_pos c
    rw [← String.length_utf8EncodeChar, h] at hpos
    exact lt_irrefl 0 hpos
  spell_slash := rfl
  spell_dot := rfl
  eq_slash_of_mem _ h := eq_of_mem_utf8EncodeChar h (by decide) rfl
  eq_dot_of_mem _ h := eq_of_mem_utf8EncodeChar h (by decide) rfl

theorem bytes_ofString (text : String) : (ofString text).bytes = utf8.list text.toList :=
  Text.bytes_eq_flatMap text

/-- The path that characters spell. -/
theorem ofString_ofList (cs : List Char) : ofString (String.ofList cs) = ⟨utf8.list cs⟩ := by
  have h := bytes_ofString (String.ofList cs)
  rw [String.toList_ofList] at h
  exact congrArg mk h

/-- A path that is a text has the extension that its characters have. -/
theorem extension?_ofString (path : String) :
    (ofString path).extension? =
      (characters.extension? path.toList).map fun cs => ofString (String.ofList cs) := by
  rw [extension?, bytes_ofString, utf8.extension?_list, Option.map_map]
  refine Option.map_congr fun cs _ => ?_
  exact (ofString_ofList cs).symm

theorem hasExtension_ofString {path extension : String} :
    HasExtension (ofString path) extension ↔
      characters.HasExtension path.toList extension.toList := by
  by_cases hne : extension = ""
  · subst hne
    exact iff_of_false (fun h => h.ne_empty rfl) fun h => h.ne_nil rfl
  · have hne' : extension.toList ≠ [] := mt String.toList_eq_nil_iff.mp hne
    rw [← extension?_eq_some_iff hne, ← Marks.extension?_eq_some_iff hne', extension?_ofString,
      Option.map_eq_some_iff]
    constructor
    · rintro ⟨cs, hcs, heq⟩
      rw [hcs, ← ofString_injective heq, String.toList_ofList]
    · intro h
      exact ⟨_, h, congrArg ofString String.ofList_toList⟩

end RoleChart.Path
