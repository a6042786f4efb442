import RoleChart.Proofs.Dot.Reader
import RoleChart.Proofs.Label
/-!
How DOT text falls into tokens. `Lexes` relates a part of a text to the tokens that are read from it
whatever stands behind, so it goes from the parts to the whole (`Lexes.append`). Blanks, marks and
arrows are read at sight. Quotes inside a text are escaped, so it ends at its own quote
(`quotedChars?_append`); a label ends where its brackets close (`labelChars?_append`); a word needs a
character behind it that is not for words (`Lexes.word`).
-/
namespace RoleChart.Dot

open Label (bracket nesting ClosesAtEnd)

/-! ## Words and values -/

/-- Whether a key can stand without quotes. -/
def IsWord (key : String) : Prop := key ≠ "" ∧ key.toList.all isWordChar = true

instance (key : String) : Decidable (IsWord key) := inferInstanceAs (Decidable (_ ∧ _))

/-- Whether a value can be told from what stands behind it: if it stands without quotes, its brackets
close at its end. -/
def IsValue (value : String) : Prop := isLabel value.toList = true → ClosesAtEnd value.toList

instance (value : String) : Decidable (IsValue value) := inferInstanceAs (Decidable (_ → _))

/-! ## Single tokens -/

theorem quotedChars?_quotedChar (c : Char) (cs : List Char) :
    quotedChars? (quotedChar c ++ cs) =
      (quotedChars? cs).map fun (others, rest) => (c :: others, rest) := by
  unfold quotedChar
  split
  · rfl
  · rfl
  · rfl
  · rename_i hquote hbackslash _
    rw [List.singleton_append, quotedChars?]
    · exact hquote
    · exact fun _ _ h _ => hbackslash h

theorem quotedChars?_append (cs rest : List Char) :
    quotedChars? (cs.flatMap quotedChar ++ '"' :: rest) = some (cs, rest) := by
  induction cs with
  | nil => rfl
  | cons c cs ih =>
    rw [List.flatMap_cons, List.append_assoc, quotedChars?_quotedChar, ih]
    rfl

theorem openAfter_eq {opened : Nat} (hopened : 0 < opened) (c : Char) :
    (openAfter opened c : Int) = opened + bracket c := by
  unfold openAfter bracket
  split_ifs <;> omega

/-- A label is taken up to the first place where its brackets balance. -/
theorem labelChars?_append {opened : Nat} {cs rest : List Char} (hopened : 0 < opened)
    (hne : cs ≠ [])
    (h : ∀ front, front <+: cs → front ≠ [] → (opened + nesting front = 0 ↔ front = cs)) :
    labelChars? opened (cs ++ rest) = some (cs, rest) := by
  induction cs generalizing opened with
  | nil => exact absurd rfl hne
  | cons c cs ih =>
    have hafter := openAfter_eq hopened c
    have hfirst : (openAfter opened c : Int) = 0 ↔ [c] = c :: cs := by
      rw [hafter, ← h [c] (by simp) (by simp)]
      simp
    rw [List.cons_append, labelChars?]
    by_cases hzero : openAfter opened c = 0
    · obtain rfl : [] = cs := (List.cons.inj (hfirst.mp (by rw [hzero]; rfl))).2
      rw [if_pos hzero]
      rfl
    · have hcs : cs ≠ [] := by
        rintro rfl
        exact hzero (Int.ofNat_eq_zero.mp (hfirst.mpr rfl))
      rw [if_neg hzero, ih (Nat.pos_of_ne_zero hzero) hcs fun front hfront _ => ?_]
      · rfl
      · have := h (c :: front) (List.cons_prefix_cons.mpr ⟨rfl, hfront⟩) (List.cons_ne_nil _ _)
        rwa [Label.nesting_cons, ← Int.add_assoc, ← hafter, List.cons_inj_right] at this

theorem token?_of_isBlank {c : Char} (hc : isBlank c = true) (rest : List Char) :
    token? (c :: rest) = none := by
  simp only [isBlank, Bool.or_eq_true, beq_iff_eq] at hc
  obtain (rfl | rfl) | rfl := hc <;> rfl

theorem token?_of_isMark {c : Char} (hc : isMark c = true) (rest : List Char) :
    token? (c :: rest) = some (.mark c, rest) := by
  simp only [isMark, List.contains_iff_mem, List.mem_cons, List.not_mem_nil, or_false] at hc
  rcases hc with rfl | rfl | rfl | rfl | rfl | rfl | rfl <;> rfl

theorem isWordChar_of_isMark {c : Char} (hc : isMark c = true) : isWordChar c = false := by
  simp only [isMark, List.contains_iff_mem, List.mem_cons, List.not_mem_nil, or_false] at hc
  rcases hc with rfl | rfl | rfl | rfl | rfl | rfl | rfl <;> rfl

/-- A word goes on as long as there are characters for it. -/
theorem token?_of_isWordChar {c : Char} (hc : isWordChar c = true) (rest : List Char) :
    token? (c :: rest) =
      some (.word (String.ofList (c :: rest.takeWhile isWordChar)), rest.dropWhile isWordChar) := by
  unfold token?
  split
  · rename_i h
    cases h
  · rename_i h
    cases h
    cases hc
  · rename_i h
    cases h
    cases hc
  · rename_i h
    cases h
    cases hc
  · rename_i h
    cases h
    have hmark : ¬ isMark c = true := fun hmark => by
      rw [isWordChar_of_isMark hmark] at hc
      cases hc
    rw [if_neg hmark, if_pos hc]

/-! ## Texts that fall into tokens -/

theorem tokens?_of_token? {cs later : List Char} {token : Token}
    (h : token? cs = some (token, later)) : tokens? cs = (tokens? later).map (token :: ·) := by
  cases cs with
  | nil => cases h
  | cons c rest =>
    rw [tokens?]
    split
    · rename_i heq
      rw [h] at heq
      cases heq
      rfl
    · rename_i heq
      rw [h] at heq
      cases heq

theorem tokens?_of_isBlank {c : Char} (hc : isBlank c = true) (rest : List Char) :
    tokens? (c :: rest) = tokens? rest := by
  rw [tokens?]
  split
  · rename_i heq
    rw [token?_of_isBlank hc] at heq
    cases heq
  · rw [if_pos hc]

/-- The tokens `ts` are read from `cs`, whatever stands behind. -/
def Lexes (cs : List Char) (ts : List Token) : Prop :=
  ∀ rest, tokens? (cs ++ rest) = (tokens? rest).map (ts ++ ·)

namespace Lexes

variable {cs ds : List Char} {ts us : List Token} {c : Char} {token : Token}

theorem nil : Lexes [] [] := fun rest => by simp

theorem append (h : Lexes cs ts) (h' : Lexes ds us) : Lexes (cs ++ ds) (ts ++ us) := by
  intro rest
  rw [List.append_assoc, h, h', Option.map_map]
  congr 1
  funext others
  exact (List.append_assoc ts us others).symm

theorem flatMap {α : Type} {f : α → List Char} {g : α → List Token} {xs : List α}
    (h : ∀ x ∈ xs, Lexes (f x) (g x)) : Lexes (xs.flatMap f) (xs.flatMap g) := by
  induction xs with
  | nil => exact nil
  | cons x xs ih =>
    obtain ⟨hx, hxs⟩ := List.forall_mem_cons.mp h
    exact hx.append (ih hxs)

theorem intercalate {α : Type} {f : α → List Char} {g : α → List Token} {xs : List α}
    (hsep : Lexes cs ts) (h : ∀ x ∈ xs, Lexes (f x) (g x)) :
    Lexes (cs.intercalate (xs.map f)) (ts.intercalate (xs.map g)) := by
  induction xs with
  | nil => exact nil
  | cons x xs ih =>
    obtain ⟨hx, hxs⟩ := List.forall_mem_cons.mp h
    cases xs with
    | nil => simpa using hx
    | cons y ys =>
      simp only [List.map_cons, List.intercalate_cons_cons] at ih ⊢
      exact (hx.append hsep).append (ih hxs)

theorem blank (hc : isBlank c = true) (h : Lexes cs ts) : Lexes (c :: cs) ts := by
  intro rest
  rw [List.cons_append, tokens?_of_isBlank hc, h]

theorem of_token? (h : ∀ rest, token? (cs ++ rest) = some (token, rest)) : Lexes cs [token] :=
  fun rest => tokens?_of_token? (h rest)

theorem mark (hc : isMark c = true) (h : Lexes cs ts) : Lexes (c :: cs) (.mark c :: ts) := by
  have hmark : Lexes [c] [.mark c] := of_token? (token?_of_isMark hc)
  exact hmark.append h

theorem arrow (h : Lexes cs ts) : Lexes ('-' :: '>' :: cs) (.arrow :: ts) := by
  have harrow : Lexes ['-', '>'] [.arrow] := of_token? fun _ => rfl
  exact harrow.append h

theorem quoted (text : String) : Lexes (Dot.quoted text).toList [.quoted text] := by
  refine of_token? fun rest => ?_
  rw [Dot.quoted, String.toList_ofList, List.append_assoc, List.cons_append, token?,
    List.singleton_append, quotedChars?_append, Option.map_some]
  dsimp only
  rw [String.ofList_toList]

/-- A word ends where a character comes that is not for words. -/
theorem word {key : String} (hkey : IsWord key) (hc : isWordChar c = false)
    (h : Lexes (c :: cs) ts) : Lexes (key.toList ++ c :: cs) (.word key :: ts) := by
  obtain ⟨hne, hword⟩ := hkey
  obtain ⟨k, ks, hks⟩ := List.exists_cons_of_ne_nil (mt String.toList_eq_nil_iff.mp hne)
  rw [hks, List.all_eq_true] at hword
  obtain ⟨hk, hks'⟩ := List.forall_mem_cons.mp hword
  intro rest
  have htoken : token? (key.toList ++ (c :: cs ++ rest)) = some (.word key, c :: cs ++ rest) := by
    rw [hks, List.cons_append, token?_of_isWordChar hk, List.takeWhile_append_of_pos hks',
      List.dropWhile_append_of_pos hks', List.cons_append, List.takeWhile_cons_of_neg (by simp [hc]),
      List.dropWhile_cons_of_neg (by simp [hc]), List.append_nil, ← hks, String.ofList_toList]
  rw [List.append_assoc, tokens?_of_token? htoken, h, Option.map_map]
  rfl

theorem label {value : String} (hlabel : isLabel value.toList = true)
    (hcloses : ClosesAtEnd value.toList) : Lexes value.toList [.label value] := by
  simp only [isLabel, Bool.and_eq_true, decide_eq_true_eq, beq_iff_eq] at hlabel
  obtain ⟨⟨hlength, hhead⟩, _⟩ := hlabel
  obtain ⟨cs, hcs⟩ := List.head?_eq_some_iff.mp hhead
  have hne : cs ≠ [] := by
    rintro rfl
    rw [hcs] at hlength
    exact absurd hlength (by decide)
  rw [hcs] at hcloses
  refine of_token? fun rest => ?_
  rw [hcs, List.cons_append, token?, labelChars?_append Nat.one_pos hne fun front hfront _ => ?_,
    Option.map_some]
  · dsimp only
    rw [← hcs, String.ofList_toList]
  · have := hcloses ('<' :: front) (List.cons_prefix_cons.mpr ⟨rfl, hfront⟩) (List.cons_ne_nil _ _)
    rwa [Label.nesting_cons, List.cons_inj_right] at this

end Lexes

end RoleChart.Dot
