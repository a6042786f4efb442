import RoleChart.Label
import Mathlib.Data.List.Infix
/-!
Angle brackets. `nesting` counts those that are open after some characters. A value that starts with
an angle bracket can be read up to the bracket that closes the first one if its brackets balance at
its last character and not before (`ClosesAtEnd`).

* `closesAtEnd_html`: those of a label do, whatever text and font it shows: the entities have no
  bracket, so only the two tags count.
-/
namespace RoleChart.Label

variable {opened : Int} {cs ds : List Char}

/-! ## Open brackets -/

/-- What a character adds to the number of angle brackets that are open. -/
def bracket (c : Char) : Int := if c = '<' then 1 else if c = '>' then -1 else 0

/-- The number of angle brackets that are open after some characters. -/
def nesting : List Char → Int
  | [] => 0
  | c :: cs => bracket c + nesting cs

@[simp] theorem nesting_nil : nesting [] = 0 := rfl

@[simp] theorem nesting_cons (c : Char) (cs : List Char) :
    nesting (c :: cs) = bracket c + nesting cs := rfl

@[simp] theorem nesting_append (cs ds : List Char) :
    nesting (cs ++ ds) = nesting cs + nesting ds := by
  induction cs with
  | nil => simp
  | cons c cs ih => simp [ih, Int.add_assoc]

/-- Whether brackets stay open all along some characters, where `opened` were before them. -/
def StaysOpen (opened : Int) : List Char → Prop
  | [] => 0 < opened
  | c :: cs => 0 < opened ∧ StaysOpen (opened + bracket c) cs

theorem StaysOpen.pos (h : StaysOpen opened cs) : 0 < opened := by
  cases cs with
  | nil => exact h
  | cons c cs => exact h.1

/-- Brackets that stay open all along are open after every part in front. -/
theorem StaysOpen.pos_of_prefix (h : StaysOpen opened cs) {front : List Char}
    (hfront : front <+: cs) : 0 < opened + nesting front := by
  induction cs generalizing opened front with
  | nil =>
    rw [List.prefix_nil.mp hfront, nesting_nil, Int.add_zero]
    exact h
  | cons c cs ih =>
    rcases List.prefix_cons_iff.mp hfront with rfl | ⟨inner, rfl, hinner⟩
    · rw [nesting_nil, Int.add_zero]
      exact h.1
    · rw [nesting_cons, ← Int.add_assoc]
      exact ih h.2 hinner

/-! ## Brackets that close at the end -/

/-- Whether angle brackets balance after all of some characters, and after no fewer of them. -/
def ClosesAtEnd (cs : List Char) : Prop :=
  ∀ front, front <+: cs → front ≠ [] → (nesting front = 0 ↔ front = cs)

instance (cs : List Char) : Decidable (ClosesAtEnd cs) :=
  decidable_of_iff (∀ front ∈ cs.inits, front ≠ [] → (nesting front = 0 ↔ front = cs)) <| by
    simp only [ClosesAtEnd, List.mem_inits]

/-- Between outer brackets the first one stays open, up to the last. -/
theorem pos_of_prefix_bracketed (h : StaysOpen 1 cs) {front : List Char}
    (hfront : front <+: '<' :: cs ++ ['>']) (hne : front ≠ [])
    (hproper : front ≠ '<' :: cs ++ ['>']) : 0 < nesting front := by
  obtain ⟨inner, rfl, hinner⟩ := (List.prefix_cons_iff.mp hfront).resolve_left hne
  have hinner : inner <+: cs :=
    (List.prefix_concat_iff.mp hinner).resolve_left fun h => hproper (congrArg _ h)
  exact h.pos_of_prefix hinner

theorem closesAtEnd_bracketed (h : StaysOpen 1 cs) (hbalanced : nesting cs = 0) :
    ClosesAtEnd ('<' :: cs ++ ['>']) := by
  intro front hfront hne
  constructor
  · intro hzero
    by_contra hproper
    exact Int.ne_of_gt (pos_of_prefix_bracketed h hfront hne hproper) hzero
  · rintro rfl
    simp [hbalanced, bracket]

/-! ## What is no bracket -/

/-- The angle brackets among some characters. -/
def brackets (cs : List Char) : List Char := cs.filter fun c => bracket c != 0

@[simp] theorem brackets_append (cs ds : List Char) :
    brackets (cs ++ ds) = brackets cs ++ brackets ds := List.filter_append cs ds

theorem brackets_cons (c : Char) (cs : List Char) :
    brackets (c :: cs) = if bracket c = 0 then brackets cs else c :: brackets cs := by
  simp [brackets, List.filter_cons]

theorem brackets_eq_nil (h : ∀ c ∈ cs, bracket c = 0) : brackets cs = [] :=
  List.filter_eq_nil_iff.mpr fun c hc => by simp [h c hc]

theorem nesting_brackets (cs : List Char) : nesting (brackets cs) = nesting cs := by
  induction cs with
  | nil => rfl
  | cons c cs ih =>
    rw [brackets_cons]
    split <;> simp [*]

theorem StaysOpen.of_brackets (hopened : 0 < opened) (h : StaysOpen opened (brackets cs)) :
    StaysOpen opened cs := by
  induction cs generalizing opened with
  | nil => exact h
  | cons c cs ih =>
    rw [brackets_cons] at h
    refine ⟨hopened, ?_⟩
    split at h
    · rename_i hc
      rw [hc, Int.add_zero]
      exact ih hopened h
    · exact ih h.2.pos h.2

theorem brackets_escapeChar (c : Char) : brackets (escapeChar c) = [] := by
  unfold escapeChar
  split
  · rfl
  · rfl
  · rfl
  · rfl
  · rename_i hopen hclose _
    exact brackets_eq_nil fun d hd => by
      rw [List.mem_singleton.mp hd, bracket, if_neg hopen, if_neg hclose]

theorem brackets_escape (text : String) : brackets (escape text).toList = [] := by
  rw [escape, String.toList_ofList, brackets, List.filter_flatMap]
  exact List.flatMap_eq_nil_iff.mpr fun c _ => brackets_escapeChar c

theorem notMem_toString {c : Char} (h : c.isDigit = false) (n : Nat) : c ∉ (toString n).toList := by
  intro hc
  rw [Nat.toString_eq_repr, Nat.toList_repr] at hc
  have hdigit : c.isDigit = true := Nat.isDigit_of_mem_toDigits (by decide) (by decide) hc
  rw [h] at hdigit
  cases hdigit

theorem brackets_toString (n : Nat) : brackets (toString n).toList = [] := by
  refine brackets_eq_nil fun c hc => ?_
  have hne (d : Char) (hd : d.isDigit = false) : c ≠ d := fun heq =>
    notMem_toString hd n (heq ▸ hc)
  rw [bracket, if_neg (hne '<' rfl), if_neg (hne '>' rfl)]

/-! ## Labels -/

/-- What stands between the outer brackets of a label. -/
def element (text font : String) (size : Nat) : List Char :=
  "<FONT FACE=\"".toList ++ (escape font).toList ++ "\" POINT-SIZE=\"".toList ++
    (toString size).toList ++ "\">".toList ++ (escape text).toList ++ "</FONT>".toList

theorem toList_html (text font : String) (size : Nat) :
    (html text font size).toList = '<' :: element text font size ++ ['>'] := by
  have hopen : "<<FONT FACE=\"".toList = '<' :: "<FONT FACE=\"".toList := rfl
  have hclose : "</FONT>>".toList = "</FONT>".toList ++ ['>'] := rfl
  unfold html element
  simp only [String.toList_append]
  rw [hopen, hclose]
  simp only [List.cons_append, List.append_assoc]

/-- Only the brackets of the two tags are left. -/
theorem brackets_element (text font : String) (size : Nat) :
    brackets (element text font size) = ['<', '>', '<', '>'] := by
  unfold element
  simp only [brackets_append, brackets_escape, brackets_toString]
  rfl

theorem nesting_element (text font : String) (size : Nat) : nesting (element text font size) = 0 := by
  rw [← nesting_brackets, brackets_element]
  rfl

theorem staysOpen_element (text font : String) (size : Nat) :
    StaysOpen 1 (element text font size) := by
  refine StaysOpen.of_brackets Int.one_pos ?_
  rw [brackets_element]
  simp [StaysOpen, bracket]

/-- A label can be read up to its last character and no further, whatever it shows. -/
theorem closesAtEnd_html (text font : String) (size : Nat) :
    ClosesAtEnd (html text font size).toList := by
  rw [toList_html]
  exact closesAtEnd_bracketed (staysOpen_element text font size) (nesting_element text font size)

end RoleChart.Label
