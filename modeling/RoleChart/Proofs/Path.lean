import RoleChart.Proofs.Table
import RoleChart.Proofs.Text
import RoleChart.Render
/-!
The extension of the file that a path names. A path has one exactly if its last piece that is neither
empty nor a single dot has a dot with something before it and something behind it; the extension is what
stands behind the last dot (`Path.Marks.HasExtension`). Only an extension that is a text counts
(`Path.HasExtension`): bytes that are not UTF-8 are none. So a path has at most one extension, and its
format is that extension in lower case.
-/
namespace RoleChart

namespace Path

/-! ## Paths and texts -/

/-- The bytes of a text are read as that text. -/
theorem fromUTF8?_toUTF8 (text : String) : String.fromUTF8? text.toUTF8 = some text := by
  unfold String.fromUTF8?
  exact dif_pos text.isValidUTF8

@[simp] theorem toString?_ofString (text : String) : (ofString text).toString? = some text :=
  fromUTF8?_toUTF8 text

theorem ofString_injective : Function.Injective ofString := by
  intro text text' h
  have hread := toString?_ofString text
  rw [h, toString?_ofString] at hread
  exact (Option.some.inj hread).symm

/-- A path that has a text is the path which that text spells. -/
theorem eq_ofString_of_toString? {path : Path} {text : String} (h : path.toString? = some text) :
    path = ofString text := by
  unfold toString? String.fromUTF8? at h
  split at h
  · cases h
    rfl
  · cases h

theorem bytes_ofString_eq_nil_iff {text : String} : (ofString text).bytes = [] ↔ text = "" := by
  have hempty : (ofString "").bytes = [] := rfl
  constructor
  · intro h
    exact ofString_injective (congrArg mk (h.trans hempty.symm))
  · rintro rfl
    exact hempty

theorem map_bytes_pieces (path : Path) : path.pieces.map bytes = marks.pieces path.bytes := by
  rw [pieces, List.map_map]
  exact List.map_id _

namespace Marks

variable {α : Type} [DecidableEq α] {m : Marks α} {path name stem extension : List α}

/-- `extension` is the extension of the file that a path names: what stands behind the last dot of the
last piece that is neither empty nor a single dot, where something stands before that dot. -/
def HasExtension (m : Marks α) (path extension : List α) : Prop :=
  ∃ front stem rest, m.pieces path = front ++ (stem ++ m.dot :: extension) :: rest ∧
    (∀ piece ∈ rest, piece = [] ∨ piece = [m.dot]) ∧
    stem ≠ [] ∧ extension ≠ [] ∧ m.dot ∉ extension

/-! ## The last dot of a name -/

theorem afterLastDot?_append (stem : List α) (h : m.dot ∉ extension) :
    m.afterLastDot? (stem ++ m.dot :: extension) = some (extension, decide (0 < stem.length)) := by
  have htake : (stem ++ m.dot :: extension).reverse.takeWhile (· ≠ m.dot) = extension.reverse := by
    rw [List.reverse_append, List.reverse_cons, List.append_assoc, List.singleton_append]
    exact takeWhile_ne_append (mt List.mem_reverse.mp h) stem.reverse
  have hbefore : (stem ++ m.dot :: extension).length - extension.length = stem.length + 1 := by
    simp only [List.length_append, List.length_cons]
    omega
  unfold afterLastDot?
  rw [htake, List.reverse_reverse]
  dsimp only
  rw [hbefore, if_neg (Nat.succ_ne_zero _)]
  congr 2
  simp only [gt_iff_lt, Nat.lt_add_left_iff_pos]

omit [DecidableEq α] in
/-- The last dot of a name divides it. -/
theorem exists_eq_append_of_dot_mem (h : m.dot ∈ name) :
    ∃ stem extension, name = stem ++ m.dot :: extension ∧ m.dot ∉ extension := by
  obtain ⟨after, before, hname, hafter⟩ := List.eq_append_cons_of_mem (List.mem_reverse.mpr h)
  refine ⟨before.reverse, after.reverse, ?_, by simpa using hafter⟩
  rw [← List.reverse_reverse name, hname]
  simp

theorem afterLastDot?_of_notMem (h : m.dot ∉ name) : m.afterLastDot? name = none := by
  unfold afterLastDot?
  rw [takeWhile_ne_of_notMem (mt List.mem_reverse.mp h)]
  simp

/-! ## The extension of a list -/

theorem lastPiece?_eq_some_iff {piece : List α} :
    m.lastPiece? path = some piece ↔
      (piece ≠ [] ∧ piece ≠ [m.dot]) ∧
      ∃ front rest, m.pieces path = front ++ piece :: rest ∧ ∀ p ∈ rest, p = [] ∨ p = [m.dot] := by
  unfold lastPiece?
  rw [← List.findRev?_eq_find?_reverse, findRev?_eq_some_iff_append]
  simp only [decide_eq_true_eq]
  refine and_congr_right fun _ => ?_
  simp only [not_and_or, not_not]

/-- The name of a file with an extension is not a piece that is left aside. -/
theorem fileName?_of_hasExtension {front rest : List (List α)}
    (hpieces : m.pieces path = front ++ (stem ++ m.dot :: extension) :: rest)
    (hrest : ∀ piece ∈ rest, piece = [] ∨ piece = [m.dot]) (hstem : stem ≠ [])
    (hext : extension ≠ []) : m.fileName? path = some (stem ++ m.dot :: extension) := by
  have hstem' : 0 < stem.length := List.length_pos_iff.mpr hstem
  have hext' : 0 < extension.length := List.length_pos_iff.mpr hext
  have hlen : 3 ≤ (stem ++ m.dot :: extension).length := by
    simp only [List.length_append, List.length_cons]
    omega
  have hne (piece : List α) (h : piece.length < 3) : stem ++ m.dot :: extension ≠ piece := by
    rintro rfl
    omega
  have hlast : m.lastPiece? path = some (stem ++ m.dot :: extension) :=
    lastPiece?_eq_some_iff.mpr
      ⟨⟨hne [] (by simp), hne [m.dot] (by simp)⟩, front, rest, hpieces, hrest⟩
  unfold fileName?
  rw [hlast, Option.filter_some, if_pos]
  simpa using hne [m.dot, m.dot] (by simp)

/-- Beside an extension that is empty, which no format is, the extension of a path is what
`HasExtension` says. -/
theorem extension?_eq_some_iff (hne : extension ≠ []) :
    m.extension? path = some extension ↔ m.HasExtension path extension := by
  constructor
  · intro h
    obtain ⟨name, hname, hlast⟩ := Option.bind_eq_some_iff.mp h
    obtain ⟨⟨after, inside⟩, hdot, hinside⟩ := Option.bind_eq_some_iff.mp hlast
    obtain ⟨hpiece, hparent⟩ := Option.filter_eq_some_iff.mp hname
    obtain ⟨-, front, rest, hpieces, hrest⟩ := lastPiece?_eq_some_iff.mp hpiece
    have hmem : m.dot ∈ name := by
      by_contra hnone
      rw [afterLastDot?_of_notMem hnone] at hdot
      cases hdot
    obtain ⟨stem, last, rfl, hlastdot⟩ := exists_eq_append_of_dot_mem hmem
    rw [afterLastDot?_append stem hlastdot] at hdot
    cases hdot
    dsimp only at hinside
    split_ifs at hinside with hstem
    cases hinside
    exact ⟨front, stem, rest, hpieces, hrest,
      List.length_pos_iff.mp (of_decide_eq_true hstem), hne, hlastdot⟩
  · rintro ⟨front, stem, rest, hpieces, hrest, hstem, hext, hdot⟩
    have hstem' : 0 < stem.length := List.length_pos_iff.mpr hstem
    have hname := fileName?_of_hasExtension hpieces hrest hstem hext
    unfold extension?
    rw [hname]
    simp only [Option.bind_eq_bind, Option.bind_some, afterLastDot?_append _ hdot, hstem',
      decide_true, if_true]

theorem HasExtension.ne_nil (h : m.HasExtension path extension) : extension ≠ [] := by
  obtain ⟨_, _, _, _, _, _, hne, _⟩ := h
  exact hne

end Marks

/-! ## The extension of a path -/

/-- `extension` is the extension of the file that a path names, and a text. -/
def HasExtension (path : Path) (extension : String) : Prop :=
  marks.HasExtension path.bytes (ofString extension).bytes

variable {path : Path} {extension : String}

theorem HasExtension.ne_empty (h : HasExtension path extension) : extension ≠ "" :=
  mt bytes_ofString_eq_nil_iff.mpr (Marks.HasExtension.ne_nil h)

/-- Beside the empty text, the extension of a path that is a text is what `HasExtension` says. -/
theorem extension?_eq_some_iff (hne : extension ≠ "") :
    path.extension? = some (ofString extension) ↔ HasExtension path extension := by
  have hne' : (ofString extension).bytes ≠ [] := mt bytes_ofString_eq_nil_iff.mp hne
  rw [HasExtension, ← Marks.extension?_eq_some_iff hne', extension?, Option.map_eq_some_iff]
  constructor
  · rintro ⟨bytes, hbytes, heq⟩
    rw [hbytes, ← heq]
  · intro h
    exact ⟨_, h, rfl⟩

theorem not_hasExtension_of_none (h : path.extension? = none) : ¬ HasExtension path extension := by
  intro hextension
  have hsome := (extension?_eq_some_iff hextension.ne_empty).mpr hextension
  rw [h] at hsome
  cases hsome

/-- A path has at most one extension. -/
theorem HasExtension.unique {extension' : String} (h : HasExtension path extension)
    (h' : HasExtension path extension') : extension = extension' := by
  have hsome := (extension?_eq_some_iff h.ne_empty).mpr h
  have hsome' := (extension?_eq_some_iff h'.ne_empty).mpr h'
  exact ofString_injective (Option.some.inj (hsome.symm.trans hsome'))

end Path

/-! ## The format of a path -/

variable {path : Path}

theorem outputFormat_of_hasExtension {extension : String} (h : Path.HasExtension path extension) :
    outputFormat path = .ok extension.toLower := by
  have hne : extension ≠ "" := h.ne_empty
  have hsome := (Path.extension?_eq_some_iff hne).mpr h
  have hempty : extension.isEmpty = false := by simpa using hne
  have hlower : String.ofList (extension.toList.map Char.toLower) = extension.toLower := by
    apply String.toList_injective
    rw [String.toList_ofList]
    exact String.toList_map.symm
  unfold outputFormat
  rw [hsome, Option.bind_some, Path.toString?_ofString]
  dsimp only
  rw [hempty, hlower]
  rfl

theorem outputFormat_of_not_hasExtension (h : ∀ extension, ¬ Path.HasExtension path extension) :
    outputFormat path = .error (.missingExtension path) := by
  unfold outputFormat
  cases htext : path.extension?.bind Path.toString? with
  | none => rfl
  | some extension =>
    obtain ⟨found, hfound, hread⟩ := Option.bind_eq_some_iff.mp htext
    obtain rfl := Path.eq_ofString_of_toString? hread
    have hempty : extension = "" := by
      by_contra hne
      exact h extension ((Path.extension?_eq_some_iff hne).mp hfound)
    subst hempty
    rfl

/-- The format of a path is its extension in lower case, and without an extension there is none. -/
theorem outputFormat_eq_ok_iff {format : String} :
    outputFormat path = .ok format ↔
      ∃ extension, Path.HasExtension path extension ∧ format = extension.toLower := by
  constructor
  · intro hformat
    by_cases hnone : ∀ extension, ¬ Path.HasExtension path extension
    · rw [outputFormat_of_not_hasExtension hnone] at hformat
      cases hformat
    · obtain ⟨extension, hextension⟩ := not_forall_not.mp hnone
      rw [outputFormat_of_hasExtension hextension] at hformat
      cases hformat
      exact ⟨extension, hextension, rfl⟩
  · rintro ⟨extension, hextension, rfl⟩
    exact outputFormat_of_hasExtension hextension

-- The byte behind the dot is in no UTF-8.
example : outputFormat ⟨[0x61, 0x2E, 0xFF]⟩ = .error (.missingExtension ⟨[0x61, 0x2E, 0xFF]⟩) := by
  decide

end RoleChart
