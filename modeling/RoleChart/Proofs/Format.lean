import RoleChart.Proofs.Path.Coding
/-!
The format of an output path, for every path that is a text. Such a path is divided as its characters are
(`Path.hasExtension_ofString`). Its pieces are the only texts without slashes that slashes join to the path
(`Path.divides_iff`), and the file is named by the last of them that is neither empty nor a single dot
(`Path.IsLast`). Slashes and single dots at the end of a path add only pieces that are left aside, and small
letters in place of capitals change no slash and no dot, so neither changes the format.

* `outputFormat_by_last_piece`: a path has a format exactly if the last dot of that piece stands inside
  it, and the format is what stands behind the dot, in small letters.
-/
namespace RoleChart

/-! ## Small letters -/

/-- The small letter of an ASCII capital, and any other character itself. -/
def smallLetter (c : Char) : Char :=
  if 'A' ≤ c ∧ c ≤ 'Z' then Char.ofNat (c.toNat + 32) else c

/-- A text in small letters. -/
def small (text : String) : String := String.ofList (text.toList.map smallLetter)

theorem isCapital_iff (c : Char) : 'A' ≤ c ∧ c ≤ 'Z' ↔ 65 ≤ c.toNat ∧ c.toNat ≤ 90 := by
  simp only [Char.le_def, UInt32.le_iff_toNat_le]
  exact Iff.rfl

theorem toNat_smallLetter (c : Char) :
    (smallLetter c).toNat = if 65 ≤ c.toNat ∧ c.toNat ≤ 90 then c.toNat + 32 else c.toNat := by
  rw [smallLetter]
  simp only [isCapital_iff]
  split
  · have hvalid : (c.toNat + 32).isValidChar := Or.inl (by omega)
    unfold Char.ofNat
    rw [dif_pos hvalid]
    rfl
  · rfl

theorem toLower_eq_smallLetter (c : Char) : c.toLower = smallLetter c := by
  have hcapital : c.val ≥ 'A'.val ∧ c.val ≤ 'Z'.val ↔ 65 ≤ c.toNat ∧ c.toNat ≤ 90 := isCapital_iff c
  rw [← Char.toNat_inj, toNat_smallLetter]
  unfold Char.toLower
  simp only [hcapital]
  split
  · change (c.val + ('a'.val - 'A'.val)).toNat = c.toNat + 32
    rw [UInt32.toNat_add]
    refine Nat.mod_eq_of_lt ?_
    change c.toNat + 32 < 2 ^ 32
    omega
  · rfl

theorem smallLetter_eq_iff {c mark : Char} (h : mark = '/' ∨ mark = '.') :
    smallLetter c = mark ↔ c = mark := by
  have hmark : mark.toNat = 47 ∨ mark.toNat = 46 := by rcases h with rfl | rfl <;> decide
  rw [← Char.toNat_inj, ← Char.toNat_inj, toNat_smallLetter]
  split <;> omega

theorem toLower_eq_small (text : String) : text.toLower = small text := by
  apply String.toList_injective
  rw [small, String.toList_ofList]
  refine String.toList_map.trans ?_
  exact List.map_congr_left fun c _ => toLower_eq_smallLetter c

theorem small_eq_empty_iff {text : String} : small text = "" ↔ text = "" := by
  rw [← String.toList_inj, small, String.toList_ofList]
  simp

theorem mem_small {mark : Char} (h : mark = '/' ∨ mark = '.') (text : String) :
    mark ∈ (small text).toList ↔ mark ∈ text.toList := by
  rw [small, String.toList_ofList, List.mem_map]
  simp only [smallLetter_eq_iff h, exists_eq_right]

namespace Path

/-! ## Pieces -/

/-- The pieces of a path between its slashes. -/
def Divides (path : String) (ps : List String) : Prop :=
  ps ≠ [] ∧ "/".intercalate ps = path ∧ ∀ p ∈ ps, '/' ∉ p.toList

/-- The last piece of a path that is neither empty nor a single dot. -/
def IsLast (path last : String) : Prop :=
  ∃ front rest, Divides path (front ++ last :: rest) ∧ last ≠ "" ∧ last ≠ "." ∧
    ∀ p ∈ rest, p = "" ∨ p = "."

/-- The last dot of a name, with something before it and something behind it. -/
def DividesAtDot (name stem extension : String) : Prop :=
  name = stem ++ "." ++ extension ∧ '.' ∉ extension.toList ∧ stem ≠ "" ∧ extension ≠ ""

theorem notMem_of_mem_splitOn {sep : Char} {cs piece : List Char}
    (h : piece ∈ Marks.splitOn sep cs) : sep ∉ piece := by
  induction cs generalizing piece with
  | nil =>
    rw [List.mem_singleton.mp h]
    exact List.not_mem_nil
  | cons c cs ih =>
    rw [Marks.splitOn] at h
    split at h
    · rcases List.mem_cons.mp h with rfl | hpiece
      · exact List.not_mem_nil
      · exact ih hpiece
    · rename_i hc
      obtain ⟨first, pieces, hpieces⟩ := List.exists_cons_of_ne_nil (Marks.splitOn_ne_nil sep cs)
      rw [hpieces] at h ih
      rcases List.mem_cons.mp h with rfl | hpiece
      · intro hmem
        rcases List.mem_cons.mp hmem with heq | hfirst
        · exact hc heq.symm
        · exact ih List.mem_cons_self hfirst
      · exact ih (List.mem_cons_of_mem first hpiece)

theorem map_toList_map_ofList (ps : List (List Char)) :
    (ps.map String.ofList).map String.toList = ps := by
  simp

/-- Nothing but the pieces of a path divides it. -/
theorem divides_iff {path : String} {ps : List String} :
    Divides path ps ↔ characters.pieces path.toList = ps.map String.toList := by
  rw [Marks.pieces, Marks.splitOn_eq]
  constructor
  · rintro ⟨hne, rfl, hslash⟩
    rw [String.toList_intercalate]
    refine List.splitOn_intercalate '/' ?_ (by simpa using hne)
    simpa using hslash
  · intro h
    refine ⟨?_, ?_, ?_⟩
    · rintro rfl
      exact List.splitOn_ne_nil _ _ h
    · apply String.toList_injective
      rw [String.toList_intercalate, ← h]
      exact List.intercalate_splitOn '/'
    · intro p hp
      rw [← Marks.splitOn_eq] at h
      exact notMem_of_mem_splitOn (h ▸ List.mem_map_of_mem hp)

theorem toList_name (stem extension : String) :
    (stem ++ "." ++ extension).toList = stem.toList ++ '.' :: extension.toList := by
  simp

/-- An extension is what the last dot of the last piece divides from the rest of it. -/
theorem hasExtension_iff {path extension : String} :
    HasExtension path extension ↔
      ∃ last stem, IsLast path last ∧ DividesAtDot last stem extension := by
  rw [hasExtension_ofString]
  constructor
  · rintro ⟨front, stem, rest, hpieces, hrest, hstem, hne, hdot⟩
    have hname := Marks.fileName?_of_hasExtension hpieces hrest hstem hne
    obtain ⟨⟨hempty, hsingle⟩, -⟩ :=
      Marks.lastPiece?_eq_some_iff.mp (Option.filter_eq_some_iff.mp hname).1
    have hlast : (String.ofList stem ++ "." ++ extension).toList =
        stem ++ characters.dot :: extension.toList := by
      rw [toList_name, String.toList_ofList]
      rfl
    refine ⟨_, String.ofList stem, ⟨front.map String.ofList, rest.map String.ofList,
      divides_iff.mpr ?_, ?_, ?_, ?_⟩, rfl, hdot, ?_, mt String.toList_eq_nil_iff.mpr hne⟩
    · rw [hpieces, List.map_append, List.map_cons, hlast, map_toList_map_ofList,
        map_toList_map_ofList]
    · rwa [← hlast, ne_eq, String.toList_eq_nil_iff] at hempty
    · rintro heq
      rw [← hlast, heq] at hsingle
      exact hsingle rfl
    · intro p hp
      obtain ⟨piece, hpiece, rfl⟩ := List.mem_map.mp hp
      rcases hrest piece hpiece with rfl | rfl
      · exact Or.inl rfl
      · exact Or.inr rfl
    · intro heq
      have hnil : stem = [] := by simpa using congrArg String.toList heq
      exact hstem hnil
  · rintro ⟨_, stem, ⟨front, rest, hpieces, -, -, hrest⟩, rfl, hdot, hstem, hne⟩
    refine ⟨front.map String.toList, stem.toList, rest.map String.toList, ?_, ?_,
      mt String.toList_eq_nil_iff.mp hstem, mt String.toList_eq_nil_iff.mp hne, hdot⟩
    · rw [divides_iff.mp hpieces, List.map_append, List.map_cons, toList_name]
      rfl
    · intro p hp
      obtain ⟨piece, hpiece, rfl⟩ := List.mem_map.mp hp
      rcases hrest piece hpiece with rfl | rfl
      · exact Or.inl rfl
      · exact Or.inr rfl

/-! ## What changes no extension -/

/-- A piece that is left aside at the end of a path changes no extension. -/
theorem extension?_append_aside (cs : List Char) {rest : List Char} (h : rest = [] ∨ rest = ['.']) :
    characters.extension? (cs ++ '/' :: rest) = characters.extension? cs := by
  have hrest : characters.pieces rest = [rest] := by rcases h with rfl | rfl <;> rfl
  have hpieces : characters.pieces (cs ++ '/' :: rest) = characters.pieces cs ++ [rest] := by
    rw [← hrest, Marks.pieces, Marks.pieces, Marks.pieces, Marks.splitOn_eq, Marks.splitOn_eq,
      Marks.splitOn_eq]
    exact List.splitOn_append_cons_self _ _
  have haside : ¬ (rest ≠ [] ∧ rest ≠ [characters.dot]) := fun hne => h.elim hne.1 hne.2
  have hlast : characters.lastPiece? (cs ++ '/' :: rest) = characters.lastPiece? cs := by
    rw [Marks.lastPiece?, hpieces, List.reverse_append, List.reverse_singleton,
      List.singleton_append, List.find?_cons_of_neg (by simpa using haside), Marks.lastPiece?]
  rw [Marks.extension?, Marks.fileName?, hlast, Marks.extension?, Marks.fileName?]

theorem extension?_append_join (path : String) {tails : List String}
    (h : ∀ tail ∈ tails, tail = "/" ∨ tail = "/.") :
    characters.extension? (path ++ String.join tails).toList =
      characters.extension? path.toList := by
  induction tails using List.reverseRecOn with
  | nil => simp
  | append_singleton tails tail ih =>
    have ih := ih fun t ht => h t (List.mem_append_left _ ht)
    have htail : ∃ rest, tail.toList = '/' :: rest ∧ (rest = [] ∨ rest = ['.']) := by
      rcases h tail (List.mem_append_right _ (List.mem_singleton_self tail)) with rfl | rfl
      · exact ⟨[], rfl, Or.inl rfl⟩
      · exact ⟨['.'], rfl, Or.inr rfl⟩
    obtain ⟨rest, htail, hrest⟩ := htail
    have hjoin : (path ++ String.join (tails ++ [tail])).toList =
        (path ++ String.join tails).toList ++ '/' :: rest := by
      simp [htail]
    rw [hjoin, extension?_append_aside _ hrest, ih]

/-- Small letters in place of capitals. -/
def smallLetters : Coding characters characters where
  spell c := [smallLetter c]
  spell_ne_nil _ := List.cons_ne_nil _ _
  spell_slash := rfl
  spell_dot := rfl
  eq_slash_of_mem _ h := (smallLetter_eq_iff (Or.inl rfl)).mp (List.mem_singleton.mp h).symm
  eq_dot_of_mem _ h := (smallLetter_eq_iff (Or.inr rfl)).mp (List.mem_singleton.mp h).symm

theorem smallLetters_list (cs : List Char) : smallLetters.list cs = cs.map smallLetter :=
  List.flatMap_pure_eq_map smallLetter cs

end Path

/-! ## Formats -/

/-- The format of a path is its extension in small letters. -/
theorem toOption_outputFormat (path : String) :
    (outputFormat path).toOption =
      ((Path.characters.extension? path.toList).map Path.smallLetters.list).bind fun cs =>
        if cs = [] then none else some (String.ofList cs) := by
  unfold outputFormat
  rw [Path.extension?_ofString]
  cases Path.characters.extension? path.toList with
  | none => rfl
  | some cs =>
    simp only [Option.map_some, Option.bind_some, Path.toString?_ofString, Path.smallLetters_list,
      List.map_eq_nil_iff]
    by_cases hcs : cs = []
    · subst hcs
      rfl
    · have hempty : (String.ofList cs).isEmpty = false := by simpa using hcs
      rw [hempty, if_neg hcs, String.toList_ofList, List.map_congr_left fun c _ =>
        toLower_eq_smallLetter c]
      rfl

theorem toOption_outputFormat_of_small {path path' : String}
    (h : path'.toList.map smallLetter = path.toList.map smallLetter) :
    (outputFormat path').toOption = (outputFormat path).toOption := by
  rw [toOption_outputFormat, toOption_outputFormat, ← Path.Coding.extension?_list,
    ← Path.Coding.extension?_list, Path.smallLetters_list, h, Path.smallLetters_list]

/-- **A path has a format exactly if the last dot of its last piece stands inside that piece.** That piece
is the last of those between the slashes that is neither empty nor a single dot. The format is what stands
behind the dot, with small letters in place of ASCII capitals and nothing else changed; it is not empty and
has no slash and no dot. A path without such a dot is refused with the path as it was given. Paths that
differ in the case of ASCII letters only, and a path with slashes or single dots behind slashes at its end,
have the same format or are all refused. -/
theorem outputFormat_by_last_piece (path : String) :
    (∀ format, outputFormat path = .ok format ↔
      ∃ last stem extension, Path.IsLast path last ∧ Path.DividesAtDot last stem extension ∧
        format.toList = extension.toList.map smallLetter) ∧
    ((¬ ∃ last stem extension, Path.IsLast path last ∧ Path.DividesAtDot last stem extension) →
      outputFormat path = .error (.missingExtension path)) ∧
    (∀ format, outputFormat path = .ok format →
      format ≠ "" ∧ '/' ∉ format.toList ∧ '.' ∉ format.toList) ∧
    (∀ path' : String, path'.toList.map smallLetter = path.toList.map smallLetter →
      (outputFormat path').toOption = (outputFormat path).toOption) ∧
    ∀ tails : List String, (∀ tail ∈ tails, tail = "/" ∨ tail = "/.") →
      (outputFormat (path ++ String.join tails)).toOption = (outputFormat path).toOption := by
  have hok : ∀ format, outputFormat path = .ok format ↔
      ∃ extension, Path.HasExtension path extension ∧ format = small extension := by
    intro format
    simp only [outputFormat_eq_ok_iff, toLower_eq_small]
  refine ⟨fun format => ?_, fun hnone => ?_, fun format hformat => ?_, fun path' hcase => ?_,
    fun tails htails => ?_⟩
  · rw [hok]
    constructor
    · rintro ⟨extension, hextension, rfl⟩
      obtain ⟨last, stem, hlast, hdot⟩ := Path.hasExtension_iff.mp hextension
      exact ⟨last, stem, extension, hlast, hdot, String.toList_ofList⟩
    · rintro ⟨last, stem, extension, hlast, hdot, hformat⟩
      refine ⟨extension, Path.hasExtension_iff.mpr ⟨last, stem, hlast, hdot⟩, ?_⟩
      rw [small, ← hformat, String.ofList_toList]
  · refine outputFormat_of_not_hasExtension fun extension hextension => hnone ?_
    obtain ⟨last, stem, hlast, hdot⟩ := Path.hasExtension_iff.mp hextension
    exact ⟨last, stem, extension, hlast, hdot⟩
  · obtain ⟨extension, hextension, rfl⟩ := (hok format).mp hformat
    obtain ⟨last, stem, ⟨front, rest, hpieces, -, -, -⟩, rfl, hdot, -, hne⟩ :=
      Path.hasExtension_iff.mp hextension
    have hslash : '/' ∉ (stem ++ "." ++ extension).toList :=
      hpieces.2.2 _ (List.mem_append_right _ List.mem_cons_self)
    rw [mem_small (Or.inl rfl), mem_small (Or.inr rfl)]
    refine ⟨mt small_eq_empty_iff.mp hne, fun hmem => hslash ?_, hdot⟩
    rw [Path.toList_name]
    exact List.mem_append_right _ (List.mem_cons_of_mem _ hmem)
  · exact toOption_outputFormat_of_small hcase
  · rw [toOption_outputFormat, Path.extension?_append_join path htails, toOption_outputFormat]

theorem outputFormat_by_last_piece_tails :
    (∃ last stem, Path.IsLast "out/chart.tar.SVG" last ∧ Path.DividesAtDot last stem "SVG") ∧
    outputFormat "out/chart.tar.SVG" = .ok "svg" ∧
    (outputFormat "OUT/chart.tar.Svg").toOption = some "svg" ∧
    (outputFormat "out/chart.tar.SVG//./").toOption = some "svg" ∧
    (¬ ∃ last stem extension, Path.IsLast "out/.dot" last ∧ Path.DividesAtDot last stem extension) ∧
    outputFormat "out/.dot" = .error (.missingExtension "out/.dot") := by
  have hsvg : Path.IsLast "out/chart.tar.SVG" "chart.tar.SVG" ∧
      Path.DividesAtDot "chart.tar.SVG" "chart.tar" "SVG" :=
    ⟨⟨["out"], [], ⟨by decide, by decide, by decide⟩, by decide, by decide, by simp⟩,
      by decide, by decide, by decide, by decide⟩
  have hnone : ¬ ∃ last stem extension, Path.IsLast "out/.dot" last ∧
      Path.DividesAtDot last stem extension := by
    rintro ⟨last, stem, extension, hlast, hdot⟩
    exact Path.not_hasExtension_of_none (by decide)
      (Path.hasExtension_iff.mpr ⟨last, stem, hlast, hdot⟩)
  obtain ⟨hformat, -, -, hcase, htails⟩ := outputFormat_by_last_piece "out/chart.tar.SVG"
  obtain ⟨-, hmissing, -⟩ := outputFormat_by_last_piece "out/.dot"
  have hok : outputFormat "out/chart.tar.SVG" = .ok "svg" :=
    (hformat "svg").mpr ⟨_, _, _, hsvg.1, hsvg.2, by decide⟩
  have hcase := hcase "OUT/chart.tar.Svg" (by decide)
  have htails := htails ["/", "/.", "/"] (by decide)
  rw [hok] at hcase htails
  exact ⟨⟨_, _, hsvg⟩, hok, hcase, htails, hnone, hmissing hnone⟩

end RoleChart
