import RoleChart.Proofs.Path
import RoleChart.Proofs.Sources
/-!
What writing a file does to the files. A path that can be written leads to a place that is no
directory, and every step on the way there is a step from a directory (`Disk.exists_of_target`). So the
way to the place is the same after the place was written, and the content is read back from it.

* `Disk.readBytes_write`: what was written under a path is read back under it.
* `Disk.find?_write`: nothing stands elsewhere but what stood there before.
-/
namespace RoleChart

namespace Disk

variable {disk after : Disk} {place around : Place} {entry : DiskEntry} {path : Path}

/-! ## Putting an entry at a place -/

theorem lookup_filter_ne {α : Type} {list : List (Place × α)} {place q : Place} (hne : q ≠ place) :
    (list.filter fun e => e.1 != place).lookup q = list.lookup q := by
  induction list with
  | nil => rfl
  | cons first rest ih =>
    obtain ⟨p, a⟩ := first
    by_cases hp : p = place
    · subst hp
      rw [List.filter_cons_of_neg (by simp), ih, List.lookup_cons, beq_false_of_ne hne]
    · rw [List.filter_cons_of_pos (by simpa using hp), List.lookup_cons, List.lookup_cons, ih]

/-- An entry at one place changes nothing at another. -/
theorem find?_put_of_ne {q : Place} (hne : q ≠ place) :
    (disk.put place entry).find? q = disk.find? q := by
  unfold put
  split
  · rfl
  · have hlookup : ((place, entry) :: disk.entries.filter fun e => e.1 != place).lookup q =
        disk.entries.lookup q := by
      rw [List.lookup_cons, beq_false_of_ne hne, lookup_filter_ne hne]
    unfold find?
    rw [hlookup]

/-- What was put at a place stands there, unless the system keeps the place. -/
theorem find?_put_self (hnull : place ≠ nullDevice) (hstanding : isStanding place = false) :
    (disk.put place entry).find? place = some entry := by
  unfold put find?
  simp [hnull, hstanding]

/-- No file is put where a directory stands whatever is listed. -/
theorem isStanding_of_find?_ne (h : disk.find? place ≠ some .directory) :
    isStanding place = false := by
  unfold find? at h
  by_cases hstanding : isStanding place = true
  · rw [if_pos hstanding] at h
    exact absurd rfl h
  · exact Bool.eq_false_iff.mpr hstanding

/-! ## The way to a place -/

theorem find?_of_step {piece : Path} {next : Place} (h : disk.step place piece = .ok next) :
    disk.find? place = some .directory := by
  unfold step at h
  split at h
  · cases h
  · cases h
  · assumption

/-- A step from a directory is the same after something was put where no directory is. -/
theorem step_put (entry : DiskEntry) {q next : Place} {piece : Path}
    (hplace : disk.find? place ≠ some .directory) (h : disk.step q piece = .ok next) :
    (disk.put place entry).step q piece = .ok next := by
  have hq := find?_of_step h
  -- A step starts at a directory, so not at the place in question.
  have hne : q ≠ place := by
    rintro rfl
    exact hplace hq
  rw [← h]
  unfold step
  rw [find?_put_of_ne hne]

theorem foldlM_step_put (entry : DiskEntry) {pieces : List Path} {q next : Place}
    (hplace : disk.find? place ≠ some .directory) (h : pieces.foldlM disk.step q = .ok next) :
    pieces.foldlM (disk.put place entry).step q = .ok next := by
  induction pieces generalizing q with
  | nil => exact h
  | cons piece pieces ih =>
    rw [List.foldlM_cons] at h ⊢
    cases hstep : disk.step q piece with
    | error e =>
      rw [hstep] at h
      cases h
    | ok q' =>
      rw [hstep] at h
      rw [step_put entry hplace hstep]
      exact ih h

theorem eq_of_step_dot {next : Place} (h : disk.step place .here = .ok next) : next = place := by
  unfold step at h
  rw [find?_of_step h] at h
  exact (Except.ok.inj h).symm

theorem eq_of_step_name {piece : Path} {next : Place} (h : disk.step place piece = .ok next)
    (hempty : piece ≠ .empty) (hdot : piece ≠ .here) (hparent : piece ≠ .above) :
    next = place ++ [piece] := by
  have hplace := find?_of_step h
  unfold step at h
  rw [hplace] at h
  dsimp only at h
  rw [if_neg (by simp [hempty, hdot]), if_neg hparent] at h
  split at h
  · cases h
  · exact (Except.ok.inj h).symm

/-- Pieces that do not end with an empty one lose none to a trailing slash. -/
theorem dropWhile_empty_reverse {pieces : List Path} (h : pieces.getLast? ≠ some .empty) :
    (pieces.reverse.dropWhile (· = .empty)).reverse = pieces := by
  rw [← List.head?_reverse] at h
  rw [List.reverse_eq_iff]
  cases hrev : pieces.reverse with
  | nil => rfl
  | cons last front =>
    rw [hrev] at h
    have hlast : last ≠ .empty := fun heq => h (congrArg some heq)
    exact List.dropWhile_cons_of_neg (by simpa using hlast)

/-- Where a path that can be written leads: its last piece is a name, the pieces before it lead to a
directory, and under that name there is no directory. -/
theorem exists_of_target (h : disk.target path = .ok place) :
    checkPath path = .ok () ∧
    ∃ front piece around, path.pieces = front ++ [piece] ∧
      piece ≠ .empty ∧ piece ≠ .here ∧ piece ≠ .above ∧
      front.foldlM disk.step (origin path) = .ok around ∧
      disk.step around piece = .ok place ∧
      disk.find? place ≠ some .directory := by
  unfold target at h
  obtain ⟨⟨⟩, hcheck, hpieces⟩ := Outcome.exists_of_bind_eq_ok h
  dsimp only at hpieces
  obtain ⟨around, hfront, hinside⟩ := Outcome.exists_of_bind_eq_ok hpieces
  obtain ⟨around', hdot, hnamed⟩ := Outcome.exists_of_bind_eq_ok hinside
  obtain rfl := eq_of_step_dot hdot
  split at hnamed
  · cases hnamed
  · next piece hpiece =>
    split_ifs at hnamed with hdirectory
    · cases hnamed
    · obtain ⟨hslash, hsingle, hparent⟩ := not_or.mp hdirectory |>.imp_right not_or.mp
      rw [dropWhile_empty_reverse hslash] at hpiece hfront
      obtain ⟨place', hstep, hfree⟩ := Outcome.exists_of_bind_eq_ok hnamed
      split_ifs at hfree with hstanding
      · cases hfree
      · obtain rfl := Except.ok.inj hfree
        have hempty : piece ≠ .empty := fun heq => hslash (heq ▸ hpiece)
        exact ⟨hcheck, _, piece, around', (List.dropLast_append_getLast? piece hpiece).symm, hempty,
          hsingle, hparent, hfront, hstep, hstanding⟩

/-- A path that can be written leads to its place after it was written as well. -/
theorem locate_put (h : disk.target path = .ok place) :
    (disk.put place entry).locate path = .ok place := by
  obtain ⟨hcheck, front, piece, around, hpieces, -, -, -, hfront, hstep, hplace⟩ :=
    exists_of_target h
  have hfront' := foldlM_step_put entry hplace hfront
  have hstep' := step_put entry hplace hstep
  have hway : (front ++ [piece]).foldlM (disk.put place entry).step (origin path) = .ok place := by
    rw [List.foldlM_append, hfront']
    change (disk.put place entry).step around piece >>= pure = .ok place
    rw [hstep']
    rfl
  unfold locate
  rw [hcheck, hpieces]
  exact hway

theorem lookup_of_locate (hlocate : disk.locate path = .ok place)
    (hentry : disk.find? place = some entry) : disk.lookup path = .ok entry := by
  unfold lookup
  rw [hlocate]
  simp only [bind, Except.bind, hentry]
  rfl

/-! ## Writing -/

variable {content : ByteArray}

theorem exists_of_write (h : disk.write path content = .ok after) :
    ∃ place executable, disk.target path = .ok place ∧
      after = disk.put place (.file content executable) := by
  unfold write at h
  obtain ⟨place, hplace, hput⟩ := Outcome.exists_of_bind_eq_ok h
  exact ⟨place, _, hplace, (Except.ok.inj hput).symm⟩

theorem write_of_target_error {cause : SystemError} (h : disk.target path = .error cause) :
    disk.write path content = .error cause := by
  unfold write
  rw [h]
  rfl

theorem exists_write_of_target (content : ByteArray) (h : disk.target path = .ok place) :
    ∃ after, disk.write path content = .ok after := by
  unfold write
  rw [h]
  exact ⟨_, rfl⟩

/-- What was written under a path is read back under it. -/
theorem readBytes_write (h : disk.write path content = .ok after)
    (hnull : disk.target path ≠ .ok nullDevice) : after.readBytes path = .ok content := by
  obtain ⟨place, executable, hplace, rfl⟩ := exists_of_write h
  obtain ⟨-, -, -, -, -, -, -, -, -, -, hfree⟩ := exists_of_target hplace
  have hne : place ≠ nullDevice := fun heq => hnull (heq ▸ hplace)
  have hself : (disk.put place (.file content executable)).find? place =
      some (.file content executable) :=
    find?_put_self hne (isStanding_of_find?_ne hfree)
  unfold readBytes
  rw [lookup_of_locate (locate_put hplace) hself]
  rfl

theorem readText_of_readBytes {text : String} (h : disk.readBytes path = .ok text.toUTF8) :
    disk.readText path = .ok text := by
  unfold readText
  rw [h]
  simp only [bind, Except.bind, Path.fromUTF8?_toUTF8]
  rfl

/-- A write changes what stands at one place only. -/
theorem find?_write (h : disk.write path content = .ok after) :
    ∃ place, disk.target path = .ok place ∧ ∀ q, q ≠ place → after.find? q = disk.find? q := by
  obtain ⟨place, _, hplace, rfl⟩ := exists_of_write h
  exact ⟨place, hplace, fun q hq => find?_put_of_ne hq⟩

/-- A path with an extension does not lead to the device that swallows what is written: the name of
the device has none. -/
theorem target_ne_nullDevice {extension : Path} (h : path.extension? = some extension) :
    disk.target path ≠ .ok nullDevice := by
  intro hnull
  obtain ⟨-, front, piece, around, hpieces, hempty, hdot, hparent, -, hstep, -⟩ :=
    exists_of_target hnull
  have hplace := eq_of_step_name hstep hempty hdot hparent
  have hpiece : piece = "null" := by
    have hlast := congrArg List.getLast? hplace
    rw [List.getLast?_concat] at hlast
    exact (Option.some.inj hlast).symm
  subst hpiece
  have hbytes : Path.marks.pieces path.bytes =
      front.map Path.bytes ++ (Path.ofString "null").bytes :: [] := by
    rw [← Path.map_bytes_pieces, hpieces, List.map_append]
    rfl
  have hlast : Path.marks.lastPiece? path.bytes = some (Path.ofString "null").bytes :=
    Path.Marks.lastPiece?_eq_some_iff.mpr ⟨by decide, _, [], hbytes, by simp⟩
  have hname : Path.marks.fileName? path.bytes = some (Path.ofString "null").bytes := by
    rw [Path.Marks.fileName?, hlast]
    rfl
  have hnone : Path.marks.afterLastDot? (Path.ofString "null").bytes = none := by decide
  simp [Path.extension?, Path.Marks.extension?, hname, hnone] at h

end Disk

end RoleChart
