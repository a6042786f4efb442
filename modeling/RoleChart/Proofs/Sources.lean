import RoleChart.Proofs.References
import Mathlib.Data.Set.Card
/-!
Sources that list finitely many names. What is reached from declared roles is declared at the start
or listed by the source (`Source.mem_of_reaches`); a table lists what its entries declare, and a
directory what any of its files declares (`Metadata.mem_declaredNames`). So over both of them
finitely many names can be reached, and the limits that `Expansion.ofTable` and
`Expansion.ofDirectory` set admit all of them.

The path that a file is read under shows in reports and errors alone, so `Metadata.declaredNames`
need not know it (`Metadata.toOption_ofText`).
-/
namespace RoleChart

namespace Source

variable {source : Source} {listed : List String}

/-- Only names declared at the start or listed by the source are reached. -/
theorem mem_of_reaches (hlisted : ∀ n, ∀ d ∈ source.declared n, d.name ∈ listed)
    {declarations : List Declaration} {name : String} (h : source.Reaches declarations name) :
    name ∈ declarations.map (·.name) ++ listed := by
  refine h.induct (fun r hr => ?_) (fun n _ r hr => ?_)
  · obtain ⟨d, hd, rfl⟩ := List.mem_map.mp hr
    exact List.mem_append_left _ (List.mem_map_of_mem hd)
  · obtain ⟨d, hd, rfl⟩ := List.mem_map.mp hr
    exact List.mem_append_right _ (hlisted n d hd)

theorem finite_reaches (hlisted : ∀ n, ∀ d ∈ source.declared n, d.name ∈ listed)
    (declarations : List Declaration) : {name | source.Reaches declarations name}.Finite :=
  (List.finite_toSet (declarations.map (·.name) ++ listed)).subset fun _ =>
    mem_of_reaches hlisted

theorem ncard_reaches_le (hlisted : ∀ n, ∀ d ∈ source.declared n, d.name ∈ listed)
    (declarations : List Declaration) :
    {name | source.Reaches declarations name}.ncard ≤ declarations.length + listed.length := by
  classical
  have hsubset : {name | source.Reaches declarations name} ⊆
      ((declarations.map (·.name) ++ listed).toFinset : Set String) := by
    intro name h
    rw [Finset.mem_coe, List.mem_toFinset]
    exact mem_of_reaches hlisted h
  calc {name | source.Reaches declarations name}.ncard
      ≤ ((declarations.map (·.name) ++ listed).toFinset : Set String).ncard :=
        Set.ncard_le_ncard hsubset (Finset.finite_toSet _)
    _ = (declarations.map (·.name) ++ listed).toFinset.card := Set.ncard_coe_finset _
    _ ≤ (declarations.map (·.name) ++ listed).length := List.toFinset_card_le _
    _ = declarations.length + listed.length := by rw [List.length_append, List.length_map]

end Source

namespace Metadata

/-! ## Tables -/

section

variable (table : Table (List Declaration))

theorem readable_ofTable (name : String) : (ofTable table).Readable name := ⟨_, rfl⟩

theorem mem_flatten_of_declared_ofTable (name : String) :
    ∀ d ∈ (ofTable table).declared name, d.name ∈ table.values.flatten.map (·.name) := by
  intro d hd
  have hlisted : d ∈ (table.get? name).getD [] := hd
  cases hget : table.get? name with
  | none =>
    rw [hget, Option.getD_none] at hlisted
    exact absurd hlisted List.not_mem_nil
  | some listed =>
    rw [hget, Option.getD_some] at hlisted
    obtain ⟨before, after, heq, _⟩ := List.lookup_eq_some_iff.mp hget
    have hvalue : listed ∈ table.values := by simp [Table.values, heq]
    exact List.mem_map_of_mem (List.mem_flatten.mpr ⟨listed, hvalue, hlisted⟩)

theorem finite_reaches_ofTable (declarations : List Declaration) :
    {name | (ofTable table).Reaches declarations name}.Finite :=
  Source.finite_reaches (mem_flatten_of_declared_ofTable table) declarations

/-- The limit of `Expansion.ofTable` admits all names that can be reached. -/
theorem ncard_reaches_ofTable (declarations : List Declaration) :
    {name | (ofTable table).Reaches declarations name}.ncard ≤
      declarations.length + table.values.flatten.length := by
  have hle := Source.ncard_reaches_le (mem_flatten_of_declared_ofTable table) declarations
  rwa [List.length_map] at hle

end

end Metadata

/-! ## The path of a text -/

namespace Outcome

variable {ε ε' α β : Type}

theorem toOption_bind (x : Except ε α) (f : α → Except ε β) :
    (x.bind f).toOption = x.toOption.bind fun a => (f a).toOption := by
  cases x <;> rfl

/-- A value comes from a bind only through both of its parts. -/
theorem exists_of_bind_eq_ok {x : Except ε α} {f : α → Except ε β} {b : β}
    (h : x >>= f = .ok b) : ∃ a, x = .ok a ∧ f a = .ok b := by
  cases x with
  | error e => cases h
  | ok a => exact ⟨a, rfl, h⟩

/-- A bind fails through one of its parts. -/
theorem eq_error_of_bind {x : Except ε α} {f : α → Except ε β} {e : ε}
    (h : x.bind f = .error e) : x = .error e ∨ ∃ a, x = .ok a ∧ f a = .error e := by
  cases x with
  | error e' => exact Or.inl (congrArg _ (Except.error.inj h))
  | ok a => exact Or.inr ⟨a, rfl, h⟩

theorem exists_of_mapError_eq_error {f : ε → ε'} {x : Except ε α} {e' : ε'}
    (h : x.mapError f = .error e') : ∃ e, x = .error e ∧ e' = f e := by
  cases x with
  | error e => exact ⟨e, rfl, (Except.error.inj h).symm⟩
  | ok a => cases h

theorem toOption_mapError (f : ε → ε') (x : Except ε α) : (x.mapError f).toOption = x.toOption := by
  cases x <;> rfl

end Outcome

namespace Declaration

theorem toOption_ofValue (context context' : String) (entry : Yaml.Value) :
    (ofValue context entry).outcome.toOption = (ofValue context' entry).outcome.toOption := by
  unfold ofValue
  split
  · rfl
  · split <;> rfl
  · rfl

theorem toOption_ofValues (context context' : String) (entries : List Yaml.Value) :
    (ofValues context entries).outcome.toOption =
      (ofValues context' entries).outcome.toOption := by
  induction entries with
  | nil => rfl
  | cons entry entries ih =>
    simp only [ofValues, Logged.outcome_bind, Logged.outcome_pure, Outcome.toOption_bind]
    rw [toOption_ofValue context context', ih]

end Declaration

namespace Metadata

/-- A text declares the same under every path, and fails under one path if it fails under another. -/
theorem toOption_ofText (reader : Yaml.Reader) (text : String) (path path' : Path) :
    (ofText reader text path).outcome.toOption = (ofText reader text path').outcome.toOption := by
  unfold ofText ofValue
  split
  · rfl
  · simp only [Logged.outcome_bind, Logged.outcome_ofExcept, Outcome.toOption_bind,
      Outcome.toOption_mapError]
    simp only [Declaration.toOption_ofValues path.display path'.display]

end Metadata

/-! ## Directories -/

namespace Disk

variable {disk : Disk} {path : Path}

theorem mem_entries_of_find? {place : Place} {content : ByteArray} {executable : Bool}
    (h : disk.find? place = some (.file content executable)) :
    content = ByteArray.empty ∨ (place, .file content executable) ∈ disk.entries := by
  unfold find? at h
  split at h
  · cases h
  · split at h
    · cases h
      exact Or.inl rfl
    · obtain ⟨before, after, heq, _⟩ := List.lookup_eq_some_iff.mp h
      exact Or.inr (by simp [heq])

theorem find?_of_lookup {entry : DiskEntry} (h : disk.lookup path = .ok entry) :
    ∃ place, disk.find? place = some entry := by
  obtain ⟨place, -, hfound⟩ := Outcome.exists_of_bind_eq_ok h
  refine ⟨place, ?_⟩
  split at hfound
  · next hentry =>
    cases hfound
    exact hentry
  · cases hfound

theorem lookup_of_readBytes {content : ByteArray} (h : disk.readBytes path = .ok content) :
    ∃ executable, disk.lookup path = .ok (.file content executable) := by
  obtain ⟨entry, hlookup, hcontent⟩ := Outcome.exists_of_bind_eq_ok h
  cases entry with
  | file content' executable =>
    cases hcontent
    exact ⟨executable, hlookup⟩
  | directory => cases hcontent

theorem readBytes_of_readText {text : String} (h : disk.readText path = .ok text) :
    ∃ content, disk.readBytes path = .ok content ∧ String.fromUTF8? content = some text := by
  obtain ⟨content, hbytes, htext⟩ := Outcome.exists_of_bind_eq_ok h
  refine ⟨content, hbytes, ?_⟩
  split at htext
  · next hdecoded =>
    cases htext
    exact hdecoded
  · cases htext

/-- A text that is read without an error is empty or stands in some file. -/
theorem mem_entries_of_readText {text : String} (h : disk.readText path = .ok text) :
    text = "" ∨ ∃ place content executable,
      (place, .file content executable) ∈ disk.entries ∧ String.fromUTF8? content = some text := by
  obtain ⟨content, hbytes, htext⟩ := readBytes_of_readText h
  obtain ⟨executable, hlookup⟩ := lookup_of_readBytes hbytes
  obtain ⟨place, hfind⟩ := find?_of_lookup hlookup
  rcases mem_entries_of_find? hfind with rfl | hmem
  · have hempty : String.fromUTF8? ByteArray.empty = some "" := rfl
    rw [hempty] at htext
    exact Or.inl (Option.some.inj htext).symm
  · exact Or.inr ⟨place, content, executable, hmem, htext⟩

end Disk

namespace Metadata

variable (reader : Yaml.Reader) (disk : Disk) (root : Path)

/-- Declarations come from a text that was read. -/
theorem exists_text_of_mem_declared {name : String} {d : Declaration}
    (h : d ∈ (ofDirectory reader disk root).declared name) :
    ∃ text listed, disk.readText (path root name) = .ok text ∧
      (ofText reader text (path root name)).outcome = .ok listed ∧ d ∈ listed := by
  unfold Source.declared ofDirectory at h
  dsimp only at h
  split at h
  · next answer houtcome =>
    split at houtcome
    · next text hread =>
      rw [Logged.outcome_map] at houtcome
      cases htext : (ofText reader text (path root name)).outcome with
      | error e =>
        rw [htext] at houtcome
        cases houtcome
      | ok listed =>
        rw [htext] at houtcome
        cases houtcome
        exact ⟨text, listed, hread, htext, h⟩
    · cases houtcome
      exact absurd h List.not_mem_nil
    · cases houtcome
  · exact absurd h List.not_mem_nil

theorem mem_declaredNames (name : String) :
    ∀ d ∈ (ofDirectory reader disk root).declared name, d.name ∈ declaredNames reader disk := by
  intro d hd
  obtain ⟨text, listed, hread, htext, hd⟩ := exists_text_of_mem_declared reader disk root hd
  rcases Disk.mem_entries_of_readText hread with rfl | ⟨place, content, executable, hmem, hdecoded⟩
  · have hnone : (ofText reader "" (path root name)).outcome = .ok [] := rfl
    rw [hnone] at htext
    cases htext
    exact absurd hd List.not_mem_nil
  · have hsame := toOption_ofText reader text .empty (path root name)
    rw [htext] at hsame
    refine List.mem_flatMap.mpr ⟨_, hmem, ?_⟩
    simp only [hdecoded]
    split
    · next declarations hlisted =>
      rw [hlisted] at hsame
      cases hsame
      exact List.mem_map_of_mem hd
    · next e hlisted =>
      rw [hlisted] at hsame
      cases hsame

theorem finite_reaches_ofDirectory (declarations : List Declaration) :
    {name | (ofDirectory reader disk root).Reaches declarations name}.Finite :=
  Source.finite_reaches (mem_declaredNames reader disk root) declarations

/-- The limit of `Expansion.ofDirectory` admits all names that can be reached. -/
theorem ncard_reaches_ofDirectory (declarations : List Declaration) :
    {name | (ofDirectory reader disk root).Reaches declarations name}.ncard ≤
      declarations.length + (declaredNames reader disk).length :=
  Source.ncard_reaches_le (mem_declaredNames reader disk root) declarations

end Metadata

end RoleChart
