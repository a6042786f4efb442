import RoleChart.Playbook
import RoleChart.Metadata
import RoleChart.Proofs.Declaration
import RoleChart.Yaml.Document
/-!
The two places where roles are listed: the first play of a playbook and the metadata of a role. Each
finds a list of entries in a document, or finds none (`Playbook.entries_eq_ok_iff`,
`Metadata.entries_eq_ok_iff`); both read the entries that they find in the same way, which is
`Declaration.ofDocument`. So what is read depends on the list alone, and the same list is read alike in
both places: `read_by_listed_roles`.
-/
namespace RoleChart

open Yaml.Value (Has)

/-! ## Documents that list roles -/

/-- A document is a playbook whose first play has `entries` under `roles`. -/
def Playbook.Lists (document : Yaml.Value) (entries : List Yaml.Value) : Prop :=
  ∃ play plays, document = .sequence (.mapping play :: plays) ∧ Has play "roles" (.sequence entries)

/-- A document is the metadata of a role with `entries` as its dependencies: none where there is nothing
or null in the place of a list. -/
inductive Metadata.Lists : Yaml.Value → List Yaml.Value → Prop where
  | null : Lists .null []
  | absent {fields : List (Yaml.Value × Yaml.Value)}
    (h : ∀ value, ¬ Has fields "dependencies" value) : Lists (.mapping fields) []
  | void {fields : List (Yaml.Value × Yaml.Value)} (h : Has fields "dependencies" .null) :
    Lists (.mapping fields) []
  | list {fields : List (Yaml.Value × Yaml.Value)} {entries : List Yaml.Value}
    (h : Has fields "dependencies" (.sequence entries)) : Lists (.mapping fields) entries

variable {document : Yaml.Value} {entries : List Yaml.Value}

theorem Playbook.entries_eq_ok_iff :
    Playbook.entries document = .ok entries ↔ Playbook.Lists document entries := by
  constructor
  · intro h
    unfold Playbook.entries at h
    split at h
    · cases h
    · next play plays =>
      split at h
      · next roles hlookup =>
        cases h
        exact ⟨play, plays, rfl, Yaml.Value.lookup?_eq_some_iff.mp hlookup⟩
      · cases h
      · cases h
    · cases h
    · cases h
  · rintro ⟨play, plays, rfl, hroles⟩
    have hlookup := Yaml.Value.lookup?_eq_some_iff.mpr hroles
    simp only [Playbook.entries, hlookup]

theorem Metadata.entries_eq_ok_iff :
    Metadata.entries document = .ok entries ↔ Metadata.Lists document entries := by
  constructor
  · intro h
    unfold Metadata.entries at h
    split at h
    · cases h
      exact .null
    · split at h
      · next hlookup =>
        cases h
        exact .absent (Yaml.Value.lookup?_eq_none_iff.mp hlookup)
      · next hlookup =>
        cases h
        exact .void (Yaml.Value.lookup?_eq_some_iff.mp hlookup)
      · next listed hlookup =>
        cases h
        exact .list (Yaml.Value.lookup?_eq_some_iff.mp hlookup)
      · cases h
    · cases h
  · intro h
    cases h with
    | null => rfl
    | absent hnone =>
      have hlookup := Yaml.Value.lookup?_eq_none_iff.mpr hnone
      simp only [Metadata.entries, hlookup]
    | void hnull =>
      have hlookup := Yaml.Value.lookup?_eq_some_iff.mpr hnull
      simp only [Metadata.entries, hlookup]
    | list hlist =>
      have hlookup := Yaml.Value.lookup?_eq_some_iff.mpr hlist
      simp only [Metadata.entries, hlookup]

/-! ## Reading what a document lists -/

namespace Declaration

/-- The declarations that a document lists: `shape` finds the entries, and `invalid` is the failure where
it does not; `context` names the list in messages. -/
def ofDocument {φ : Type} (shape : Yaml.Value → Except φ (List Yaml.Value))
    (invalid : φ → InputError) (context : String) (document : Yaml.Value) :
    Logged InputError (List Declaration) := do
  let entries ← .ofExcept ((shape document).mapError invalid)
  ofValues context entries

section

variable {φ : Type} {shape : Yaml.Value → Except φ (List Yaml.Value)} {invalid : φ → InputError}
  {Lists : List Yaml.Value → Prop}

theorem ofDocument_of_ok (context : String) (h : shape document = .ok entries) :
    ofDocument shape invalid context document = ofValues context entries := by
  unfold ofDocument
  rw [h]
  rfl

theorem ofDocument_of_error (context : String) {cause : φ} (h : shape document = .error cause) :
    ofDocument shape invalid context document = .fail (invalid cause) := by
  unfold ofDocument
  rw [h]
  rfl

/-- A document is read exactly if it lists entries of which each mapping names a role. -/
theorem exists_outcome_ofDocument_iff (invalid : φ → InputError) (context : String)
    (hshape : ∀ entries, shape document = .ok entries ↔ Lists entries) :
    (∃ declarations, (ofDocument shape invalid context document).outcome = .ok declarations) ↔
      ∃ entries, Lists entries ∧ ∀ e ∈ entries, ¬ Nameless e := by
  simp only [← hshape]
  cases hdocument : shape document with
  | error cause =>
    rw [ofDocument_of_error context hdocument]
    constructor
    · rintro ⟨declarations, h⟩
      cases h
    · rintro ⟨entries, h, -⟩
      cases h
  | ok listed =>
    rw [ofDocument_of_ok context hdocument, exists_outcome_ofValues_iff]
    constructor
    · intro hnamed
      exact ⟨listed, rfl, hnamed⟩
    · rintro ⟨entries, ⟨⟩, hnamed⟩
      exact hnamed

/-- A document that is not read lists nothing, or the first mapping of its list that names no role is
quoted. -/
theorem rejected_ofDocument {context : String} {e : InputError}
    (hshape : ∀ entries, shape document = .ok entries ↔ Lists entries)
    (h : (ofDocument shape invalid context document).outcome = .error e) :
    (∃ before entry after, Lists (before ++ entry :: after) ∧
      (∀ e ∈ before, ¬ Nameless e) ∧ Nameless entry ∧ e = .missingRoleName context (quote entry)) ∨
    (∀ entries, ¬ Lists entries) ∧ ∃ cause, e = invalid cause := by
  simp only [← hshape]
  cases hdocument : shape document with
  | error cause =>
    rw [ofDocument_of_error context hdocument] at h
    exact Or.inr ⟨nofun, cause, (Except.error.inj h).symm⟩
  | ok listed =>
    rw [ofDocument_of_ok context hdocument] at h
    rcases named_or_first_nameless listed with
      ⟨made, hmade⟩ | ⟨before, entry, after, rfl, hbefore, hnameless⟩
    · rw [ofValues_of_declares context hmade] at h
      cases h
    · rw [ofValues_of_first_nameless context after hbefore hnameless] at h
      exact Or.inl ⟨before, entry, after, rfl, hbefore, hnameless, (Except.error.inj h).symm⟩

end

theorem outcome_ofValues_ok_iff (context context' : String) (declarations : List Declaration)
    (entries : List Yaml.Value) :
    (ofValues context entries).outcome = .ok declarations ↔
      (ofValues context' entries).outcome = .ok declarations := by
  rw [outcome_ofValues_eq_ok_iff, outcome_ofValues_eq_ok_iff]

/-- A list that fails fails with the same entry in every context. -/
theorem outcome_ofValues_missing_iff (context context' quoted : String)
    (entries : List Yaml.Value) :
    (ofValues context entries).outcome = .error (.missingRoleName context quoted) ↔
      (ofValues context' entries).outcome = .error (.missingRoleName context' quoted) := by
  rcases named_or_first_nameless entries with
    ⟨made, hmade⟩ | ⟨before, entry, after, rfl, hbefore, hnameless⟩
  · rw [ofValues_of_declares context hmade, ofValues_of_declares context' hmade]
    exact iff_of_false nofun nofun
  · rw [ofValues_of_first_nameless context after hbefore hnameless,
      ofValues_of_first_nameless context' after hbefore hnameless]
    simp

end Declaration

/-! ## Playbooks and metadata -/

open Declaration (Nameless quote ofDocument)

theorem Metadata.ofValue_eq (path : Path) (document : Yaml.Value) :
    Metadata.ofValue path document =
      ofDocument Metadata.entries (.invalidMetadata path) path.display document := rfl

theorem Playbook.ofValue_eq (path : Path) (document : Yaml.Value) :
    Playbook.ofValue path document =
      Playbook.mk path <$>
        ofDocument Playbook.entries (.invalidPlaybook path) path.display document := by
  unfold ofDocument
  rw [map_bind]
  rfl

/-- A playbook is the declarations that its document lists, beside the path. -/
theorem Playbook.outcome_ofValue (path : Path) (document : Yaml.Value) :
    (Playbook.ofValue path document).outcome =
      (ofDocument Playbook.entries (.invalidPlaybook path) path.display document).outcome.map
        (Playbook.mk path) := by
  rw [Playbook.ofValue_eq, Logged.outcome_map]

theorem Playbook.outcome_ofValue_eq_ok_iff {path : Path} {playbook : Playbook} :
    (Playbook.ofValue path document).outcome = .ok playbook ↔
      ∃ declarations, playbook = ⟨path, declarations⟩ ∧
        (ofDocument Playbook.entries (.invalidPlaybook path) path.display document).outcome =
          .ok declarations := by
  rw [Playbook.outcome_ofValue]
  generalize (ofDocument _ _ path.display document).outcome = outcome
  cases outcome with
  | error e => simp [Except.map]
  | ok listed => simp [Except.map, eq_comm]

theorem Playbook.outcome_ofValue_eq_error_iff {path : Path} {e : InputError} :
    (Playbook.ofValue path document).outcome = .error e ↔
      (ofDocument Playbook.entries (.invalidPlaybook path) path.display document).outcome =
        .error e := by
  rw [Playbook.outcome_ofValue]
  generalize (ofDocument _ _ path.display document).outcome = outcome
  cases outcome with
  | error e' => simp [Except.map]
  | ok listed => simp [Except.map]

theorem Playbook.exists_outcome_ofValue_iff (path : Path) (document : Yaml.Value) :
    (∃ playbook, (Playbook.ofValue path document).outcome = .ok playbook) ↔
      ∃ entries, Playbook.Lists document entries ∧ ∀ e ∈ entries, ¬ Nameless e := by
  have hshape (entries : List Yaml.Value) :
      Playbook.entries document = .ok entries ↔ Playbook.Lists document entries :=
    Playbook.entries_eq_ok_iff
  rw [← Declaration.exists_outcome_ofDocument_iff (InputError.invalidPlaybook path) path.display hshape]
  constructor
  · rintro ⟨playbook, h⟩
    obtain ⟨declarations, -, hdeclarations⟩ := Playbook.outcome_ofValue_eq_ok_iff.mp h
    exact ⟨declarations, hdeclarations⟩
  · rintro ⟨declarations, h⟩
    exact ⟨⟨path, declarations⟩, Playbook.outcome_ofValue_eq_ok_iff.mpr ⟨declarations, rfl, h⟩⟩

theorem Playbook.entries_congr {play play' : List (Yaml.Value × Yaml.Value)}
    (h : ∀ value, Has play "roles" value ↔ Has play' "roles" value) (plays : List Yaml.Value) :
    Playbook.entries (.sequence (.mapping play :: plays)) =
      Playbook.entries (.sequence (.mapping play' :: plays)) := by
  simp only [Playbook.entries, Yaml.Value.lookup?_congr h]

theorem Playbook.entries_first (first : Yaml.Value) (plays plays' : List Yaml.Value) :
    Playbook.entries (.sequence (first :: plays)) =
      Playbook.entries (.sequence (first :: plays')) := by
  cases first <;> rfl

theorem Metadata.entries_congr {fields fields' : List (Yaml.Value × Yaml.Value)}
    (h : ∀ value, Has fields "dependencies" value ↔ Has fields' "dependencies" value) :
    Metadata.entries (.mapping fields) = Metadata.entries (.mapping fields') := by
  simp only [Metadata.entries, Yaml.Value.lookup?_congr h]

theorem Playbook.ofValue_congr (path : Path) {document document' : Yaml.Value}
    (h : Playbook.entries document = Playbook.entries document') :
    Playbook.ofValue path document = Playbook.ofValue path document' := by
  rw [Playbook.ofValue_eq, Playbook.ofValue_eq]
  unfold ofDocument
  rw [h]

theorem Metadata.ofValue_congr (path : Path) {document document' : Yaml.Value}
    (h : Metadata.entries document = Metadata.entries document') :
    Metadata.ofValue path document = Metadata.ofValue path document' := by
  rw [Metadata.ofValue_eq, Metadata.ofValue_eq]
  unfold ofDocument
  rw [h]

section

variable {path path' : Path} {document' : Yaml.Value}

/-- The same list gives the same declarations in a playbook and in metadata. -/
theorem outcome_ok_iff_of_lists {declarations : List Declaration}
    (h : Playbook.Lists document entries) (h' : Metadata.Lists document' entries) :
    (Playbook.ofValue path document).outcome = .ok ⟨path, declarations⟩ ↔
      (Metadata.ofValue path' document').outcome = .ok declarations := by
  have hroles := Playbook.entries_eq_ok_iff.mpr h
  have hdependencies := Metadata.entries_eq_ok_iff.mpr h'
  rw [Playbook.outcome_ofValue_eq_ok_iff, Metadata.ofValue_eq,
    Declaration.ofDocument_of_ok path.display hroles,
    Declaration.ofDocument_of_ok path'.display hdependencies,
    ← Declaration.outcome_ofValues_ok_iff path.display path'.display declarations entries]
  constructor
  · rintro ⟨declarations, ⟨⟩, hread⟩
    exact hread
  · intro hread
    exact ⟨declarations, rfl, hread⟩

/-- The same list is failed by the same entry in a playbook and in metadata. -/
theorem outcome_missing_iff_of_lists {quoted : String} (h : Playbook.Lists document entries)
    (h' : Metadata.Lists document' entries) :
    (Playbook.ofValue path document).outcome = .error (.missingRoleName path.display quoted) ↔
      (Metadata.ofValue path' document').outcome = .error (.missingRoleName path'.display quoted) := by
  have hroles := Playbook.entries_eq_ok_iff.mpr h
  have hdependencies := Metadata.entries_eq_ok_iff.mpr h'
  rw [Playbook.outcome_ofValue_eq_error_iff, Metadata.ofValue_eq,
    Declaration.ofDocument_of_ok path.display hroles,
    Declaration.ofDocument_of_ok path'.display hdependencies]
  exact Declaration.outcome_ofValues_missing_iff path.display path'.display quoted entries

end

/-- **Playbooks and metadata are read by the list of roles that they hold.** A playbook is read exactly
if its first play is a mapping with a list under `roles`, and metadata exactly if it is null or a mapping
with a list, null or nothing under `dependencies`, where every mapping in the list names a role; without a
list, metadata declares nothing. What is not read fails with the first mapping of its list that names no
role, or has no list and is an invalid playbook, or invalid metadata, at the path. Nothing else in the
document shows: not the plays behind the first one, and not what stands under other keys. The same list
gives the same declarations, or is failed by the same entry, in a playbook and in metadata. -/
theorem read_by_listed_roles (reader : Yaml.Reader) (path : Path) :
    (∀ text document, reader text = .ok document →
      Playbook.ofText reader text path = Playbook.ofValue path document ∧
      (Text.isBlankText text = false →
        Metadata.ofText reader text path = Metadata.ofValue path document)) ∧
    (∀ document,
      ((∃ playbook, (Playbook.ofValue path document).outcome = .ok playbook) ↔
        ∃ entries, Playbook.Lists document entries ∧ ∀ e ∈ entries, ¬ Nameless e) ∧
      ((∃ declarations, (Metadata.ofValue path document).outcome = .ok declarations) ↔
        ∃ entries, Metadata.Lists document entries ∧ ∀ e ∈ entries, ¬ Nameless e) ∧
      (Metadata.Lists document [] → Metadata.ofValue path document = pure []) ∧
      (∀ e, (Playbook.ofValue path document).outcome = .error e →
        (∃ before entry after, Playbook.Lists document (before ++ entry :: after) ∧
          (∀ e ∈ before, ¬ Nameless e) ∧ Nameless entry ∧
          e = .missingRoleName path.display (quote entry)) ∨
        (∀ entries, ¬ Playbook.Lists document entries) ∧ ∃ cause, e = .invalidPlaybook path cause) ∧
      (∀ e, (Metadata.ofValue path document).outcome = .error e →
        (∃ before entry after, Metadata.Lists document (before ++ entry :: after) ∧
          (∀ e ∈ before, ¬ Nameless e) ∧ Nameless entry ∧
          e = .missingRoleName path.display (quote entry)) ∨
        (∀ entries, ¬ Metadata.Lists document entries) ∧ ∃ cause, e = .invalidMetadata path cause)) ∧
    (∀ first plays plays', Playbook.ofValue path (.sequence (first :: plays)) =
      Playbook.ofValue path (.sequence (first :: plays'))) ∧
    (∀ play play' plays, (∀ value, Has play "roles" value ↔ Has play' "roles" value) →
      Playbook.ofValue path (.sequence (.mapping play :: plays)) =
        Playbook.ofValue path (.sequence (.mapping play' :: plays))) ∧
    (∀ fields fields',
      (∀ value, Has fields "dependencies" value ↔ Has fields' "dependencies" value) →
      Metadata.ofValue path (.mapping fields) = Metadata.ofValue path (.mapping fields')) ∧
    ∀ path' document document' entries,
      Playbook.Lists document entries → Metadata.Lists document' entries →
      (∀ declarations, (Playbook.ofValue path document).outcome = .ok ⟨path, declarations⟩ ↔
        (Metadata.ofValue path' document').outcome = .ok declarations) ∧
      ∀ quoted,
        (Playbook.ofValue path document).outcome = .error (.missingRoleName path.display quoted) ↔
          (Metadata.ofValue path' document').outcome =
            .error (.missingRoleName path'.display quoted) := by
  refine ⟨?_, fun document => ⟨?_, ?_, ?_, ?_, ?_⟩, ?_, ?_, ?_, ?_⟩
  · intro text document hdocument
    refine ⟨?_, fun hblank => ?_⟩
    · unfold Playbook.ofText
      rw [hdocument]
      rfl
    · unfold Metadata.ofText
      rw [if_neg (Bool.eq_false_iff.mp hblank), hdocument]
      rfl
  · exact Playbook.exists_outcome_ofValue_iff path document
  · exact Declaration.exists_outcome_ofDocument_iff _ path.display fun _ => Metadata.entries_eq_ok_iff
  · intro hnone
    rw [Metadata.ofValue_eq,
      Declaration.ofDocument_of_ok path.display (Metadata.entries_eq_ok_iff.mpr hnone)]
    rfl
  · intro e he
    exact Declaration.rejected_ofDocument (fun _ => Playbook.entries_eq_ok_iff)
      (Playbook.outcome_ofValue_eq_error_iff.mp he)
  · intro e he
    exact Declaration.rejected_ofDocument (fun _ => Metadata.entries_eq_ok_iff) he
  · intro first plays plays'
    exact Playbook.ofValue_congr path (Playbook.entries_first first plays plays')
  · intro play play' plays hroles
    exact Playbook.ofValue_congr path (Playbook.entries_congr hroles plays)
  · intro fields fields' hdependencies
    exact Metadata.ofValue_congr path (Metadata.entries_congr hdependencies)
  · intro path' document document' entries hlists hlists'
    exact ⟨fun _ => outcome_ok_iff_of_lists hlists hlists',
      fun _ => outcome_missing_iff_of_lists hlists hlists'⟩

/-- Roles in the list of a play or of metadata, and an entry that names none. -/
def listedRoles : List Yaml.Value :=
  [.string "common", .null, .mapping [(.string "when", .null), (.string "role", .string "db")]]

/-- A playbook of two plays, the first of which has `entries`. -/
def twoPlays (entries : List Yaml.Value) : Yaml.Value :=
  .sequence [.mapping [(.string "hosts", .string "all"), (.string "roles", .sequence entries)],
    .string "import"]

/-- The metadata of a role that depends on `entries`. -/
def metadataOf (entries : List Yaml.Value) : Yaml.Value :=
  .mapping [(.string "allow", .bool true), (.string "dependencies", .sequence entries)]

theorem lists_twoPlays (entries : List Yaml.Value) :
    Playbook.Lists (twoPlays entries) entries :=
  ⟨_, _, rfl, (Yaml.Value.has_cons_self _ _ _).cons (by simp)⟩

theorem lists_metadataOf (entries : List Yaml.Value) :
    Metadata.Lists (metadataOf entries) entries :=
  .list ((Yaml.Value.has_cons_self _ _ _).cons (by simp))

theorem read_by_listed_roles_shared :
    (∃ document, Yaml.plainReader "- roles: [common]" = .ok document ∧
      Playbook.ofText Yaml.plainReader "- roles: [common]" "site.yml" =
        Playbook.ofValue "site.yml" document ∧
      ∃ entries, Playbook.Lists document entries ∧ ∀ e ∈ entries, ¬ Nameless e) ∧
    Playbook.Lists (twoPlays listedRoles) listedRoles ∧
    Metadata.Lists (metadataOf listedRoles) listedRoles ∧
    (Metadata.ofValue "main.yml" (metadataOf listedRoles)).outcome =
      .ok [.bare "common", .mapping "db" true] ∧
    (Playbook.ofValue "site.yml" (twoPlays listedRoles)).outcome =
      .ok ⟨"site.yml", [.bare "common", .mapping "db" true]⟩ ∧
    (Playbook.ofValue "site.yml" (.sequence [])).outcome =
      .error (.invalidPlaybook "site.yml" .noPlay) ∧
    (∀ entries, ¬ Playbook.Lists (.sequence []) entries) := by
  obtain ⟨htext, hdocument, -, -, -, hshared⟩ := read_by_listed_roles Yaml.plainReader "site.yml"
  refine ⟨?_, lists_twoPlays _, lists_metadataOf _, rfl, ?_, rfl, ?_⟩
  · have hok : (Playbook.ofText Yaml.plainReader "- roles: [common]" "site.yml").outcome =
        .ok ⟨"site.yml", [.bare "common"]⟩ := by decide +kernel
    cases hvalue : Yaml.plainReader "- roles: [common]" with
    | error fault =>
      have hfault : (Playbook.ofText Yaml.plainReader "- roles: [common]" "site.yml").outcome =
          .error (.notYaml "site.yml" fault) := by
        unfold Playbook.ofText
        rw [hvalue]
        rfl
      rw [hok] at hfault
      cases hfault
    | ok document =>
      have hread := (htext _ document hvalue).1
      rw [hread] at hok
      exact ⟨document, rfl, hread, (hdocument document).1.mp ⟨_, hok⟩⟩
  · exact ((hshared "main.yml" _ _ listedRoles (lists_twoPlays _) (lists_metadataOf _)).1 _).mpr rfl
  · have hrejected := (hdocument (.sequence [])).2.2.2.1 _ rfl
    rcases hrejected with ⟨_, _, _, ⟨_, _, hplays, _⟩, _⟩ | ⟨hnone, -⟩
    · cases hplays
    · exact hnone

end RoleChart
