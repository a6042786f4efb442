import RoleChart.Declaration
import RoleChart.Proofs.Mapping
import RoleChart.Proofs.Table
import Mathlib.Data.List.ReduceOption
import Mathlib.Data.List.Forall2
/-!
Lists of roles. What an entry declares is a relation between entries and declarations (`Declares`) that
does not look a key up; an entry is read as what it declares (`ofValue_of_declares`), or fails where it
is a mapping that names no role (`ofValue_of_nameless`). A list is then read entry by entry
(`ofValues_of_declares`), part by part (`ofValues_append`), and not beyond the first mapping that names
no role (`ofValues_of_first_nameless`): `ofValues_by_entries`.

That the parts of a list are read one after the other rests on the laws of `Logged`: what was written
before a failure stays, and nothing is written after it.
-/
namespace RoleChart

namespace Declaration

open Yaml.Value (Has)

/-- Whether an entry is passed over: it is neither a name nor a mapping. -/
def isSkipped : Yaml.Value → Bool
  | .string _ => false
  | .mapping _ => false
  | _ => true

/-- An entry names no role although it is a mapping. -/
def Nameless (entry : Yaml.Value) : Prop :=
  ∃ fields, entry = .mapping fields ∧ ∀ name, ¬ Has fields "role" (.string name)

/-- What an entry declares: a name declares a role, a mapping the role under `role`, under a condition
if there is anything under `when`, and any other entry nothing. -/
inductive Declares : Yaml.Value → Option Declaration → Prop where
  | name (name : String) : Declares (.string name) (some (.bare name))
  | mapping {fields : List (Yaml.Value × Yaml.Value)} {name : String} {optional : Bool}
    (hrole : Has fields "role" (.string name))
    (hwhen : optional = true ↔ ∃ condition, Has fields "when" condition) :
    Declares (.mapping fields) (some (.mapping name optional))
  | nothing {entry : Yaml.Value} (hskipped : isSkipped entry = true) : Declares entry none

/-- Two entries are the same, or are mappings with the same under `role` of which both or neither have
something under `when`. -/
inductive Agree : Yaml.Value → Yaml.Value → Prop where
  | refl (entry : Yaml.Value) : Agree entry entry
  | mapping {fields fields' : List (Yaml.Value × Yaml.Value)}
    (hrole : ∀ value, Has fields "role" value ↔ Has fields' "role" value)
    (hwhen : (∃ condition, Has fields "when" condition) ↔ ∃ condition, Has fields' "when" condition) :
    Agree (.mapping fields) (.mapping fields')

/-- A declaration as an entry of a list, where `condition` stands for any condition. -/
def written (condition : Yaml.Value) : Declaration → Yaml.Value
  | .bare name => .string name
  | .mapping name true => .mapping [(.string "role", .string name), (.string "when", condition)]
  | .mapping name false => .mapping [(.string "role", .string name)]

/-! ## One entry -/

variable {context : String} {entry entry' : Yaml.Value} {made : Option Declaration}

theorem nameless_or_declares (entry : Yaml.Value) : Nameless entry ∨ ∃ made, Declares entry made := by
  cases entry with
  | string name => exact Or.inr ⟨_, .name name⟩
  | mapping fields =>
    by_cases hrole : ∃ name, Has fields "role" (.string name)
    · obtain ⟨name, hname⟩ := hrole
      by_cases hwhen : ∃ condition, Has fields "when" condition
      · exact Or.inr ⟨_, .mapping hname (iff_of_true rfl hwhen)⟩
      · exact Or.inr ⟨_, .mapping hname (iff_of_false Bool.false_ne_true hwhen)⟩
    · exact Or.inl ⟨fields, rfl, fun name hname => hrole ⟨name, hname⟩⟩
  | _ => exact Or.inr ⟨none, .nothing rfl⟩

theorem ofValue_mapping (context : String) (fields : List (Yaml.Value × Yaml.Value)) :
    ofValue context (.mapping fields) =
      match Yaml.Value.lookup? "role" fields with
      | some (.string name) =>
        pure (some (.mapping name (Yaml.Value.lookup? "when" fields).isSome))
      | _ => .fail (.missingRoleName context (quote (.mapping fields))) := rfl

/-- An entry that declares something, or nothing, is read as that; it is reported exactly if it is
passed over. -/
theorem ofValue_of_declares (context : String) (h : Declares entry made) :
    ofValue context entry =
      ⟨if isSkipped entry then [skipped context entry] else [], .ok made⟩ := by
  cases h with
  | name name => rfl
  | @mapping fields name optional hrole hwhen =>
    have hlookup := Yaml.Value.lookup?_eq_some_iff.mpr hrole
    have hoptional : (Yaml.Value.lookup? "when" fields).isSome = optional := by
      rw [Bool.eq_iff_iff, Yaml.Value.isSome_lookup?_iff, hwhen]
    rw [ofValue_mapping, hlookup]
    dsimp only
    rw [hoptional]
    rfl
  | nothing hskipped =>
    cases entry with
    | string name => cases hskipped
    | mapping fields => cases hskipped
    | _ => rfl

theorem ofValue_of_nameless (context : String) (h : Nameless entry) :
    ofValue context entry = .fail (.missingRoleName context (quote entry)) := by
  obtain ⟨fields, rfl, hnameless⟩ := h
  rw [ofValue_mapping]
  split
  · next name hlookup => exact absurd (Yaml.Value.lookup?_eq_some_iff.mp hlookup) (hnameless name)
  · rfl

theorem not_nameless_of_declares (h : Declares entry made) : ¬ Nameless entry := by
  intro hnameless
  have hread := ofValue_of_declares "" h
  rw [ofValue_of_nameless "" hnameless] at hread
  cases congrArg Logged.outcome hread

/-! ## Lists of entries -/

theorem ofValues_cons (context : String) (entry : Yaml.Value) (entries : List Yaml.Value) :
    ofValues context (entry :: entries) = do
      let first ← ofValue context entry
      let others ← ofValues context entries
      return first.toList ++ others := rfl

/-- Entries that declare something or nothing are read as that, in order, with a warning for each that is
passed over. -/
theorem ofValues_of_declares (context : String) {entries : List Yaml.Value}
    {made : List (Option Declaration)} (h : List.Forall₂ Declares entries made) :
    ofValues context entries =
      ⟨(entries.filter isSkipped).map (skipped context), .ok made.reduceOption⟩ := by
  induction h with
  | nil => rfl
  | @cons entry first entries made hfirst hrest ih =>
    rw [ofValues_cons, ofValue_of_declares context hfirst, ih, Logged.bind_of_ok, Logged.bind_of_ok]
    have hmade : (first :: made).reduceOption = first.toList ++ made.reduceOption := by
      cases first <;> rfl
    have hwarnings : ((entry :: entries).filter isSkipped).map (skipped context) =
        (if isSkipped entry then [skipped context entry] else []) ++
          (entries.filter isSkipped).map (skipped context) := by
      cases hskipped : isSkipped entry <;> simp [hskipped]
    rw [hmade, hwarnings]
    show (⟨_ ++ (_ ++ []), _⟩ : Logged InputError (List Declaration)) = _
    rw [List.append_nil]
    rfl

/-- A list is read part by part. -/
theorem ofValues_append (context : String) (front rest : List Yaml.Value) :
    ofValues context (front ++ rest) = do
      let declarations ← ofValues context front
      let declarations' ← ofValues context rest
      return declarations ++ declarations' := by
  induction front with
  | nil => exact (bind_pure (ofValues context rest)).symm
  | cons entry front ih =>
    rw [List.cons_append, ofValues_cons, ofValues_cons, ih]
    simp only [bind_assoc, pure_bind, List.append_assoc]

theorem exists_declares {entries : List Yaml.Value} (h : ∀ e ∈ entries, ¬ Nameless e) :
    ∃ made, List.Forall₂ Declares entries made := by
  induction entries with
  | nil => exact ⟨[], .nil⟩
  | cons entry entries ih =>
    obtain ⟨hfirst, hrest⟩ := List.forall_mem_cons.mp h
    obtain ⟨first, hdeclares⟩ := (nameless_or_declares entry).resolve_left hfirst
    obtain ⟨made, hmade⟩ := ih hrest
    exact ⟨first :: made, .cons hdeclares hmade⟩

theorem not_nameless_of_forall₂ {entries : List Yaml.Value} {made : List (Option Declaration)}
    (h : List.Forall₂ Declares entries made) : ∀ e ∈ entries, ¬ Nameless e := by
  induction h with
  | nil => intro e he; exact absurd he List.not_mem_nil
  | cons hfirst _ ih =>
    intro e he
    rcases List.mem_cons.mp he with rfl | he
    · exact not_nameless_of_declares hfirst
    · exact ih e he

/-- The first entry of a list that names no role ends the reading: nothing behind it matters. -/
theorem ofValues_of_first_nameless (context : String) {before : List Yaml.Value}
    (after : List Yaml.Value) (hbefore : ∀ e ∈ before, ¬ Nameless e) (h : Nameless entry) :
    ofValues context (before ++ entry :: after) =
      ⟨(before.filter isSkipped).map (skipped context),
        .error (.missingRoleName context (quote entry))⟩ := by
  obtain ⟨made, hmade⟩ := exists_declares hbefore
  rw [ofValues_append, ofValues_of_declares context hmade, Logged.bind_of_ok, ofValues_cons,
    ofValue_of_nameless context h, Logged.fail_bind, Logged.fail_bind]
  show (⟨_ ++ [], .error _⟩ : Logged InputError (List Declaration)) = _
  rw [List.append_nil]

theorem named_or_first_nameless (entries : List Yaml.Value) :
    (∃ made, List.Forall₂ Declares entries made) ∨
      ∃ before entry after, entries = before ++ entry :: after ∧
        (∀ e ∈ before, ¬ Nameless e) ∧ Nameless entry := by
  by_cases hsome : ∃ e ∈ entries, Nameless e
  · exact Or.inr (exists_first hsome)
  · have hnamed : ∀ e ∈ entries, ¬ Nameless e := fun e he h => hsome ⟨e, he, h⟩
    exact Or.inl (exists_declares hnamed)

/-- What is read of a list is what its entries declare. -/
theorem outcome_ofValues_eq_ok_iff (context : String) (entries : List Yaml.Value)
    (declarations : List Declaration) :
    (ofValues context entries).outcome = .ok declarations ↔
      ∃ made, List.Forall₂ Declares entries made ∧ declarations = made.reduceOption := by
  constructor
  · intro h
    rcases named_or_first_nameless entries with
      ⟨made, hmade⟩ | ⟨before, entry, after, rfl, hbefore, hnameless⟩
    · rw [ofValues_of_declares context hmade] at h
      exact ⟨made, hmade, (Except.ok.inj h).symm⟩
    · rw [ofValues_of_first_nameless context after hbefore hnameless] at h
      cases h
  · rintro ⟨made, hmade, rfl⟩
    rw [ofValues_of_declares context hmade]

/-- A list is read exactly if each of its mappings names a role. -/
theorem exists_outcome_ofValues_iff (context : String) (entries : List Yaml.Value) :
    (∃ declarations, (ofValues context entries).outcome = .ok declarations) ↔
      ∀ e ∈ entries, ¬ Nameless e := by
  constructor
  · rintro ⟨declarations, h⟩
    obtain ⟨made, hmade, -⟩ := (outcome_ofValues_eq_ok_iff context entries declarations).mp h
    exact not_nameless_of_forall₂ hmade
  · intro hnamed
    obtain ⟨made, hmade⟩ := exists_declares hnamed
    exact ⟨_, (outcome_ofValues_eq_ok_iff context entries _).mpr ⟨made, hmade, rfl⟩⟩

/-! ## What a declaration depends on, and how it is written -/

theorem Agree.symm (h : Agree entry entry') : Agree entry' entry := by
  cases h with
  | refl => exact .refl _
  | mapping hrole hwhen => exact .mapping (fun value => (hrole value).symm) hwhen.symm

theorem Agree.declares (h : Agree entry entry') (hmade : Declares entry made) :
    Declares entry' made := by
  cases h with
  | refl => exact hmade
  | mapping hrole hwhen =>
    cases hmade with
    | mapping hname hoptional => exact .mapping ((hrole _).mp hname) (hoptional.trans hwhen)
    | nothing hskipped => cases hskipped

theorem forall₂_declares_of_agree {entries entries' : List Yaml.Value}
    {made : List (Option Declaration)} (h : List.Forall₂ Agree entries entries')
    (hmade : List.Forall₂ Declares entries made) : List.Forall₂ Declares entries' made := by
  induction h generalizing made with
  | nil => exact hmade
  | cons hfirst _ ih =>
    cases hmade with
    | cons hdeclares hrest => exact .cons (hfirst.declares hdeclares) (ih hrest)

/-- Neither another key of a mapping nor the condition nor the order of the keys shows. -/
theorem agree_of_perm {fields fields' : List (Yaml.Value × Yaml.Value)}
    (hdistinct : Yaml.Value.distinctKeys fields = true) (hperm : fields.Perm fields') :
    Agree (.mapping fields) (.mapping fields') := by
  refine .mapping (fun value => Has.of_perm hdistinct hperm) ?_
  simp only [Has.of_perm hdistinct hperm]

theorem declares_written (condition : Yaml.Value) (d : Declaration) :
    Declares (written condition d) (some d) := by
  cases d with
  | bare name => exact .name name
  | mapping name optional =>
    have hrole (rest : List (Yaml.Value × Yaml.Value)) :
        Has ((.string "role", .string name) :: rest) "role" (.string name) :=
      Yaml.Value.has_cons_self _ _ rest
    cases optional with
    | true =>
      have hwhen : Has [(.string "role", .string name), (.string "when", condition)] "when"
          condition := (Yaml.Value.has_cons_self "when" condition []).cons (by simp)
      exact .mapping (hrole _) (iff_of_true rfl ⟨condition, hwhen⟩)
    | false =>
      have hnone : ¬ ∃ c, Has [(.string "role", .string name)] "when" c := by
        rintro ⟨c, hc⟩
        have hmem := hc.mem
        simp at hmem
      exact .mapping (hrole []) (iff_of_false Bool.false_ne_true hnone)

theorem isSkipped_written (condition : Yaml.Value) (d : Declaration) :
    isSkipped (written condition d) = false := by
  cases d with
  | bare name => rfl
  | mapping name optional => cases optional <;> rfl

theorem ofValues_written (context : String) (condition : Yaml.Value)
    (declarations : List Declaration) :
    ofValues context (declarations.map (written condition)) = pure declarations := by
  have hmade : List.Forall₂ Declares (declarations.map (written condition))
      (declarations.map some) := by
    rw [List.forall₂_map_left_iff, List.forall₂_map_right_iff, List.forall₂_same]
    exact fun d _ => declares_written condition d
  have hskipped : (declarations.map (written condition)).filter isSkipped = [] := by
    rw [List.filter_eq_nil_iff]
    intro entry hentry
    obtain ⟨d, -, rfl⟩ := List.mem_map.mp hentry
    simp [isSkipped_written]
  have hreduce : (declarations.map some).reduceOption = declarations := by
    simp [List.reduceOption]
  rw [ofValues_of_declares context hmade, hskipped, hreduce]
  rfl

/-- **A list of roles is read entry by entry, up to the first mapping that names no role.** It is read
exactly if every mapping in it has a text under `role`. The declarations are then those that the entries
declare, in order, and there is one warning for each entry that is passed over and no other. The first
mapping that names no role fails the list in its context, with the warnings up to there, whatever stands
behind it. So the parts of a list are read one after the other, and declarations that are written as
entries, under any condition, are read back. What a mapping declares depends on nothing but its value
under `role` and on whether there is one under `when`: not on the order of its keys, as none stands
twice. -/
theorem ofValues_by_entries (context : String) :
    (∀ entries, (∃ declarations, (ofValues context entries).outcome = .ok declarations) ↔
      ∀ e ∈ entries, ¬ Nameless e) ∧
    (∀ entries declarations, (ofValues context entries).outcome = .ok declarations ↔
      ∃ made, List.Forall₂ Declares entries made ∧ declarations = made.reduceOption) ∧
    (∀ entries declarations, (ofValues context entries).outcome = .ok declarations →
      (ofValues context entries).entries = (entries.filter isSkipped).map (skipped context)) ∧
    (∀ before entry after, (∀ e ∈ before, ¬ Nameless e) → Nameless entry →
      ofValues context (before ++ entry :: after) =
        ⟨(before.filter isSkipped).map (skipped context),
          .error (.missingRoleName context (quote entry))⟩) ∧
    (∀ front rest, ofValues context (front ++ rest) = do
      let declarations ← ofValues context front
      let declarations' ← ofValues context rest
      return declarations ++ declarations') ∧
    (∀ condition declarations,
      ofValues context (declarations.map (written condition)) = pure declarations) ∧
    (∀ entries entries' declarations, List.Forall₂ Agree entries entries' →
      ((ofValues context entries).outcome = .ok declarations ↔
        (ofValues context entries').outcome = .ok declarations)) ∧
    ∀ fields fields', Yaml.Value.distinctKeys fields = true → fields.Perm fields' →
      Agree (.mapping fields) (.mapping fields') := by
  refine ⟨exists_outcome_ofValues_iff context, outcome_ofValues_eq_ok_iff context, ?_,
    fun _ _ after => ofValues_of_first_nameless context after, ofValues_append context,
    ofValues_written context, ?_, fun _ _ => agree_of_perm⟩
  · intro entries declarations h
    obtain ⟨made, hmade, -⟩ := (outcome_ofValues_eq_ok_iff context entries declarations).mp h
    rw [ofValues_of_declares context hmade]
  · intro entries entries' declarations hagree
    rw [outcome_ofValues_eq_ok_iff, outcome_ofValues_eq_ok_iff]
    constructor
    · rintro ⟨made, hmade, hdeclarations⟩
      exact ⟨made, forall₂_declares_of_agree hagree hmade, hdeclarations⟩
    · rintro ⟨made, hmade, hdeclarations⟩
      have hback : List.Forall₂ Agree entries' entries := hagree.flip.imp fun _ _ h => h.symm
      exact ⟨made, forall₂_declares_of_agree hback hmade, hdeclarations⟩

/-- A condition and a role, and the same entries the other way round. -/
def conditional (first : Bool) : List (Yaml.Value × Yaml.Value) :=
  if first then [(.string "when", .bool false), (.string "role", .string "db")]
  else [(.string "role", .string "db"), (.string "when", .bool false)]

/-- A mapping with a name, which is not the name of a role. -/
def anonymous : Yaml.Value := .mapping [(.string "name", .string "db")]

/-- Entries of every kind, each of which is a role or passed over. -/
def mixed : List Yaml.Value :=
  [.null, .string "common", .sequence [anonymous], .mapping (conditional true)]

theorem ofValues_by_entries_mixed :
    (ofValues "site.yml" mixed).outcome = .ok [.bare "common", .mapping "db" true] ∧
    (ofValues "site.yml" mixed).entries =
      [skipped "site.yml" .null, skipped "site.yml" (.sequence [anonymous])] ∧
    (∀ e ∈ mixed, ¬ Nameless e) ∧ Nameless anonymous ∧
    ofValues "site.yml" (mixed ++ anonymous :: [.string "late"]) =
      ⟨[skipped "site.yml" .null, skipped "site.yml" (.sequence [anonymous])],
        .error (.missingRoleName "site.yml" (quote anonymous))⟩ ∧
    Yaml.Value.distinctKeys (conditional true) = true ∧
    (conditional true).Perm (conditional false) ∧
    (ofValues "site.yml" [.mapping (conditional false)]).outcome = .ok [.mapping "db" true] := by
  obtain ⟨hnamed, -, hwarned, hfirst, -, -, hagree, hperm⟩ := ofValues_by_entries "site.yml"
  have hread : (ofValues "site.yml" mixed).outcome = .ok [.bare "common", .mapping "db" true] := rfl
  have hmixed : ∀ e ∈ mixed, ¬ Nameless e := (hnamed mixed).mp ⟨_, hread⟩
  have hanonymous : Nameless anonymous := by
    refine ⟨[(.string "name", .string "db")], rfl, ?_⟩
    intro name hname
    have hmem := hname.mem
    simp at hmem
  have hdistinct : Yaml.Value.distinctKeys (conditional true) = true := by decide
  have hswap : (conditional true).Perm (conditional false) := List.Perm.swap _ _ []
  have hsame : List.Forall₂ Agree [.mapping (conditional true)] [.mapping (conditional false)] :=
    .cons (hperm _ _ hdistinct hswap) .nil
  exact ⟨hread, hwarned mixed _ hread, hmixed, hanonymous, hfirst mixed anonymous _ hmixed hanonymous,
    hdistinct, hswap, (hagree _ _ _ hsame).mp rfl⟩

end Declaration

end RoleChart
