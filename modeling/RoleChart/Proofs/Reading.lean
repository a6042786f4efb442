import RoleChart.Proofs.References
import Mathlib.Data.Set.Card
/-!
The loop that reads metadata, one pop after the other. `Reading.Ends` is the loop without a bound on
the names asked for: a name in front that was read is passed over, another one is asked for, and what
it refers to waits at the end. Where the loop ends, `Reading.run` has the same outcome as soon as the
bound admits the names asked for (`run_of_ends`), and every outcome of `Reading.run` is that of a loop
that ends (`ends_of_run`).

Over finitely many reachable names the loop always ends (`exists_ends`). Then either a role that can
be reached could not be read, or the metadata read is that of exactly the roles that can be reached
(`complete_of_ends`).
-/
namespace RoleChart

open References (names)

namespace Resolved

theorem references_set (metadata : Resolved) (key name : String) (value : List Reference) :
    Resolved.references (metadata.set key value) name =
      if name = key then value else metadata.references name := by
  unfold references
  rw [Table.get?_set]
  split <;> rfl

theorem references_of_not_mem {metadata : Resolved} {name : String} (h : name ∉ metadata.keys) :
    metadata.references name = [] := by
  rw [references, (metadata.get?_eq_none_iff name).mpr h, Option.getD_none]

end Resolved

namespace Reading

variable {source : Source}

/-! ## One pop -/

theorem askAll_nil (limit : Nat) (known : Resolved) :
    askAll source limit [] known = ended (some (.ok known)) := by
  cases limit <;> rfl

theorem askAll_passed {limit : Nat} {name : String} {rest : List String} {known : Resolved}
    (h : name ∈ known.keys) :
    askAll source limit (name :: rest) known = askAll source limit rest known := by
  have hdrop : (name :: rest).dropWhile known.contains = rest.dropWhile known.contains := by
    rw [List.dropWhile_cons, if_pos ((known.contains_iff name).mpr h)]
  cases limit <;> simp only [askAll, hdrop]

theorem dropWhile_unknown {name : String} {rest : List String} {known : Resolved}
    (h : name ∉ known.keys) : (name :: rest).dropWhile known.contains = name :: rest := by
  rw [List.dropWhile_cons, if_neg (mt (known.contains_iff name).mp h)]

theorem askAll_failed {limit : Nat} {name : String} {rest : List String} {known : Resolved}
    {e : InputError} (h : name ∉ known.keys) (he : (source name).outcome = .error e) :
    askAll source (limit + 1) (name :: rest) known =
      ⟨[name], (source name).entries, some (.error e)⟩ := by
  simp only [askAll, dropWhile_unknown h, he]

theorem askAll_read {limit : Nat} {name : String} {rest : List String} {known : Resolved}
    {answer : Option (List Declaration)} (h : name ∉ known.keys)
    (ha : (source name).outcome = .ok answer) :
    askAll source (limit + 1) (name :: rest) known =
      let later := askAll source limit (rest ++ names (referencesOf answer))
        (known.set name (referencesOf answer))
      ⟨name :: later.asked,
        (source name).entries ++ resolved name (referencesOf answer) :: later.entries,
        later.outcome⟩ := by
  simp only [askAll, dropWhile_unknown h, ha]

/-! ## The loop -/

/-- The loop ends: from the names that wait and the metadata read so far, with the names asked for
and what came of it. -/
inductive Ends (source : Source) :
    List String → Resolved → List String → Except InputError Resolved → Prop
  | done (known : Resolved) : Ends source [] known [] (.ok known)
  | passed {name : String} {rest asked : List String} {known : Resolved}
    {result : Except InputError Resolved} (h : name ∈ known.keys) :
    Ends source rest known asked result → Ends source (name :: rest) known asked result
  | failed {name : String} {rest : List String} {known : Resolved} {e : InputError}
    (h : name ∉ known.keys) (he : (source name).outcome = .error e) :
    Ends source (name :: rest) known [name] (.error e)
  | read {name : String} {rest asked : List String} {known : Resolved}
    {answer : Option (List Declaration)} {result : Except InputError Resolved}
    (h : name ∉ known.keys) (ha : (source name).outcome = .ok answer) :
    Ends source (rest ++ names (referencesOf answer)) (known.set name (referencesOf answer)) asked
      result →
    Ends source (name :: rest) known (name :: asked) result

/-- The bound does not matter once it admits the names that the loop asks for. -/
theorem askAll_of_ends {pending asked : List String} {known : Resolved}
    {result : Except InputError Resolved} (h : Ends source pending known asked result) :
    ∀ limit, asked.length ≤ limit →
      (askAll source limit pending known).asked = asked ∧
        (askAll source limit pending known).outcome = some result := by
  induction h with
  | done known =>
    intro limit _
    rw [askAll_nil]
    exact ⟨rfl, rfl⟩
  | passed hknown _ ih =>
    intro limit hl
    rw [askAll_passed hknown]
    exact ih limit hl
  | failed hnew he =>
    intro limit hl
    obtain ⟨limit, rfl⟩ := Nat.exists_eq_add_of_le' hl
    rw [List.length_singleton, askAll_failed hnew he]
    exact ⟨rfl, rfl⟩
  | read hnew ha _ ih =>
    intro limit hl
    cases limit with
    | zero => exact absurd hl (Nat.not_succ_le_zero _)
    | succ limit =>
      obtain ⟨hasked, houtcome⟩ := ih limit (Nat.le_of_succ_le_succ hl)
      rw [askAll_read hnew ha]
      exact ⟨congrArg _ hasked, houtcome⟩

theorem run_of_ends {roots : List Reference} {asked : List String}
    {result : Except InputError Resolved} (h : Ends source (names roots) .empty asked result)
    {limit : Nat} (hl : asked.length ≤ limit) :
    (run source limit roots).asked = asked ∧ (run source limit roots).outcome = some result :=
  askAll_of_ends h limit hl

/-- The names asked for, and what comes of it, are determined. -/
theorem Ends.unique {pending asked asked' : List String} {known : Resolved}
    {result result' : Except InputError Resolved} (h : Ends source pending known asked result)
    (h' : Ends source pending known asked' result') : asked = asked' ∧ result = result' := by
  obtain ⟨hasked, hresult⟩ := askAll_of_ends h (max asked.length asked'.length) (le_max_left _ _)
  obtain ⟨hasked', hresult'⟩ :=
    askAll_of_ends h' (max asked.length asked'.length) (le_max_right _ _)
  exact ⟨hasked.symm.trans hasked', Option.some.inj (hresult.symm.trans hresult')⟩

theorem ends_of_dropWhile {pending asked : List String} {known : Resolved}
    {result : Except InputError Resolved}
    (h : Ends source (pending.dropWhile known.contains) known asked result) :
    Ends source pending known asked result := by
  induction pending with
  | nil => exact h
  | cons name rest ih =>
    by_cases hname : name ∈ known.keys
    · rw [List.dropWhile_cons, if_pos ((known.contains_iff name).mpr hname)] at h
      exact .passed hname (ih h)
    · rwa [dropWhile_unknown hname] at h

/-- A loop that has an outcome within some bound comes to its end, having asked for the same names. -/
theorem ends_of_askAll {limit : Nat} {pending : List String} {known : Resolved}
    {result : Except InputError Resolved}
    (h : (askAll source limit pending known).outcome = some result) :
    Ends source pending known (askAll source limit pending known).asked result := by
  refine ends_of_dropWhile ?_
  induction limit generalizing pending known with
  | zero =>
    unfold askAll at h ⊢
    split at h
    · next hdrop =>
      rw [hdrop, ← Option.some.inj h]
      exact .done known
    · cases h
  | succ limit ih =>
    unfold askAll at h ⊢
    split at h
    · next hdrop =>
      rw [hdrop, ← Option.some.inj h]
      exact .done known
    · next name rest hdrop =>
      have hname : name ∉ known.keys := by
        have hhead : known.contains name = false := by
          simpa [hdrop] using List.head?_dropWhile_not known.contains pending
        rw [← known.contains_iff, hhead]
        exact Bool.false_ne_true
      rw [hdrop]
      dsimp only at h ⊢
      split at h
      · next e he =>
        rw [← Option.some.inj h]
        exact .failed hname he
      · next answer ha =>
        exact .read hname ha (ends_of_dropWhile (ih h))

theorem length_asked_le (source : Source) (limit : Nat) (pending : List String)
    (known : Resolved) : (askAll source limit pending known).asked.length ≤ limit := by
  induction limit generalizing pending known with
  | zero =>
    unfold askAll
    split <;> exact Nat.le_refl 0
  | succ limit ih =>
    unfold askAll
    split
    · exact Nat.zero_le _
    · dsimp only
      split
      · exact Nat.succ_le_succ (Nat.zero_le limit)
      · exact Nat.succ_le_succ (ih _ _)

theorem ends_of_run {limit : Nat} {roots : List Reference} {result : Except InputError Resolved}
    (h : (run source limit roots).outcome = some result) :
    Ends source (names roots) .empty (run source limit roots).asked result :=
  ends_of_askAll h

/-! ## What was read -/

namespace Ends

variable {pending asked : List String} {known : Resolved}

/-- Each name that is asked for was not read before, and the names read stand in the order of
asking. -/
theorem keys_eq {metadata : Resolved} (h : Ends source pending known asked (.ok metadata)) :
    metadata.keys = known.keys ++ asked := by
  generalize hresult : Except.ok metadata = result at h
  induction h with
  | done => rw [Except.ok.inj hresult, List.append_nil]
  | passed _ _ ih => exact ih hresult
  | failed => cases hresult
  | read hnew _ _ ih =>
    rw [ih hresult, Table.keys_set, if_neg hnew, List.append_assoc, List.singleton_append]

/-- No name is asked for twice, and none that was read before. -/
theorem nodup_asked {result : Except InputError Resolved}
    (h : Ends source pending known asked result) :
    asked.Nodup ∧ ∀ n ∈ asked, n ∉ known.keys := by
  induction h with
  | done => simp
  | passed _ _ ih => exact ih
  | failed hnew _ => simpa using hnew
  | @read name rest asked known answer result hnew _ _ ih =>
    obtain ⟨hnodup, hunread⟩ := ih
    simp only [Table.mem_keys_set, not_or] at hunread
    refine ⟨List.nodup_cons.mpr ⟨fun hname => (hunread name hname).1 rfl, hnodup⟩, ?_⟩
    exact List.forall_mem_cons.mpr ⟨hnew, fun n hn => (hunread n hn).2⟩

theorem nodup_keys {metadata : Resolved} (h : Ends source pending known asked (.ok metadata))
    (hknown : known.keys.Nodup) : metadata.keys.Nodup := by
  obtain ⟨hnodup, hunread⟩ := h.nodup_asked
  rw [h.keys_eq]
  exact hknown.append hnodup fun n hn hasked => hunread n hasked hn

/-- What holds of the names that wait and passes along references holds of the names asked for. -/
theorem forall_asked {result : Except InputError Resolved}
    (h : Ends source pending known asked result) {P : String → Prop}
    (hpending : ∀ n ∈ pending, P n) (hstep : ∀ n, P n → ∀ r ∈ source.references n, P r.name) :
    ∀ n ∈ asked, P n := by
  induction h with
  | done => simp
  | passed _ _ ih => exact ih fun n hn => hpending n (List.mem_cons_of_mem _ hn)
  | failed => simpa using hpending _ List.mem_cons_self
  | @read name rest asked _ answer _ _ ha _ ih =>
    have hname : P name := hpending name List.mem_cons_self
    refine List.forall_mem_cons.mpr ⟨hname, ih fun n hn => ?_⟩
    rcases List.mem_append.mp hn with hn | hn
    · exact hpending n (List.mem_cons_of_mem _ hn)
    · obtain ⟨r, hr, rfl⟩ := List.mem_map.mp hn
      exact hstep name hname r (Source.references_of_ok ha ▸ hr)

/-- The metadata read agrees with the source. -/
theorem agrees {metadata : Resolved} (h : Ends source pending known asked (.ok metadata))
    (hknown : ∀ n ∈ known.keys, source.Readable n ∧ known.references n = source.references n) :
    ∀ n ∈ metadata.keys, source.Readable n ∧ metadata.references n = source.references n := by
  generalize hresult : Except.ok metadata = result at h
  induction h with
  | done => rwa [Except.ok.inj hresult]
  | passed _ _ ih => exact ih hknown hresult
  | failed => cases hresult
  | @read name rest asked known answer _ _ ha _ ih =>
    refine ih (fun n hn => ?_) hresult
    rw [Resolved.references_set]
    split
    · next hname =>
      rw [hname]
      exact ⟨⟨answer, ha⟩, (Source.references_of_ok ha).symm⟩
    · next hname =>
      exact hknown n (((known.mem_keys_set name n _).mp hn).resolve_left hname)

/-- Every name that waits is read, and so is every name that a role read refers to. -/
theorem closed {metadata : Resolved} (h : Ends source pending known asked (.ok metadata))
    (hknown : ∀ n ∈ known.keys, ∀ r ∈ source.references n, r.name ∈ known.keys ∨ r.name ∈ pending) :
    (∀ n ∈ pending, n ∈ metadata.keys) ∧
      ∀ n ∈ metadata.keys, ∀ r ∈ source.references n, r.name ∈ metadata.keys := by
  generalize hresult : Except.ok metadata = result at h
  induction h with
  | done =>
    rw [Except.ok.inj hresult]
    exact ⟨by simp, by simpa using hknown⟩
  | @passed name rest asked known _ hmem hrest ih =>
    have hclosed := ih (fun n hn r hr => ?_) hresult
    · refine ⟨List.forall_mem_cons.mpr ⟨?_, hclosed.1⟩, hclosed.2⟩
      subst hresult
      rw [hrest.keys_eq]
      exact List.mem_append_left _ hmem
    · rcases hknown n hn r hr with h | h
      · exact Or.inl h
      · rcases List.mem_cons.mp h with h | h
        · exact Or.inl (h ▸ hmem)
        · exact Or.inr h
  | failed => cases hresult
  | @read name rest asked known answer _ _ ha hrest ih =>
    have hmoved : ∀ n, n ∈ known.keys ∨ n ∈ name :: rest →
        n ∈ (known.set name (referencesOf answer)).keys ∨
          n ∈ rest ++ names (referencesOf answer) := by
      intro n hn
      simp only [Table.mem_keys_set, List.mem_cons, List.mem_append] at hn ⊢
      tauto
    have hclosed := ih (fun n hn r hr => ?_) hresult
    · refine ⟨List.forall_mem_cons.mpr ⟨?_, fun n hn => hclosed.1 n (List.mem_append_left _ hn)⟩,
        hclosed.2⟩
      subst hresult
      rw [hrest.keys_eq, List.mem_append, Table.mem_keys_set]
      exact Or.inl (Or.inl rfl)
    · rcases (known.mem_keys_set name n _).mp hn with rfl | hn
      · rw [Source.references_of_ok ha] at hr
        exact Or.inr (List.mem_append_right _ (List.mem_map_of_mem hr))
      · exact hmoved _ (hknown n hn r hr)

/-- Reading fails only at a role that was asked for and cannot be read. -/
theorem last_of_error {e : InputError} (h : Ends source pending known asked (.error e)) :
    ∃ before last, asked = before ++ [last] ∧ (source last).outcome = .error e := by
  generalize hresult : Except.error e = result at h
  induction h with
  | done => cases hresult
  | passed _ _ ih => exact ih hresult
  | failed _ he => exact ⟨[], _, rfl, Except.error.inj hresult ▸ he⟩
  | @read first _ _ _ _ _ _ _ _ ih =>
    obtain ⟨before, last, rfl, he⟩ := ih hresult
    exact ⟨first :: before, last, rfl, he⟩

theorem error_of_asked {e : InputError} (h : Ends source pending known asked (.error e)) :
    ∃ n ∈ asked, (source n).outcome = .error e := by
  obtain ⟨before, last, rfl, he⟩ := h.last_of_error
  exact ⟨last, by simp, he⟩

end Ends

/-! ## Reading from declared roles -/

/-- Only roles that can be reached are asked for. -/
theorem Ends.reaches_of_asked {declarations : List Declaration} {asked : List String}
    {result : Except InputError Resolved}
    (h : Ends source (names (declarations.map Declaration.reference)) .empty asked result)
    {n : String} (hn : n ∈ asked) : source.Reaches declarations n := by
  refine h.forall_asked (fun n hn => ?_) (fun n hn r hr => hn.step hr) n hn
  obtain ⟨r, hr, rfl⟩ := List.mem_map.mp hn
  exact References.reaches_of_mem hr

/-- Metadata that was read from the declared roles on: it holds every role that can be reached and
no other, each once, and what it holds is what the source says. -/
structure Complete (source : Source) (declarations : List Declaration) (metadata : Resolved) :
    Prop where
  nodup : metadata.keys.Nodup
  mem_keys_iff : ∀ n, n ∈ metadata.keys ↔ source.Reaches declarations n
  readable : ∀ n ∈ metadata.keys, source.Readable n
  references_eq : ∀ n ∈ metadata.keys, metadata.references n = source.references n

theorem complete_of_ends {declarations : List Declaration} {asked : List String}
    {metadata : Resolved}
    (h : Ends source (names (declarations.map Declaration.reference)) .empty asked (.ok metadata)) :
    Complete source declarations metadata := by
  have hkeys : metadata.keys = asked := h.keys_eq
  have hagrees := h.agrees (by simp)
  have hclosed := h.closed (by simp)
  refine ⟨h.nodup_keys List.nodup_nil, fun n => ⟨?_, ?_⟩, fun n hn => (hagrees n hn).1,
    fun n hn => (hagrees n hn).2⟩
  · rw [hkeys]
    exact h.reaches_of_asked
  · intro hn
    exact hn.induct (fun r hr => hclosed.1 _ (List.mem_map_of_mem hr)) hclosed.2

theorem length_le_ncard {S : Set String} (hfin : S.Finite) {list : List String}
    (hnodup : list.Nodup) (hmem : ∀ n ∈ list, n ∈ S) : list.length ≤ S.ncard := by
  classical
  calc list.length
      = list.toFinset.card := (List.toFinset_card_of_nodup hnodup).symm
    _ = (list.toFinset : Set String).ncard := (Set.ncard_coe_finset _).symm
    _ ≤ S.ncard := Set.ncard_le_ncard (fun n hn => hmem n (by simpa using hn)) hfin

/-- The loop ends if it ends from the first name that was not read, if there is one. -/
theorem exists_ends_of_first {known : Resolved} {spare : Nat} {pending : List String}
    (h : ∀ name rest, name ∉ known.keys → name :: rest <:+ pending →
      ∃ asked result, Ends source (name :: rest) known asked result ∧ asked.length ≤ spare) :
    ∃ asked result, Ends source pending known asked result ∧ asked.length ≤ spare := by
  induction pending with
  | nil => exact ⟨[], _, .done known, Nat.zero_le spare⟩
  | cons name rest ih =>
    by_cases hname : name ∈ known.keys
    · obtain ⟨asked, result, hends, hlen⟩ :=
        ih fun n rest' hn hsuffix => h n rest' hn (hsuffix.trans (List.suffix_cons name rest))
      exact ⟨asked, result, .passed hname hends, hlen⟩
    · exact h name rest hname (List.suffix_refl _)

/-- While the names that wait and those read lie in a finite set that references do not leave, the
loop ends; `spare` bounds the names of the set that were not read yet. -/
theorem exists_ends_of_finite {S : Set String} (hfin : S.Finite)
    (hstep : ∀ n ∈ S, ∀ r ∈ source.references n, r.name ∈ S) (spare : Nat) :
    ∀ (pending : List String) (known : Resolved), (∀ n ∈ pending, n ∈ S) →
      (∀ n ∈ known.keys, n ∈ S) → known.keys.Nodup → S.ncard ≤ spare + known.keys.length →
      ∃ asked result, Ends source pending known asked result ∧ asked.length ≤ spare := by
  induction spare with
  | zero =>
    intro pending known hpending hknown hnodup hspare
    refine exists_ends_of_first fun name rest hname hsuffix => absurd hspare ?_
    have hlen := length_le_ncard hfin (List.nodup_cons.mpr ⟨hname, hnodup⟩)
      (List.forall_mem_cons.mpr ⟨hpending name (hsuffix.subset List.mem_cons_self), hknown⟩)
    rw [List.length_cons] at hlen
    omega
  | succ spare ih =>
    intro pending known hpending hknown hnodup hspare
    refine exists_ends_of_first fun name rest hname hsuffix => ?_
    have hmem : name ∈ S := hpending name (hsuffix.subset List.mem_cons_self)
    cases ho : (source name).outcome with
    | error e => exact ⟨[name], _, .failed hname ho, Nat.succ_le_succ (Nat.zero_le spare)⟩
    | ok answer =>
      have hkeys : (known.set name (referencesOf answer)).keys = known.keys ++ [name] := by
        rw [Table.keys_set, if_neg hname]
      have hwaiting : ∀ n ∈ rest ++ names (referencesOf answer), n ∈ S := by
        intro n hn
        rcases List.mem_append.mp hn with hn | hn
        · exact hpending n (hsuffix.subset (List.mem_cons_of_mem name hn))
        · obtain ⟨r, hr, rfl⟩ := List.mem_map.mp hn
          exact hstep name hmem r (Source.references_of_ok ho ▸ hr)
      have hread : ∀ n ∈ (known.set name (referencesOf answer)).keys, n ∈ S := by
        intro n hn
        rcases (known.mem_keys_set name n _).mp hn with rfl | hn
        · exact hmem
        · exact hknown n hn
      obtain ⟨asked, result, hends, hlen⟩ := ih _ _ hwaiting hread
        (by
          rw [hkeys]
          exact List.Nodup.append hnodup (List.nodup_singleton _) (by simpa using hname))
        (by
          rw [hkeys, List.length_append, List.length_singleton]
          omega)
      exact ⟨name :: asked, result, .read hname ho hends, Nat.succ_le_succ hlen⟩

/-- Where finitely many names can be reached, reading ends, and it asks for no more names. -/
theorem exists_ends {declarations : List Declaration}
    (hfin : {n | source.Reaches declarations n}.Finite) :
    ∃ asked result,
      Ends source (names (declarations.map Declaration.reference)) .empty asked result ∧
        asked.length ≤ {n | source.Reaches declarations n}.ncard := by
  refine exists_ends_of_finite hfin (fun n hn r hr => References.Reaches.step hn hr) _ _ _ ?_
    (by simp) List.nodup_nil (Nat.le_add_right _ _)
  intro n hn
  obtain ⟨r, hr, rfl⟩ := List.mem_map.mp hn
  exact References.reaches_of_mem hr

/-- Where all that can be reached can be read, reading succeeds. -/
theorem exists_complete {declarations : List Declaration}
    (hfin : {n | source.Reaches declarations n}.Finite)
    (hread : ∀ n, source.Reaches declarations n → source.Readable n) :
    ∃ asked metadata,
      Ends source (names (declarations.map Declaration.reference)) .empty asked (.ok metadata) ∧
        asked.length ≤ {n | source.Reaches declarations n}.ncard := by
  obtain ⟨asked, result, hends, hlen⟩ := exists_ends hfin
  cases result with
  | ok metadata => exact ⟨asked, metadata, hends, hlen⟩
  | error e =>
    obtain ⟨n, hn, he⟩ := hends.error_of_asked
    obtain ⟨answer, ha⟩ := hread n (hends.reaches_of_asked hn)
    rw [ha] at he
    cases he

end Reading

end RoleChart
