import RoleChart.Proofs.Expansion
/-!
The plain walk asks a source for the references of a role whenever it follows a reference, and stores
the role at once. An expansion in the mode `reexpand` asks for every name once, before it walks.

* `reexpand_eq_plainWalk`: where the plain walk ends, with a registry or with an error, the expansion
  ends with the same.

Reading follows the plain walk pop by pop (`exists_ends_of_plainWalk`). A name that is popped again
was read before, and all that its references name was read or waits ahead, so reading may pass them
over (`Reading.Ends.drop_stale`). The first role that fails is therefore the same for both. A plain
walk that ends with a registry shows that nothing it reached lies on a cycle (`Follows.acyclic`), so
the expansion ends as well.
-/
namespace RoleChart

open References (names Follows)

/-! ## Names that were read before -/

namespace Reading

variable {source : Source}

/-- Names in front that were read make no difference. -/
theorem Ends.drop_known {stale back pending asked : List String} {known : Resolved}
    {result : Except InputError Resolved} (h : Ends source pending known asked result)
    (hpending : stale ++ back = pending) (hstale : ∀ n ∈ stale, n ∈ known.keys) :
    Ends source back known asked result := by
  subst hpending
  induction stale with
  | nil => exact h
  | cons name stale ih =>
    obtain ⟨hname, hstale⟩ := List.forall_mem_cons.mp hstale
    rw [List.cons_append] at h
    cases h with
    | passed _ h => exact ih hstale h
    | failed hnew _ => exact absurd hname hnew
    | read hnew _ _ => exact absurd hname hnew

/-- Names that wait behind others make no difference if they were read or wait ahead too. -/
theorem Ends.drop_stale {front stale back pending asked : List String} {known : Resolved}
    {result : Except InputError Resolved} (h : Ends source pending known asked result)
    (hpending : front ++ (stale ++ back) = pending)
    (hstale : ∀ n ∈ stale, n ∈ known.keys ∨ n ∈ front) :
    Ends source (front ++ back) known asked result := by
  -- With nothing in front all of `stale` was read; otherwise the first of `front` is popped.
  have hread : ∀ {known : Resolved}, (∀ n ∈ stale, n ∈ known.keys ∨ n ∈ ([] : List String)) →
      ∀ n ∈ stale, n ∈ known.keys := fun h n hn => (h n hn).resolve_right List.not_mem_nil
  induction h generalizing front back with
  | done known =>
    obtain ⟨rfl, hrest⟩ := List.append_eq_nil_iff.mp hpending
    obtain ⟨_, rfl⟩ := List.append_eq_nil_iff.mp hrest
    exact .done known
  | passed hname hrest ih =>
    cases front with
    | nil => exact (Ends.passed hname hrest).drop_known hpending (hread hstale)
    | cons first front =>
      rw [List.cons_append] at hpending
      obtain ⟨rfl, rfl⟩ := List.cons.inj hpending
      refine .passed hname (ih rfl fun n hn => ?_)
      rcases hstale n hn with hn | hn
      · exact Or.inl hn
      · rcases List.mem_cons.mp hn with rfl | hn
        · exact Or.inl hname
        · exact Or.inr hn
  | @failed name rest _ _ hname he =>
    cases front with
    | nil => exact (Ends.failed hname he).drop_known hpending (hread hstale)
    | cons first front =>
      rw [List.cons_append] at hpending
      obtain ⟨rfl, rfl⟩ := List.cons.inj hpending
      exact .failed hname he
  | @read name rest asked known answer result hname ha hrest ih =>
    cases front with
    | nil => exact (Ends.read hname ha hrest).drop_known hpending (hread hstale)
    | cons first front =>
      rw [List.cons_append] at hpending
      obtain ⟨rfl, rfl⟩ := List.cons.inj hpending
      refine .read hname ha ?_
      show Ends source (front ++ back ++ names (referencesOf answer)) _ _ _
      rw [List.append_assoc]
      refine ih (by simp only [List.append_assoc]) fun n hn => ?_
      rw [Table.mem_keys_set]
      rcases hstale n hn with hn | hn
      · exact Or.inl (Or.inr hn)
      · rcases List.mem_cons.mp hn with rfl | hn
        · exact Or.inl (Or.inl rfl)
        · exact Or.inr hn

end Reading

namespace Expansion

variable {source : Source}

/-! ## The plain walk -/

/-- Follows the references in a queue to its end, at most `pops` of them, and asks the source at each
one. A role that cannot be read ends the walk with its error. -/
def plainWalk (source : Source) :
    Nat → List Reference → Registry → Option (Except InputError Registry)
  | _, [], registry => some (.ok registry)
  | 0, _ :: _, _ => none
  | pops + 1, r :: rest, registry =>
    match (source r.name).outcome with
    | .error e => some (.error e)
    | .ok answer =>
      let references := Reading.referencesOf answer
      plainWalk source pops (rest ++ references)
        (registry.set r.name ⟨r.name, r.optional, references⟩)

/-! ## Reading beside the plain walk -/

/-- What reading has to know of the plain walk, whose queue names what waits: the roles read so far
can be read, and all that they refer to was read or waits. -/
structure Beside (source : Source) (queue : List Reference) (known : Resolved) : Prop where
  readable : ∀ n ∈ known.keys, source.Readable n
  ahead : ∀ n ∈ known.keys, ∀ s ∈ source.references n, s.name ∈ known.keys ∨ s.name ∈ names queue

namespace Beside

variable {queue rest : List Reference} {known : Resolved} {r : Reference}

theorem empty (source : Source) (queue : List Reference) : Beside source queue .empty := by
  refine ⟨?_, ?_⟩ <;> simp

/-- A role that was read need not wait again. -/
theorem pass (h : Beside source (r :: rest) known) (hname : r.name ∈ known.keys) :
    Beside source rest known := by
  refine ⟨h.readable, fun n hn s hs => ?_⟩
  rcases h.ahead n hn s hs with hs | hs
  · exact Or.inl hs
  · rcases List.mem_cons.mp hs with hs | hs
    · exact Or.inl (hs ▸ hname)
    · exact Or.inr hs

theorem join (h : Beside source rest known) (added : List Reference) :
    Beside source (rest ++ added) known := by
  refine ⟨h.readable, fun n hn s hs => (h.ahead n hn s hs).imp id fun hs => ?_⟩
  obtain ⟨waiting, hwaiting, hname⟩ := List.mem_map.mp hs
  exact hname ▸ List.mem_map_of_mem (List.mem_append_left added hwaiting)

/-- A role that is read lets its references wait. -/
theorem read (h : Beside source (r :: rest) known) (hread : source.Readable r.name)
    (references : List Reference) :
    Beside source (rest ++ source.references r.name) (known.set r.name references) := by
  refine ⟨fun n hn => ?_, fun n hn s hs => ?_⟩
  · rcases (known.mem_keys_set r.name n references).mp hn with rfl | hn
    · exact hread
    · exact h.readable n hn
  · rw [Table.mem_keys_set]
    rcases (known.mem_keys_set r.name n references).mp hn with rfl | hn
    · exact Or.inr (List.mem_map_of_mem (List.mem_append_right rest hs))
    · have hahead := h.ahead n hn s hs
      simp only [List.map_cons, List.mem_cons, List.map_append, List.mem_append] at hahead ⊢
      tauto

end Beside

/-- What reading comes to beside a plain walk: the same error, or metadata for a registry. -/
def Matches : Except InputError Registry → Except InputError Resolved → Prop
  | .error e, outcome => outcome = .error e
  | .ok _, outcome => ∃ metadata, outcome = .ok metadata

/-- Reading ends where the plain walk ends, and asks no more often. The names read so far need not be
those that the walk has stored. -/
theorem exists_ends_of_plainWalk {result : Except InputError Registry} {pops : Nat}
    {queue : List Reference} {registry : Registry} {known : Resolved}
    (h : plainWalk source pops queue registry = some result) (hbeside : Beside source queue known) :
    ∃ asked outcome, Reading.Ends source (names queue) known asked outcome ∧
      asked.length ≤ pops ∧ Matches result outcome := by
  fun_induction plainWalk source pops queue registry generalizing known with
  | case1 pops registry =>
    cases h
    exact ⟨[], _, .done known, Nat.zero_le pops, known, rfl⟩
  | case2 => cases h
  | case3 pops r rest registry e ho =>
    cases h
    have hname : r.name ∉ known.keys := by
      intro hname
      obtain ⟨answer, ha⟩ := hbeside.readable r.name hname
      rw [ha] at ho
      cases ho
    exact ⟨[r.name], _, .failed hname ho, Nat.succ_le_succ (Nat.zero_le pops), rfl⟩
  | case4 pops r rest registry answer ho references =>
    rename_i ih
    have hrefs : references = source.references r.name := (Source.references_of_ok ho).symm
    have hpending : names (rest ++ references) = names rest ++ names references := List.map_append
    by_cases hname : r.name ∈ known.keys
    · -- Popped again: what its role refers to was read or waits, so it makes no difference.
      have hpassed := hbeside.pass hname
      obtain ⟨asked, outcome, hends, hlen, hmatches⟩ := ih h (hpassed.join references)
      refine ⟨asked, outcome, .passed hname ?_, hlen.trans (Nat.le_succ pops), hmatches⟩
      have hstale : ∀ n ∈ names references, n ∈ known.keys ∨ n ∈ names rest := by
        intro n hn
        obtain ⟨s, hs, rfl⟩ := List.mem_map.mp hn
        exact hpassed.ahead r.name hname s (hrefs ▸ hs)
      have hdropped : Reading.Ends source (names rest ++ []) known asked outcome :=
        hends.drop_stale (by rw [hpending, List.append_nil]) hstale
      rwa [List.append_nil] at hdropped
    · have hread : Beside source (rest ++ references) (known.set r.name references) := by
        rw [hrefs]
        exact hbeside.read ⟨answer, ho⟩ _
      obtain ⟨asked, outcome, hends, hlen, hmatches⟩ := ih h hread
      rw [hpending] at hends
      exact ⟨r.name :: asked, outcome, .read hname ho hends, Nat.succ_le_succ hlen, hmatches⟩

/-- A plain walk that ends with a registry has followed its queue to the end, with nothing held
back. -/
theorem exists_follows_of_plainWalk {registry final : Registry} {pops : Nat}
    {earlier queue : List Reference} (h : plainWalk source pops queue registry = some (.ok final))
    (hregistry : registry = Registry.ofFollowed source.references earlier) :
    ∃ followed, Follows source.references (fun _ => False) earlier queue followed ∧
      final = Registry.ofFollowed source.references (earlier ++ followed) := by
  fun_induction plainWalk source pops queue registry generalizing earlier with
  | case1 =>
    cases h
    exact ⟨[], .done earlier, by rw [hregistry, List.append_nil]⟩
  | case2 => cases h
  | case3 => cases h
  | case4 pops r rest registry answer ho references =>
    rename_i ih
    have hrefs : references = source.references r.name := (Source.references_of_ok ho).symm
    have hjoining : References.joining source.references (fun _ => False) earlier r =
        references := by
      rw [References.joining, if_neg fun h => h.1, hrefs]
    have hstored : Table.set registry r.name ⟨r.name, r.optional, references⟩ =
        Registry.ofFollowed source.references (earlier ++ [r]) := by
      rw [Registry.ofFollowed_concat, hregistry, hrefs]
      rfl
    obtain ⟨followed, hfollows, rfl⟩ := ih h hstored
    refine ⟨r :: followed, .next (hjoining ▸ hfollows), ?_⟩
    rw [List.append_assoc, List.singleton_append]

/-- **An expansion agrees with the plain walk.** If the plain walk ends, after however many pops, then
an expansion in the mode `reexpand` ends with the same registry or with the same error. It asks for
names that can be reached, each once, and no more often than the plain walk; any limit that admits
these names will do. -/
theorem reexpand_eq_plainWalk (source : Source) (declarations : List Declaration) (pops : Nat)
    (result : Except InputError Registry)
    (h : plainWalk source pops (declarations.map Declaration.reference) .empty = some result) :
    ∃ asked : List String,
      asked.Nodup ∧ (∀ n ∈ asked, source.Reaches declarations n) ∧ asked.length ≤ pops ∧
      ∀ limit, asked.length ≤ limit →
        (run source limit .reexpand declarations).asked = asked ∧
        (run source limit .reexpand declarations).outcome = some result := by
  classical
  obtain ⟨asked, outcome, hends, hlen, hmatches⟩ :=
    exists_ends_of_plainWalk h (Beside.empty source _)
  refine ⟨asked, hends.nodup_asked.1, fun n hn => hends.reaches_of_asked hn, hlen,
    fun limit hlimit => ?_⟩
  have hreading := Reading.run_of_ends hends hlimit
  refine ⟨by rw [asked_run, hreading.1], ?_⟩
  cases result with
  | error e =>
    have houtcome : outcome = .error e := hmatches
    rw [houtcome] at hreading
    exact outcome_of_read_error hreading.2
  | ok registry =>
    obtain ⟨metadata, rfl⟩ := hmatches
    have hempty : (Table.empty : Registry) = Registry.ofFollowed source.references [] := rfl
    obtain ⟨plain, hplain, rfl⟩ := exists_follows_of_plainWalk h hempty
    have hacyclic : source.Acyclic declarations := hplain.acyclic
    have hmode : ExpansionMode.reexpand = .expandOnce ∨ source.Acyclic declarations :=
      Or.inr hacyclic
    obtain ⟨followed, hfollows, hrun⟩ := outcome_of_ends hends hmode hlimit
    -- No role that is followed lies on a cycle, so both have followed the same.
    have hnever : ∀ r ∈ followed, source.references.OnCycle r.name ↔ False := fun r hr =>
      ⟨hacyclic r.name (hfollows.reaches hr), False.elim⟩
    have hsame := hplain.unique (hfollows.congr (fun _ _ => rfl) hnever)
    rw [hrun, hsame]
    rfl

/-- Two roles that depend on a third one, which one of them needs under a condition. -/
def shared : Table (List Declaration) :=
  .ofList [("app", [.mapping "cache" true, .bare "db"]), ("db", [.bare "cache"])]

theorem reexpand_eq_plainWalk_shared :
    ∃ asked : List String,
      asked.Nodup ∧ (∀ n ∈ asked, (Metadata.ofTable shared).Reaches [.bare "app"] n) ∧
      asked.length ≤ 4 ∧
      ∀ limit, asked.length ≤ limit →
        (run (Metadata.ofTable shared) limit .reexpand [.bare "app"]).asked = asked ∧
        (run (Metadata.ofTable shared) limit .reexpand [.bare "app"]).outcome =
          some (.ok (.ofList [
            ("app", ⟨"app", false, [⟨"cache", true⟩, ⟨"db", false⟩]⟩),
            ("cache", ⟨"cache", false, []⟩),
            ("db", ⟨"db", false, [⟨"cache", false⟩]⟩)])) :=
  reexpand_eq_plainWalk (Metadata.ofTable shared) [.bare "app"] 4 _ rfl

end Expansion

end RoleChart
