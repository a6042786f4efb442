import RoleChart.Proofs.Agreement
import RoleChart.Proofs.Order
/-!
How an expansion fails. Roles are asked for in breadth-first order (`Source.IsBreadthFirst`), which
counts a role that cannot be read as one that refers to nothing. The loop that reads stops at the
first role of this order that cannot be read, with the error of the source (`Reading.Ends.upTo_failed`),
and the walk does not start before the loop is through.

* `fails_at_first_unreadable`: an expansion fails exactly if some role that can be reached cannot be
  read, in both modes alike. Over a directory the error names the file of that role, and a file that is
  not found is no error (`Metadata.names_of_error`, `Metadata.outcome_of_notFound`).
-/
namespace RoleChart

open References (names joining Follows)

/-! ## The order of reading -/

namespace Source

/-- The names of the roles that can be reached, in breadth-first order: those of all levels in the
order of their first occurrence, where a role that was named before contributes nothing to the next
level. -/
def IsBreadthFirst (source : Source) (declarations : List Declaration) (order : List String) : Prop :=
  ∃ depth,
    (∀ k, depth ≤ k → source.references.level (fun _ => True)
      (declarations.map Declaration.reference) k = []) ∧
    order = (names (source.references.upTo (fun _ => True)
      (declarations.map Declaration.reference) depth)).eraseDups

/-- The source that knows of no metadata where this one fails. -/
def lenient (source : Source) : Source := fun name =>
  match (source name).outcome with
  | .ok answer => pure answer
  | .error _ => pure none

variable {source : Source} {declarations : List Declaration}

theorem lenient_of_ok {name : String} {answer : Option (List Declaration)}
    (h : (source name).outcome = .ok answer) : (source.lenient name).outcome = .ok answer := by
  unfold lenient
  rw [h]
  rfl

theorem readable_lenient (source : Source) (name : String) : source.lenient.Readable name := by
  unfold Readable lenient
  cases (source name).outcome with
  | ok answer => exact ⟨answer, rfl⟩
  | error e => exact ⟨none, rfl⟩

theorem references_lenient (source : Source) : source.lenient.references = source.references := by
  funext name
  unfold references declared lenient
  cases (source name).outcome <;> rfl

theorem not_readable_iff {name : String} :
    ¬ source.Readable name ↔ ∃ e, (source name).outcome = .error e := by
  unfold Readable
  cases (source name).outcome <;> simp

/-- The first of a list of roles that cannot be read. -/
theorem exists_first_failed {list : List String} (h : ∃ n ∈ list, ¬ source.Readable n) :
    ∃ before name after e, list = before ++ name :: after ∧
      (∀ m ∈ before, source.Readable m) ∧ (source name).outcome = .error e := by
  obtain ⟨before, name, after, hsplit, hbefore, hname⟩ := exists_first h
  obtain ⟨e, he⟩ := not_readable_iff.mp hname
  exact ⟨before, name, after, e, hsplit, fun m hm => not_not.mp (hbefore m hm), he⟩

theorem reaches_lenient {name : String} :
    source.lenient.Reaches declarations name ↔ source.Reaches declarations name := by
  rw [Reaches, Reaches, references_lenient]

end Source

namespace Reading

variable {source : Source}

/-- The loop that reads stops at the first name that cannot be read, among those that it would ask for
if none failed. -/
theorem Ends.upTo_failed {pending asked before after : List String} {known : Resolved}
    {result : Except InputError Resolved} {name : String} {e : InputError}
    (h : Ends source.lenient pending known asked result) (hasked : asked = before ++ name :: after)
    (hbefore : ∀ m ∈ before, source.Readable m) (he : (source name).outcome = .error e) :
    Ends source pending known (before ++ [name]) (.error e) := by
  induction h generalizing before with
  | done => cases before <;> cases hasked
  | passed hknown _ ih => exact .passed hknown (ih hasked hbefore)
  | @failed first _ _ _ _ hfailed =>
    obtain ⟨answer, ha⟩ := Source.readable_lenient source first
    rw [ha] at hfailed
    cases hfailed
  | @read first rest asked known answer _ hnew ha hrest ih =>
    cases before with
    | nil =>
      obtain ⟨rfl, rfl⟩ := List.cons.inj hasked
      exact .failed hnew he
    | cons first' before =>
      obtain ⟨rfl, rfl⟩ := List.cons.inj hasked
      obtain ⟨⟨answer', ha'⟩, hbefore⟩ := List.forall_mem_cons.mp hbefore
      have hsame : answer' = answer :=
        Except.ok.inj ((Source.lenient_of_ok ha').symm.trans ha)
      exact .read hnew (hsame ▸ ha') (ih rfl hbefore)

end Reading

namespace Expansion

variable {source : Source} {declarations : List Declaration} {mode : ExpansionMode} {limit : Nat}

/-- What the loop that reads would ask for if nothing failed are the roles that can be reached, in
breadth-first order. -/
theorem exists_isBreadthFirst (hfin : {n | source.Reaches declarations n}.Finite) :
    ∃ order metadata, source.IsBreadthFirst declarations order ∧
      Reading.Ends source.lenient (names (declarations.map Declaration.reference)) .empty order
        (.ok metadata) ∧
      order.length ≤ {n | source.Reaches declarations n}.ncard ∧
      order.Pairwise
        fun m n => source.distance declarations m ≤ source.distance declarations n := by
  have hset : {n | source.lenient.Reaches declarations n} = {n | source.Reaches declarations n} :=
    Set.ext fun _ => Source.reaches_lenient
  obtain ⟨asked, metadata, hends, hlen⟩ :=
    Reading.exists_complete (hset ▸ hfin) fun n _ => Source.readable_lenient source n
  have hcomplete := Reading.complete_of_ends hends
  obtain ⟨followed, hwalk, _⟩ :
      ∃ followed, Follows metadata.references ((fun _ : String => true) · = true) []
          (declarations.map Declaration.reference) followed ∧
        followed.length ≤
          Walk.limitFor metadata (fun _ => true) (declarations.map Declaration.reference) :=
    Walk.exists_follows_limitFor (fun _ _ => rfl) _
  have hfollows : Follows source.lenient.references (fun _ => True) []
      (declarations.map Declaration.reference) followed :=
    hwalk.congr (fun r hr => hcomplete.references_eq _ (mem_keys_of_follows hcomplete hwalk r hr))
      (fun _ _ => by simp)
  obtain ⟨asked', metadata', hends', hkeys⟩ :=
    exists_ends_of_follows hfollows (Beside.empty source.lenient _) rfl
      fun r _ => Source.readable_lenient source r.name
  have horder : asked = (names followed).eraseDups := by
    rw [(hends.unique hends').1]
    exact hends'.keys_eq.symm.trans hkeys
  rw [Source.references_lenient] at hfollows
  obtain ⟨depth, hdepth, hlevels⟩ := hfollows.eq_upTo
  refine ⟨asked, metadata, ⟨depth, hdepth, hlevels ▸ horder⟩, hends, hset ▸ hlen, ?_⟩
  rw [horder]
  exact hfollows.pairwise_distance

theorem mem_asked_lenient {metadata : Resolved} {order : List String}
    (h : Reading.Ends source.lenient (names (declarations.map Declaration.reference)) .empty order
      (.ok metadata)) (n : String) : n ∈ order ↔ source.Reaches declarations n := by
  have hkeys : metadata.keys = order := h.keys_eq
  rw [← hkeys, (Reading.complete_of_ends h).mem_keys_iff, Source.reaches_lenient]

/-- A failure is that of the role last asked for. -/
theorem exists_last_of_outcome {e : InputError}
    (h : (run source limit mode declarations).outcome = some (.error e)) :
    ∃ before last, (run source limit mode declarations).asked = before ++ [last] ∧
      (source last).outcome = .error e := by
  rw [asked_run]
  exact (Reading.ends_of_run (read_error_of_outcome h)).last_of_error

/-- A role that can be reached and cannot be read is behind every failure. -/
theorem exists_unreadable_of_outcome {e : InputError}
    (h : (run source limit mode declarations).outcome = some (.error e)) :
    ∃ n, source.Reaches declarations n ∧ ¬ source.Readable n := by
  have hends := Reading.ends_of_run (read_error_of_outcome h)
  obtain ⟨n, hn, he⟩ := hends.error_of_asked
  exact ⟨n, hends.reaches_of_asked hn, Source.not_readable_iff.mpr ⟨e, he⟩⟩

/-- The first role in breadth-first order that cannot be read ends the expansion, in both modes. -/
theorem run_of_first_failed {metadata : Resolved} {order before after : List String}
    {name : String} {e : InputError}
    (h : Reading.Ends source.lenient (names (declarations.map Declaration.reference)) .empty order
      (.ok metadata))
    (hlimit : order.length ≤ limit) (horder : order = before ++ name :: after)
    (hbefore : ∀ m ∈ before, source.Readable m) (he : (source name).outcome = .error e) :
    (run source limit mode declarations).asked = before ++ [name] ∧
      (run source limit mode declarations).outcome = some (.error e) := by
  have hends := h.upTo_failed horder hbefore he
  have hlen : (before ++ [name]).length ≤ limit := by
    rw [horder] at hlimit
    simp only [List.length_append, List.length_cons, List.length_nil] at hlimit ⊢
    omega
  obtain ⟨hasked, houtcome⟩ := Reading.run_of_ends hends hlen
  exact ⟨by rw [asked_run, hasked], outcome_of_read_error houtcome⟩

end Expansion

/-! ## Metadata files -/

namespace InputError

/-- An error names a file: it has the path of the file, or the path as it is shown for a context. -/
def Names : InputError → Path → Prop
  | .unreadable _ path _, file => path = file
  | .notYaml path _, file => path = file
  | .invalidPlaybook path _, file => path = file
  | .invalidMetadata path _, file => path = file
  | .missingRoleName context _, file => context = file.display
  | .invalidServices path _, file => path = file

end InputError

namespace Declaration

theorem names_of_ofValue_error {file : Path} {entry : Yaml.Value} {e : InputError}
    (h : (ofValue file.display entry).outcome = .error e) : e.Names file := by
  unfold ofValue at h
  split at h
  · cases h
  · split at h
    · cases h
    · cases h
      rfl
  · cases h

theorem names_of_ofValues_error {file : Path} {entries : List Yaml.Value} {e : InputError}
    (h : (ofValues file.display entries).outcome = .error e) : e.Names file := by
  induction entries with
  | nil => cases h
  | cons entry entries ih =>
    simp only [ofValues, Logged.outcome_bind, Logged.outcome_pure] at h
    rcases Outcome.eq_error_of_bind h with h | ⟨first, -, h⟩
    · exact names_of_ofValue_error h
    · rcases Outcome.eq_error_of_bind h with h | ⟨others, -, h⟩
      · exact ih h
      · cases h

end Declaration

namespace Metadata

variable {reader : Yaml.Reader}

/-- Every way in which the text of a metadata file cannot be used names the file. -/
theorem names_of_ofText_error {text : String} {path : Path} {e : InputError}
    (h : (ofText reader text path).outcome = .error e) : e.Names path := by
  unfold ofText ofValue at h
  split at h
  · cases h
  · simp only [Logged.outcome_bind, Logged.outcome_ofExcept] at h
    rcases Outcome.eq_error_of_bind h with h | ⟨document, -, h⟩
    · obtain ⟨_, _, rfl⟩ := Outcome.exists_of_mapError_eq_error h
      rfl
    · rcases Outcome.eq_error_of_bind h with h | ⟨entries, -, h⟩
      · obtain ⟨_, _, rfl⟩ := Outcome.exists_of_mapError_eq_error h
        rfl
      · exact Declaration.names_of_ofValues_error h

variable {disk : Disk} {root : Path} {role : String}

theorem outcome_of_notFound (h : disk.readText (path root role) = .error .notFound) :
    (ofDirectory reader disk root role).outcome = .ok none := by
  unfold ofDirectory
  simp only [h]
  rfl

/-- An error for a role of a directory names the metadata file of the role. -/
theorem names_of_error {e : InputError}
    (h : (ofDirectory reader disk root role).outcome = .error e) : e.Names (path root role) := by
  unfold ofDirectory at h
  dsimp only at h
  split at h
  · next text _ =>
    rw [Logged.outcome_map] at h
    cases htext : (ofText reader text (path root role)).outcome with
    | error e' =>
      rw [htext] at h
      cases h
      exact names_of_ofText_error htext
    | ok listed =>
      rw [htext] at h
      cases h
  · cases h
  · cases h
    rfl

end Metadata

namespace Expansion

/-- **An expansion fails at the first role that cannot be read.** Over finitely many roles that can be
reached there is a breadth-first order of them, each once and none closer to the declared roles than
one before it. An expansion fails, in either mode, exactly if one of these roles cannot be read. It
then has the error of the source for the first such role, and has asked for the roles up to this one
and no others. Over a directory the error names the metadata file of the role last asked for, and that
file was not reported as not found; such a file means that the role has no metadata. -/
theorem fails_at_first_unreadable :
    (∀ (source : Source) (declarations : List Declaration) (limit : Nat),
      {n | source.Reaches declarations n}.Finite →
      {n | source.Reaches declarations n}.ncard ≤ limit →
      ∃ order : List String,
        source.IsBreadthFirst declarations order ∧
        order.Nodup ∧
        (∀ n, n ∈ order ↔ source.Reaches declarations n) ∧
        order.Pairwise
          (fun m n => source.distance declarations m ≤ source.distance declarations n) ∧
        (∀ mode, (∃ e, (run source limit mode declarations).outcome = some (.error e)) ↔
          ∃ n, source.Reaches declarations n ∧ ¬ source.Readable n) ∧
        ((∃ n, source.Reaches declarations n ∧ ¬ source.Readable n) →
          ∃ before name after e,
            order = before ++ name :: after ∧
            (∀ m ∈ before, source.Readable m) ∧
            (source name).outcome = .error e ∧
            ∀ mode,
              (run source limit mode declarations).asked = before ++ [name] ∧
              (run source limit mode declarations).outcome = some (.error e))) ∧
    ∀ (reader : Yaml.Reader) (disk : Disk) (root : Path),
      (∀ (declarations : List Declaration) (mode : ExpansionMode) (e : InputError),
        (ofDirectory reader disk root mode declarations).outcome = some (.error e) →
        ∃ before role,
          (ofDirectory reader disk root mode declarations).asked = before ++ [role] ∧
          (Metadata.ofDirectory reader disk root role).outcome = .error e ∧
          e.Names (Metadata.path root role) ∧
          disk.readText (Metadata.path root role) ≠ .error .notFound) ∧
      ∀ role, disk.readText (Metadata.path root role) = .error .notFound →
        (Metadata.ofDirectory reader disk root role).outcome = .ok none := by
  constructor
  · intro source declarations limit hfin hlimit
    obtain ⟨order, metadata, horder, hends, hlen, hdistance⟩ := exists_isBreadthFirst hfin
    have hmem := mem_asked_lenient hends
    have hfirst : (∃ n, source.Reaches declarations n ∧ ¬ source.Readable n) →
        ∃ before name after e, order = before ++ name :: after ∧
          (∀ m ∈ before, source.Readable m) ∧ (source name).outcome = .error e ∧
          ∀ mode, (run source limit mode declarations).asked = before ++ [name] ∧
            (run source limit mode declarations).outcome = some (.error e) := by
      rintro ⟨n, hn, hunreadable⟩
      obtain ⟨before, name, after, e, hsplit, hbefore, he⟩ :=
        Source.exists_first_failed ⟨n, (hmem n).mpr hn, hunreadable⟩
      exact ⟨before, name, after, e, hsplit, hbefore, he, fun _ =>
        run_of_first_failed hends (hlen.trans hlimit) hsplit hbefore he⟩
    refine ⟨order, horder, hends.nodup_asked.1, hmem, hdistance, fun mode => ⟨?_, ?_⟩, hfirst⟩
    · rintro ⟨e, he⟩
      exact exists_unreadable_of_outcome he
    · intro hunreadable
      obtain ⟨_, _, _, e, _, _, _, hrun⟩ := hfirst hunreadable
      exact ⟨e, (hrun mode).2⟩
  · refine fun reader disk root =>
      ⟨fun declarations mode e h => ?_, fun _ => Metadata.outcome_of_notFound⟩
    obtain ⟨before, role, hasked, he⟩ := exists_last_of_outcome h
    refine ⟨before, role, hasked, he, Metadata.names_of_error he, fun hnotFound => ?_⟩
    rw [Metadata.outcome_of_notFound hnotFound] at he
    cases he

/-- Two roles that depend on each other, and each on a role that cannot be read. -/
def torn : Source := fun name =>
  if name = "app" then pure (some [.bare "db", .mapping "cache" true])
  else if name = "db" then pure (some [.bare "app", .bare "lost"])
  else .fail (.invalidMetadata name .notMapping)

theorem mem_listed_torn (n : String) :
    ∀ d ∈ torn.declared n, d.name ∈ ["db", "cache", "app", "lost"] := by
  intro d hd
  unfold Source.declared torn at hd
  split_ifs at hd
  · have hlisted : d ∈ [Declaration.bare "db", .mapping "cache" true] := hd
    rcases List.mem_pair.mp hlisted with rfl | rfl <;> decide
  · have hlisted : d ∈ [Declaration.bare "app", .bare "lost"] := hd
    rcases List.mem_pair.mp hlisted with rfl | rfl <;> decide
  · exact absurd hd List.not_mem_nil

/-- A directory where the metadata of a role lists an entry that names no role. -/
def nameless : Disk :=
  ⟨[(["roles"], .directory),
    (["roles", "app"], .directory), (["roles", "app", "meta"], .directory),
    (["roles", "app", "meta", "main.yml"], .file "dependencies: [cache, db]".toUTF8 false),
    (["roles", "db"], .directory), (["roles", "db", "meta"], .directory),
    (["roles", "db", "meta", "main.yml"], .file "dependencies: [{when: x}]".toUTF8 false)]⟩

theorem fails_at_first_unreadable_torn :
    (∃ before name e, torn.Reaches [.bare "app"] name ∧
      (∀ m ∈ before, torn.Readable m) ∧ (torn name).outcome = .error e ∧
      ∀ mode, (run torn 5 mode [.bare "app"]).asked = before ++ [name] ∧
        (run torn 5 mode [.bare "app"]).outcome = some (.error e)) ∧
    (∃ before role, (ofDirectory Yaml.plainReader nameless "roles" .reexpand [.bare "app"]).asked =
        before ++ [role] ∧
      "roles/db/meta/main.yml" = (Metadata.path "roles" role).display) ∧
    (Metadata.ofDirectory Yaml.plainReader nameless "roles" "cache").outcome = .ok none := by
  have hlimit : {n | torn.Reaches [.bare "app"] n}.ncard ≤ 5 :=
    Source.ncard_reaches_le mem_listed_torn _
  have hunreadable : ∃ n, torn.Reaches [.bare "app"] n ∧ ¬ torn.Readable n := by
    refine ⟨"cache", ?_, Source.not_readable_iff.mpr ⟨_, rfl⟩⟩
    have happ : torn.Reaches [.bare "app"] "app" :=
      References.reaches_of_mem List.mem_cons_self
    have hcache : (⟨"cache", true⟩ : Reference) ∈ torn.references "app" :=
      List.mem_cons_of_mem _ List.mem_cons_self
    exact happ.step hcache
  refine ⟨?_, ?_, ?_⟩
  · obtain ⟨order, _, _, hmem, _, _, hfirst⟩ :=
      fails_at_first_unreadable.1 torn [.bare "app"] 5 (Source.finite_reaches mem_listed_torn _)
        hlimit
    obtain ⟨before, name, after, e, hsplit, hbefore, he, hrun⟩ := hfirst hunreadable
    exact ⟨before, name, e, (hmem name).mp (by simp [hsplit]), hbefore, he, hrun⟩
  · obtain ⟨before, role, hasked, _, hfile, _⟩ :=
      (fails_at_first_unreadable.2 Yaml.plainReader nameless "roles").1 [.bare "app"] .reexpand
        (.missingRoleName "roles/db/meta/main.yml" "when: x") (by decide +kernel)
    exact ⟨before, role, hasked, hfile⟩
  · exact (fails_at_first_unreadable.2 Yaml.plainReader nameless "roles").2 "cache" (by decide +kernel)

-- Both roles that cannot be read are reached; the one that is closer is reported.
example : (run torn 5 .expandOnce [.bare "app"]).asked = ["app", "db", "cache"] ∧
    (run torn 5 .reexpand [.bare "app"]).outcome =
      some (.error (.invalidMetadata "cache" .notMapping)) := ⟨rfl, rfl⟩

end Expansion

end RoleChart
