import RoleChart.Proofs.Expansion
import RoleChart.Yaml.Document
/-!
What an expansion depends on. The loop that reads asks for roles that can be reached and for no
others, and the walk goes over what was read. So two sources that answer alike for the roles that can
be reached are asked for the same names and lead to the same outcome, whatever they say about other
roles (`run_of_alike`).

* `expansion_of_alike`: this, and what follows for a directory of roles: where the file of every role
  that is reached is absent or can be used, the directory may be replaced by a table of what its files
  list (`ofDirectory_eq_ofTable`).
-/
namespace RoleChart

open References (names)

/-! ## Answers -/

namespace Source

variable {source source' : Source} {name : String}

/-- Two sources give the same answer for a role, where no metadata counts as an empty list and an
error as the same error. -/
def Alike (source source' : Source) (name : String) : Prop :=
  (source name).outcome.map (·.getD []) = (source' name).outcome.map (·.getD [])

theorem Alike.error {e : InputError} (h : source.Alike source' name)
    (he : (source name).outcome = .error e) : (source' name).outcome = .error e := by
  unfold Alike at h
  rw [he] at h
  cases ho : (source' name).outcome with
  | error e' =>
    rw [ho] at h
    have hsame : e = e' := Except.error.inj h
    rw [hsame]
  | ok answer =>
    rw [ho] at h
    cases h

theorem Alike.ok {answer : Option (List Declaration)} (h : source.Alike source' name)
    (ha : (source name).outcome = .ok answer) :
    ∃ answer', (source' name).outcome = .ok answer' ∧
      Reading.referencesOf answer' = Reading.referencesOf answer := by
  unfold Alike at h
  rw [ha] at h
  cases ho : (source' name).outcome with
  | error e =>
    rw [ho] at h
    cases h
  | ok answer' =>
    rw [ho] at h
    have hlisted : answer.getD [] = answer'.getD [] := Except.ok.inj h
    exact ⟨answer', rfl, by rw [Reading.referencesOf, Reading.referencesOf, hlisted]⟩

end Source

/-! ## Reading -/

/-- The loop that reads depends on the answers for the names that it asks for alone. -/
theorem Reading.Ends.of_alike {source source' : Source} {pending asked : List String}
    {known : Resolved} {result : Except InputError Resolved}
    (h : Ends source pending known asked result) (halike : ∀ n ∈ asked, source.Alike source' n) :
    Ends source' pending known asked result := by
  induction h with
  | done known => exact .done known
  | passed hknown _ ih => exact .passed hknown (ih halike)
  | failed hnew he => exact .failed hnew ((halike _ List.mem_cons_self).error he)
  | read hnew ha _ ih =>
    obtain ⟨hname, hrest⟩ := List.forall_mem_cons.mp halike
    obtain ⟨answer', ha', hrefs⟩ := hname.ok ha
    refine .read hnew ha' ?_
    rw [hrefs]
    exact ih hrest

/-! ## Expansion -/

namespace Expansion

variable {source source' : Source} {declarations : List Declaration} {mode : ExpansionMode}
  {limit limit' : Nat}

/-- The walk goes over what was read alone. -/
theorem outcome_congr
    (h : (Reading.run source limit (declarations.map Declaration.reference)).outcome =
      (Reading.run source' limit' (declarations.map Declaration.reference)).outcome) :
    (run source limit mode declarations).outcome =
      (run source' limit' mode declarations).outcome := by
  cases hread : (Reading.run source limit (declarations.map Declaration.reference)).outcome with
  | none => rw [outcome_of_read_none hread, outcome_of_read_none (h ▸ hread)]
  | some result =>
    cases result with
    | error e => rw [outcome_of_read_error hread, outcome_of_read_error (h ▸ hread)]
    | ok metadata => rw [outcome_of_read_ok hread, outcome_of_read_ok (h ▸ hread)]

/-- Two sources on which the loop that reads comes to the same lead to the same expansion. -/
theorem run_eq_of_ends {asked : List String} {result : Except InputError Resolved}
    (h : Reading.Ends source (names (declarations.map Declaration.reference)) .empty asked result)
    (h' : Reading.Ends source' (names (declarations.map Declaration.reference)) .empty asked result)
    (hlimit : asked.length ≤ limit) (hlimit' : asked.length ≤ limit') :
    (run source limit mode declarations).asked = (run source' limit' mode declarations).asked ∧
      (run source limit mode declarations).outcome =
        (run source' limit' mode declarations).outcome := by
  obtain ⟨hasked, houtcome⟩ := Reading.run_of_ends h hlimit
  obtain ⟨hasked', houtcome'⟩ := Reading.run_of_ends h' hlimit'
  refine ⟨?_, outcome_congr (houtcome.trans houtcome'.symm)⟩
  rw [asked_run, asked_run, hasked, hasked']

/-- Where reading succeeds, the walk after it comes to its end. -/
def WalkEnds (source : Source) (limit : Nat) (mode : ExpansionMode)
    (declarations : List Declaration) : Prop :=
  ∀ metadata,
    (Reading.run source limit (declarations.map Declaration.reference)).outcome =
      some (.ok metadata) →
    ∃ steps, (Walk.run metadata (guarded mode metadata.cyclic).contains steps
      (declarations.map Declaration.reference) .empty).isSome

/-- An expansion has an outcome if its walk ends. -/
theorem exists_outcome_of_walkEnds (hfin : {n | source.Reaches declarations n}.Finite)
    (hlimit : {n | source.Reaches declarations n}.ncard ≤ limit)
    (hmode : mode = .expandOnce ∨ WalkEnds source limit mode declarations) :
    ∃ result, (run source limit mode declarations).outcome = some result := by
  rcases hmode with rfl | hends
  · exact Option.isSome_iff_exists.mp (isSome_outcome hfin hlimit)
  obtain ⟨asked, result, hreading, hlen⟩ := Reading.exists_ends hfin
  have hread := (Reading.run_of_ends hreading (hlen.trans hlimit)).2
  cases result with
  | error e => exact ⟨_, outcome_of_read_error hread⟩
  | ok metadata =>
    rw [outcome_of_read_ok hread]
    cases hwalk : walk metadata metadata.cyclic (guarded mode metadata.cyclic)
        (declarations.map Declaration.reference) with
    | some visited => exact ⟨_, rfl⟩
    | none =>
      obtain ⟨steps, hsome⟩ := hends metadata hread
      have hnone := (walk_eq_none_iff (Reading.complete_of_ends hreading) mode).mp hwalk steps
      rw [hnone] at hsome
      cases hsome

/-- Sources that answer alike for the roles that can be reached are asked for the same names and lead
to the same outcome. -/
theorem run_of_alike (hfin : {n | source.Reaches declarations n}.Finite)
    (hlimit : {n | source.Reaches declarations n}.ncard ≤ limit)
    (hlimit' : {n | source.Reaches declarations n}.ncard ≤ limit')
    (halike : ∀ n, source.Reaches declarations n → source.Alike source' n) :
    (run source limit mode declarations).asked = (run source' limit' mode declarations).asked ∧
      (run source limit mode declarations).outcome =
        (run source' limit' mode declarations).outcome := by
  obtain ⟨asked, result, hends, hlen⟩ := Reading.exists_ends hfin
  have hends' := hends.of_alike fun n hn => halike n (hends.reaches_of_asked hn)
  exact run_eq_of_ends hends hends' (hlen.trans hlimit) (hlen.trans hlimit')

end Expansion

/-! ## Directories and tables -/

namespace Metadata

section

variable (reader : Yaml.Reader) (disk : Disk) (root : Path)

/-- What the metadata file of a role lists, if it can be used. -/
def listed? (role : String) : Option (List Declaration) :=
  match disk.readText (path root role) with
  | .ok text => (ofText reader text (path root role)).outcome.toOption
  | .error _ => none

/-- The metadata file of a role is absent, or it is read and can be used. -/
def AbsentOrUsable (role : String) : Prop :=
  disk.readText (path root role) = .error .notFound ∨
    ∃ text listed, disk.readText (path root role) = .ok text ∧
      (ofText reader text (path root role)).outcome = .ok listed

/-- The table of what the metadata files of some roles list. -/
def gather (roles : List String) : Table (List Declaration) :=
  .ofList (roles.filterMap fun role => (listed? reader disk root role).map (role, ·))

variable {reader disk root}

theorem outcome_ofDirectory {role : String} (h : AbsentOrUsable reader disk root role) :
    (ofDirectory reader disk root role).outcome = .ok (listed? reader disk root role) := by
  unfold ofDirectory listed?
  rcases h with hread | ⟨text, listed, hread, htext⟩
  · simp only [hread]
    rfl
  · simp only [hread, Logged.outcome_map, htext]
    rfl

theorem get?_gather_concat (roles : List String) (last role : String) :
    (gather reader disk root (roles ++ [last])).get? role =
      if role = last then (listed? reader disk root last).or ((gather reader disk root roles).get? role)
      else (gather reader disk root roles).get? role := by
  cases hlisted : listed? reader disk root last with
  | none => simp [gather, hlisted]
  | some listed =>
    have hpair : [last].filterMap (fun role => (listed? reader disk root role).map (role, ·)) =
        [(last, listed)] := by simp [hlisted]
    rw [gather, List.filterMap_append, hpair, Table.ofList_concat, Table.get?_set, Option.some_or]
    rfl

theorem get?_gather (roles : List String) (role : String) :
    (gather reader disk root roles).get? role =
      if role ∈ roles then listed? reader disk root role else none := by
  induction roles using List.reverseRecOn with
  | nil => rfl
  | append_singleton roles last ih =>
    rw [get?_gather_concat, ih]
    by_cases hrole : role = last
    · subst hrole
      by_cases hmem : role ∈ roles <;> simp [hmem]
    · simp [hrole]

/-- The files of a directory answer as the table of what they list. -/
theorem alike_gather {roles : List String} {role : String} (h : AbsentOrUsable reader disk root role)
    (hrole : role ∈ roles) :
    (ofDirectory reader disk root).Alike (ofTable (gather reader disk root roles)) role := by
  have htable : (ofTable (gather reader disk root roles) role).outcome =
      .ok ((gather reader disk root roles).get? role) := rfl
  rw [Source.Alike, outcome_ofDirectory h, htable, get?_gather, if_pos hrole]

end

end Metadata

namespace Expansion

variable {source source' : Source} {declarations : List Declaration} {mode : ExpansionMode}
  {limit limit' : Nat}

/-- A directory and a table that answer alike for the roles that can be reached lead to the same
expansion. -/
theorem ofDirectory_eq_ofTable {reader : Yaml.Reader} {disk : Disk} {root : Path}
    {table : Table (List Declaration)}
    (halike : ∀ n, (Metadata.ofDirectory reader disk root).Reaches declarations n →
      (Metadata.ofDirectory reader disk root).Alike (Metadata.ofTable table) n) :
    (ofDirectory reader disk root mode declarations).asked = (ofTable table mode declarations).asked ∧
      (ofDirectory reader disk root mode declarations).outcome =
        (ofTable table mode declarations).outcome := by
  obtain ⟨asked, result, hends, hlen⟩ :=
    Reading.exists_ends (Metadata.finite_reaches_ofDirectory reader disk root declarations)
  have hends' := hends.of_alike fun n hn => halike n (hends.reaches_of_asked hn)
  obtain ⟨asked', result', htable, hlen'⟩ :=
    Reading.exists_ends (Metadata.finite_reaches_ofTable table declarations)
  rw [(htable.unique hends').1] at hlen'
  exact run_eq_of_ends hends hends'
    (hlen.trans (Metadata.ncard_reaches_ofDirectory reader disk root declarations))
    (hlen'.trans (Metadata.ncard_reaches_ofTable table declarations))

/-- **An expansion depends on the metadata of the roles that can be reached alone.** Take two sources
that give the same answer for each of these roles: the same list, where no metadata counts as an empty
list, or the same error. Both are asked for the same names in the same order, and both expansions have
the same outcome; there is one in the mode `expandOnce`, and in the mode `reexpand` if the walk ends.
So where the metadata file of every role that is reached is absent or can be used, the expansion over
a directory is the expansion over a table of what its files list. -/
theorem expansion_of_alike :
    (∀ (source source' : Source) (declarations : List Declaration) (mode : ExpansionMode)
      (limit limit' : Nat),
      {n | source.Reaches declarations n}.Finite →
      {n | source.Reaches declarations n}.ncard ≤ limit →
      {n | source.Reaches declarations n}.ncard ≤ limit' →
      (∀ n, source.Reaches declarations n → source.Alike source' n) →
        (run source limit mode declarations).asked = (run source' limit' mode declarations).asked ∧
        (run source limit mode declarations).outcome =
          (run source' limit' mode declarations).outcome ∧
        (mode = .expandOnce ∨ WalkEnds source limit mode declarations →
          ∃ result, (run source limit mode declarations).outcome = some result)) ∧
    ∀ (reader : Yaml.Reader) (disk : Disk) (root : Path) (declarations : List Declaration)
      (mode : ExpansionMode) (roles : List String),
      (∀ n, (Metadata.ofDirectory reader disk root).Reaches declarations n →
        n ∈ roles ∧ Metadata.AbsentOrUsable reader disk root n) →
        (ofDirectory reader disk root mode declarations).asked =
          (ofTable (Metadata.gather reader disk root roles) mode declarations).asked ∧
        (ofDirectory reader disk root mode declarations).outcome =
          (ofTable (Metadata.gather reader disk root roles) mode declarations).outcome := by
  constructor
  · intro source source' declarations mode limit limit' hfin hlimit hlimit' halike
    obtain ⟨hasked, houtcome⟩ := run_of_alike hfin hlimit hlimit' halike
    exact ⟨hasked, houtcome, exists_outcome_of_walkEnds hfin hlimit⟩
  · intro reader disk root declarations mode roles hfiles
    refine ofDirectory_eq_ofTable fun n hn => ?_
    obtain ⟨hmem, hfile⟩ := hfiles n hn
    exact Metadata.alike_gather hfile hmem

/-- The roles of `ring`, where the one without metadata lists nothing and no other role can be
read. -/
def ringAlone : Source := fun name =>
  if name = "cache" then pure (some [])
  else if ring.contains name then Metadata.ofTable ring name
  else .fail (.invalidMetadata name .notMapping)

theorem alike_ringAlone (n : String) (h : (Metadata.ofTable ring).Reaches [.bare "app"] n) :
    (Metadata.ofTable ring).Alike ringAlone n := by
  have hname : n ∈ ["app", "db", "cache", "app"] :=
    Source.mem_of_reaches (Metadata.mem_flatten_of_declared_ofTable ring) h
  simp only [List.mem_cons, List.not_mem_nil, or_false] at hname
  rcases hname with rfl | rfl | rfl | rfl <;> rfl

/-- A directory with the metadata of a role that needs two others, which have no metadata and empty
metadata. -/
def shelf : Disk :=
  ⟨[(["roles"], .directory),
    (["roles", "app"], .directory), (["roles", "app", "meta"], .directory),
    (["roles", "app", "meta", "main.yml"],
      .file "dependencies: [db, {role: cache, when: x}]".toUTF8 false),
    (["roles", "cache"], .directory), (["roles", "cache", "meta"], .directory),
    (["roles", "cache", "meta", "main.yml"], .file ByteArray.empty false)]⟩

theorem usable_shelf (n : String)
    (h : (Metadata.ofDirectory Yaml.plainReader shelf "roles").Reaches [.bare "app"] n) :
    n ∈ ["app", "cache", "db"] ∧ Metadata.AbsentOrUsable Yaml.plainReader shelf "roles" n := by
  have hnames : Metadata.declaredNames Yaml.plainReader shelf = ["db", "cache"] := by decide +kernel
  have hname := Source.mem_of_reaches (Metadata.mem_declaredNames Yaml.plainReader shelf "roles") h
  rw [hnames] at hname
  simp only [List.map_cons, List.map_nil, Declaration.name, List.cons_append, List.nil_append,
    List.mem_cons, List.not_mem_nil, or_false] at hname
  rcases hname with rfl | rfl | rfl
  · refine ⟨by decide, Or.inr ⟨"dependencies: [db, {role: cache, when: x}]",
      [.bare "db", .mapping "cache" true], ?_, ?_⟩⟩ <;> decide +kernel
  · exact ⟨by decide, Or.inl (by decide +kernel)⟩
  · exact ⟨by decide, Or.inr ⟨"", [], by decide +kernel, by decide +kernel⟩⟩

theorem expansion_of_alike_ring_and_shelf :
    ((run (Metadata.ofTable ring) 4 .expandOnce [.bare "app"]).asked =
        (run ringAlone 4 .expandOnce [.bare "app"]).asked ∧
      (run (Metadata.ofTable ring) 4 .expandOnce [.bare "app"]).outcome =
        (run ringAlone 4 .expandOnce [.bare "app"]).outcome ∧
      ∃ result, (run (Metadata.ofTable ring) 4 .expandOnce [.bare "app"]).outcome = some result) ∧
    (ofDirectory Yaml.plainReader shelf "roles" .expandOnce [.bare "app"]).asked =
      (ofTable (Metadata.gather Yaml.plainReader shelf "roles" ["app", "cache", "db"]) .expandOnce
        [.bare "app"]).asked ∧
    (ofDirectory Yaml.plainReader shelf "roles" .expandOnce [.bare "app"]).outcome =
      (ofTable (Metadata.gather Yaml.plainReader shelf "roles" ["app", "cache", "db"]) .expandOnce
        [.bare "app"]).outcome := by
  have hlimit : {n | (Metadata.ofTable ring).Reaches [.bare "app"] n}.ncard ≤ 4 :=
    (Metadata.ncard_reaches_ofTable ring _).trans (by decide)
  obtain ⟨hasked, houtcome, hends⟩ :=
    expansion_of_alike.1 (Metadata.ofTable ring) ringAlone [.bare "app"] .expandOnce 4 4
      (Metadata.finite_reaches_ofTable ring _) hlimit hlimit alike_ringAlone
  exact ⟨⟨hasked, houtcome, hends (Or.inl rfl)⟩,
    expansion_of_alike.2 Yaml.plainReader shelf "roles" [.bare "app"] .expandOnce ["app", "cache", "db"]
      usable_shelf⟩

end Expansion

end RoleChart
