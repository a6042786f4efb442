import RoleChart.Program
import RoleChart.Session
import RoleChart.Proofs.Command
import RoleChart.Proofs.Json
/-!
What a session prints and how it ends. A session has the outcome of the command that its arguments ask
for (`Session.outcome`, `Session.ofArguments_eq`). With the switch for JSON it prints one line, which is
read back as an envelope: that of the report, from which the report is recovered
(`Report.ofJson?_json`), or that of the failure. Nothing is assumed of what is around a session, the
reader of YAML and the layout engines among it.

* `run_answers`: the status of a session, and what its output says, in both forms.
-/
namespace RoleChart

/-! ## Reading answers back -/

namespace Json

/-- The count that a number of digits alone gives. -/
def count? : Json → Option Nat
  | .number digits =>
    if digits.toList.all Char.isDigit then some (Nat.ofDigitChars 10 digits.toList 0) else none
  | _ => none

/-- The text that a string gives. -/
def text? : Json → Option String
  | .string value => some value
  | _ => none

/-- The texts that an array of strings gives. -/
def texts? : Json → Option (List String)
  | .array items => items.mapM text?
  | _ => none

theorem count?_ofNat (n : Nat) : (ofNat n).count? = some n := by
  unfold ofNat count?
  dsimp only
  rw [toList_toString, if_pos (List.all_eq_true.mpr isDigit_of_mem_toDigits),
    Nat.ofDigitChars_ten_toDigits]

theorem texts?_ofTexts (texts : List String) : (ofTexts texts).texts? = some texts := by
  unfold ofTexts texts?
  dsimp only
  induction texts with
  | nil => rfl
  | cons text texts ih =>
    rw [List.map_cons, List.mapM_cons, ih]
    rfl

theorem counting_ofNat (n : Nat) : Counting (ofNat n) := .number n

theorem counting_ofTexts (texts : List String) : Counting (ofTexts texts) := by
  refine .array fun item hitem => ?_
  obtain ⟨text, -, rfl⟩ := List.mem_map.mp hitem
  exact .string text

end Json

/-- The report that a JSON object gives. -/
def Report.ofJson? (j : Json) : Option Report := do
  let output ← (← j.field? "output").text?
  let roles ← (← j.field? "roles").count?
  let nodes ← (← j.field? "nodes").count?
  let edges ← (← j.field? "edges").count?
  match j.field? "services" with
  | none => some ⟨output, roles, nodes, edges, none⟩
  | some lines => return ⟨output, roles, nodes, edges, some (← lines.texts?)⟩

theorem Report.field?_services (r : Report) (output : String) :
    (r.json output).field? "services" = r.services.map Json.ofTexts := by
  obtain ⟨_, roles, nodes, edges, services⟩ := r
  cases services <;> rfl

/-- A report is recovered from its JSON. -/
theorem Report.ofJson?_json {r : Report} {output : String} (h : r.output = output) :
    Report.ofJson? (r.json output) = some r := by
  have houtput : (r.json output).field? "output" = some (.string output) := rfl
  have hroles : (r.json output).field? "roles" = some (.ofNat r.roles) := rfl
  have hnodes : (r.json output).field? "nodes" = some (.ofNat r.nodes) := rfl
  have hedges : (r.json output).field? "edges" = some (.ofNat r.edges) := rfl
  unfold ofJson?
  simp only [houtput, hroles, hnodes, hedges, r.field?_services, Option.bind_eq_bind,
    Option.bind_some, Json.text?, Json.count?_ofNat, ← h]
  obtain ⟨_, roles, nodes, edges, services⟩ := r
  cases services with
  | none => rfl
  | some lines =>
    simp only [Option.map_some, Json.texts?_ofTexts, Option.bind_some]
    rfl

theorem Report.counting_json (r : Report) (output : String) : (r.json output).Counting := by
  refine .object fun field hfield => ?_
  rcases List.mem_append.mp hfield with hfield | hfield
  · simp only [List.mem_cons, List.not_mem_nil, or_false] at hfield
    rcases hfield with rfl | rfl | rfl | rfl
    · exact .string output
    · exact Json.counting_ofNat r.roles
    · exact Json.counting_ofNat r.nodes
    · exact Json.counting_ofNat r.edges
  · obtain ⟨lines, -, rfl⟩ := Option.map_eq_some_iff.mp (Option.mem_toList.mp hfield)
    exact Json.counting_ofTexts lines

theorem CommandError.counting_toJson (e : CommandError) : e.toJson.Counting := by
  refine .object fun field hfield => ?_
  simp only [List.mem_cons, List.not_mem_nil, or_false] at hfield
  rcases hfield with rfl | rfl
  · exact .string e.blame.word
  · exact .string e.message

theorem Json.counting_envelope {status name : String} {j : Json} (hj : j.Counting) :
    Counting (.object [("status", .string status), (name, j)]) := by
  refine .object fun field hfield => ?_
  simp only [List.mem_cons, List.not_mem_nil, or_false] at hfield
  rcases hfield with rfl | rfl
  · exact .string status
  · exact hj

namespace Session

/-! ## The outcome of a session -/

variable {σ : Type}

/-- The outcome of the command that arguments ask for. -/
def outcome (s : Surroundings σ) (a : Arguments) (disk : Disk) (state : σ) :
    Option (Except CommandError Report) :=
  match Command.ofArguments disk s.home a with
  | .error e => some (.error e)
  | .ok c => (c.execute s.reader (s.engine c.layout) disk state).outcome

variable {s : Surroundings σ} {a : Arguments}

/-- The session with a command line is that with the arguments which the command line gives. -/
theorem run_of_ofList {words : List String} (h : Arguments.ofList s.environment words = .ok a)
    (disk : Disk) (state : σ) : run s words disk state = ofArguments s a disk state := by
  unfold run
  rw [h]

/-- A session ends with the outcome of its command. -/
theorem ofArguments_eq (s : Surroundings σ) (a : Arguments) (disk : Disk) (state : σ) :
    ∃ entries after, ofArguments s a disk state =
      (outcome s a disk state).map (ofOutcome a.json entries after) := by
  unfold ofArguments outcome
  cases Command.ofArguments disk s.home a with
  | error e => exact ⟨[], disk, rfl⟩
  | ok c => exact ⟨_, _, rfl⟩

/-- A command has an outcome, and a report is on the output that was named, with the services exactly
if they were asked for. -/
theorem exists_outcome (s : Surroundings σ) (disk : Disk) (state : σ) (hmode : a.reexpand = false) :
    ∃ result, outcome s a disk state = some result ∧
      ∀ r, result = .ok r → r.output = a.output ∧ r.services.isSome = a.listServices := by
  unfold outcome
  cases hc : Command.ofArguments disk s.home a with
  | error e => exact ⟨.error e, rfl, nofun⟩
  | ok c =>
    obtain ⟨hmodes, hlist, houtput, -⟩ := Command.of_ofArguments_ok hc
    have honce : c.mode = .expandOnce := by
      rw [hmodes, Command.modeOf, hmode]
      rfl
    dsimp only
    rcases c.firstFailure_or_delivers s.reader (s.engine c.layout) disk state honce with
      ⟨e, hfailure⟩ | ⟨catalog, playbook, registry, hdelivers⟩
    · exact ⟨.error e, hfailure.outcome_eq, nofun⟩
    · refine ⟨_, hdelivers.outcome_eq, ?_⟩
      rintro r ⟨⟩
      refine ⟨houtput, ?_⟩
      rw [← hlist]
      unfold Command.report
      cases c.listServices <;> rfl

/-! ## What is printed -/

theorem ofText?_envelope {status name : String} {j : Json} (hj : j.Counting) :
    Json.ofText? (Json.text (.object [("status", .string status), (name, j)])) =
      some (.object [("status", .string status), (name, j)]) :=
  Json.ofText?_text (Json.counting_envelope hj)

theorem toNat_of_mem_text {j : Json} (hj : j.Counting) : ∀ c ∈ j.text.toList, 32 ≤ c.toNat := by
  unfold Json.text
  rw [String.toList_ofList]
  exact Json.toNat_of_mem_chars hj

/-- A report on an output that is a text is printed as one line, from which it is recovered. -/
theorem successText_json {r : Report} {output : String} (h : r.output = output) :
    ∃ text fields, successText true r = text ++ "\n" ∧ (∀ c ∈ text.toList, 32 ≤ c.toNat) ∧
      Json.ofText? text = some (.object fields) ∧
      fields.lookup "status" = some (.string "ok") ∧
      ∃ data, fields.lookup "data" = some data ∧ Report.ofJson? data = some r ∧
        data.field? "services" = r.services.map Json.ofTexts := by
  have hjson : r.toJson? = some (r.json output) := by
    rw [Report.toJson?, h, Path.toString?_ofString, Option.map_some]
  have hprinted : successText true r = line (Json.okEnvelope (r.json output)).text := by
    unfold successText
    rw [hjson]
    simp
  exact ⟨_, [("status", .string "ok"), ("data", r.json output)], hprinted,
    toNat_of_mem_text (Json.counting_envelope (r.counting_json output)),
    ofText?_envelope (r.counting_json output), rfl, r.json output, rfl, Report.ofJson?_json h,
    r.field?_services output⟩

/-- A failure is printed as one line, from which its kind and its message are recovered. -/
theorem failureText_json (e : CommandError) :
    ∃ text fields, failureText true e = text ++ "\n" ∧ (∀ c ∈ text.toList, 32 ≤ c.toNat) ∧
      Json.ofText? text = some (.object fields) ∧
      fields.lookup "status" = some (.string "error") ∧
      ∃ error, fields.lookup "error" = some error ∧
        error.field? "code" = some (.string e.blame.word) ∧
        error.field? "message" = some (.string e.message) :=
  ⟨_, [("status", .string "error"), ("error", e.toJson)], rfl,
    toNat_of_mem_text (Json.counting_envelope e.counting_toJson),
    ofText?_envelope e.counting_toJson, rfl, e.toJson, rfl, rfl, rfl⟩

theorem exitCode_blame (b : Blame) : b.exitCode = if b = .config then 2 else 3 := by
  cases b <;> rfl

/-- **A session ends with the status of its outcome, and its output says the outcome.** Take any reader
of YAML, any layout engines, and arguments whose output is a text, as a command line gives them. The
session has the outcome of the command that they ask for: the status is 0 for a report, 2 for a failure
of the configuration and 3 for any other. With the switch for JSON it prints one line without control
characters, which is read as an object; its status is `ok` exactly if that of the session is 0, and the
report, with the services exactly if they were asked for, or the kind and the message of the failure are
recovered from it. Without the switch it prints the services, each on a line of its own, if there is a
report and they were asked for, and else nothing. -/
theorem run_answers {σ : Type} (s : Surroundings σ) (a : Arguments) (disk : Disk) (state : σ)
    (output : String) (houtput : a.output = output) (hmode : a.reexpand = false) :
    (∀ words, Arguments.ofList s.environment words = .ok a →
      run s words disk state = ofArguments s a disk state) ∧
    ∃ session result,
      ofArguments s a disk state = some session ∧
      outcome s a disk state = some result ∧
      (∀ r, result = .ok r → session.exitCode = 0) ∧
      (∀ e, result = .error e → session.exitCode = if e.blame = .config then 2 else 3) ∧
      (a.json = true → ∃ text fields,
        session.printed = text ++ "\n" ∧
        (∀ c ∈ text.toList, 32 ≤ c.toNat) ∧
        Json.ofText? text = some (.object fields) ∧
        (fields.lookup "status" = some (.string "ok") ↔ session.exitCode = 0) ∧
        (∀ r, result = .ok r → ∃ data, fields.lookup "data" = some data ∧
          Report.ofJson? data = some r ∧ r.output = a.output ∧
          (data.field? "services").isSome = a.listServices) ∧
        (∀ e, result = .error e → ∃ error, fields.lookup "error" = some error ∧
          error.field? "code" = some (.string e.blame.word) ∧
          error.field? "message" = some (.string e.message))) ∧
      (a.json = false →
        (∀ e, result = .error e → session.printed = "") ∧
        ∀ r, result = .ok r →
          (a.listServices = false → session.printed = "") ∧
          (a.listServices = true → ∃ lines, r.services = some lines ∧
            session.printed = String.join (lines.map (· ++ "\n")))) := by
  refine ⟨fun words hwords => run_of_ofList hwords disk state, ?_⟩
  obtain ⟨entries, after, hsession⟩ := ofArguments_eq s a disk state
  obtain ⟨result, houtcome, hreport⟩ := exists_outcome s disk state hmode
  rw [houtcome, Option.map_some] at hsession
  refine ⟨_, result, hsession, houtcome, ?_⟩
  cases result with
  | ok r =>
    obtain ⟨hsame, hservices⟩ := hreport r rfl
    refine ⟨fun _ _ => rfl, nofun, fun hjson => ?_, fun hplain => ⟨nofun, ?_⟩⟩
    · obtain ⟨text, fields, hprinted, hchars, hread, hstatus, data, hdata, hback, hlines⟩ :=
        successText_json (hsame.trans houtput)
      rw [hjson]
      refine ⟨text, fields, hprinted, hchars, hread, ⟨fun _ => rfl, fun _ => hstatus⟩, ?_, nofun⟩
      rintro r' ⟨⟩
      exact ⟨data, hdata, hback, hsame, by rw [hlines, Option.isSome_map, hservices]⟩
    · rintro r' ⟨⟩
      rw [hplain]
      refine ⟨fun hnone => ?_, fun hlisted => ?_⟩
      · rw [hnone, Option.isSome_eq_false_iff, Option.isNone_iff_eq_none] at hservices
        change String.join ((r.services.getD []).map line) = ""
        rw [hservices]
        rfl
      · rw [hlisted] at hservices
        obtain ⟨lines, hlines⟩ := Option.isSome_iff_exists.mp hservices
        refine ⟨lines, hlines, ?_⟩
        change String.join ((r.services.getD []).map line) = _
        rw [hlines]
        rfl
  | error e =>
    have hexit : e.blame.exitCode ≠ 0 := by cases e.blame <;> decide
    refine ⟨nofun, ?_, fun hjson => ?_, fun hplain => ⟨?_, nofun⟩⟩
    · rintro e' ⟨⟩
      exact exitCode_blame e.blame
    · obtain ⟨text, fields, hprinted, hchars, hread, hstatus, error, herror, hback⟩ :=
        failureText_json e
      rw [hjson]
      refine ⟨text, fields, hprinted, hchars, hread, ⟨fun hok => ?_, fun hzero => ?_⟩, nofun, ?_⟩
      · rw [hstatus] at hok
        exact absurd (Json.string.inj (Option.some.inj hok)) (by decide)
      · exact absurd hzero hexit
      · rintro e' ⟨⟩
        exact ⟨error, herror, hback⟩
    · rintro e' ⟨⟩
      rw [hplain]
      rfl

/-- A command line that draws `Command.site` and lists its services as JSON. -/
def listingLine : List String :=
  ["--json", "--list-services", "--services-file=services.yml", "--role-dir", "roles", "site.yml",
    "site.dot"]

/-- What `listingLine` asks for. -/
def listingArguments : Arguments where
  playbook := "site.yml"
  output := "site.dot"
  roleDir := some "roles"
  highlightServices := false
  listServices := true
  servicesFile := some "services.yml"
  layout := "dot"
  reexpand := false
  level := .warn
  logFormat := .pretty
  json := true

/-- A program in the directory `bin`, without an environment, that starts the scripts among the files. -/
def plainSurroundings : Surroundings Unit :=
  ⟨.ok "bin", ⟨none, none⟩, Yaml.plainReader, Program.engine Program.scripts⟩

theorem run_answers_listing :
    ∃ session text fields data,
      run plainSurroundings listingLine Command.site () = some session ∧
      session.exitCode = 0 ∧
      session.printed = text ++ "\n" ∧
      (∀ c ∈ text.toList, 32 ≤ c.toNat) ∧
      Json.ofText? text = some (.object fields) ∧
      fields.lookup "status" = some (.string "ok") ∧
      fields.lookup "data" = some data ∧
      Report.ofJson? data = some ⟨"site.dot", 2, 2, 1, some ["nginx"]⟩ := by
  have harguments : Arguments.ofList ⟨none, none⟩ listingLine = .ok listingArguments := by
    decide +kernel
  have hlisted : outcome plainSurroundings listingArguments Command.site () =
      some (.ok ⟨"site.dot", 2, 2, 1, some ["nginx"]⟩) := by decide +kernel
  obtain ⟨hrun, session, result, hsession, houtcome, hexit, -, hjson, -⟩ :=
    run_answers plainSurroundings listingArguments Command.site () "site.dot" rfl rfl
  have hresult := Option.some.inj (houtcome.symm.trans hlisted)
  obtain ⟨text, fields, hprinted, hchars, hread, hstatus, hreport, -⟩ := hjson rfl
  obtain ⟨data, hdata, hback, -⟩ := hreport _ hresult
  have hzero := hexit _ hresult
  exact ⟨session, text, fields, data, (hrun _ harguments).trans hsession, hzero, hprinted, hchars,
    hread, hstatus.mpr hzero, hdata, hback⟩

end Session

end RoleChart
