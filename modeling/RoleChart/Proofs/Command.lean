import RoleChart.Command
import RoleChart.Proofs.Expansion
import RoleChart.Proofs.Render
import RoleChart.Yaml.Document
/-!
How a command ends. Its stages run in order: the services file, the playbook, the expansion, the
rendering. A command ends with the failure of the first stage that fails (`Command.FirstFailure`), or
else with a report on the graph that was rendered (`Command.Delivers`), and one of the two is the case.

* `execute_by_stages`: the outcome of a command by its stages, and what was done to the files and asked
  of the layout engine on the way.
-/
namespace RoleChart

namespace Command

variable {σ τ : Type}

/-! ## From arguments -/

theorem of_ofArguments_ok {disk : Disk} {home : Except HomeFault Path} {a : Arguments} {c : Command}
    (h : ofArguments disk home a = .ok c) :
    c.mode = modeOf a ∧ c.listServices = a.listServices ∧ c.output = a.output ∧
      roleDirectory home a = .ok c.roleDir := by
  unfold ofArguments at h
  obtain ⟨roleDir, hroleDir, hfiles⟩ := Outcome.exists_of_bind_eq_ok h
  split_ifs at hfiles
  obtain rfl := Except.ok.inj hfiles
  exact ⟨rfl, rfl, rfl, hroleDir⟩

/-- Where arguments name no directory of roles, it is found from the directory of the program. -/
theorem roleDirectory_ok (home : Path) (a : Arguments) :
    roleDirectory (.ok home) a = .ok (a.roleDir.getD (home.join usualRoleDir)) := by
  unfold roleDirectory
  cases a.roleDir <;> rfl

/-! ## Stages -/

/-- What the first three stages of a command read, if none of them fails. -/
structure Reads (c : Command) (reader : Yaml.Reader) (disk : Disk) (catalog : Catalog)
    (playbook : Playbook) (registry : Registry) : Prop where
  catalog_eq : c.catalog reader disk = .ok catalog
  playbook_eq : (Playbook.load reader disk c.playbook).outcome = .ok playbook
  registry_eq : (Expansion.ofDirectory reader disk c.roleDir c.mode playbook.roles).outcome =
    some (.ok registry)

/-- The graph that a command draws of what it reads. -/
def graphOf (c : Command) (catalog : Catalog) (playbook : Playbook) (registry : Registry) : Graph :=
  (c.drawing playbook).graph catalog registry

/-- The failure of the first stage of a command that fails: every stage before it succeeds. -/
inductive FirstFailure (c : Command) (reader : Yaml.Reader) (engine : LayoutEngine σ) (disk : Disk)
    (state : σ) : CommandError → Prop where
  | services {e : InputError} (hservices : c.catalog reader disk = .error e) :
    FirstFailure c reader engine disk state ⟨.config, e.message, some e.help⟩
  | playbook {catalog : Catalog} {e : InputError} (hservices : c.catalog reader disk = .ok catalog)
    (hplaybook : (Playbook.load reader disk c.playbook).outcome = .error e) :
    FirstFailure c reader engine disk state ⟨.input, e.message, some e.help⟩
  | expansion {catalog : Catalog} {playbook : Playbook} {e : InputError}
    (hservices : c.catalog reader disk = .ok catalog)
    (hplaybook : (Playbook.load reader disk c.playbook).outcome = .ok playbook)
    (hexpansion : (Expansion.ofDirectory reader disk c.roleDir c.mode playbook.roles).outcome =
      some (.error e)) :
    FirstFailure c reader engine disk state ⟨.input, e.message, some e.help⟩
  | rendering {catalog : Catalog} {playbook : Playbook} {registry : Registry} {e : RenderError}
    (hreads : c.Reads reader disk catalog playbook registry)
    (hrendering : (render engine (c.graphOf catalog playbook registry) c.output disk
      state).answer.outcome = .error e) :
    FirstFailure c reader engine disk state ⟨.render, e.message, some e.help⟩

/-- What a command delivers whose stages all succeed: it has read `catalog`, `playbook` and `registry`,
and has rendered the graph that it draws of them. -/
structure Delivers (c : Command) (reader : Yaml.Reader) (engine : LayoutEngine σ) (disk : Disk)
    (state : σ) (catalog : Catalog) (playbook : Playbook) (registry : Registry) : Prop
    extends c.Reads reader disk catalog playbook registry where
  rendering : (render engine (c.graphOf catalog playbook registry) c.output disk
    state).answer.outcome = .ok ()

variable {c : Command} {reader : Yaml.Reader} {engine : LayoutEngine σ} {disk : Disk} {state : σ}
  {catalog : Catalog} {playbook : Playbook} {registry : Registry} {e : CommandError}

/-- Some stage of a command fails or all succeed. The expansion ends, as roles on a cycle are
guarded. -/
theorem firstFailure_or_delivers (c : Command) (reader : Yaml.Reader) (engine : LayoutEngine σ)
    (disk : Disk) (state : σ) (hmode : c.mode = .expandOnce) :
    (∃ e, c.FirstFailure reader engine disk state e) ∨
      ∃ catalog playbook registry, c.Delivers reader engine disk state catalog playbook registry := by
  cases hservices : c.catalog reader disk with
  | error e => exact Or.inl ⟨_, .services hservices⟩
  | ok catalog =>
    cases hplaybook : (Playbook.load reader disk c.playbook).outcome with
    | error e => exact Or.inl ⟨_, .playbook hservices hplaybook⟩
    | ok playbook =>
      have hends :
          (Expansion.ofDirectory reader disk c.roleDir c.mode playbook.roles).outcome.isSome := by
        rw [hmode]
        exact Expansion.isSome_outcome_ofDirectory reader disk c.roleDir playbook.roles
      obtain ⟨result, hexpansion⟩ := Option.isSome_iff_exists.mp hends
      cases result with
      | error e => exact Or.inl ⟨_, .expansion hservices hplaybook hexpansion⟩
      | ok registry =>
        have hreads : c.Reads reader disk catalog playbook registry :=
          ⟨hservices, hplaybook, hexpansion⟩
        cases hrendering : (render engine (c.graphOf catalog playbook registry) c.output disk
            state).answer.outcome with
        | error e => exact Or.inl ⟨_, .rendering hreads hrendering⟩
        | ok _ => exact Or.inr ⟨catalog, playbook, registry, hreads, hrendering⟩

/-! ## The run of a command -/

/-- A command that reads all it needs ends as its rendering ends. -/
theorem execute_of_reads (hreads : c.Reads reader disk catalog playbook registry)
    (engine : LayoutEngine σ) (state : σ) :
    ∃ entries, c.execute reader engine disk state =
      (c.present engine disk state catalog playbook registry).after entries := by
  unfold execute
  rw [hreads.catalog_eq]
  dsimp only
  rw [hreads.playbook_eq]
  dsimp only
  rw [hreads.registry_eq]
  exact ⟨_, rfl⟩

theorem present_of_error {e : RenderError}
    (h : (render engine (c.graphOf catalog playbook registry) c.output disk
      state).answer.outcome = .error e) :
    (c.present engine disk state catalog playbook registry).outcome =
      some (.error (.ofRender e)) := by
  unfold graphOf at h
  unfold present
  dsimp only
  rw [h]
  rfl

theorem present_of_ok
    (h : (render engine (c.graphOf catalog playbook registry) c.output disk
      state).answer.outcome = .ok ()) :
    (c.present engine disk state catalog playbook registry).outcome =
      some (.ok (c.report catalog registry (c.graphOf catalog playbook registry))) := by
  unfold graphOf at h ⊢
  unfold present
  dsimp only
  rw [h]

theorem present_disk_state (c : Command) (engine : LayoutEngine σ) (disk : Disk) (state : σ)
    (catalog : Catalog) (playbook : Playbook) (registry : Registry) :
    (c.present engine disk state catalog playbook registry).disk =
        (render engine (c.graphOf catalog playbook registry) c.output disk state).disk ∧
      (c.present engine disk state catalog playbook registry).state =
        (render engine (c.graphOf catalog playbook registry) c.output disk state).state := by
  unfold present graphOf
  dsimp only
  split <;> exact ⟨rfl, rfl⟩

/-- A command that fails before its rendering leaves the files and the engine as they were, whatever the
engine is. -/
theorem FirstFailure.run_eq (h : c.FirstFailure reader engine disk state e)
    (hblame : e.blame ≠ .render) : ∃ entries, ∀ (ρ : Type) (engine : LayoutEngine ρ) (state : ρ),
      c.execute reader engine disk state = failed entries e disk state := by
  unfold execute
  cases h with
  | services hservices =>
    rw [hservices]
    exact ⟨_, fun _ _ _ => rfl⟩
  | playbook hservices hplaybook =>
    rw [hservices]
    dsimp only
    rw [hplaybook]
    exact ⟨_, fun _ _ _ => rfl⟩
  | expansion hservices hplaybook hexpansion =>
    rw [hservices]
    dsimp only
    rw [hplaybook]
    dsimp only
    rw [hexpansion]
    exact ⟨_, fun _ _ _ => rfl⟩
  | rendering _ _ => exact absurd rfl hblame

/-- The first stage that fails decides the outcome. -/
theorem FirstFailure.outcome_eq (h : c.FirstFailure reader engine disk state e) :
    (c.execute reader engine disk state).outcome = some (.error e) := by
  by_cases hblame : e.blame = .render
  · cases h with
    | rendering hreads hrendering =>
      obtain ⟨entries, hrun⟩ := execute_of_reads hreads engine state
      rw [hrun]
      exact present_of_error hrendering
    | _ => cases hblame
  · obtain ⟨entries, hrun⟩ := h.run_eq hblame
    rw [hrun]
    rfl

/-- Without a failure the outcome is the report on what was read and on the graph that was rendered. -/
theorem Delivers.outcome_eq (h : c.Delivers reader engine disk state catalog playbook registry) :
    (c.execute reader engine disk state).outcome =
      some (.ok (c.report catalog registry (c.graphOf catalog playbook registry))) := by
  obtain ⟨entries, hrun⟩ := execute_of_reads h.toReads engine state
  rw [hrun]
  exact present_of_ok h.rendering

/-! ## Requests -/

/-- What a run leaves behind, with another view of the state. -/
def Run.mapState (f : σ → τ) (r : Run σ) : Run τ := ⟨r.entries, r.outcome, r.disk, f r.state⟩

theorem present_traced (c : Command) (engine : LayoutEngine σ) (disk : Disk)
    (state : List LayoutRequest × σ) (catalog : Catalog) (playbook : Playbook)
    (registry : Registry) :
    (c.present engine.traced disk state catalog playbook registry).mapState Prod.snd =
      c.present engine disk state.2 catalog playbook registry := by
  unfold present
  dsimp only
  rw [← render_traced]
  dsimp only [Rendering.mapState]
  split <;> rfl

/-- To note the requests to the engine changes nothing about a run. -/
theorem execute_traced (c : Command) (reader : Yaml.Reader) (engine : LayoutEngine σ) (disk : Disk)
    (state : List LayoutRequest × σ) :
    (c.execute reader engine.traced disk state).mapState Prod.snd =
      c.execute reader engine disk state.2 := by
  unfold execute
  cases c.catalog reader disk with
  | error e => rfl
  | ok catalog =>
    dsimp only
    cases (Playbook.load reader disk c.playbook).outcome with
    | error e => rfl
    | ok playbook =>
      dsimp only
      rcases (Expansion.ofDirectory reader disk c.roleDir c.mode playbook.roles).outcome with
        _ | e | registry
      · rfl
      · rfl
      · dsimp only
        rw [← present_traced]
        rfl

/-- What a command asks of a layout engine. -/
def requests (c : Command) (reader : Yaml.Reader) (engine : LayoutEngine σ) (disk : Disk)
    (state : σ) : List LayoutRequest :=
  (c.execute reader engine.traced disk ([], state)).state.1

/-- A command that reads all it needs asks for what the rendering of its graph asks for. -/
theorem requests_of_reads (hreads : c.Reads reader disk catalog playbook registry)
    (engine : LayoutEngine σ) (state : σ) :
    c.requests reader engine disk state = (c.graphOf catalog playbook registry).requests c.output := by
  obtain ⟨entries, hrun⟩ := execute_of_reads hreads engine.traced ([], state)
  unfold requests
  rw [hrun]
  change (c.present engine.traced disk ([], state) catalog playbook registry).state.1 = _
  rw [(present_disk_state ..).2, requests_render, List.nil_append]

/-- Without a format for its output a command changes no file and asks for nothing. -/
theorem unchanged_of_format_error {error : RenderError} (h : outputFormat c.output = .error error)
    (hreads : c.Reads reader disk catalog playbook registry) (engine : LayoutEngine σ) (state : σ) :
    (c.execute reader engine disk state).disk = disk ∧
      (c.execute reader engine disk state).state = state ∧
      c.requests reader engine disk state = [] := by
  obtain ⟨entries, hrun⟩ := execute_of_reads hreads engine state
  have hends := present_disk_state c engine disk state catalog playbook registry
  rw [render_of_format_error h] at hends
  refine ⟨?_, ?_, ?_⟩
  · rw [hrun]
    exact hends.1
  · rw [hrun]
    exact hends.2
  · rw [requests_of_reads hreads]
    unfold Graph.requests
    rw [h]

/-- What was made of the graph of a command that succeeds: with the DOT text as format it stands under
the output, where it is read back, and nothing was asked of the engine; with any other format it was
handed to the engine. -/
theorem Delivers.rendered (h : c.Delivers reader engine disk state catalog playbook registry) :
    ∃ format, outputFormat c.output = .ok format ∧
      (rawFormats.contains format = true →
        c.requests reader engine disk state = [] ∧
        (c.execute reader engine disk state).disk.readBytes c.output =
          .ok (Dot.text (c.graphOf catalog playbook registry)).toUTF8) ∧
      (rawFormats.contains format = false →
        c.requests reader engine disk state =
          [⟨Dot.text (c.graphOf catalog playbook registry), format, c.output⟩]) := by
  obtain ⟨entries, hrun⟩ := execute_of_reads h.toReads engine state
  have hdisk : (c.execute reader engine disk state).disk =
      (render engine (c.graphOf catalog playbook registry) c.output disk state).disk := by
    rw [hrun]
    exact (present_disk_state c engine disk state catalog playbook registry).1
  rw [requests_of_reads h.toReads, hdisk]
  unfold Graph.requests
  cases hformat : outputFormat c.output with
  | error error =>
    have hfailed := h.rendering
    rw [render_of_format_error hformat] at hfailed
    cases hfailed
  | ok format =>
    refine ⟨format, rfl, fun hraw => ⟨if_pos hraw, ?_⟩, fun hraw => if_neg (Bool.eq_false_iff.mp hraw)⟩
    exact (render_of_raw hformat hraw h.rendering).2.1

/-- **The first stage that fails decides how a command ends.** A command has an outcome. It is an error
exactly if some stage fails, and then it is that of the first such stage, with the message and the
advice of what failed there: the status is 2 for the services file and 3 for the playbook, the expansion
and the rendering. A command that fails before its rendering, or whose output has no format, leaves the
files and the layout engine as they were and asks the engine for nothing. A report counts the nodes and
edges of the graph that was rendered: the text of that very graph stands under the output or was handed
to the engine. It has the services exactly if they were asked for. -/
theorem execute_by_stages {σ : Type} (c : Command) (reader : Yaml.Reader) (engine : LayoutEngine σ)
    (disk : Disk) (state : σ) (hmode : c.mode = .expandOnce) :
    (c.execute reader engine.traced disk ([], state)).mapState Prod.snd =
      c.execute reader engine disk state ∧
    ∃ outcome, (c.execute reader engine disk state).outcome = some outcome ∧
      (∀ e, outcome = .error e ↔ c.FirstFailure reader engine disk state e) ∧
      (∀ e, outcome = .error e → e.blame.exitCode = if e.blame = .config then 2 else 3) ∧
      ((∃ e, outcome = .error e ∧ e.blame ≠ .render) ∨ (∃ e, outputFormat c.output = .error e) →
        (c.execute reader engine disk state).disk = disk ∧
          (c.execute reader engine disk state).state = state ∧
          c.requests reader engine disk state = []) ∧
      ∀ report, outcome = .ok report → ∃ catalog playbook registry format,
        c.Delivers reader engine disk state catalog playbook registry ∧
        report.output = c.output ∧
        report.roles = registry.size ∧
        report.nodes = (c.graphOf catalog playbook registry).nodeCount ∧
        report.edges = (c.graphOf catalog playbook registry).edgeCount ∧
        report.services =
          (if c.listServices then some (registry.serviceListing catalog) else none) ∧
        outputFormat c.output = .ok format ∧
        (rawFormats.contains format = true →
          c.requests reader engine disk state = [] ∧
          (c.execute reader engine disk state).disk.readBytes c.output =
            .ok (Dot.text (c.graphOf catalog playbook registry)).toUTF8) ∧
        (rawFormats.contains format = false →
          c.requests reader engine disk state =
            [⟨Dot.text (c.graphOf catalog playbook registry), format, c.output⟩]) := by
  refine ⟨execute_traced c reader engine disk ([], state), ?_⟩
  rcases firstFailure_or_delivers c reader engine disk state hmode with ⟨e, hfailure⟩ | hdelivers
  · refine ⟨.error e, hfailure.outcome_eq, fun e' => ⟨?_, ?_⟩, fun e' he' => ?_, fun hearly => ?_,
      nofun⟩
    · rintro ⟨⟩
      exact hfailure
    · intro hfailure'
      have hsame := hfailure.outcome_eq.symm.trans hfailure'.outcome_eq
      exact Option.some.inj hsame
    · cases e'.blame <;> rfl
    · by_cases hblame : e.blame = .render
      · -- The rendering was reached, so it is the format of the output that is missing.
        obtain ⟨error, hformat⟩ : ∃ error, outputFormat c.output = .error error := by
          refine hearly.resolve_left ?_
          rintro ⟨_, ⟨⟩, hne⟩
          exact hne hblame
        cases hfailure with
        | rendering hreads _ => exact unchanged_of_format_error hformat hreads engine state
        | _ => cases hblame
      · obtain ⟨entries, hrun⟩ := hfailure.run_eq hblame
        unfold requests
        rw [hrun, hrun]
        exact ⟨rfl, rfl, rfl⟩
  · obtain ⟨catalog, playbook, registry, hdelivers⟩ := hdelivers
    obtain ⟨format, hformat, hraw, hasked⟩ := hdelivers.rendered
    refine ⟨_, hdelivers.outcome_eq, fun e => ⟨nofun, fun hfailure => ?_⟩, nofun,
      ?_, ?_⟩
    · have hsame := hdelivers.outcome_eq.symm.trans hfailure.outcome_eq
      exact Option.some.inj hsame
    · rintro (⟨e, he, -⟩ | ⟨error, herror⟩)
      · cases he
      · rw [hformat] at herror
        cases herror
    · rintro report ⟨⟩
      exact ⟨catalog, playbook, registry, format, hdelivers, rfl, rfl, rfl, rfl, rfl, hformat, hraw,
        hasked⟩

/-- A role that depends on a service. -/
def site : Disk :=
  ⟨[(["site.yml"], .file "- hosts: all\n  roles: [app]".toUTF8 false),
    (["services.yml"], .file "[nginx]".toUTF8 false),
    (["roles"], .directory),
    (["roles", "app"], .directory), (["roles", "app", "meta"], .directory),
    (["roles", "app", "meta", "main.yml"], .file "dependencies: [nginx]".toUTF8 false)]⟩

/-- Draws `site` and lists its services. -/
def listing : Command where
  playbook := "site.yml"
  output := "site.svg"
  roleDir := "roles"
  highlightServices := true
  listServices := true
  servicesFile := some "services.yml"
  layout := "dot"
  mode := .expandOnce

theorem execute_by_stages_listing :
    ∃ catalog playbook registry,
      listing.Delivers Yaml.plainReader LayoutEngine.recording site [] catalog playbook registry ∧
      2 = registry.size ∧
      4 = (listing.graphOf catalog playbook registry).nodeCount ∧
      1 = (listing.graphOf catalog playbook registry).edgeCount ∧
      some ["nginx"] = some (registry.serviceListing catalog) ∧
      listing.requests Yaml.plainReader LayoutEngine.recording site [] =
        [⟨Dot.text (listing.graphOf catalog playbook registry), "svg", "site.svg"⟩] := by
  obtain ⟨-, outcome, houtcome, -, -, -, hreport⟩ :=
    execute_by_stages listing Yaml.plainReader LayoutEngine.recording site [] rfl
  have hlisted : (listing.execute Yaml.plainReader LayoutEngine.recording site []).outcome =
      some (.ok ⟨"site.svg", 2, 4, 1, some ["nginx"]⟩) := by decide +kernel
  obtain ⟨catalog, playbook, registry, format, hdelivers, -, hroles, hnodes, hedges, hservices,
    hformat, -, hasked⟩ := hreport _ (Option.some.inj (houtcome.symm.trans hlisted))
  have hsvg : outputFormat "site.svg" = .ok "svg" := by decide
  obtain rfl : format = "svg" := Except.ok.inj (hformat.symm.trans hsvg)
  exact ⟨catalog, playbook, registry, hdelivers, hroles, hnodes, hedges, hservices,
    hasked (by decide)⟩

-- Where nothing is there, the services file is what is missed first.
example : (listing.execute Yaml.plainReader LayoutEngine.recording .empty []).outcome =
    some (.error (.ofCatalog (.unreadable .services "services.yml" .notFound))) := by
  decide +kernel

end Command

end RoleChart
