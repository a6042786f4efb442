import RoleChart.Proofs.Disk
import RoleChart.Proofs.Path
/-!
What rendering asks of the layout engine and what it does to the files by itself. The requests of a run
are those that the engine notes which passes every request on (`LayoutEngine.traced`); to note them
changes nothing (`render_traced`). Nothing is asked where the output has no extension or is the DOT
text itself, and everywhere else there is one request (`requests_render`). So the extension of the
output alone decides between a failure that leaves the files as they are, the DOT text in the file and
nothing else changed, and what the engine makes of its one request (`render_by_extension`).
-/
namespace RoleChart

variable {σ τ : Type}

/-- The engine that notes every request and passes it on. -/
def LayoutEngine.traced (engine : LayoutEngine σ) : LayoutEngine (List LayoutRequest × σ) :=
  fun request disk state =>
    let r := engine request disk state.2
    ⟨r.answer, r.disk, (state.1 ++ [request], r.state)⟩

/-- What came of rendering, with another view of the state. -/
def Rendering.mapState (f : σ → τ) (r : Rendering σ) : Rendering τ := ⟨r.answer, r.disk, f r.state⟩

/-- The requests to a layout engine that a graph and an output make. -/
def Graph.requests (g : Graph) (output : Path) : List LayoutRequest :=
  match outputFormat output with
  | .error _ => []
  | .ok format =>
    if rawFormats.contains format then [] else [⟨Dot.text g, format, output⟩]

variable {engine : LayoutEngine σ} {g : Graph} {output : Path} {format : String} {disk : Disk} {state : σ}

/-- To note the requests changes nothing about a rendering. -/
theorem render_traced (engine : LayoutEngine σ) (g : Graph) (output : Path) (disk : Disk)
    (state : List LayoutRequest × σ) :
    (render engine.traced g output disk state).mapState Prod.snd =
      render engine g output disk state.2 := by
  unfold render
  cases outputFormat output with
  | error e => rfl
  | ok format =>
    dsimp only
    split
    · cases disk.write output (Dot.text g).toUTF8 <;> rfl
    · rfl

theorem requests_render (engine : LayoutEngine σ) (g : Graph) (output : Path) (disk : Disk)
    (before : List LayoutRequest) (state : σ) :
    (render engine.traced g output disk (before, state)).state.1 = before ++ g.requests output := by
  unfold render Graph.requests
  cases outputFormat output with
  | error e => exact (List.append_nil before).symm
  | ok format =>
    dsimp only
    split
    · cases disk.write output (Dot.text g).toUTF8 <;> exact (List.append_nil before).symm
    · rfl

/-- Without a format nothing is rendered: the files and the engine stay as they were. -/
theorem render_of_format_error {e : RenderError} (h : outputFormat output = .error e) :
    render engine g output disk state = ⟨.fail e, disk, state⟩ := by
  unfold render
  rw [h]

/-- Where the format is the DOT text, rendering writes it and leaves the engine alone. After a success
the file holds the text, and nothing else has changed. -/
theorem render_of_raw (hformat : outputFormat output = .ok format)
    (hraw : rawFormats.contains format = true)
    (h : (render engine g output disk state).answer.outcome = .ok ()) :
    (render engine g output disk state).state = state ∧
      (render engine g output disk state).disk.readBytes output = .ok (Dot.text g).toUTF8 ∧
      ∃ place, disk.target output = .ok place ∧
        ∀ q, q ≠ place → (render engine g output disk state).disk.find? q = disk.find? q := by
  obtain ⟨extension, hextension, -⟩ := outputFormat_eq_ok_iff.mp hformat
  have hsome := (Path.extension?_eq_some_iff hextension.ne_empty).mpr hextension
  unfold render at h ⊢
  rw [hformat] at h ⊢
  dsimp only at h ⊢
  rw [if_pos hraw] at h ⊢
  cases hwrite : disk.write output (Dot.text g).toUTF8 with
  | error cause =>
    rw [hwrite] at h
    cases h
  | ok after =>
    exact ⟨rfl, Disk.readBytes_write hwrite (Disk.target_ne_nullDevice hsome),
      Disk.find?_write hwrite⟩

/-! ## Rendering by the extension of the output -/

/-- What rendering a graph asks of a layout engine. -/
def Graph.asked (g : Graph) (engine : LayoutEngine σ) (output : Path) (disk : Disk) (state : σ) :
    List LayoutRequest :=
  (render engine.traced g output disk ([], state)).state.1

theorem Graph.asked_eq_requests (g : Graph) (engine : LayoutEngine σ) (output : Path)
    (disk : Disk) (state : σ) : g.asked engine output disk state = g.requests output := by
  have h := requests_render engine g output disk [] state
  rwa [List.nil_append] at h

/-- Where the format is the DOT text and the path leads to no file, rendering fails and leaves
everything as it was. -/
theorem render_of_raw_of_target_error {cause : SystemError}
    (hformat : outputFormat output = .ok format) (hraw : rawFormats.contains format = true)
    (h : disk.target output = .error cause) :
    render engine g output disk state =
      ⟨.fail (.unwritable "writing DOT source" output cause), disk, state⟩ := by
  unfold render
  rw [hformat]
  dsimp only
  rw [if_pos hraw, Disk.write_of_target_error h]

/-- Where the format is the DOT text and the path leads to a file, rendering succeeds. -/
theorem outcome_render_of_raw (engine : LayoutEngine σ) (g : Graph) (state : σ) {place : Place}
    (hformat : outputFormat output = .ok format) (hraw : rawFormats.contains format = true)
    (h : disk.target output = .ok place) :
    (render engine g output disk state).answer.outcome = .ok () := by
  obtain ⟨after, hwrite⟩ := Disk.exists_write_of_target (Dot.text g).toUTF8 h
  unfold render
  rw [hformat]
  dsimp only
  rw [if_pos hraw, hwrite]
  rfl

/-- Any other format is left to the engine: rendering leaves what the engine leaves and ends as the
engine ends. -/
theorem render_of_layout (hformat : outputFormat output = .ok format)
    (hraw : rawFormats.contains format = false) :
    (render engine g output disk state).answer.outcome =
        (engine ⟨Dot.text g, format, output⟩ disk state).answer.outcome ∧
      (render engine g output disk state).disk =
        (engine ⟨Dot.text g, format, output⟩ disk state).disk ∧
      (render engine g output disk state).state =
        (engine ⟨Dot.text g, format, output⟩ disk state).state := by
  unfold render
  rw [hformat]
  dsimp only
  rw [if_neg (Bool.eq_false_iff.mp hraw)]
  refine ⟨?_, rfl, rfl⟩
  rw [Logged.outcome_bind]
  cases (engine ⟨Dot.text g, format, output⟩ disk state).answer.outcome <;> rfl

/-- **Rendering does one of three things, and the extension of the output says which.** A path has at
most one extension. Without one rendering fails, and the files and the engine stay as they were. With
`dot` or `gv`, in capitals or not, the engine is asked for nothing: if the path leads to a place for a
file, rendering succeeds, the DOT text is read back under the path and nothing has changed at any other
place; if not, rendering fails with the cause, and the files stay as they were. With any other extension
the engine is asked once, over the files as they were, for the DOT text in the extension in lower case
under the unchanged path; rendering leaves what the engine leaves and ends as the engine ends. What is
asked is noted by an engine that changes nothing about a rendering. -/
theorem render_by_extension (engine : LayoutEngine σ) (g : Graph) (output : Path) (disk : Disk)
    (state : σ) :
    (render engine.traced g output disk ([], state)).mapState Prod.snd =
        render engine g output disk state ∧
      (∀ e e', Path.HasExtension output e → Path.HasExtension output e' → e = e') ∧
      ((∀ e, ¬ Path.HasExtension output e) →
        (render engine g output disk state).answer.outcome = .error (.missingExtension output) ∧
        (render engine g output disk state).disk = disk ∧
        (render engine g output disk state).state = state ∧
        g.asked engine output disk state = []) ∧
      ∀ extension, Path.HasExtension output extension →
        (extension.toLower ∈ ["dot", "gv"] →
          g.asked engine output disk state = [] ∧
          (render engine g output disk state).state = state ∧
          (∀ place, disk.target output = .ok place →
            (render engine g output disk state).answer.outcome = .ok () ∧
            (render engine g output disk state).disk.readText output = .ok (Dot.text g) ∧
            ∀ q, q ≠ place →
              (render engine g output disk state).disk.find? q = disk.find? q) ∧
          ∀ cause, disk.target output = .error cause →
            (render engine g output disk state).answer.outcome =
              .error (.unwritable "writing DOT source" output cause) ∧
            (render engine g output disk state).disk = disk) ∧
        (extension.toLower ∉ ["dot", "gv"] →
          g.asked engine output disk state = [⟨Dot.text g, extension.toLower, output⟩] ∧
          (render engine g output disk state).answer.outcome =
            (engine ⟨Dot.text g, extension.toLower, output⟩ disk state).answer.outcome ∧
          (render engine g output disk state).disk =
            (engine ⟨Dot.text g, extension.toLower, output⟩ disk state).disk ∧
          (render engine g output disk state).state =
            (engine ⟨Dot.text g, extension.toLower, output⟩ disk state).state) := by
  refine ⟨render_traced engine g output disk ([], state), fun e e' h h' => h.unique h', ?_, ?_⟩
  · intro hnone
    have hformat := outputFormat_of_not_hasExtension hnone
    rw [render_of_format_error hformat, g.asked_eq_requests]
    unfold Graph.requests
    rw [hformat]
    exact ⟨rfl, rfl, rfl, rfl⟩
  · intro extension hextension
    have hformat := outputFormat_of_hasExtension hextension
    have hrequests : g.asked engine output disk state = if rawFormats.contains extension.toLower
        then [] else [⟨Dot.text g, extension.toLower, output⟩] := by
      rw [g.asked_eq_requests]
      unfold Graph.requests
      rw [hformat]
    constructor
    · intro hdot
      have hraw : rawFormats.contains extension.toLower = true := List.contains_iff_mem.mpr hdot
      rw [if_pos hraw] at hrequests
      have hstate : (render engine g output disk state).state = state := by
        cases htarget : disk.target output with
        | error cause => rw [render_of_raw_of_target_error hformat hraw htarget]
        | ok place =>
          have hok := outcome_render_of_raw engine g state hformat hraw htarget
          exact (render_of_raw hformat hraw hok).1
      refine ⟨hrequests, hstate, ?_, ?_⟩
      · intro place htarget
        have hok := outcome_render_of_raw engine g state hformat hraw htarget
        obtain ⟨-, hbytes, place', htarget', hframe⟩ := render_of_raw hformat hraw hok
        have hplace : place' = place := Except.ok.inj (htarget'.symm.trans htarget)
        subst hplace
        exact ⟨hok, Disk.readText_of_readBytes hbytes, hframe⟩
      · intro cause htarget
        rw [render_of_raw_of_target_error hformat hraw htarget]
        exact ⟨rfl, rfl⟩
    · intro hother
      have hraw : rawFormats.contains extension.toLower = false := by
        rw [Bool.eq_false_iff]
        exact fun h => hother (List.contains_iff_mem.mp h)
      rw [if_neg (Bool.eq_false_iff.mp hraw)] at hrequests
      exact ⟨hrequests, render_of_layout hformat hraw⟩

/-- A directory for outputs, with a file in it. -/
def outputs : Disk := ⟨[(["out"], .directory), (["out", "notes"], .file "keep".toUTF8 false)]⟩

/-- A role that depends on another. -/
def dependent : Graph := Graph.empty.addEdge "app" "db"

theorem render_by_extension_outputs :
    (∀ e, ¬ Path.HasExtension "out/.dot" e) ∧
      (render LayoutEngine.recording dependent "out/.dot" outputs []).answer.outcome =
        .error (.missingExtension "out/.dot") ∧
    Path.HasExtension "out/chart.GV" "GV" ∧
      outputs.target "out/chart.GV" = .ok ["out", "chart.GV"] ∧
      (render LayoutEngine.recording dependent "out/chart.GV" outputs []).disk.readText
        "out/chart.GV" = .ok (Dot.text dependent) ∧
      (render LayoutEngine.recording dependent "out/chart.GV" outputs []).disk.find?
        ["out", "notes"] = some (.file "keep".toUTF8 false) ∧
    Path.HasExtension "out/chart.tar.SVG/." "SVG" ∧
      dependent.asked LayoutEngine.recording "out/chart.tar.SVG/." outputs [] =
        [⟨Dot.text dependent, "svg", "out/chart.tar.SVG/."⟩] := by
  have hnone : ∀ e, ¬ Path.HasExtension "out/.dot" e := fun e =>
    Path.not_hasExtension_of_none (by decide)
  have hgv : Path.HasExtension "out/chart.GV" "GV" :=
    ⟨[(Path.ofString "out").bytes], (Path.ofString "chart").bytes, [], by decide, by simp, by decide,
      by decide, by decide⟩
  have hsvg : Path.HasExtension "out/chart.tar.SVG/." "SVG" :=
    ⟨[(Path.ofString "out").bytes], (Path.ofString "chart.tar").bytes, [Path.here.bytes], by decide,
      by simp [Path.here], by decide, by decide, by decide⟩
  have hlower : "SVG".toLower = "svg" := by decide +kernel
  have htarget : outputs.target "out/chart.GV" = .ok ["out", "chart.GV"] := by decide +kernel
  obtain ⟨-, -, hmissing, -⟩ :=
    render_by_extension LayoutEngine.recording dependent "out/.dot" outputs []
  obtain ⟨-, -, -, hwritten⟩ :=
    render_by_extension LayoutEngine.recording dependent "out/chart.GV" outputs []
  obtain ⟨-, -, -, hasked⟩ :=
    render_by_extension LayoutEngine.recording dependent "out/chart.tar.SVG/." outputs []
  obtain ⟨-, -, hplace, -⟩ := (hwritten "GV" hgv).1 (by decide +kernel)
  obtain ⟨-, hread, hframe⟩ := hplace _ htarget
  refine ⟨hnone, (hmissing hnone).1, hgv, htarget, hread, ?_, hsvg, ?_⟩
  · rw [hframe ["out", "notes"] (by decide)]
    decide
  · have hrequest := ((hasked "SVG" hsvg).2 (by decide +kernel)).1
    rwa [hlower] at hrequest

end RoleChart
