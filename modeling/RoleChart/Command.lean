import RoleChart.Arguments
import RoleChart.Command.Error
import RoleChart.Drawing
import RoleChart.Expansion
import RoleChart.Listing
import RoleChart.Playbook
/-!
The command: read a playbook, expand its roles over a directory, draw the registry and render the
graph. The stages run in the order catalog, playbook, expansion, rendering, and the first that fails
decides the outcome.
-/
namespace RoleChart

/-- What is to be done. -/
structure Command where
  playbook : Path
  output : Path
  roleDir : Path
  highlightServices : Bool
  listServices : Bool
  servicesFile : Option Path
  layout : String
  mode : ExpansionMode
  deriving Repr, BEq, DecidableEq, Inhabited

/-- What a command that succeeds reports. -/
structure Report where
  output : Path
  roles : Nat
  nodes : Nat
  edges : Nat
  services : Option (List String)
  deriving Repr, BEq, DecidableEq, Inhabited

/-- A report as JSON, where the text of its output is known. The services are there only if they were
asked for. -/
def Report.json (r : Report) (output : String) : Json :=
  .object ([("output", .string output), ("roles", .ofNat r.roles), ("nodes", .ofNat r.nodes),
    ("edges", .ofNat r.edges)] ++
    (r.services.map fun lines => ("services", Json.ofTexts lines)).toList)

/-- A report as JSON. There is none if its output is not UTF-8. -/
def Report.toJson? (r : Report) : Option Json := r.output.toString?.map r.json

namespace Command

/-! ## From arguments -/

/-- Where the roles are, seen from the directory of the program, if nothing else is said. -/
def usualRoleDir : String := "../playbooks/roles"

/-- The directory of roles that arguments name, or else the usual one of a program in the directory
`home`. -/
def roleDirectory (home : Except HomeFault Path) (a : Arguments) : Except CommandError Path :=
  match a.roleDir with
  | some path => .ok path
  | none => (home.mapError .ofHome).map fun home => home.join usualRoleDir

/-- How references to roles that are stored already are treated. -/
def modeOf (a : Arguments) : ExpansionMode :=
  if a.reexpand then .reexpand else .expandOnce

/-- The command that arguments ask for, by a program in the directory `home`. The directory of roles
and the playbook have to be there. -/
def ofArguments (disk : Disk) (home : Except HomeFault Path) (a : Arguments) :
    Except CommandError Command := do
  let roleDir ← roleDirectory home a
  if !disk.isDirectory roleDir then .error (.missingRoleDirectory roleDir)
  else if !disk.isFile a.playbook then .error (.missingPlaybook a.playbook)
  else .ok {
    playbook := a.playbook
    output := a.output
    roleDir
    highlightServices := a.highlightServices
    listServices := a.listServices
    servicesFile := a.servicesFile
    layout := a.layout
    mode := modeOf a }

/-! ## Execution -/

/-- What came of a command: the reports written, the outcome, the files afterwards and the state of
the layout engine. Without an outcome the expansion does not end. -/
structure Run (σ : Type) where
  entries : List Journal.Entry
  outcome : Option (Except CommandError Report)
  disk : Disk
  state : σ

/-- The catalog of a command. -/
def catalog (c : Command) (reader : Yaml.Reader) (disk : Disk) : Except InputError Catalog :=
  match c.servicesFile with
  | some path => Catalog.load reader disk path
  | none => .ok Catalog.builtin

/-- How the registry is drawn: the name of the playbook is the label. -/
def drawing (c : Command) (playbook : Playbook) : Drawing :=
  { Drawing.usual with highlight := c.highlightServices, label := some playbook.fileName }

/-- The entry that the playbook was read. -/
def loaded (playbook : Playbook) : Journal.Entry where
  level := .debug
  message := "Loaded playbook"
  fields := [("roles", .count playbook.roles.length)]

/-- The report on a registry and its graph. -/
def report (c : Command) (catalog : Catalog) (registry : Registry) (g : Graph) : Report where
  output := c.output
  roles := registry.size
  nodes := g.nodeCount
  edges := g.edgeCount
  services :=
    if c.listServices then some (Registry.serviceListing registry catalog) else none

/-- The entry that a command is done. -/
def finished (r : Report) : Journal.Entry where
  level := .info
  message := "Graph command finished"
  fields := [("edges", .count r.edges), ("nodes", .count r.nodes), ("roles", .count r.roles)]

variable {σ : Type}

/-- The run that fails and leaves everything as it was. -/
def failed (entries : List Journal.Entry) (e : CommandError) (disk : Disk) (state : σ) : Run σ :=
  ⟨entries, some (.error e), disk, state⟩

/-- The last stage: draws a registry and renders the graph. -/
def present (c : Command) (engine : LayoutEngine σ) (disk : Disk) (state : σ) (catalog : Catalog)
    (playbook : Playbook) (registry : Registry) : Run σ :=
  let drawing := c.drawing playbook
  let g := drawing.graph catalog registry
  let rendering := render engine g c.output disk state
  let entries := drawing.reports catalog registry ++ rendering.answer.entries
  match rendering.answer.outcome with
  | .error e => failed entries (.ofRender e) rendering.disk rendering.state
  | .ok () =>
    let report := c.report catalog registry g
    ⟨entries ++ [finished report], some (.ok report), rendering.disk, rendering.state⟩

/-- A run with entries before its own. -/
def Run.after (entries : List Journal.Entry) (r : Run σ) : Run σ :=
  { r with entries := entries ++ r.entries }

/-- Executes a command with a reader of YAML and a layout engine. -/
def execute (c : Command) (reader : Yaml.Reader) (engine : LayoutEngine σ) (disk : Disk)
    (state : σ) : Run σ :=
  match c.catalog reader disk with
  | .error e => failed [] (.ofCatalog e) disk state
  | .ok catalog =>
    let reading := Playbook.load reader disk c.playbook
    match reading.outcome with
    | .error e => failed reading.entries (.ofInput e) disk state
    | .ok playbook =>
      let expansion := Expansion.ofDirectory reader disk c.roleDir c.mode playbook.roles
      let entries := reading.entries ++ loaded playbook :: expansion.entries
      match expansion.outcome with
      | none => ⟨entries, none, disk, state⟩
      | some (.error e) => failed entries (.ofInput e) disk state
      | some (.ok registry) =>
        (c.present engine disk state catalog playbook registry).after entries

end Command

end RoleChart
