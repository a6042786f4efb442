import RoleChart.Expansion.Walk
/-!
Expansion: from declarations to the registry of all roles that they lead to. The metadata is read
first, and the walk follows the references after it. In the mode `expandOnce` roles on a cycle are
guarded, so the walk always ends; in the mode `reexpand` nothing is guarded, and it ends only where
there is no cycle.
-/
namespace RoleChart

/-- How references to a role that is stored already are treated. -/
inductive ExpansionMode where
  | expandOnce
  | reexpand
  deriving Repr, BEq, DecidableEq, Inhabited

/-- The name of a mode in reports. -/
def ExpansionMode.name : ExpansionMode → String
  | .expandOnce => "ExpandOnce"
  | .reexpand => "Reexpand"

/-- What came of an expansion: the names asked for, the reports written, and the registry or the
first error. Without an outcome the expansion does not end, or there were more names than were
allowed. -/
structure Expansion where
  asked : List String
  entries : List Journal.Entry
  outcome : Option (Except InputError Registry)

namespace Expansion

/-- The roles whose references join the queue once only, where `cyclic` are those on a cycle. -/
def guarded (mode : ExpansionMode) (cyclic : List String) : List String :=
  match mode with
  | .expandOnce => cyclic
  | .reexpand => []

/-- The report before the walk. -/
def started (mode : ExpansionMode) (roots : List Reference) (metadata : Resolved)
    (guards : List String) : Journal.Entry where
  level := .debug
  message := "Expanding role dependencies"
  fields := [("cyclic", .count guards.length), ("mode", .text mode.name),
    ("reachable", .count metadata.size), ("roles", .count roots.length)]

/-- The report after the walk. -/
def completed (registry : Registry) : Journal.Entry where
  level := .info
  message := "Role expansion complete"
  fields := [("roles", .count registry.size)]

/-- The walk from `roots` over metadata that was read. It ends only if every role on a cycle is
guarded. -/
def walk (metadata : Resolved) (cyclic guards : List String) (roots : List Reference) :
    Option (List Visit × Registry) :=
  if cyclic.all guards.contains then
    Walk.run metadata guards.contains (Walk.limitFor metadata guards.contains roots) roots .empty
  else none

/-- Expands declarations, where at most `limit` names are asked for and `findCyclic` finds the roles on a
cycle. -/
def runWith (findCyclic : Resolved → List String) (source : Source) (limit : Nat)
    (mode : ExpansionMode) (declarations : List Declaration) : Expansion :=
  let roots := declarations.map Declaration.reference
  let reading := Reading.run source limit roots
  match reading.outcome with
  | none => ⟨reading.asked, reading.entries, none⟩
  | some (.error e) => ⟨reading.asked, reading.entries, some (.error e)⟩
  | some (.ok metadata) =>
    let cyclic := findCyclic metadata
    let guards := guarded mode cyclic
    let entries := reading.entries ++ [started mode roots metadata guards]
    match walk metadata cyclic guards roots with
    | none => ⟨reading.asked, entries, none⟩
    | some (visits, registry) =>
      ⟨reading.asked, entries ++ visits.map Visit.report ++ [completed registry],
        some (.ok registry)⟩

/-- Expands declarations, where at most `limit` names are asked for. The roles on a cycle are found by a
search from each role; components give the same ones (`cyclicOfComponents`). -/
def run (source : Source) (limit : Nat) (mode : ExpansionMode) (declarations : List Declaration) :
    Expansion :=
  runWith Resolved.cyclic source limit mode declarations

/-- Expands declarations over a table of metadata. Every name that is asked for is declared at the
start or in the table. -/
def ofTable (metadata : Table (List Declaration)) (mode : ExpansionMode)
    (declarations : List Declaration) : Expansion :=
  run (Metadata.ofTable metadata)
    (declarations.length + metadata.values.flatten.length) mode declarations

/-- Expands declarations over a directory of roles. Every name that is asked for is declared at the
start or in some file. -/
def ofDirectory (reader : Yaml.Reader) (disk : Disk) (root : Path) (mode : ExpansionMode)
    (declarations : List Declaration) : Expansion :=
  run (Metadata.ofDirectory reader disk root)
    (declarations.length + (Metadata.declaredNames reader disk).length) mode declarations

end Expansion

end RoleChart
