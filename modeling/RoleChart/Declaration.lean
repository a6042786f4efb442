import RoleChart.Journal
import RoleChart.Role
import RoleChart.Text.Blank
import RoleChart.Yaml.Block
/-!
Role declarations, as they stand in the list of a playbook or of the metadata of a role: a bare
name, or a mapping with the name under `role`. A mapping with the key `when` declares the role under
a condition, whatever the condition says. Entries of any other kind are passed over with a warning.
-/
namespace RoleChart

/-- An entry of a list of roles. -/
inductive Declaration where
  | bare (name : String)
  | mapping (name : String) (optional : Bool)
  deriving Repr, BEq, DecidableEq, Inhabited

namespace Declaration

/-- The name of the role that is declared. -/
def name : Declaration → String
  | .bare name => name
  | .mapping name _ => name

/-- Whether the role is declared under a condition. -/
def optional : Declaration → Bool
  | .bare _ => false
  | .mapping _ optional => optional

/-- The reference that a declaration makes. -/
def reference (d : Declaration) : Reference := ⟨d.name, d.optional⟩

/-- An entry on one line, as messages quote it: its YAML text, or its description where it has
none. -/
def quote (entry : Yaml.Value) : String :=
  match entry.block? with
  | some text =>
    String.join ((Text.trimEnd text).toList.map fun c => if c = '\n' then ", " else c.toString)
  | none => entry.described

/-- The warning for an entry that is passed over. -/
def skipped (context : String) (entry : Yaml.Value) : Journal.Entry where
  level := .warn
  message := "Skipping role declaration that is neither a name nor a mapping"
  fields := [("context", .text context), ("entry", .text (quote entry))]

/-- The declaration that an entry makes, if it makes one; `context` names the list in messages. -/
def ofValue (context : String) (entry : Yaml.Value) : Logged InputError (Option Declaration) :=
  match entry with
  | .string name => pure (some (.bare name))
  | .mapping fields =>
    match Yaml.Value.lookup? "role" fields with
    | some (.string name) =>
      pure (some (.mapping name (Yaml.Value.lookup? "when" fields).isSome))
    | _ => .fail (.missingRoleName context (quote entry))
  | entry => do
    .write (skipped context entry)
    return none

/-- The declarations that the entries of a list make, in order. -/
def ofValues (context : String) : List Yaml.Value → Logged InputError (List Declaration)
  | [] => pure []
  | entry :: entries => do
    let first ← ofValue context entry
    let others ← ofValues context entries
    return first.toList ++ others

end Declaration

end RoleChart
