import RoleChart.Metadata
/-!
Reading the metadata of every role that can be reached. Names are asked for breadth first, each
once, until nothing new is named or one cannot be read.
-/
namespace RoleChart

/-- The references of every role whose metadata was read, in the order of reading. -/
abbrev Resolved := Table (List Reference)

namespace Resolved

/-- The references of a role; none if it was not read. -/
def references (metadata : Resolved) (name : String) : List Reference :=
  (metadata.get? name).getD []

end Resolved

/-- What came of reading: the names asked for, the reports written, and the metadata or the first
error. Without an outcome there were more names than were allowed. -/
structure Reading where
  asked : List String
  entries : List Journal.Entry
  outcome : Option (Except InputError Resolved)

namespace Reading

/-- The references that an answer of a source declares. -/
def referencesOf (answer : Option (List Declaration)) : List Reference :=
  (answer.getD []).map Declaration.reference

/-- The report that the metadata of a role was read. -/
def resolved (name : String) (references : List Reference) : Journal.Entry where
  level := .debug
  message := "Resolved role metadata"
  fields := [("dependencies", .count references.length), ("role", .text name)]

/-- The reading that ends at once. -/
def ended (outcome : Option (Except InputError Resolved)) : Reading := ⟨[], [], outcome⟩

/-- Asks for the names in `pending` and for all that they lead to, at most `limit` of them, where
`known` has been read before. -/
def askAll (source : Source) : Nat → List String → Resolved → Reading
  | 0, pending, known =>
    match pending.dropWhile known.contains with
    | [] => ended (some (.ok known))
    | _ :: _ => ended none
  | limit + 1, pending, known =>
    match pending.dropWhile known.contains with
    | [] => ended (some (.ok known))
    | name :: rest =>
      let answer := source name
      match answer.outcome with
      | .error e => ⟨[name], answer.entries, some (.error e)⟩
      | .ok found =>
        let references := referencesOf found
        let later :=
          askAll source limit (rest ++ references.map (·.name)) (known.set name references)
        ⟨name :: later.asked, answer.entries ++ resolved name references :: later.entries,
          later.outcome⟩

/-- Asks for the roles that `roots` refer to and for all that they lead to, at most `limit` of
them. -/
def run (source : Source) (limit : Nat) (roots : List Reference) : Reading :=
  askAll source limit (roots.map (·.name)) .empty

end Reading

end RoleChart
