import RoleChart.Expansion.Cycle
/-!
The walk that fills the registry. References wait in a queue. The first one is followed: its role is
stored under its name, and the references of that role join the queue at its end. A guarded role
that is stored already takes over the mark of the reference and adds nothing to the queue.
-/
namespace RoleChart

/-- One reference followed: the role as it is stored afterwards, and whether its references join the
queue. -/
structure Visit where
  role : Role
  expands : Bool
  deriving Repr, BEq, DecidableEq, Inhabited

namespace Visit

/-- The references that join the queue. -/
def added (v : Visit) : List Reference :=
  if v.expands then v.role.dependencies else []

/-- The report of a visit. -/
def report (v : Visit) : Journal.Entry :=
  let mark := [("optional", Journal.Datum.flag v.role.optional), ("role", .text v.role.name)]
  if v.expands then
    ⟨.trace, "Expanded role", ("dependencies", .count v.role.dependencies.length) :: mark⟩
  else ⟨.trace, "Cyclic role already expanded", mark⟩

end Visit

namespace Walk

/-- What happens when a reference is followed. -/
def visit (metadata : Resolved) (guarded : String → Bool) (registry : Registry) (r : Reference) :
    Visit :=
  match guarded r.name, registry.get? r.name with
  | true, some role => ⟨{ role with optional := r.optional }, false⟩
  | _, _ => ⟨⟨r.name, r.optional, metadata.references r.name⟩, true⟩

/-- Follows the references in a queue to its end, at most `limit` of them. The answer holds the
visits and the registry after them. -/
def run (metadata : Resolved) (guarded : String → Bool) :
    Nat → List Reference → Registry → Option (List Visit × Registry)
  | _, [], registry => some ([], registry)
  | 0, _ :: _, _ => none
  | limit + 1, r :: rest, registry =>
    let v := visit metadata guarded registry r
    (run metadata guarded limit (rest ++ v.added) (registry.set r.name v.role)).map
      fun (visits, registry) => (v :: visits, registry)

/-! ## How many references are followed -/

/-- The sum of what `f` gives for the members of a list. -/
def sumOver {α : Type} (f : α → Nat) (list : List α) : Nat :=
  list.foldr (fun a sum => f a + sum) 0

@[simp] theorem sumOver_nil {α : Type} (f : α → Nat) : sumOver f [] = 0 := rfl

@[simp] theorem sumOver_cons {α : Type} (f : α → Nat) (a : α) (list : List α) :
    sumOver f (a :: list) = f a + sumOver f list := rfl

/-- The number of references that following one to `name` brings about, that one included, where a
guarded role brings about no others and chains of references have at most `depth` links. -/
def weight (metadata : Resolved) (guarded : String → Bool) : Nat → String → Nat
  | 0, _ => 1
  | depth + 1, name =>
    if guarded name then 1
    else 1 + sumOver (fun r => weight metadata guarded depth r.name) (metadata.references name)

/-- The number of references that following each of a list brings about. -/
def totalWeight (metadata : Resolved) (guarded : String → Bool) (refs : List Reference) : Nat :=
  sumOver (fun r => weight metadata guarded metadata.size r.name) refs

/-- A bound on the number of references followed from `roots`: what they bring about, and what the
references of every guarded role bring about, once. -/
def limitFor (metadata : Resolved) (guarded : String → Bool) (roots : List Reference) : Nat :=
  totalWeight metadata guarded roots +
    sumOver (fun name => totalWeight metadata guarded (metadata.references name))
      (metadata.keys.filter guarded)

end Walk

end RoleChart
