import RoleChart.Expansion
import Mathlib.Logic.Relation
/-!
Which roles lead to which. A source says for every role what it refers to (`Source.references`);
chains of such references make up what can be reached from the declared roles (`Reaches`) and which
roles lie on a cycle (`OnCycle`). A role that cannot be read refers to nothing, so all that is
reached is reached through roles that were read.
-/
namespace RoleChart

open Relation (ReflTransGen TransGen)

/-- The references that each role makes, by its name. -/
abbrev References := String → List Reference

namespace References

/-- The names of a list of references. -/
abbrev names (list : List Reference) : List String := list.map (·.name)

theorem names_append (front rest : List Reference) :
    names (front ++ rest) = names front ++ names rest := List.map_append

theorem names_concat_congr {list list' : List Reference} {r r' : Reference}
    (h : names list = names list') (hr : r.name = r'.name) :
    names (list ++ [r]) = names (list' ++ [r']) := by
  rw [names_append, names_append, h]
  exact congrArg (fun name => names list' ++ [name]) hr

theorem exists_of_names_cons {r : Reference} {list list' : List Reference}
    (h : names (r :: list) = names list') :
    ∃ r' rest, list' = r' :: rest ∧ r.name = r'.name ∧ names list = names rest := by
  obtain ⟨r', rest, rfl, hr, hrest⟩ := List.map_eq_cons_iff.mp h.symm
  exact ⟨r', rest, rfl, hr.symm, hrest.symm⟩

variable (refs : References)

/-- A role makes a reference to another one. -/
def LeadsTo (name other : String) : Prop := ∃ r ∈ refs name, r.name = other

/-- A chain of references, possibly none, leads from one of `roots` to a role. -/
def Reaches (roots : List Reference) (name : String) : Prop :=
  ∃ r ∈ roots, ReflTransGen refs.LeadsTo r.name name

/-- A chain of references, at least one, leads from a role back to itself. -/
def OnCycle (name : String) : Prop := TransGen refs.LeadsTo name name

/-- No role that is reached lies on a cycle. -/
def Acyclic (roots : List Reference) : Prop := ∀ name, refs.Reaches roots name → ¬ refs.OnCycle name

variable {refs}

theorem leadsTo_of_mem {name : String} {r : Reference} (h : r ∈ refs name) :
    refs.LeadsTo name r.name := ⟨r, h, rfl⟩

theorem reaches_of_mem {roots : List Reference} {r : Reference} (h : r ∈ roots) :
    refs.Reaches roots r.name := ⟨r, h, .refl⟩

theorem reaches_iff {roots : List Reference} {name : String} :
    refs.Reaches roots name ↔ ∃ root ∈ names roots, ReflTransGen refs.LeadsTo root name := by
  constructor
  · rintro ⟨r, hr, hchain⟩
    exact ⟨r.name, List.mem_map_of_mem hr, hchain⟩
  · rintro ⟨root, hroot, hchain⟩
    obtain ⟨r, hr, rfl⟩ := List.mem_map.mp hroot
    exact ⟨r, hr, hchain⟩

/-- Which roles are reached depends on the names of the roots alone. -/
theorem reaches_congr {roots roots' : List Reference} (h : names roots = names roots')
    {name : String} : refs.Reaches roots name ↔ refs.Reaches roots' name := by
  rw [reaches_iff, reaches_iff, h]

theorem Reaches.trans {roots : List Reference} {name other : String}
    (h : refs.Reaches roots name) (ho : ReflTransGen refs.LeadsTo name other) :
    refs.Reaches roots other := by
  obtain ⟨r, hr, hn⟩ := h
  exact ⟨r, hr, hn.trans ho⟩

theorem Reaches.step {roots : List Reference} {name : String} {r : Reference}
    (h : refs.Reaches roots name) (hr : r ∈ refs name) : refs.Reaches roots r.name :=
  h.trans (.single (leadsTo_of_mem hr))

/-- What holds of the roots and passes along references holds of all that is reached. -/
theorem Reaches.induct {P : String → Prop} {roots : List Reference} {name : String}
    (h : refs.Reaches roots name) (hroots : ∀ r ∈ roots, P r.name)
    (hstep : ∀ n, P n → ∀ r ∈ refs n, P r.name) : P name := by
  obtain ⟨root, hroot, hchain⟩ := h
  induction hchain with
  | refl => exact hroots root hroot
  | tail _ hlast ih =>
    obtain ⟨r, hr, rfl⟩ := hlast
    exact hstep _ ih r hr

end References

/-! ## Sources -/

theorem Declaration.names_map_reference (declarations : List Declaration) :
    References.names (declarations.map reference) = declarations.map (·.name) := List.map_map

namespace Source

/-- What a source declares a role to depend on; nothing where the role has no metadata, and nothing
where it cannot be read. -/
def declared (source : Source) (name : String) : List Declaration :=
  match (source name).outcome with
  | .ok answer => answer.getD []
  | .error _ => []

/-- The references that the declarations of a role make, in order. -/
def references (source : Source) : References := fun name =>
  (source.declared name).map Declaration.reference

/-- The metadata of a role can be read, or it is known that there is none. -/
def Readable (source : Source) (name : String) : Prop :=
  ∃ answer, (source name).outcome = .ok answer

/-- A role is declared, or a role that is reached lists it as a dependency. -/
def Reaches (source : Source) (declarations : List Declaration) (name : String) : Prop :=
  source.references.Reaches (declarations.map Declaration.reference) name

/-- No role that is reached depends on itself, directly or through other roles. -/
def Acyclic (source : Source) (declarations : List Declaration) : Prop :=
  source.references.Acyclic (declarations.map Declaration.reference)

variable {source : Source}

theorem reaches_congr {declarations declarations' : List Declaration}
    (h : declarations.map (·.name) = declarations'.map (·.name)) {name : String} :
    source.Reaches declarations name ↔ source.Reaches declarations' name := by
  rw [← Declaration.names_map_reference, ← Declaration.names_map_reference] at h
  exact References.reaches_congr h

theorem references_of_ok {name : String} {answer : Option (List Declaration)}
    (h : (source name).outcome = .ok answer) :
    source.references name = Reading.referencesOf answer := by
  simp [references, declared, h, Reading.referencesOf]

end Source

end RoleChart
