import RoleChart.Table
import Mathlib.Data.List.Nodup
/-!
An index that numbers the names of a list: it gives each name the place where it stands, and no number to
any other name (`Table.Numbers`). A new name at the end of the list gets the length of the list as its
number (`Numbers.concat`).
-/
namespace RoleChart.Table

/-- The index gives each name of a list its place, and no number to other names. -/
def Numbers (index : Table Nat) (names : List String) : Prop :=
  ∀ name n, index.get? name = some n ↔ names[n]? = some name

namespace Numbers

variable {index : Table Nat} {names : List String}

theorem empty : Numbers .empty [] := fun _ _ => by simp

theorem get?_eq_none_iff (h : index.Numbers names) (name : String) :
    index.get? name = none ↔ name ∉ names := by
  rw [Option.eq_none_iff_forall_ne_some, List.mem_iff_getElem?, not_exists]
  simp only [ne_eq, h name]

theorem concat (h : index.Numbers names) (hnodup : names.Nodup) {name : String}
    (hname : name ∉ names) : (index.set name names.length).Numbers (names ++ [name]) := by
  intro other n
  rw [get?_set]
  by_cases hother : other = name
  · subst hother
    have hlast : (names ++ [other])[names.length]? = some other := List.getElem?_concat_length
    have hlt : names.length < (names ++ [other]).length := by simp
    have hall : (names ++ [other]).Nodup :=
      hnodup.append (List.nodup_singleton _) fun a ha heq => hname (List.mem_singleton.mp heq ▸ ha)
    rw [if_pos rfl, Option.some_inj, ← hlast, eq_comm (a := (names ++ [other])[n]?),
      List.getElem?_inj hlt hall]
  · rw [if_neg hother, h other n, List.getElem?_append]
    split
    · rfl
    · next hge =>
      have hnone : names[n]? = none := List.getElem?_eq_none (Nat.le_of_not_lt hge)
      have hne : ¬ [name][n - names.length]? = some other := fun heq =>
        hother (List.mem_singleton.mp (List.mem_of_getElem? heq))
      rw [hnone]
      exact ⟨fun heq => absurd heq (by simp), fun heq => absurd heq hne⟩

end Numbers

end RoleChart.Table
