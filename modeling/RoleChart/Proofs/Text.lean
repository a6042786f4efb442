import Mathlib.Data.List.TakeWhile
/-!
What stands in front of a mark: what is read of a list that is cut at the first place where a mark stands.
-/
namespace RoleChart

variable {α : Type} [DecidableEq α] {mark : α} {cs : List α}

theorem takeWhile_ne_of_notMem (h : mark ∉ cs) : cs.takeWhile (· ≠ mark) = cs := by
  refine List.takeWhile_eq_self_iff.mpr fun c hc => decide_eq_true ?_
  rintro rfl
  exact h hc

theorem dropWhile_ne_of_notMem (h : mark ∉ cs) : cs.dropWhile (· ≠ mark) = [] := by
  refine List.dropWhile_eq_nil_iff.mpr fun c hc => decide_eq_true ?_
  rintro rfl
  exact h hc

theorem takeWhile_ne_append (h : mark ∉ cs) (rest : List α) :
    (cs ++ mark :: rest).takeWhile (· ≠ mark) = cs := by
  have hall := List.takeWhile_eq_self_iff.mp (takeWhile_ne_of_notMem h)
  rw [List.takeWhile_append_of_pos hall]
  simp

theorem dropWhile_ne_append (h : mark ∉ cs) (rest : List α) :
    (cs ++ mark :: rest).dropWhile (· ≠ mark) = mark :: rest := by
  have hall := List.takeWhile_eq_self_iff.mp (takeWhile_ne_of_notMem h)
  rw [List.dropWhile_append_of_pos hall]
  simp

end RoleChart
