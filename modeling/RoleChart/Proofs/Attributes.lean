import RoleChart.Attributes
import RoleChart.Proofs.Table
/-!
Attributes as an ordered map. Attributes come about from none by setting keys and by merging other
attributes that came about in the same way (`Making`). Either comes to a row of assignments, where a merge
assigns the entries of the other attributes in their order, and attributes are the table of all the
assignments made (`attributes_eq_ofList`).

* `ordered_map_of_making`: keys in the order of their first assignment, each with the value of its last
  one, and the laws of merging that follow.
-/
namespace RoleChart.Attributes

/-- A way in which attributes come about from none. To set a key in place and to chain a set to an
expression are one step, since both give new attributes. -/
inductive Making where
  | nothing
  | set (before : Making) (key value : String)
  | merge (before other : Making)
  deriving Repr, DecidableEq

namespace Making

/-- What comes about. -/
def attributes : Making → Attributes
  | nothing => .empty
  | set before key value => before.attributes.set key value
  | merge before other => before.attributes.merge other.attributes

/-- The assignments made, in order. A merge makes those of the entries of the other attributes. -/
def assignments : Making → List (String × String)
  | nothing => []
  | set before key value => before.assignments ++ [(key, value)]
  | merge before other => before.assignments ++ other.attributes.entries

/-- Nothing but the assignments shows in what comes about. -/
theorem attributes_eq_ofList (m : Making) : m.attributes = .ofList m.assignments := by
  induction m with
  | nothing => rfl
  | set before key value ih =>
    rw [attributes, assignments, Table.ofList_concat, ih]
  | merge before other ih _ =>
    rw [attributes, assignments, Table.ofList_append, ← ih]
    rfl

theorem nodup_keys (m : Making) : m.attributes.keys.Nodup := by
  rw [attributes_eq_ofList]
  exact Table.nodup_keys_ofList m.assignments

theorem get?_eq_some_iff {m : Making} {k v : String} :
    m.attributes.get? k = some v ↔
      ∃ before after, m.assignments = before ++ (k, v) :: after ∧ k ∉ after.map (·.1) := by
  have hlast (after : List (String × String)) :
      (∀ b ∈ after, ¬ decide (b.1 = k) = true) ↔ k ∉ after.map (·.1) := by
    simp only [decide_eq_true_eq, List.mem_map, not_exists, not_and]
  rw [attributes_eq_ofList, Table.get?_ofList, Option.map_eq_some_iff]
  constructor
  · rintro ⟨⟨key, value⟩, hfind, rfl⟩
    obtain ⟨hkey, before, after, hsplit, hafter⟩ := findRev?_eq_some_iff_append.mp hfind
    obtain rfl : key = k := of_decide_eq_true hkey
    exact ⟨before, after, hsplit, (hlast after).mp hafter⟩
  · rintro ⟨before, after, hsplit, hafter⟩
    exact ⟨(k, v), findRev?_eq_some_iff_append.mpr
      ⟨decide_eq_true rfl, before, after, hsplit, (hlast after).mpr hafter⟩, rfl⟩

theorem keys_eq (m : Making) : m.attributes.keys = (m.assignments.map (·.1)).eraseDups := by
  rw [attributes_eq_ofList, Table.keys_ofList]

theorem get?_eq_none_iff {m : Making} {k : String} :
    m.attributes.get? k = none ↔ k ∉ m.assignments.map (·.1) := by
  rw [Table.get?_eq_none_iff, keys_eq, List.mem_eraseDups]

end Making

/-- **Attributes are an ordered map, whatever they were made by.** No key stands twice; the value of a key
is that of its last assignment, and a key that was never assigned has none; the keys stand in the order of
their first assignment. So a merge keeps the order, puts the keys that are new behind it and takes the
value of the other attributes wherever they have one; to merge nothing, or to merge over nothing, changes
nothing, nor does it to merge the same attributes twice; and of two merges in a row either can be made
first. -/
theorem ordered_map_of_making (m : Making) :
    m.attributes.keys.Nodup ∧
    (∀ k v, m.attributes.get? k = some v ↔
      ∃ before after, m.assignments = before ++ (k, v) :: after ∧ k ∉ after.map (·.1)) ∧
    (∀ k, m.attributes.get? k = none ↔ k ∉ m.assignments.map (·.1)) ∧
    m.attributes.keys = (m.assignments.map (·.1)).eraseDups ∧
    m.attributes.merge .empty = m.attributes ∧
    Table.empty.merge m.attributes = m.attributes ∧
    m.attributes.merge m.attributes = m.attributes ∧
    ∀ m' : Making,
      (m.attributes.merge m'.attributes).keys =
        (m.attributes.keys ++ m'.attributes.keys).eraseDups ∧
      (∀ k, (m.attributes.merge m'.attributes).get? k =
        (m'.attributes.get? k).or (m.attributes.get? k)) ∧
      (m.attributes.merge m'.attributes).merge m'.attributes =
        m.attributes.merge m'.attributes ∧
      ∀ m'' : Making,
        (m.attributes.merge m'.attributes).merge m''.attributes =
          m.attributes.merge (m'.attributes.merge m''.attributes) := by
  refine ⟨m.nodup_keys, fun _ _ => Making.get?_eq_some_iff, fun _ => Making.get?_eq_none_iff, m.keys_eq,
    rfl, Table.empty_merge m.nodup_keys, Table.merge_of_keys_eq m.nodup_keys rfl, fun m' => ?_⟩
  refine ⟨Table.keys_merge m.nodup_keys _, Table.get?_merge _ m'.nodup_keys, ?_, fun m'' => ?_⟩
  · rw [Table.merge_assoc m.nodup_keys m'.nodup_keys m'.nodup_keys,
      Table.merge_of_keys_eq m'.nodup_keys rfl]
  · exact Table.merge_assoc m.nodup_keys m'.nodup_keys m''.nodup_keys

-- A key that is set again, in place or by a merge, keeps its place.
example :
    let style := Making.set (.set .nothing "style" "filled") "color" "red"
    (Making.merge (.set style "style" "bold") (.set (.set .nothing "shape" "box") "color" "blue")).attributes =
      .ofList [("style", "bold"), ("color", "blue"), ("shape", "box")] := by decide

end RoleChart.Attributes
