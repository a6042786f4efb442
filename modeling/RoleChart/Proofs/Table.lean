import RoleChart.Table
import Mathlib.Data.List.Induction
import Mathlib.Data.List.Nodup
/-!
Tables that arise from setting the pairs of a list one after the other. The keys stand in the order
in which they occur first (`keys_ofList`), each once (`nodup_keys_ofList`), and the value of a key is
the one that occurs last (`get?_ofList`). A table in which no key stands twice arises so from its own
entries (`ofList_entries`), and its keys and values determine it (`ext_get?`). Merged over a table with
the same keys it replaces that table (`merge_of_keys_eq`), and merges associate (`merge_assoc`).
-/
namespace RoleChart

/-! ## First and last occurrences -/

theorem findRev?_append {α : Type} (p : α → Bool) (front rest : List α) :
    (front ++ rest).findRev? p = (rest.findRev? p).or (front.findRev? p) := by
  simp only [List.findRev?_eq_find?_reverse, List.reverse_append, List.find?_append]

theorem findRev?_map {α β : Type} (f : α → β) (p : β → Bool) (list : List α) :
    (list.map f).findRev? p = (list.findRev? fun a => p (f a)).map f := by
  simp only [List.findRev?_eq_find?_reverse, ← List.map_reverse, List.find?_map]
  rfl

theorem findRev?_eq_none_iff {α : Type} {p : α → Bool} {list : List α} :
    list.findRev? p = none ↔ ∀ a ∈ list, ¬ p a = true := by
  rw [List.findRev?_eq_find?_reverse, List.find?_eq_none]
  simp only [List.mem_reverse]

theorem mem_of_findRev?_eq_some {α : Type} {p : α → Bool} {list : List α} {a : α}
    (h : list.findRev? p = some a) : a ∈ list ∧ p a = true := by
  rw [List.findRev?_eq_find?_reverse] at h
  exact ⟨List.mem_reverse.mp (List.mem_of_find?_eq_some h), List.find?_some h⟩

theorem exists_findRev?_eq_some {α : Type} {p : α → Bool} {list : List α} {a : α} (ha : a ∈ list)
    (hp : p a = true) : ∃ last, list.findRev? p = some last ∧ last ∈ list ∧ p last = true := by
  cases h : list.findRev? p with
  | none => exact absurd hp (findRev?_eq_none_iff.mp h a ha)
  | some last => exact ⟨last, rfl, mem_of_findRev?_eq_some h⟩

theorem findRev?_eq_some_iff_append {α : Type} {p : α → Bool} {list : List α} {a : α} :
    list.findRev? p = some a ↔
      p a = true ∧ ∃ before after, list = before ++ a :: after ∧ ∀ b ∈ after, ¬ p b = true := by
  rw [List.findRev?_eq_find?_reverse, List.find?_eq_some_iff_append]
  refine and_congr_right fun _ => ⟨?_, ?_⟩
  · rintro ⟨after, before, hsplit, hafter⟩
    refine ⟨before.reverse, after.reverse, ?_, fun b hb => ?_⟩
    · rw [← List.reverse_reverse list, hsplit]
      simp
    · simpa using hafter b (List.mem_reverse.mp hb)
  · rintro ⟨before, after, rfl, hafter⟩
    refine ⟨after.reverse, before.reverse, by simp, fun b hb => ?_⟩
    simpa using hafter b (List.mem_reverse.mp hb)

/-- A list with some entry of a kind has a first one. -/
theorem exists_first {α : Type} {p : α → Prop} {list : List α} (h : ∃ a ∈ list, p a) :
    ∃ before a after, list = before ++ a :: after ∧ (∀ b ∈ before, ¬ p b) ∧ p a := by
  induction list with
  | nil => simp at h
  | cons first rest ih =>
    by_cases hfirst : p first
    · exact ⟨[], first, rest, rfl, by simp, hfirst⟩
    · have hrest : ∃ a ∈ rest, p a := by simpa [hfirst] using h
      obtain ⟨before, a, after, rfl, hbefore, ha⟩ := ih hrest
      exact ⟨first :: before, a, after, rfl, List.forall_mem_cons.mpr ⟨hfirst, hbefore⟩, ha⟩

section

variable {α : Type} [BEq α] [LawfulBEq α]

theorem eraseDups_concat (list : List α) (a : α) :
    (list ++ [a]).eraseDups = if a ∈ list then list.eraseDups else list.eraseDups ++ [a] := by
  rw [List.eraseDups_append]
  by_cases h : a ∈ list <;> simp [List.removeAll, List.eraseDups_cons, h]

theorem nodup_eraseDups (list : List α) : list.eraseDups.Nodup := by
  induction list using List.reverseRecOn with
  | nil => exact List.nodup_nil
  | append_singleton list a ih =>
    rw [eraseDups_concat]
    split
    · exact ih
    · rename_i h
      refine List.Nodup.append ih (List.nodup_singleton a) ?_
      intro b hb hb'
      rw [List.mem_singleton.mp hb'] at hb
      exact h (List.mem_eraseDups.mp hb)

theorem eraseDups_of_nodup {list : List α} (h : list.Nodup) : list.eraseDups = list := by
  induction list using List.reverseRecOn with
  | nil => rfl
  | append_singleton list a ih =>
    obtain ⟨hlist, _, hdisjoint⟩ := List.nodup_append.mp h
    have hnew : a ∉ list := fun ha => hdisjoint a ha a (List.mem_singleton_self a) rfl
    rw [eraseDups_concat, if_neg hnew, ih hlist]

theorem eraseDups_append_of_subset {front rest : List α} (h : rest ⊆ front) :
    (front ++ rest).eraseDups = front.eraseDups := by
  have hnone : rest.removeAll front = [] :=
    List.filter_eq_nil_iff.mpr fun a ha => by simp [h ha]
  rw [List.eraseDups_append, hnone, List.eraseDups_nil, List.append_nil]

/-- What has the same entries, in the order in which they occur first, still has when more is added. -/
theorem eraseDups_append_congr {front front' : List α} (h : front.eraseDups = front'.eraseDups)
    (rest : List α) : (front ++ rest).eraseDups = (front' ++ rest).eraseDups := by
  have hmem : ∀ a, a ∈ front ↔ a ∈ front' := fun a => by
    rw [← List.mem_eraseDups, h, List.mem_eraseDups]
  have hnew : rest.removeAll front = rest.removeAll front' :=
    List.filter_congr fun a _ => by simp only [List.contains_eq_mem, hmem]
  rw [List.eraseDups_append, List.eraseDups_append, h, hnew]

theorem eraseDups_eraseDups_append (front rest : List α) :
    (front.eraseDups ++ rest).eraseDups = (front ++ rest).eraseDups :=
  eraseDups_append_congr (eraseDups_of_nodup (nodup_eraseDups front)) rest

theorem eraseDups_append_eraseDups (front rest : List α) :
    (front ++ rest.eraseDups).eraseDups = (front ++ rest).eraseDups := by
  induction rest using List.reverseRecOn with
  | nil => rfl
  | append_singleton rest a ih =>
    rw [← List.append_assoc, eraseDups_concat (front ++ rest), eraseDups_concat rest]
    by_cases ha : a ∈ rest
    · rw [if_pos ha, if_pos (List.mem_append_right front ha), ih]
    · rw [if_neg ha, ← List.append_assoc, eraseDups_concat, ih]
      simp only [List.mem_append, List.mem_eraseDups]

end

namespace Table

variable {β : Type}

/-! ## Tables of lists -/

theorem setAll_concat (t : Table β) (pairs : List (String × β)) (pair : String × β) :
    t.setAll (pairs ++ [pair]) = (t.setAll pairs).set pair.1 pair.2 := by
  simp [setAll, List.foldl_append]

theorem ofList_concat (pairs : List (String × β)) (pair : String × β) :
    ofList (pairs ++ [pair]) = (ofList pairs).set pair.1 pair.2 :=
  setAll_concat empty pairs pair

theorem ofList_append (pairs pairs' : List (String × β)) :
    ofList (pairs ++ pairs') = (ofList pairs).setAll pairs' := by
  simp [ofList, setAll, List.foldl_append]

/-- Keys that are new stand behind the old ones, in the order of their first occurrence. -/
theorem keys_setAll {t : Table β} (h : t.keys.Nodup) (pairs : List (String × β)) :
    (t.setAll pairs).keys = (t.keys ++ pairs.map (·.1)).eraseDups := by
  induction pairs using List.reverseRecOn with
  | nil =>
    rw [List.map_nil, List.append_nil, eraseDups_of_nodup h]
    rfl
  | append_singleton pairs pair ih =>
    rw [setAll_concat, keys_set, ih, List.map_append, List.map_singleton, ← List.append_assoc,
      eraseDups_concat]
    simp only [List.mem_eraseDups]

/-- The keys stand in the order of their first occurrence. -/
theorem keys_ofList (pairs : List (String × β)) :
    (ofList pairs).keys = (pairs.map (·.1)).eraseDups := by
  have hempty : (empty : Table β).keys.Nodup := List.nodup_nil
  exact keys_setAll hempty pairs

theorem nodup_keys_ofList (pairs : List (String × β)) : (ofList pairs).keys.Nodup := by
  rw [keys_ofList]
  exact nodup_eraseDups _

/-- The value of a key is the one that was set last, or the one before where none was. -/
theorem get?_setAll (t : Table β) (pairs : List (String × β)) (k : String) :
    (t.setAll pairs).get? k = ((pairs.findRev? (·.1 = k)).map (·.2)).or (t.get? k) := by
  rw [List.findRev?_eq_find?_reverse]
  induction pairs using List.reverseRecOn with
  | nil => rfl
  | append_singleton pairs pair ih =>
    rw [setAll_concat, get?_set, ih, List.reverse_append]
    by_cases h : k = pair.1
    · simp [h]
    · simp [h, Ne.symm h]

/-- The value of a key is the one that was set last. -/
theorem get?_ofList (pairs : List (String × β)) (k : String) :
    (ofList pairs).get? k = (pairs.findRev? (·.1 = k)).map (·.2) := by
  rw [ofList, get?_setAll, get?_empty, Option.or_none]

/-! ## Tables whose keys stand once -/

theorem setIn_of_notMem {key : String} {value : β} {entries : List (String × β)}
    (h : key ∉ entries.map (·.1)) : setIn key value entries = entries ++ [(key, value)] := by
  induction entries with
  | nil => rfl
  | cons entry rest ih =>
    rw [List.map_cons, List.mem_cons, not_or] at h
    rw [setIn, if_neg (Ne.symm h.1), ih h.2, List.cons_append]

/-- Where no key stands twice, setting a key replaces the entry at its place. -/
theorem setIn_eq_set {key : String} {value old : β} {entries : List (String × β)} {n : Nat}
    (h : (entries.map (·.1)).Nodup) (hn : entries[n]? = some (key, old)) :
    setIn key value entries = entries.set n (key, value) := by
  induction entries generalizing n with
  | nil => exact absurd hn (by simp)
  | cons entry rest ih =>
    obtain ⟨hnew, hrest⟩ : entry.1 ∉ rest.map (·.1) ∧ (rest.map (·.1)).Nodup :=
      List.nodup_cons.mp h
    cases n with
    | zero =>
      rw [List.getElem?_cons_zero, Option.some_inj] at hn
      rw [hn, setIn, if_pos rfl, List.set_cons_zero]
    | succ n =>
      rw [List.getElem?_cons_succ] at hn
      have hmem : key ∈ rest.map (·.1) := List.mem_map_of_mem (List.mem_of_getElem? hn)
      have hkey : entry.1 ≠ key := fun heq => hnew (heq ▸ hmem)
      rw [setIn, if_neg hkey, ih hrest hn, List.set_cons_succ]

theorem ofList_entries {t : Table β} (h : t.keys.Nodup) : ofList t.entries = t := by
  obtain ⟨entries⟩ := t
  induction entries using List.reverseRecOn with
  | nil => rfl
  | append_singleton entries entry ih =>
    rw [keys, List.map_append, List.map_singleton, List.nodup_append] at h
    have hnew : entry.1 ∉ entries.map (·.1) := fun hmem =>
      h.2.2 _ hmem _ (List.mem_singleton_self _) rfl
    rw [ofList_concat, ih h.1]
    exact congrArg Table.mk (setIn_of_notMem hnew)

theorem ext_get? {t t' : Table β} (h : t.keys.Nodup) (hkeys : t.keys = t'.keys)
    (hget : ∀ k, t.get? k = t'.get? k) : t = t' := by
  obtain ⟨entries⟩ := t
  obtain ⟨entries'⟩ := t'
  refine congrArg Table.mk ?_
  induction entries generalizing entries' with
  | nil => exact (List.map_eq_nil_iff.mp hkeys.symm).symm
  | cons entry rest ih =>
    obtain ⟨⟨key, value'⟩, rest', rfl, hkey, hrest⟩ := List.map_eq_cons_iff.mp hkeys.symm
    obtain ⟨key', value⟩ := entry
    cases hkey
    obtain ⟨hnew, hnodup⟩ := List.nodup_cons.mp h
    have hvalue : value = value' := by simpa [get?] using hget key
    have hlater : ∀ k, (⟨rest⟩ : Table β).get? k = (⟨rest'⟩ : Table β).get? k := by
      intro k
      by_cases hk : k = key
      · subst hk
        have hnew' : k ∉ (⟨rest'⟩ : Table β).keys := by rwa [keys, hrest]
        rw [(get?_eq_none_iff ⟨rest⟩ k).mpr hnew, (get?_eq_none_iff ⟨rest'⟩ k).mpr hnew']
      · simpa [get?, List.lookup_cons, beq_false_of_ne hk] using hget k
    rw [hvalue, ih hnodup rest' hrest.symm hlater]

/-! ## Merging -/

/-- Over the table without entries a merge gives the other table. -/
theorem empty_merge {t : Table β} (h : t.keys.Nodup) : empty.merge t = t := ofList_entries h

/-- A merge keeps what the other table does not set. -/
theorem get?_merge (t : Table β) {t' : Table β} (h : t'.keys.Nodup) (k : String) :
    (t.merge t').get? k = (t'.get? k).or (t.get? k) := by
  have hget := get?_ofList t'.entries k
  rw [ofList_entries h] at hget
  rw [merge, get?_setAll, hget]

/-- A merge puts the keys that are new behind those of the table. -/
theorem keys_merge {t : Table β} (h : t.keys.Nodup) (t' : Table β) :
    (t.merge t').keys = (t.keys ++ t'.keys).eraseDups := keys_setAll h t'.entries

theorem nodup_keys_merge {t : Table β} (h : t.keys.Nodup) (t' : Table β) :
    (t.merge t').keys.Nodup := by
  rw [keys_merge h]
  exact nodup_eraseDups _

/-- A merge of two tables with the same keys replaces the one by the other. -/
theorem merge_of_keys_eq {t t' : Table β} (h : t'.keys.Nodup) (hkeys : t.keys = t'.keys) :
    t.merge t' = t' := by
  have hmerged : (t.merge t').keys = t'.keys := by
    rw [keys_merge (hkeys ▸ h), hkeys]
    exact (eraseDups_append_of_subset fun _ hk => hk).trans (eraseDups_of_nodup h)
  refine ext_get? (hmerged ▸ h) hmerged fun k => ?_
  rw [get?_merge t h]
  cases hget : t'.get? k with
  | some value => rfl
  | none =>
    have hnew : k ∉ t.keys := hkeys ▸ (get?_eq_none_iff t' k).mp hget
    exact (get?_eq_none_iff t k).mpr hnew

/-- Where tables are merged one after the other it does not matter which merge is made first. -/
theorem merge_assoc {a b c : Table β} (ha : a.keys.Nodup) (hb : b.keys.Nodup) (hc : c.keys.Nodup) :
    (a.merge b).merge c = a.merge (b.merge c) := by
  have hab := nodup_keys_merge ha b
  refine ext_get? (nodup_keys_merge hab c) ?_ fun k => ?_
  · rw [keys_merge hab, keys_merge ha, keys_merge ha, keys_merge hb, eraseDups_eraseDups_append,
      eraseDups_append_eraseDups, List.append_assoc]
  · rw [get?_merge _ hc, get?_merge a hb, get?_merge a (nodup_keys_merge hb c), get?_merge b hc,
      Option.or_assoc]

/-- Merged one after the other, tables with the same keys come to the last of them. -/
theorem foldl_merge_of_keys_eq {keys : List String} (hnodup : keys.Nodup) {list : List (Table β)}
    (h : ∀ t ∈ list, t.keys = keys) : list.foldl merge empty = list.getLast?.getD empty := by
  induction list using List.reverseRecOn with
  | nil => rfl
  | append_singleton list t ih =>
    have hkeys : t.keys = keys := h t (List.mem_append_right _ (List.mem_singleton_self t))
    have hlist := ih fun t' ht' => h t' (List.mem_append_left _ ht')
    rw [List.foldl_append, List.foldl_cons, List.foldl_nil, hlist, List.getLast?_concat,
      Option.getD_some]
    cases hlast : list.getLast? with
    | none => exact empty_merge (hkeys ▸ hnodup)
    | some before =>
      have hbefore := h before (List.mem_append_left _ (List.mem_of_getLast? hlast))
      exact merge_of_keys_eq (hkeys ▸ hnodup) (hbefore.trans hkeys.symm)

/-! ## Values -/

theorem get?_of_mem_entries {t : Table β} (h : t.keys.Nodup) {entry : String × β}
    (hentry : entry ∈ t.entries) : t.get? entry.1 = some entry.2 := by
  obtain ⟨before, after, heq⟩ := List.append_of_mem hentry
  refine List.lookup_eq_some_iff.mpr ⟨before, after, heq, fun pair hpair => ?_⟩
  rw [keys, heq, List.map_append, List.map_cons] at h
  have hdisjoint := (List.nodup_append.mp h).2.2
  have hne := hdisjoint pair.1 (List.mem_map_of_mem hpair) entry.1 List.mem_cons_self
  simpa using Ne.symm hne

/-- Where no key stands twice, the entries are the keys with their values. -/
theorem entries_eq_map_keys {t : Table β} (h : t.keys.Nodup) {value : String → β}
    (hvalue : ∀ k ∈ t.keys, t.get? k = some (value k)) :
    t.entries = t.keys.map fun k => (k, value k) := by
  have hentry : ∀ entry ∈ t.entries, (entry.1, value entry.1) = entry := by
    intro entry hentry
    have hsome := hvalue entry.1 (List.mem_map_of_mem hentry)
    rw [get?_of_mem_entries h hentry] at hsome
    rw [← Option.some.inj hsome]
  have hmap : t.entries.map (fun entry => (entry.1, value entry.1)) = t.entries.map id :=
    List.map_congr_left hentry
  rw [keys, List.map_map]
  exact (hmap.trans (List.map_id _)).symm

/-- Where no key stands twice, the values are what the keys give. -/
theorem mem_values_iff {t : Table β} (h : t.keys.Nodup) (v : β) :
    v ∈ t.values ↔ ∃ k, t.get? k = some v := by
  constructor
  · intro hv
    obtain ⟨entry, hentry, rfl⟩ := List.mem_map.mp hv
    exact ⟨entry.1, get?_of_mem_entries h hentry⟩
  · rintro ⟨k, hk⟩
    obtain ⟨before, after, heq, _⟩ := List.lookup_eq_some_iff.mp hk
    simp [values, heq]

/-- The entry of a key stands at one place, and the key nowhere behind it. -/
theorem exists_entries_eq {t : Table β} (h : t.keys.Nodup) {k : String} {v : β}
    (hget : t.get? k = some v) :
    ∃ before after, t.entries = before ++ (k, v) :: after ∧ k ∉ after.map (·.1) := by
  obtain ⟨before, after, heq, _⟩ := List.lookup_eq_some_iff.mp hget
  have hkeys : t.keys = before.map (·.1) ++ k :: after.map (·.1) := by
    rw [keys, heq, List.map_append, List.map_cons]
  rw [hkeys] at h
  have hlater := (List.nodup_append.mp h).2.1
  exact ⟨before, after, heq, (List.nodup_cons.mp hlater).1⟩

end Table

end RoleChart
