import RoleChart.Proofs.References
import Mathlib.Tactic.Tauto
/-!
Following references from a queue. The first reference of the queue is followed, and the references
of its role join the queue at its end. A role for which `once` holds is treated differently when it
was named before: its references do not join again. `Follows refs once earlier queue followed` says
that a queue comes to its end, `followed` being the references followed from it, in order, where
`earlier` were followed before.

With `once` false throughout every reference is expanded; with `once` true throughout this is a
breadth-first search. What is followed is determined (`Follows.unique`), it names exactly what can be
reached (`Follows.mem_names_iff`), and a queue comes to its end with nothing held back only if there
is no cycle (`Follows.acyclic`). What the front of a queue brings about joins behind the rest
(`Follows.split`), so the queue can be cut up wherever a proof needs it; in the end the queue was
followed and after it all that joined (`Follows.eq_append_joiningAll`). Marks do not steer what is
followed: queues that name the same roles lead to the same names (`Follows.names_eq`).
-/
namespace RoleChart

open Relation (ReflTransGen TransGen)

namespace References

section

variable (refs : References) (once : String → Prop) [DecidablePred once]

/-- The references that join the queue when `r` is followed, where `earlier` were followed before. -/
def joining (earlier : List Reference) (r : Reference) : List Reference :=
  if once r.name ∧ r.name ∈ names earlier then [] else refs r.name

/-- The references that join the queue while a list is followed, from left to right. -/
def joiningAll : List Reference → List Reference → List Reference
  | _, [] => []
  | earlier, r :: rest => joining refs once earlier r ++ joiningAll (earlier ++ [r]) rest

/-- All that the roles named by `earlier` refer to was followed or waits in the queue. -/
def Closed (earlier queue : List Reference) : Prop :=
  ∀ r ∈ earlier, ∀ s ∈ refs r.name, s.name ∈ names (earlier ++ queue)

/-- A queue comes to its end. -/
inductive Follows : List Reference → List Reference → List Reference → Prop
  | done (earlier : List Reference) : Follows earlier [] []
  | next {earlier rest followed : List Reference} {r : Reference} :
    Follows (earlier ++ [r]) (rest ++ joining refs once earlier r) followed →
    Follows earlier (r :: rest) (r :: followed)

end

section

variable {refs : References} {once : String → Prop} [DecidablePred once]

theorem mem_refs_of_mem_joining {earlier : List Reference} {r s : Reference}
    (h : s ∈ joining refs once earlier r) : s ∈ refs r.name := by
  unfold joining at h
  split at h
  · exact absurd h List.not_mem_nil
  · exact h

/-! ## What joins the queue -/

theorem exists_of_mem_joiningAll {earlier list : List Reference} {s : Reference}
    (h : s ∈ joiningAll refs once earlier list) : ∃ r ∈ list, s ∈ refs r.name := by
  induction list generalizing earlier with
  | nil => exact absurd h List.not_mem_nil
  | cons r list ih =>
    rcases List.mem_append.mp h with h | h
    · exact ⟨r, List.mem_cons_self, mem_refs_of_mem_joining h⟩
    · obtain ⟨r', hr', hs⟩ := ih h
      exact ⟨r', List.mem_cons_of_mem r hr', hs⟩

/-- When a role is named first, its references join the queue. -/
theorem subset_joiningAll {earlier list : List Reference} {name : String}
    (hname : name ∈ names list) (hnew : name ∉ names earlier) :
    refs name ⊆ joiningAll refs once earlier list := by
  induction list generalizing earlier with
  | nil => exact absurd hname List.not_mem_nil
  | cons r list ih =>
    rw [joiningAll]
    by_cases hr : r.name = name
    · subst hr
      have hjoining : joining refs once earlier r = refs r.name := if_neg fun h => hnew h.2
      rw [hjoining]
      exact List.subset_append_left _ _
    · have hrest : name ∈ names list := (List.mem_cons.mp hname).resolve_left (Ne.symm hr)
      have hnew' : name ∉ names (earlier ++ [r]) := by simpa [hnew] using Ne.symm hr
      exact List.subset_append_of_subset_right _ (ih hrest hnew')

theorem mem_joiningAll_iff {list : List Reference} {s : Reference} :
    s ∈ joiningAll refs once [] list ↔ ∃ r ∈ list, s ∈ refs r.name := by
  refine ⟨exists_of_mem_joiningAll, ?_⟩
  rintro ⟨r, hr, hs⟩
  exact subset_joiningAll (List.mem_map_of_mem hr) List.not_mem_nil hs

theorem joining_congr {earlier earlier' : List Reference} {r r' : Reference}
    (hearlier : names earlier = names earlier') (hr : r.name = r'.name) :
    joining refs once earlier r = joining refs once earlier' r' := by
  simp only [joining, hearlier, hr]

theorem joiningAll_congr {earlier earlier' list list' : List Reference}
    (hearlier : names earlier = names earlier') (hlist : names list = names list') :
    joiningAll refs once earlier list = joiningAll refs once earlier' list' := by
  induction list generalizing earlier earlier' list' with
  | nil =>
    rw [List.map_eq_nil_iff.mp hlist.symm]
    rfl
  | cons r list ih =>
    obtain ⟨r', list', rfl, hr, hlist⟩ := exists_of_names_cons hlist
    rw [joiningAll, joiningAll, joining_congr hearlier hr,
      ih (names_concat_congr hearlier hr) hlist]

namespace Closed

variable (refs) in
theorem start (queue : List Reference) : Closed refs [] queue := by
  intro r hr
  exact absurd hr List.not_mem_nil

variable (once) in
/-- Following the first reference keeps the queue closed: all that waited still waits or was
followed, and only the references of the first role are new. -/
theorem step {earlier rest : List Reference} {head : Reference}
    (h : Closed refs earlier (head :: rest)) :
    Closed refs (earlier ++ [head]) (rest ++ joining refs once earlier head) := by
  have hkept : ∀ s, s ∈ names (earlier ++ head :: rest) →
      s ∈ names (earlier ++ [head] ++ (rest ++ joining refs once earlier head)) := by
    intro s hs
    simp only [List.map_append, List.map_cons, List.mem_append, List.mem_cons] at hs ⊢
    tauto
  intro r hr s hs
  rcases List.mem_append.mp hr with hr | hr
  · exact hkept _ (h r hr s hs)
  · rw [List.mem_singleton.mp hr] at hs
    by_cases hheld : once head.name ∧ head.name ∈ names earlier
    · obtain ⟨r', hr', hname⟩ := List.mem_map.mp hheld.2
      exact hkept _ (h r' hr' s (hname ▸ hs))
    · refine List.mem_map_of_mem (List.mem_append_right _ (List.mem_append_right _ ?_))
      rw [joining, if_neg hheld]
      exact hs

variable (once) in
/-- Following the front of a queue keeps it closed. -/
theorem front {earlier list rest : List Reference} (h : Closed refs earlier (list ++ rest)) :
    Closed refs (earlier ++ list) (rest ++ joiningAll refs once earlier list) := by
  induction list generalizing earlier rest with
  | nil => simpa [joiningAll] using h
  | cons r list ih =>
    rw [List.cons_append] at h
    have hstep := h.step once
    rw [List.append_assoc] at hstep
    simpa [joiningAll] using ih hstep

end Closed

namespace Follows

/-- What is followed from a queue is determined. -/
theorem unique {earlier queue followed followed' : List Reference}
    (h : Follows refs once earlier queue followed)
    (h' : Follows refs once earlier queue followed') : followed = followed' := by
  induction h generalizing followed' with
  | done => cases h'; rfl
  | next _ ih =>
    cases h' with
    | next h' => rw [ih h']

/-- Marks do not steer what is followed. -/
theorem names_eq {earlier earlier' queue queue' followed followed' : List Reference}
    (h : Follows refs once earlier queue followed)
    (h' : Follows refs once earlier' queue' followed')
    (hearlier : names earlier = names earlier') (hqueue : names queue = names queue') :
    names followed = names followed' := by
  induction h generalizing earlier' queue' followed' with
  | done =>
    rw [List.map_eq_nil_iff.mp hqueue.symm] at h'
    cases h'
    rfl
  | @next earlier rest followed r _ ih =>
    obtain ⟨r', rest', rfl, hr, hrest⟩ := exists_of_names_cons hqueue
    cases h' with
    | next h' =>
      have hjoined : names (rest ++ joining refs once earlier r) =
          names (rest' ++ joining refs once earlier' r') := by
        rw [names_append, names_append, hrest, joining_congr hearlier hr]
      have hlater := ih h' (names_concat_congr hearlier hr) hjoined
      simp only [names, List.map_cons, hr, hlater]

/-- Only the references followed, and whether their roles are treated once, count. -/
theorem congr {refs' : References} {once' : String → Prop} [DecidablePred once']
    {earlier queue followed : List Reference} (h : Follows refs once earlier queue followed)
    (hrefs : ∀ r ∈ followed, refs r.name = refs' r.name)
    (honce : ∀ r ∈ followed, once r.name ↔ once' r.name) :
    Follows refs' once' earlier queue followed := by
  induction h with
  | done earlier => exact .done earlier
  | @next earlier rest followed r _ ih =>
    have hjoining : joining refs once earlier r = joining refs' once' earlier r := by
      simp only [joining, hrefs r List.mem_cons_self, honce r List.mem_cons_self]
    refine .next ?_
    rw [← hjoining]
    exact ih (fun s hs => hrefs s (List.mem_cons_of_mem r hs))
      (fun s hs => honce s (List.mem_cons_of_mem r hs))

/-- The front of a queue is followed first, and what it brings about joins behind the rest. -/
theorem split {earlier front rest followed : List Reference}
    (h : Follows refs once earlier (front ++ rest) followed) :
    ∃ later, followed = front ++ later ∧
      Follows refs once (earlier ++ front) (rest ++ joiningAll refs once earlier front) later := by
  induction front generalizing earlier rest followed with
  | nil => exact ⟨followed, rfl, by simpa [joiningAll] using h⟩
  | cons r front ih =>
    rw [List.cons_append] at h
    cases h with
    | next h =>
      rw [List.append_assoc] at h
      obtain ⟨later, rfl, hlater⟩ := ih h
      exact ⟨later, rfl, by simpa [joiningAll] using hlater⟩

/-- The queue is followed first, and then all that joins it. -/
theorem eq_append_joiningAll {earlier queue followed : List Reference}
    (h : Follows refs once earlier queue followed) :
    followed = queue ++ joiningAll refs once earlier followed := by
  induction h with
  | done => rfl
  | next _ ih => rw [joiningAll, List.cons_append, ← List.append_assoc, ← ih]

theorem queue_subset {earlier queue followed : List Reference}
    (h : Follows refs once earlier queue followed) : queue ⊆ followed := by
  rw [h.eq_append_joiningAll]
  exact List.subset_append_left queue _

/-! ## What is followed -/

theorem reaches {earlier queue followed : List Reference}
    (h : Follows refs once earlier queue followed) {r : Reference} (hr : r ∈ followed) :
    refs.Reaches queue r.name := by
  induction h with
  | done => exact absurd hr List.not_mem_nil
  | @next earlier rest followed head _ ih =>
    rcases List.mem_cons.mp hr with rfl | hr
    · exact reaches_of_mem List.mem_cons_self
    · refine (ih hr).induct ?_ fun _ hn _ hs => hn.step hs
      intro s hs
      rcases List.mem_append.mp hs with hs | hs
      · exact reaches_of_mem (List.mem_cons_of_mem head hs)
      · exact (reaches_of_mem List.mem_cons_self).step (mem_refs_of_mem_joining hs)

/-- If the references of all roles named before were followed or wait in the queue, then in the end
the references of all roles named were followed. -/
theorem closed {earlier queue followed : List Reference}
    (h : Follows refs once earlier queue followed) (hclosed : Closed refs earlier queue) :
    Closed refs (earlier ++ followed) [] := by
  induction h with
  | done => simpa using hclosed
  | next _ ih =>
    rw [← List.singleton_append, ← List.append_assoc]
    exact ih (hclosed.step once)

/-- Exactly the roles that can be reached are named. -/
theorem mem_names_iff {roots followed : List Reference} (h : Follows refs once [] roots followed)
    (name : String) : name ∈ names followed ↔ refs.Reaches roots name := by
  constructor
  · intro hname
    obtain ⟨r, hr, rfl⟩ := List.mem_map.mp hname
    exact h.reaches hr
  · intro hname
    refine hname.induct (fun r hr => List.mem_map_of_mem (h.queue_subset hr)) ?_
    intro n hn s hs
    obtain ⟨r, hr, rfl⟩ := List.mem_map.mp hn
    simpa using h.closed (Closed.start refs roots) r (by simpa using hr) s hs

end Follows

end

/-! ## Nothing held back -/

/-- A chain of references that ends has no cycle behind it. -/
theorem not_onCycle_of_acc {refs : References} {name other : String}
    (h : Acc (fun a b => refs.LeadsTo b a) name) (ho : ReflTransGen refs.LeadsTo name other) :
    ¬ refs.OnCycle other := by
  induction h generalizing other with
  | intro name _ ih =>
    intro hcycle
    -- A cycle through `name` itself starts with a step, after which `other` is still ahead.
    have hlong : TransGen refs.LeadsTo name other := by
      rcases Relation.reflTransGen_iff_eq_or_transGen.mp ho with rfl | h
      · exact hcycle
      · exact h
    obtain ⟨next, hstep, hrest⟩ := TransGen.head'_iff.mp hlong
    exact ih next hstep hrest hcycle

namespace Follows

variable {refs : References}

theorem acc {earlier queue followed : List Reference}
    (h : Follows refs (fun _ => False) earlier queue followed) :
    ∀ r ∈ queue, Acc (fun a b => refs.LeadsTo b a) r.name := by
  induction h with
  | done => simp
  | @next earlier rest followed head _ ih =>
    have hhead : Acc (fun a b => refs.LeadsTo b a) head.name := by
      refine Acc.intro _ ?_
      rintro name ⟨r, hr, rfl⟩
      exact ih r (List.mem_append_right _ (by simpa [joining] using hr))
    intro r hr
    rcases List.mem_cons.mp hr with rfl | hr
    · exact hhead
    · exact ih r (List.mem_append_left _ hr)

/-- Where every reference is expanded, the queue comes to its end only if nothing that is reached
lies on a cycle. -/
theorem acyclic {earlier queue followed : List Reference}
    (h : Follows refs (fun _ => False) earlier queue followed) : refs.Acyclic queue := by
  rintro name ⟨r, hr, hchain⟩
  exact not_onCycle_of_acc (h.acc r hr) hchain

end Follows

end References

end RoleChart
