import RoleChart.Proofs.Reading
/-!
The roles on a cycle. `Resolved.closure` collects what a list of names leads to: nothing else
(`closure_sound`), and all of it once the bound admits every name that was read (`closure_closed`).
So `Resolved.cyclic` holds exactly the roles from which a chain of references leads back
(`mem_cyclic_iff`), and for metadata that was read from declared roles these are the roles on a cycle
of the source (`mem_cyclic_iff_onCycle`).
-/
namespace RoleChart

open Relation (ReflTransGen TransGen)

namespace Resolved

variable {metadata : Resolved}

/-! ## Steps between names that were read -/

/-- A role that was read refers to another one that was read. -/
def Step (metadata : Resolved) (name other : String) : Prop := other ∈ metadata.successors name

theorem step_iff {name other : String} :
    metadata.Step name other ↔
      References.LeadsTo metadata.references name other ∧ other ∈ metadata.keys := by
  simp only [Step, successors, List.mem_filter, List.mem_map, Table.contains_iff,
    References.LeadsTo]

/-- Only a role that was read leads on. -/
theorem mem_keys_of_leadsTo {name other : String}
    (h : References.LeadsTo metadata.references name other) : name ∈ metadata.keys := by
  by_contra hname
  obtain ⟨r, hr, _⟩ := h
  rw [references_of_not_mem hname] at hr
  exact List.not_mem_nil hr

/-- A chain of references that goes on to a role that was read runs through such roles alone. -/
theorem transGen_step_of_leadsTo {name other : String}
    (h : TransGen (References.LeadsTo metadata.references) name other)
    (hother : other ∈ metadata.keys) : TransGen metadata.Step name other := by
  induction h using TransGen.head_induction_on with
  | single h => exact .single (step_iff.mpr ⟨h, hother⟩)
  | head hstep hrest ih =>
    obtain ⟨_, hnext, _⟩ := TransGen.head'_iff.mp hrest
    exact .head (step_iff.mpr ⟨hstep, mem_keys_of_leadsTo hnext⟩) ih

theorem transGen_step_self_iff {name : String} :
    TransGen metadata.Step name name ↔ References.OnCycle metadata.references name := by
  constructor
  · exact TransGen.mono (fun _ _ h => (step_iff.mp h).1) name name
  · intro h
    obtain ⟨_, hfirst, _⟩ := TransGen.head'_iff.mp h
    exact transGen_step_of_leadsTo h (mem_keys_of_leadsTo hfirst)

/-! ## The closure -/

theorem mem_or_mem_dropWhile {seen pending : List String} {name : String} (h : name ∈ pending) :
    name ∈ seen ∨ name ∈ pending.dropWhile seen.contains := by
  rw [← List.takeWhile_append_dropWhile (p := seen.contains) (l := pending)] at h
  rcases List.mem_append.mp h with h | h
  · exact Or.inl (List.contains_iff_mem.mp (List.all_eq_true.mp List.all_takeWhile name h))
  · exact Or.inr h

/-- What the closure holds was seen before or is led to from a name that waits. -/
theorem closure_sound {limit : Nat} {pending seen : List String} {name : String}
    (h : name ∈ metadata.closure limit pending seen) :
    name ∈ seen ∨ ∃ p ∈ pending, ReflTransGen metadata.Step p name := by
  induction limit generalizing pending seen with
  | zero => exact Or.inl h
  | succ limit ih =>
    rw [closure] at h
    split at h
    · exact Or.inl h
    · next first rest hdrop =>
      have hsub : ∀ p ∈ first :: rest, p ∈ pending := fun p hp =>
        (List.dropWhile_suffix seen.contains).subset (hdrop ▸ hp)
      have hfirst := hsub first List.mem_cons_self
      rcases ih h with h | ⟨p, hp, hchain⟩
      · rcases List.mem_cons.mp h with rfl | h
        · exact Or.inr ⟨name, hfirst, .refl⟩
        · exact Or.inl h
      · rcases List.mem_append.mp hp with hp | hp
        · exact Or.inr ⟨p, hsub p (List.mem_cons_of_mem first hp), hchain⟩
        · exact Or.inr ⟨first, hfirst, .head hp hchain⟩

/-- The state of the search: what is seen was read, no name twice, and what it leads to is seen or
waits. -/
structure Frontier (metadata : Resolved) (pending seen : List String) : Prop where
  nodup : seen.Nodup
  seen_read : ∀ n ∈ seen, n ∈ metadata.keys
  pending_read : ∀ n ∈ pending, n ∈ metadata.keys
  covered : ∀ n ∈ seen, ∀ m, metadata.Step n m → m ∈ seen ∨ m ∈ pending

theorem Frontier.pass {pending seen : List String} (h : Frontier metadata pending seen) :
    Frontier metadata (pending.dropWhile seen.contains) seen where
  nodup := h.nodup
  seen_read := h.seen_read
  pending_read n hn := h.pending_read n ((List.dropWhile_suffix _).subset hn)
  covered n hn m hm := (h.covered n hn m hm).elim Or.inl mem_or_mem_dropWhile

theorem Frontier.advance {name : String} {rest seen : List String}
    (h : Frontier metadata (name :: rest) seen) (hname : name ∉ seen) :
    Frontier metadata (rest ++ metadata.successors name) (name :: seen) where
  nodup := List.nodup_cons.mpr ⟨hname, h.nodup⟩
  seen_read := List.forall_mem_cons.mpr ⟨h.pending_read name List.mem_cons_self, h.seen_read⟩
  pending_read n hn := by
    rcases List.mem_append.mp hn with hn | hn
    · exact h.pending_read n (List.mem_cons_of_mem name hn)
    · exact (step_iff.mp hn).2
  covered n hn m hm := by
    rcases List.mem_cons.mp hn with rfl | hn
    · exact Or.inr (List.mem_append_right rest hm)
    · rcases h.covered n hn m hm with hm | hm
      · exact Or.inl (List.mem_cons_of_mem name hm)
      · rcases List.mem_cons.mp hm with rfl | hm
        · exact Or.inl List.mem_cons_self
        · exact Or.inr (List.mem_append_left _ hm)

/-- Where nothing is left to see, what waits was seen. -/
theorem Frontier.pending_subset {pending seen : List String} (h : Frontier metadata pending seen)
    (hall : metadata.keys.length ≤ seen.length) : ∀ n ∈ pending, n ∈ seen := by
  intro n hn
  have hperm : seen.Perm metadata.keys :=
    (List.subperm_of_subset h.nodup h.seen_read).perm_of_length_le hall
  exact hperm.mem_iff.mpr (h.pending_read n hn)

/-- A bound that admits every name not yet seen lets the closure become closed. -/
theorem closure_closed {limit : Nat} {pending seen : List String}
    (h : Frontier metadata pending seen) (hl : metadata.keys.length ≤ limit + seen.length) :
    (∀ n, n ∈ seen ∨ n ∈ pending → n ∈ metadata.closure limit pending seen) ∧
      ∀ n ∈ metadata.closure limit pending seen, ∀ m, metadata.Step n m →
        m ∈ metadata.closure limit pending seen := by
  induction limit generalizing pending seen with
  | zero =>
    have hsub := h.pending_subset (by omega)
    exact ⟨fun n hn => hn.elim id (hsub n),
      fun n hn m hm => (h.covered n hn m hm).elim id (hsub m)⟩
  | succ limit ih =>
    have hpass := h.pass
    rw [closure]
    split
    · next hdrop =>
      rw [hdrop] at hpass
      refine ⟨fun n hn => ?_, fun n hn m hm => ?_⟩
      · rcases hn with hn | hn
        · exact hn
        · have hleft : n ∈ seen ∨ n ∈ pending.dropWhile seen.contains := mem_or_mem_dropWhile hn
          simpa [hdrop] using hleft
      · simpa using hpass.covered n hn m hm
    · next first rest hdrop =>
      rw [hdrop] at hpass
      have hfirst : first ∉ seen := by
        have hhead := List.head?_dropWhile_not seen.contains pending
        simpa [hdrop] using hhead
      obtain ⟨hcontains, hclosed⟩ := ih (hpass.advance hfirst)
        (by rw [List.length_cons]; omega)
      refine ⟨fun n hn => hcontains n ?_, hclosed⟩
      have hn' : n ∈ seen ∨ n ∈ first :: rest := by
        rcases hn with hn | hn
        · exact Or.inl hn
        · exact hdrop ▸ mem_or_mem_dropWhile hn
      simp only [List.mem_cons, List.mem_append] at hn' ⊢
      tauto

/-! ## Cyclic roles -/

theorem isCyclic_iff (name : String) :
    metadata.isCyclic name = true ↔ TransGen metadata.Step name name := by
  have hfrontier : Frontier metadata (metadata.successors name) [] :=
    ⟨List.nodup_nil, by simp, fun n hn => (step_iff.mp hn).2, by simp⟩
  have hsize : metadata.keys.length ≤ metadata.size + ([] : List String).length :=
    (metadata.size_eq_length_keys).ge
  obtain ⟨hcontains, hclosed⟩ := closure_closed hfrontier hsize
  rw [isCyclic, List.contains_iff_mem]
  constructor
  · intro h
    rcases closure_sound h with h | ⟨first, hfirst, hchain⟩
    · exact absurd h List.not_mem_nil
    · exact TransGen.head' hfirst hchain
  · intro h
    obtain ⟨first, hfirst, hchain⟩ := TransGen.head'_iff.mp h
    have hmem : ∀ other, ReflTransGen metadata.Step first other →
        other ∈ metadata.closure metadata.size (metadata.successors name) [] := by
      intro other hother
      induction hother with
      | refl => exact hcontains first (Or.inr hfirst)
      | tail _ hlast ih => exact hclosed _ ih _ hlast
    exact hmem name hchain

/-- Exactly the roles from which a chain of references leads back are cyclic. -/
theorem mem_cyclic_iff (name : String) :
    name ∈ metadata.cyclic ↔ References.OnCycle metadata.references name := by
  rw [cyclic, List.mem_filter, isCyclic_iff, transGen_step_self_iff]
  refine ⟨And.right, fun h => ⟨?_, h⟩⟩
  obtain ⟨_, hfirst, _⟩ := TransGen.head'_iff.mp h
  exact mem_keys_of_leadsTo hfirst

end Resolved

namespace Reading

variable {source : Source} {declarations : List Declaration} {metadata : Resolved}

/-- A chain of references of the source, from a role that was read on, is one of the metadata. -/
theorem Complete.transGen_iff (h : Complete source declarations metadata) {name other : String}
    (hname : name ∈ metadata.keys) :
    TransGen (References.LeadsTo metadata.references) name other ↔
      TransGen source.references.LeadsTo name other := by
  constructor
  · refine TransGen.mono (fun a b hab => ?_) name other
    have ha := Resolved.mem_keys_of_leadsTo hab
    rwa [References.LeadsTo, h.references_eq a ha] at hab
  · intro hchain
    induction hchain using TransGen.head_induction_on with
    | single hlast =>
      refine .single ?_
      rwa [References.LeadsTo, h.references_eq _ hname]
    | @head first next hstep _ ih =>
      obtain ⟨r, hr, hrnext⟩ := hstep
      have hnext : next ∈ metadata.keys := by
        rw [h.mem_keys_iff] at hname ⊢
        exact hrnext ▸ References.Reaches.step hname hr
      refine .head ⟨r, ?_, hrnext⟩ (ih hnext)
      rwa [h.references_eq _ hname]

/-- The cyclic roles of metadata that was read are the roles that can be reached and lie on a cycle
of the source. -/
theorem Complete.mem_cyclic_iff_onCycle (h : Complete source declarations metadata) {name : String}
    (hname : source.Reaches declarations name) :
    name ∈ metadata.cyclic ↔ source.references.OnCycle name := by
  rw [Resolved.mem_cyclic_iff]
  exact h.transGen_iff ((h.mem_keys_iff name).mpr hname)

/-- No role is cyclic exactly if no role that can be reached lies on a cycle. -/
theorem Complete.cyclic_eq_nil_iff (h : Complete source declarations metadata) :
    metadata.cyclic = [] ↔ source.Acyclic declarations := by
  rw [List.eq_nil_iff_forall_not_mem]
  constructor
  · intro hnone name hname hcycle
    exact hnone name ((h.mem_cyclic_iff_onCycle hname).mpr hcycle)
  · intro hacyclic name hname
    have hreached : source.Reaches declarations name :=
      (h.mem_keys_iff name).mp (List.mem_of_mem_filter hname)
    exact hacyclic name hreached ((h.mem_cyclic_iff_onCycle hreached).mp hname)

end Reading

end RoleChart
