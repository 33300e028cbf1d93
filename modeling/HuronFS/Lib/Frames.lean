import Mathlib.Data.List.Nodup
import Mathlib.Data.List.Perm.Lattice
import Mathlib.Logic.Function.Basic
import Mathlib.Tactic.Common

/-!
# `Lib.Frames` — frames, free or owned

Frames are numbered in the order they are made. Each is either on the free list or owned by one key, and
a key owns at most one: `Ok free created held owner` says so, `held` being the keys that own a frame, each
once. What is free and what is held adds up to what was made, so a key can be made to give up its frame
whenever none is free. `Apart` is the part of it that still holds once frames got lost.
-/

namespace Frames

variable {K : Type*} [DecidableEq K]

/-- No frame is in two places; some may be in none. -/
structure Apart (free : List Nat) (created : Nat) (owner : K → Option Nat) : Prop where
  free_nodup : free.Nodup
  free_lt : ∀ e ∈ free, e < created
  owned_lt : ∀ k e, owner k = some e → e < created
  owned_not_free : ∀ k e, owner k = some e → e ∉ free
  owner_inj : ∀ k j e, owner k = some e → owner j = some e → k = j

namespace Apart

variable {free : List Nat} {created : Nat} {owner : K → Option Nat}

omit [DecidableEq K] in
/-- A key may lose its frame. -/
theorem mono (h : Apart free created owner) {owner' : K → Option Nat} (hsub : ∀ k e, owner' k = some e → owner k = some e) :
    Apart free created owner' := by
  refine ⟨h.free_nodup, h.free_lt, ?_, ?_, ?_⟩
  · intro k e hk
    exact h.owned_lt k e (hsub k e hk)
  · intro k e hk
    exact h.owned_not_free k e (hsub k e hk)
  · intro k j e hk hj
    exact h.owner_inj k j e (hsub k e hk) (hsub j e hj)

omit [DecidableEq K] in
/-- A new frame is free. -/
theorem grow (h : Apart free created owner) : Apart (created :: free) (created + 1) owner := by
  refine ⟨?_, ?_, ?_, ?_, h.owner_inj⟩
  · refine List.nodup_cons.mpr ⟨?_, h.free_nodup⟩
    intro hmem
    exact absurd (h.free_lt _ hmem) (Nat.lt_irrefl _)
  · intro e he
    rcases List.mem_cons.mp he with rfl | he'
    · exact Nat.lt_succ_self _
    · exact Nat.lt_succ_of_lt (h.free_lt e he')
  · intro k e hk
    exact Nat.lt_succ_of_lt (h.owned_lt k e hk)
  · intro k e hk hmem
    rcases List.mem_cons.mp hmem with rfl | he'
    · exact absurd (h.owned_lt k _ hk) (Nat.lt_irrefl _)
    · exact h.owned_not_free k e hk he'

/-- The owner of a key after the key took a frame. -/
theorem owner_update {k j : K} {e x : Nat} (hj : Function.update owner k (some e) j = some x) :
    (j = k ∧ x = e) ∨ (j ≠ k ∧ owner j = some x) := by
  by_cases hjk : j = k
  · subst hjk
    rw [Function.update_self] at hj
    exact Or.inl ⟨rfl, (Option.some.inj hj).symm⟩
  · rw [Function.update_of_ne hjk] at hj
    exact Or.inr ⟨hjk, hj⟩

/-- A key takes a free frame. -/
theorem take {e : Nat} {k : K} (h : Apart (e :: free) created owner) :
    Apart free created (Function.update owner k (some e)) := by
  obtain ⟨hnot, hnodup⟩ := List.nodup_cons.mp h.free_nodup
  refine ⟨hnodup, ?_, ?_, ?_, ?_⟩
  · intro x hx
    exact h.free_lt x (List.mem_cons_of_mem _ hx)
  · intro j x hj
    rcases owner_update hj with ⟨-, rfl⟩ | ⟨-, hj'⟩
    · exact h.free_lt _ List.mem_cons_self
    · exact h.owned_lt j x hj'
  · intro j x hj
    rcases owner_update hj with ⟨-, rfl⟩ | ⟨-, hj'⟩
    · exact hnot
    · intro hmem
      exact h.owned_not_free j x hj' (List.mem_cons_of_mem _ hmem)
  · intro j i x hj hi
    rcases owner_update hj with ⟨rfl, rfl⟩ | ⟨-, hj'⟩
    · rcases owner_update hi with ⟨rfl, -⟩ | ⟨-, hi'⟩
      · rfl
      · exact absurd List.mem_cons_self (h.owned_not_free i _ hi')
    · rcases owner_update hi with ⟨rfl, rfl⟩ | ⟨-, hi'⟩
      · exact absurd List.mem_cons_self (h.owned_not_free j _ hj')
      · exact h.owner_inj j i x hj' hi'

/-- A key gives its frame back. -/
theorem release {e : Nat} {k : K} (h : Apart free created owner) (hk : owner k = some e) :
    Apart (e :: free) created (Function.update owner k none) := by
  have hother : ∀ {j x}, Function.update owner k none j = some x → j ≠ k ∧ owner j = some x := by
    intro j x hj
    by_cases hjk : j = k
    · subst hjk
      rw [Function.update_self] at hj
      cases hj
    · rw [Function.update_of_ne hjk] at hj
      exact ⟨hjk, hj⟩
  refine ⟨List.nodup_cons.mpr ⟨h.owned_not_free k e hk, h.free_nodup⟩, ?_, ?_, ?_, ?_⟩
  · intro x hx
    rcases List.mem_cons.mp hx with rfl | hx'
    · exact h.owned_lt k _ hk
    · exact h.free_lt x hx'
  · intro j x hj
    exact h.owned_lt j x (hother hj).2
  · intro j x hj hmem
    obtain ⟨hjk, hj'⟩ := hother hj
    rcases List.mem_cons.mp hmem with rfl | hx
    · exact hjk (h.owner_inj j k _ hj' hk)
    · exact h.owned_not_free j x hj' hx
  · intro j i x hj hi
    exact h.owner_inj j i x (hother hj).2 (hother hi).2

end Apart

/-- Every frame made so far is free or owned, by exactly one of the keys `held`. -/
structure Ok (free : List Nat) (created : Nat) (held : List K) (owner : K → Option Nat) : Prop where
  free_nodup : free.Nodup
  free_lt : ∀ e ∈ free, e < created
  held_nodup : held.Nodup
  mem_held : ∀ k, k ∈ held ↔ ∃ e, owner k = some e
  owned_lt : ∀ k e, owner k = some e → e < created
  owned_not_free : ∀ k e, owner k = some e → e ∉ free
  owner_inj : ∀ k j e, owner k = some e → owner j = some e → k = j
  count : free.length + held.length = created

namespace Ok

variable {free : List Nat} {created : Nat} {held : List K} {owner : K → Option Nat}

omit [DecidableEq K] in
theorem start : Ok [] 0 ([] : List K) (fun _ => none) := by
  refine ⟨List.nodup_nil, ?_, List.nodup_nil, ?_, ?_, ?_, ?_, rfl⟩ <;> simp

omit [DecidableEq K] in
theorem apart (h : Ok free created held owner) : Apart free created owner :=
  ⟨h.free_nodup, h.free_lt, h.owned_lt, h.owned_not_free, h.owner_inj⟩

omit [DecidableEq K] in
/-- A new frame is free. -/
theorem grow (h : Ok free created held owner) : Ok (created :: free) (created + 1) held owner := by
  have happart := h.apart.grow
  refine ⟨happart.free_nodup, happart.free_lt, h.held_nodup, h.mem_held, happart.owned_lt, happart.owned_not_free,
    happart.owner_inj, ?_⟩
  have := h.count
  rw [List.length_cons]
  omega

omit [DecidableEq K] in
/-- The order in which the keys are kept does not matter. -/
theorem perm {held' : List K} (h : Ok free created held owner) (hp : held.Perm held') : Ok free created held' owner := by
  refine ⟨h.free_nodup, h.free_lt, hp.nodup_iff.mp h.held_nodup, ?_, h.owned_lt, h.owned_not_free, h.owner_inj, ?_⟩
  · intro k
    rw [← hp.mem_iff]
    exact h.mem_held k
  · rw [← hp.length_eq]
    exact h.count

/-- A key without a frame takes a free one. -/
theorem take {e : Nat} {k : K} (h : Ok (e :: free) created held owner) (hk : owner k = none) :
    Ok free created (k :: held) (Function.update owner k (some e)) := by
  have happart := h.apart.take (k := k)
  refine ⟨happart.free_nodup, happart.free_lt, ?_, ?_, happart.owned_lt, happart.owned_not_free, happart.owner_inj, ?_⟩
  · refine List.nodup_cons.mpr ⟨?_, h.held_nodup⟩
    intro hmem
    obtain ⟨x, hx⟩ := (h.mem_held k).mp hmem
    rw [hk] at hx
    cases hx
  · intro j
    rw [List.mem_cons, h.mem_held]
    by_cases hjk : j = k
    · subst hjk
      simp [Function.update_self]
    · simp [hjk]
  · have := h.count
    rw [List.length_cons] at this ⊢
    omega

/-- A key gives its frame back. -/
theorem release {e : Nat} {k : K} {rest : List K} (h : Ok free created held owner) (hk : owner k = some e)
    (hp : held.Perm (k :: rest)) : Ok (e :: free) created rest (Function.update owner k none) := by
  obtain ⟨hnot, hrest⟩ := List.nodup_cons.mp (hp.nodup_iff.mp h.held_nodup)
  have happart := h.apart.release hk
  refine ⟨happart.free_nodup, happart.free_lt, hrest, ?_, happart.owned_lt, happart.owned_not_free, happart.owner_inj, ?_⟩
  · intro j
    have hmem : j ∈ k :: rest ↔ ∃ x, owner j = some x := by
      rw [← hp.mem_iff]
      exact h.mem_held j
    by_cases hjk : j = k
    · subst hjk
      rw [Function.update_self]
      exact ⟨fun hj => absurd hj hnot, fun ⟨x, hx⟩ => nomatch hx⟩
    · rw [Function.update_of_ne hjk, ← hmem, List.mem_cons, or_iff_right hjk]
  · have hcount := h.count
    rw [hp.length_eq, List.length_cons] at hcount
    rw [List.length_cons]
    omega

omit [DecidableEq K] in
/-- When nothing is free, every frame is held. -/
theorem held_length (h : Ok [] created held owner) : held.length = created := by
  have := h.count
  rw [List.length_nil] at this
  omega

end Ok

end Frames
