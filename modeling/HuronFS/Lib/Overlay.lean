import Mathlib.Data.List.Basic
import Mathlib.Tactic.Common

/-!
# `Lib.Overlay` — lists laid over a partial function, one after the other

A value at a position is there or not. A list laid over it from a position on gives the values of its own stretch and leaves the
others; what a queue of such lists gives at a position is what the last of them gives that has it, and what was there if none has.
-/

namespace Overlay

variable {β : Type*}

/-- `l` from `pos` on, and `base` elsewhere. -/
def overlay (base : Nat → Option β) (pos : Nat) (l : List β) : Nat → Option β :=
  fun p => if pos ≤ p ∧ p < pos + l.length then l[p - pos]? else base p

/-- One list after the other. -/
def replay (base : Nat → Option β) (ls : List (Nat × List β)) : Nat → Option β :=
  ls.foldl (fun base e => overlay base e.1 e.2) base

section

variable {base other : Nat → Option β} {pos p : Nat} {l l' : List β}

theorem overlay_in (hle : pos ≤ p) (hlt : p < pos + l.length) : overlay base pos l p = l[p - pos]? := if_pos ⟨hle, hlt⟩

theorem overlay_out (h : ¬ (pos ≤ p ∧ p < pos + l.length)) : overlay base pos l p = base p := if_neg h

@[simp] theorem overlay_nil (base : Nat → Option β) (pos : Nat) : overlay base pos [] = base := by
  funext p
  refine overlay_out ?_
  rw [List.length_nil]
  omega

/-- Two lists side by side. -/
theorem overlay_append (base : Nat → Option β) (pos : Nat) (l l' : List β) :
    overlay (overlay base pos l) (pos + l.length) l' = overlay base pos (l ++ l') := by
  funext p
  unfold overlay
  rw [List.length_append]
  by_cases hfirst : pos ≤ p ∧ p < pos + l.length
  · rw [if_neg (by omega), if_pos hfirst, if_pos (by omega), List.getElem?_append_left (by omega)]
  · by_cases hsecond : pos + l.length ≤ p ∧ p < pos + l.length + l'.length
    · rw [if_pos hsecond, if_pos (by omega), List.getElem?_append_right (by omega)]
      congr 1
      omega
    · rw [if_neg hsecond, if_neg hfirst, if_neg (by omega)]

theorem overlay_isSome (h : (base p).isSome) : (overlay base pos l p).isSome := by
  by_cases hin : pos ≤ p ∧ p < pos + l.length
  · rw [overlay_in hin.1 hin.2, List.getElem?_eq_getElem (by omega)]
    rfl
  · rw [overlay_out hin]
    exact h

/-- What is there does not depend on what was there before, unless it was. -/
theorem overlay_of_none {b : β} (hnone : base p = none) (h : overlay base pos l p = some b) : overlay other pos l p = some b := by
  by_cases hin : pos ≤ p ∧ p < pos + l.length
  · rw [overlay_in hin.1 hin.2] at h ⊢
    exact h
  · rw [overlay_out hin, hnone] at h
    cases h

end

section

variable {base other : Nat → Option β} {ls : List (Nat × List β)} {pos p : Nat} {l : List β}

@[simp] theorem replay_nil (base : Nat → Option β) : replay base [] = base := rfl

@[simp] theorem replay_cons (base : Nat → Option β) (e : Nat × List β) (ls : List (Nat × List β)) :
    replay base (e :: ls) = replay (overlay base e.1 e.2) ls := rfl

theorem replay_concat (base : Nat → Option β) (ls : List (Nat × List β)) (pos : Nat) (l : List β) :
    replay base (ls ++ [(pos, l)]) = overlay (replay base ls) pos l := by
  unfold replay
  rw [List.foldl_append]
  rfl

/-- The same at a position where the bases are the same. -/
theorem replay_congr (ls : List (Nat × List β)) (h : base p = other p) : replay base ls p = replay other ls p := by
  induction ls generalizing base other with
  | nil => exact h
  | cons e ls ih =>
      rw [replay_cons, replay_cons]
      refine ih ?_
      unfold overlay
      rw [h]

/-- What comes out of the lists alone comes out over any base. -/
theorem replay_of_none {b : β} (hnone : base p = none) (h : replay base ls p = some b) : replay other ls p = some b := by
  induction ls generalizing base other with
  | nil =>
      rw [replay_nil, hnone] at h
      cases h
  | cons e ls ih =>
      rw [replay_cons] at h ⊢
      cases hfirst : overlay base e.1 e.2 p with
      | none => exact ih hfirst h
      | some c =>
          rw [replay_congr ls (hfirst.trans (overlay_of_none hnone hfirst).symm)] at h
          exact h

end

end Overlay
