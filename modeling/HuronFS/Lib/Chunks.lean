import Mathlib.Data.List.Basic
import Mathlib.Tactic.Common

/-!
# `Lib.Chunks` — moving a number of items over a channel, in pieces

A script says what the calls on one side of a channel return, one after the other. A call moves at least one
item and at most as many as it is asked for, has to be made again, fails, or finds that the other side is gone.
A loop that asks for `n` items goes on until it has them or a call fails or finds the end; when the script runs
out before that, every later call has to be made again and the loop does not end.

`arrived` is what a script can move before it `stops`, and the loop is described by the two: it takes `n`
items off the front of `arrived`, or all of them when it stops first.
-/

namespace Chunks

variable {β : Type*}

/-- What a call on a channel returns. A piece may be more than is asked for: the rest is there for the next call. -/
inductive Call (β : Type*)
  | moved (b : β) (bs : List β)
  | retry
  | failed
  | ended
deriving DecidableEq, Repr

/-- The items before the first call that fails or finds the end. -/
def arrived : List (Call β) → List β
  | [] => []
  | .moved b bs :: cs => b :: bs ++ arrived cs
  | .retry :: cs => arrived cs
  | .failed :: _ => []
  | .ended :: _ => []

/-- Whether a call fails or finds the end. -/
def stops : List (Call β) → Bool
  | [] => false
  | .moved _ _ :: cs => stops cs
  | .retry :: cs => stops cs
  | .failed :: _ => true
  | .ended :: _ => true

/-- What is left of a piece is the next one. -/
def putBack : List β → List (Call β) → List (Call β)
  | [], cs => cs
  | b :: bs, cs => .moved b bs :: cs

/-- The loop: the items that were moved and the rest of the script. A side that is gone stays gone. -/
def transfer : Nat → List (Call β) → Option (List β × List (Call β))
  | 0, cs => some ([], cs)
  | _ + 1, [] => none
  | n + 1, .moved b bs :: cs =>
      if bs.length < n then (transfer (n - bs.length) cs).map fun (xs, rest) => (b :: bs ++ xs, rest)
      else some (b :: bs.take n, putBack (bs.drop n) cs)
  | n + 1, .retry :: cs => transfer (n + 1) cs
  | _ + 1, .failed :: cs => some ([], cs)
  | _ + 1, .ended :: cs => some ([], .ended :: cs)

/-- The script after the loop. -/
def skip (n : Nat) (cs : List (Call β)) : List (Call β) :=
  match transfer n cs with
  | none => []
  | some (_, rest) => rest

/-- Nothing comes any more. -/
def Silent (cs : List (Call β)) : Prop := arrived cs = [] ∧ stops cs = true

instance [DecidableEq β] (cs : List (Call β)) : Decidable (Silent cs) :=
  inferInstanceAs (Decidable (_ ∧ _))

/-- Items that come one at a time. -/
theorem arrived_singles (l : List β) : arrived (l.map (fun b => .moved b [])) = l := by
  induction l with
  | nil => rfl
  | cons b l ih => exact congrArg (b :: ·) ih

@[simp] theorem arrived_putBack (bs : List β) (cs : List (Call β)) : arrived (putBack bs cs) = bs ++ arrived cs := by
  cases bs <;> rfl

@[simp] theorem stops_putBack (bs : List β) (cs : List (Call β)) : stops (putBack bs cs) = stops cs := by
  cases bs <;> rfl

theorem not_silent_nil : ¬ Silent ([] : List (Call β)) := by
  rintro ⟨-, hstops⟩
  cases hstops

/-- Enough arrives: the loop takes its part, in order, and leaves the others. -/
theorem transfer_enough : ∀ (cs : List (Call β)) (n : Nat), n ≤ (arrived cs).length →
    ∃ rest, transfer n cs = some ((arrived cs).take n, rest) ∧ arrived rest = (arrived cs).drop n ∧ stops rest = stops cs
  | cs, 0, _ => ⟨cs, by cases cs <;> rfl, rfl, rfl⟩
  | [], n + 1, h => absurd h (Nat.not_succ_le_zero n)
  | .failed :: cs, n + 1, h => absurd h (Nat.not_succ_le_zero n)
  | .ended :: cs, n + 1, h => absurd h (Nat.not_succ_le_zero n)
  | .retry :: cs, n + 1, h => transfer_enough cs (n + 1) h
  | .moved b bs :: cs, n + 1, h => by
      have hlen : n ≤ bs.length + (arrived cs).length := by
        simpa [arrived] using h
      by_cases hlt : bs.length < n
      · obtain ⟨rest, htransfer, harrived, hstops⟩ := transfer_enough cs (n - bs.length) (by omega)
        refine ⟨rest, ?_, ?_, hstops⟩
        · simp [transfer, arrived, hlt, htransfer, List.take_append, List.take_of_length_le (Nat.le_of_lt hlt)]
        · simp [arrived, harrived, List.drop_append, List.drop_of_length_le (Nat.le_of_lt hlt)]
      · have hle : n ≤ bs.length := Nat.le_of_not_lt hlt
        refine ⟨putBack (bs.drop n) cs, ?_, ?_, ?_⟩
        · simp [transfer, arrived, hlt, List.take_append_of_le_length hle]
        · simp [arrived, List.drop_append_of_le_length hle]
        · simp [stops]

/-- The script stops first: the loop has what arrived. -/
theorem transfer_stopped : ∀ (cs : List (Call β)) (n : Nat), (arrived cs).length < n → stops cs = true →
    ∃ rest, transfer n cs = some (arrived cs, rest)
  | cs, 0, h, _ => absurd h (Nat.not_lt_zero _)
  | [], n + 1, _, hs => by cases hs
  | .failed :: cs, n + 1, _, _ => ⟨cs, rfl⟩
  | .ended :: cs, n + 1, _, _ => ⟨.ended :: cs, rfl⟩
  | .retry :: cs, n + 1, h, hs => transfer_stopped cs (n + 1) h hs
  | .moved b bs :: cs, n + 1, h, hs => by
      have hlen : bs.length + (arrived cs).length < n := by
        simpa [arrived] using h
      obtain ⟨rest, htransfer⟩ := transfer_stopped cs (n - bs.length) (by omega) hs
      exact ⟨rest, by simp [transfer, arrived, show bs.length < n by omega, htransfer]⟩

/-- The script neither stops nor has enough: the loop does not end. -/
theorem transfer_waiting : ∀ (cs : List (Call β)) (n : Nat), (arrived cs).length < n → stops cs = false → transfer n cs = none
  | cs, 0, h, _ => absurd h (Nat.not_lt_zero _)
  | [], n + 1, _, _ => rfl
  | .failed :: cs, n + 1, _, hs => by cases hs
  | .ended :: cs, n + 1, _, hs => by cases hs
  | .retry :: cs, n + 1, h, hs => transfer_waiting cs (n + 1) h hs
  | .moved b bs :: cs, n + 1, h, hs => by
      have hlen : bs.length + (arrived cs).length < n := by
        simpa [arrived] using h
      have htransfer := transfer_waiting cs (n - bs.length) (by omega) hs
      simp [transfer, show bs.length < n by omega, htransfer]

/-! ## After the loop -/

theorem skip_zero (cs : List (Call β)) : skip 0 cs = cs := by
  cases cs <;> rfl

theorem arrived_skip {cs : List (Call β)} {n : Nat} (h : n ≤ (arrived cs).length) : arrived (skip n cs) = (arrived cs).drop n := by
  obtain ⟨rest, htransfer, harrived, -⟩ := transfer_enough cs n h
  rw [skip, htransfer]
  exact harrived

theorem skip_waiting {cs : List (Call β)} {n : Nat} (h : (arrived cs).length < n) (hs : stops cs = false) : skip n cs = [] := by
  rw [skip, transfer_waiting cs n h hs]

end Chunks
