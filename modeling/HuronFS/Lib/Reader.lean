import Mathlib.Data.List.TakeWhile
import HuronFS.Lib.ByteFile

/-!
# `Lib.Reader` — popping values off a byte buffer

Numbers are little-endian, strings end at their first zero byte. A reader is a buffer of bounded size with
a point in it; a pop takes bytes from the point on, whatever they are, and has no result when it would
leave the buffer. `Ahead` says which bytes stand at the point: it is what a sender has written, and each
pop rule below takes its own part of them off.
-/

namespace Wire

open Region

/-- A byte. -/
abbrev Octet := Fin 256

/-! ## Numbers -/

/-- The `n` low bytes of a number, lowest first. -/
def leBytes : (n v : Nat) → List Octet
  | 0, _ => []
  | n + 1, v => Fin.ofNat 256 v :: leBytes n (v / 256)

/-- The number of a list of bytes. -/
def ofLe : List Octet → Nat
  | [] => 0
  | b :: bs => b.val + 256 * ofLe bs

@[simp] theorem length_leBytes (n v : Nat) : (leBytes n v).length = n := by
  induction n generalizing v with
  | zero => rfl
  | succ n ih => rw [leBytes, List.length_cons, ih]

theorem ofLe_leBytes (n v : Nat) : ofLe (leBytes n v) = v % 256 ^ n := by
  induction n generalizing v with
  | zero => rw [Nat.pow_zero, Nat.mod_one]; rfl
  | succ n ih =>
      show v % 256 + 256 * ofLe (leBytes n (v / 256)) = _
      rw [ih, Nat.pow_succ', Nat.mod_mul]

/-! ## Readers -/

/-- A buffer of `room` bytes and the point the next pop starts at. -/
structure Reader where
  buffer : Nat → Octet
  room : Nat
  point : Nat

/-- A computation that pops. -/
abbrev Pop (α : Type) := StateT Reader Option α

namespace Reader

variable {r : Reader}

def advance (r : Reader) (n : Nat) : Reader := { r with point := r.point + n }

@[simp] theorem advance_point (r : Reader) (n : Nat) : (r.advance n).point = r.point + n := rfl
@[simp] theorem advance_advance (r : Reader) (a b : Nat) : (r.advance a).advance b = r.advance (a + b) := by
  unfold advance
  rw [Nat.add_assoc]

/-- These bytes stand at the point, inside the buffer. -/
structure Ahead (r : Reader) (l : List Octet) : Prop where
  bytes : slice r.buffer r.point l.length = l
  room : r.point + l.length ≤ r.room

theorem Ahead.advance {a b : List Octet} (h : r.Ahead (a ++ b)) : (r.advance a.length).Ahead b := by
  obtain ⟨hbytes, hroom⟩ := h
  rw [List.length_append] at hbytes hroom
  refine ⟨?_, ?_⟩
  · show slice r.buffer (r.point + a.length) b.length = b
    rw [← drop_slice, hbytes, List.drop_left]
  · show r.point + a.length + b.length ≤ r.room
    omega

end Reader

namespace Pop

variable {α β : Type} {r r' : Reader}

/-- One pop after another. -/
theorem bind_eq {p : Pop α} {f : α → Pop β} {a : α} (h : p r = some (a, r')) : (p >>= f) r = f a r' := by
  show (p r).bind (fun (a, r') => f a r') = f a r'
  rw [h]
  rfl

/-- A sequence of pops that has a result, taken apart. -/
theorem bind_some {p : Pop α} {f : α → Pop β} {b : β} (h : (p >>= f) r = some (b, r')) :
    ∃ a r1, p r = some (a, r1) ∧ f a r1 = some (b, r') := by
  obtain ⟨⟨a, r1⟩, hp, hf⟩ := Option.bind_eq_some_iff.mp h
  exact ⟨a, r1, hp, hf⟩

theorem pure_eq (a : α) (r : Reader) : (pure a : Pop α) r = some (a, r) := rfl

end Pop

/-- The next `n` bytes. -/
def popv (n : Nat) : Pop (List Octet) := fun r =>
  if r.point + n ≤ r.room then some (slice r.buffer r.point n, r.advance n) else none

/-- The next `n` bytes as a number. -/
def popWord (n : Nat) : Pop Nat := fun r => (popv n r).map (fun (bytes, r) => (ofLe bytes, r))

/-- **Bytes that were sent are popped.** -/
theorem popv_ahead {r : Reader} {l rest : List Octet} (h : r.Ahead (l ++ rest)) :
    popv l.length r = some (l, r.advance l.length) ∧ (r.advance l.length).Ahead rest := by
  refine ⟨?_, h.advance⟩
  have hroom := h.room
  have hbytes := h.bytes
  rw [List.length_append] at hroom hbytes
  unfold popv
  rw [if_pos (by omega), ← take_slice r.buffer r.point (Nat.le_add_right l.length rest.length), hbytes, List.take_left]

theorem popWord_room {r : Reader} {n : Nat} (h : r.point + n ≤ r.room) :
    popWord n r = some (ofLe (slice r.buffer r.point n), r.advance n) := by
  unfold popWord popv
  rw [if_pos h]
  rfl

theorem popWord_advance {r r' : Reader} {n v : Nat} (h : popWord n r = some (v, r')) : r' = r.advance n := by
  unfold popWord popv at h
  split at h
  · cases h
    rfl
  · cases h

/-- **A number that was sent is popped.** -/
theorem popWord_ahead {r : Reader} {n v : Nat} {rest : List Octet} (h : r.Ahead (leBytes n v ++ rest)) :
    popWord n r = some (v % 256 ^ n, r.advance n) ∧ (r.advance n).Ahead rest := by
  obtain ⟨hpop, hrest⟩ := popv_ahead h
  rw [length_leBytes] at hpop hrest
  refine ⟨?_, hrest⟩
  unfold popWord
  simp only [hpop, Option.map_some, ofLe_leBytes]

/-! ## Strings -/

/-- A C string. -/
structure CString where
  bytes : List Octet
  noZero : 0 ∉ bytes
deriving DecidableEq

/-- The string at the point: up to the first zero byte, which must come before the buffer ends. -/
def cStringAt (r : Reader) : Option CString :=
  let bytes := (slice r.buffer r.point (r.room - r.point)).takeWhile (· != 0)
  if bytes.length < r.room - r.point then
    some ⟨bytes, fun h => by
      have hne := List.mem_takeWhile_imp h
      exact absurd hne (by decide)⟩
  else none

/-- A length, then a string; the length says how far the point moves, the zero byte where the string ends. -/
def popCString : Pop CString := fun r =>
  match popWord 8 r with
  | none => none
  | some (len, r) => (cStringAt r).map (fun s => (s, r.advance len))

/-- The bytes sent for a string: its length with the zero byte, and itself. -/
def stringBytes (s : List Octet) : List Octet := leBytes 8 (s.length + 1) ++ s ++ [0]

@[simp] theorem length_stringBytes (s : List Octet) : (stringBytes s).length = s.length + 9 := by
  unfold stringBytes
  rw [List.length_append, List.length_append, length_leBytes, List.length_singleton]
  omega

/-- The bytes before the first zero of a buffer that starts with a string and its zero. -/
theorem takeWhile_string (s rest : List Octet) :
    (s ++ 0 :: rest).takeWhile (· != 0) = s.takeWhile (· != 0) := by
  induction s with
  | nil => rfl
  | cons b s ih =>
      rw [List.cons_append, List.takeWhile_cons, List.takeWhile_cons, ih]

theorem takeWhile_noZero {s : List Octet} : s.takeWhile (· != 0) = s ↔ 0 ∉ s := by
  rw [List.takeWhile_eq_self_iff]
  constructor
  · intro h h0
    exact absurd (h 0 h0) (by decide)
  · intro h b hb
    exact bne_iff_ne.mpr (fun h0 => h (h0 ▸ hb))

/-- What the pop of a sent string gives: the string up to its first zero byte, of which it should have
    none. -/
theorem popCString_ahead {r : Reader} {s rest : List Octet} (hsmall : s.length + 1 < 256 ^ 8)
    (h : r.Ahead (stringBytes s ++ rest)) :
    ∃ c : CString, popCString r = some (c, r.advance (s.length + 9)) ∧ c.bytes = s.takeWhile (· != 0) ∧
      (r.advance (s.length + 9)).Ahead rest := by
  have hend := h.advance
  rw [length_stringBytes] at hend
  have hahead : r.Ahead (leBytes 8 (s.length + 1) ++ (s ++ [0] ++ rest)) := by
    have hcat : leBytes 8 (s.length + 1) ++ (s ++ [0] ++ rest) = stringBytes s ++ rest := by
      unfold stringBytes
      simp only [List.append_assoc]
    rw [hcat]
    exact h
  obtain ⟨hlen, hstr⟩ := popWord_ahead hahead
  rw [Nat.mod_eq_of_lt hsmall] at hlen
  have hroom := hstr.room
  have hbytes := hstr.bytes
  have hsize : (s ++ [0] ++ rest).length = s.length + 1 + rest.length := by
    simp only [List.length_append, List.length_singleton]
  rw [hsize] at hroom hbytes
  -- the buffer from the string on
  have hfrom : ∃ tail, slice (r.advance 8).buffer (r.advance 8).point ((r.advance 8).room - (r.advance 8).point)
      = s ++ 0 :: tail := by
    obtain ⟨k, hk⟩ := Nat.exists_eq_add_of_le (show s.length + 1 + rest.length ≤ (r.advance 8).room - (r.advance 8).point by omega)
    refine ⟨rest ++ slice (r.advance 8).buffer ((r.advance 8).point + (s.length + 1 + rest.length)) k, ?_⟩
    rw [hk, slice_add, hbytes]
    simp only [List.append_assoc, List.cons_append, List.nil_append]
  obtain ⟨tail, htail⟩ := hfrom
  have hshort : (s.takeWhile (· != 0)).length < (r.advance 8).room - (r.advance 8).point := by
    have hle : (s.takeWhile (· != 0)).length ≤ s.length := (List.takeWhile_prefix _).length_le
    omega
  have hcs : ∃ c : CString, cStringAt (r.advance 8) = some c ∧ c.bytes = s.takeWhile (· != 0) := by
    unfold cStringAt
    simp only [htail, takeWhile_string]
    rw [if_pos hshort]
    exact ⟨_, rfl, rfl⟩
  obtain ⟨c, hc, hcb⟩ := hcs
  refine ⟨c, ?_, hcb, hend⟩
  unfold popCString
  rw [hlen]
  simp only [hc, Option.map_some, Reader.advance_advance]
  rw [show 8 + (s.length + 1) = s.length + 9 by omega]

end Wire
