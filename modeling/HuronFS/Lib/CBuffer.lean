import HuronFS.Lib.ByteFile

/-!
# `Lib.CBuffer` — an array of characters and the strings in it

An array has `cap` cells. A write outside it has no result, and neither has the reading of a string that has no terminator in the
array. `Region.slice` says what the cells in front of a place hold; a string is read from its first cell to the terminator.
-/

namespace CBuffer

open Region

variable {α : Type*} {cap : Nat} {buf : Nat → α} {i : Nat} {s : List α}

/-- `buf[i] = c`. -/
def put (cap : Nat) (buf : Nat → α) (i : Nat) (c : α) : Option (Nat → α) := if i < cap then some (patch buf i [c]) else none

theorem put_eq {c : α} (h : i < cap) : put cap buf i c = some (patch buf i [c]) := if_pos h

/-- The cells in front of a place where a string was copied, with the string. -/
theorem slice_patch_front {front l : List α} (hfront : slice buf 0 front.length = front) :
    slice (patch buf front.length (s ++ l)) 0 (front.length + s.length) = front ++ s := by
  rw [slice_add, Nat.zero_add, slice_patch_outside (Or.inl (by omega)), hfront]
  congr 1
  have hall := slice_patch buf front.length (s ++ l)
  rw [List.length_append, slice_add] at hall
  exact List.append_inj_left hall (length_slice _ _ _)

/-- The cells in front stay when something is written behind them. -/
theorem slice_patch_before {front l : List α} {j : Nat} (hfront : slice buf 0 front.length = front) (h : front.length ≤ j) :
    slice (patch buf j l) 0 front.length = front := by
  rw [slice_patch_outside (Or.inl (by omega)), hfront]

/-! ## Strings -/

variable [Zero α]

/-- `strcpy(buf + i, s)`: the string and its terminator. -/
def strcpy (cap : Nat) (buf : Nat → α) (i : Nat) (s : List α) : Option (Nat → α) :=
  if i + s.length < cap then some (patch buf i (s ++ [0])) else none

theorem strcpy_eq (h : i + s.length < cap) : strcpy cap buf i s = some (patch buf i (s ++ [0])) := if_pos h

variable [DecidableEq α]

/-- The characters from `i` on, up to the terminator, of which `fuel` are left. -/
def scan (buf : Nat → α) : (fuel i : Nat) → Option (List α)
  | 0, _ => none
  | fuel + 1, i => if buf i = 0 then some [] else (scan buf fuel (i + 1)).map (buf i :: ·)

/-- The string at `buf + i`. -/
def cstr (cap : Nat) (buf : Nat → α) (i : Nat) : Option (List α) := scan buf (cap - i) i

theorem scan_eq : ∀ {s : List α} {fuel i : Nat}, slice buf i s.length = s → buf (i + s.length) = 0 → 0 ∉ s → s.length < fuel →
    scan buf fuel i = some s
  | [], fuel + 1, i, _, hend, _, _ => if_pos hend
  | c :: s, fuel + 1, i, hslice, hend, hzero, hlt => by
      rw [List.length_cons, Nat.add_comm, slice_add] at hslice
      obtain ⟨hc, hs⟩ := List.cons.inj hslice
      have hc' : buf i = c := hc
      have hne : buf i ≠ 0 := by
        rw [hc']
        exact fun he => hzero (he ▸ List.mem_cons_self)
      have hrest : scan buf fuel (i + 1) = some s := by
        apply scan_eq hs _ (fun hmem => hzero (List.mem_cons_of_mem _ hmem)) (Nat.lt_of_succ_lt_succ hlt)
        rw [List.length_cons] at hend
        rw [Nat.add_assoc, Nat.add_comm 1]
        exact hend
      unfold scan
      rw [if_neg hne, hrest, hc']
      rfl

/-- A string that ends in the array is read. -/
theorem cstr_eq (hslice : slice buf i s.length = s) (hend : buf (i + s.length) = 0) (hzero : 0 ∉ s) (hcap : i + s.length < cap) :
    cstr cap buf i = some s := scan_eq hslice hend hzero (by omega)

/-- A string that ends in the array is read from a place in its middle too. -/
theorem cstr_middle {front : List α} (hslice : slice buf 0 (front.length + s.length) = front ++ s) (hend : buf (front.length + s.length) = 0)
    (hzero : 0 ∉ s) (hcap : front.length + s.length < cap) : cstr cap buf front.length = some s := by
  apply cstr_eq _ hend hzero hcap
  rw [slice_add, Nat.zero_add] at hslice
  exact List.append_inj_right hslice (length_slice _ _ _)

end CBuffer
