import Mathlib.Data.ZMod.Defs
import Mathlib.Tactic.Common

/-!
# `Lib.ByteFile` — memory regions and files as functions of the position

A region is a function from positions to cells; `slice` reads a stretch of it as a list and `patch` writes
a list over it. A file is a region with a size, zero from there on, so that a write beyond the end leaves
a hole of zeros and two files are equal when their sizes and cells are.
-/

/-- The numerals among the byte values rest on this one instance. -/
instance byteValues : NeZero 256 := ⟨by decide⟩

namespace Region

variable {α : Type*}

/-- The `n` cells from `off` on. -/
def slice (f : Nat → α) (off n : Nat) : List α := (List.range n).map (fun i => f (off + i))

/-- The region with a list written at `off`. -/
def patch (f : Nat → α) (off : Nat) (l : List α) : Nat → α :=
  fun i => if off ≤ i then (l[i - off]?).getD (f i) else f i

@[simp] theorem length_slice (f : Nat → α) (off n : Nat) : (slice f off n).length = n := by simp [slice]

@[simp] theorem slice_zero (f : Nat → α) (off : Nat) : slice f off 0 = [] := rfl

theorem getElem?_slice {f : Nat → α} {off n i : Nat} (h : i < n) : (slice f off n)[i]? = some (f (off + i)) := by
  simp [slice, h]

theorem slice_congr {f g : Nat → α} {a b n : Nat} (h : ∀ i < n, f (a + i) = g (b + i)) : slice f a n = slice g b n := by
  unfold slice
  apply List.map_congr_left
  intro i hi
  exact h i (List.mem_range.mp hi)

/-- A stretch is read in two parts. -/
theorem slice_add (f : Nat → α) (off a b : Nat) : slice f off (a + b) = slice f off a ++ slice f (off + a) b := by
  unfold slice
  rw [List.range_add, List.map_append, List.map_map]
  congr 1
  apply List.map_congr_left
  intro i _
  show f (off + (a + i)) = f (off + a + i)
  rw [Nat.add_assoc]

theorem take_slice (f : Nat → α) (off : Nat) {a n : Nat} (h : a ≤ n) : (slice f off n).take a = slice f off a := by
  obtain ⟨b, rfl⟩ := Nat.exists_eq_add_of_le h
  rw [slice_add, List.take_left' (length_slice f off a)]

theorem drop_slice (f : Nat → α) (off a b : Nat) : (slice f off (a + b)).drop a = slice f (off + a) b := by
  rw [slice_add, List.drop_left' (length_slice f off a)]

@[simp] theorem patch_nil (f : Nat → α) (off : Nat) : patch f off [] = f := by
  funext i
  simp [patch]

theorem patch_at {f : Nat → α} {off : Nat} {l : List α} {i : Nat} (h : i < l.length) :
    patch f off l (off + i) = l[i] := by
  simp [patch, h]

theorem patch_outside {f : Nat → α} {off : Nat} {l : List α} {i : Nat} (h : i < off ∨ off + l.length ≤ i) :
    patch f off l i = f i := by
  unfold patch
  split
  · rename_i hle
    have hout : l.length ≤ i - off := by omega
    rw [List.getElem?_eq_none hout]
    rfl
  · rfl

/-- Two consecutive writes are one. -/
theorem patch_append (f : Nat → α) (off : Nat) (a b : List α) :
    patch f off (a ++ b) = patch (patch f off a) (off + a.length) b := by
  funext i
  by_cases h1 : i < off
  · rw [patch_outside (Or.inl h1), patch_outside (Or.inl (by omega)), patch_outside (Or.inl h1)]
  · obtain ⟨j, rfl⟩ := Nat.exists_eq_add_of_le (Nat.le_of_not_lt h1)
    by_cases h2 : j < a.length
    · rw [patch_outside (i := off + j) (Or.inl (show off + j < off + a.length by omega)), patch_at h2,
        patch_at (by rw [List.length_append]; omega), List.getElem_append_left h2]
    · obtain ⟨k, rfl⟩ := Nat.exists_eq_add_of_le (Nat.le_of_not_lt h2)
      by_cases h3 : k < b.length
      · rw [← Nat.add_assoc, patch_at h3, Nat.add_assoc, patch_at (by rw [List.length_append]; omega),
          List.getElem_append_right (by omega)]
        congr 1
        omega
      · rw [patch_outside (Or.inr (by rw [List.length_append]; omega)), patch_outside (Or.inr (by omega)),
          patch_outside (Or.inr (by omega))]

/-- What is there already changes nothing. -/
theorem patch_slice (f g : Nat → α) {off n : Nat} (h : ∀ i < n, f (off + i) = g (off + i)) :
    patch f off (slice g off n) = f := by
  funext i
  by_cases hi : i < off ∨ off + n ≤ i
  · exact patch_outside (by rwa [length_slice])
  · obtain ⟨j, rfl⟩ := Nat.exists_eq_add_of_le (show off ≤ i by omega)
    have hj : j < n := by omega
    unfold patch
    rw [if_pos (Nat.le_add_right off j), Nat.add_sub_cancel_left, getElem?_slice hj, Option.getD_some, h j hj]

theorem slice_patch (f : Nat → α) (off : Nat) (l : List α) : slice (patch f off l) off l.length = l := by
  apply List.ext_getElem?
  intro i
  by_cases hi : i < l.length
  · rw [getElem?_slice hi, patch_at hi, List.getElem?_eq_getElem hi]
  · rw [List.getElem?_eq_none (by rw [length_slice]; omega), List.getElem?_eq_none (by omega)]

/-- A stretch of what was written. -/
theorem slice_patch_inside (f : Nat → α) (off : Nat) {l : List α} {a n : Nat} (h : a + n ≤ l.length) :
    slice (patch f off l) (off + a) n = (l.drop a).take n := by
  rw [← drop_slice, ← take_slice _ _ h, slice_patch, List.drop_take, Nat.add_sub_cancel_left]

theorem slice_patch_outside {f : Nat → α} {off a n : Nat} {l : List α}
    (h : a + n ≤ off ∨ off + l.length ≤ a) : slice (patch f off l) a n = slice f a n := by
  apply slice_congr
  intro i hi
  exact patch_outside (by omega)

end Region

/-- A file: `size` cells, and zero beyond. -/
structure ByteFile (α : Type*) [Zero α] where
  size : Nat
  cell : Nat → α
  beyond : ∀ i, size ≤ i → cell i = 0

namespace ByteFile

open Region

variable {α : Type*} [Zero α]

@[ext] theorem ext {F G : ByteFile α} (hsize : F.size = G.size) (hcell : ∀ i, F.cell i = G.cell i) : F = G := by
  obtain ⟨n, f, hf⟩ := F
  obtain ⟨k, g, hg⟩ := G
  obtain rfl : n = k := hsize
  obtain rfl : f = g := funext hcell
  rfl

def empty : ByteFile α := ⟨0, fun _ => 0, fun _ _ => rfl⟩

/-- Up to `n` cells from `off` on, as far as the file goes. -/
def read (F : ByteFile α) (off n : Nat) : List α := slice F.cell off (min n (F.size - off))

/-- Writing at `off`; writing nothing changes nothing. -/
def write (F : ByteFile α) (off : Nat) (l : List α) : ByteFile α :=
  if l = [] then F
  else
    { size := max F.size (off + l.length)
      cell := patch F.cell off l
      beyond := by
        intro i hi
        rw [patch_outside (Or.inr (by omega))]
        exact F.beyond i (by omega) }

/-- Growing with zeros. -/
def grow (F : ByteFile α) (n : Nat) : ByteFile α :=
  ⟨max F.size n, F.cell, fun i hi => F.beyond i (by omega)⟩

@[simp] theorem write_nil (F : ByteFile α) (off : Nat) : F.write off [] = F := if_pos rfl

theorem size_write (F : ByteFile α) (off : Nat) {l : List α} (h : l ≠ []) :
    (F.write off l).size = max F.size (off + l.length) := by
  unfold write
  rw [if_neg h]

@[simp] theorem cell_write (F : ByteFile α) (off : Nat) (l : List α) : (F.write off l).cell = patch F.cell off l := by
  unfold write
  split
  · rename_i h
    rw [h, patch_nil]
  · rfl

theorem size_le_write (F : ByteFile α) (off : Nat) (l : List α) : F.size ≤ (F.write off l).size := by
  by_cases h : l = []
  · have hsame : F.write off l = F := by rw [h, write_nil]
    exact Nat.le_of_eq (congrArg ByteFile.size hsame).symm
  · rw [size_write F off h]
    omega

@[simp] theorem size_grow (F : ByteFile α) (n : Nat) : (F.grow n).size = max F.size n := rfl
@[simp] theorem cell_grow (F : ByteFile α) (n : Nat) : (F.grow n).cell = F.cell := rfl

theorem length_read (F : ByteFile α) (off n : Nat) : (F.read off n).length = min n (F.size - off) := length_slice _ _ _

theorem read_of_ge {F : ByteFile α} {off : Nat} (h : F.size ≤ off) (n : Nat) : F.read off n = [] := by
  unfold read
  rw [show min n (F.size - off) = 0 by omega, slice_zero]

theorem read_within {F : ByteFile α} {off n : Nat} (h : off + n ≤ F.size) : F.read off n = slice F.cell off n := by
  unfold read
  rw [show min n (F.size - off) = n by omega]

/-- A read in two parts, the first of which is inside the file. -/
theorem read_add {F : ByteFile α} {off a : Nat} (b : Nat) (h : off + a ≤ F.size) :
    F.read off (a + b) = slice F.cell off a ++ F.read (off + a) b := by
  unfold read
  rw [show min (a + b) (F.size - off) = a + min b (F.size - (off + a)) by omega, slice_add]

theorem write_append (F : ByteFile α) (off : Nat) {a : List α} (b : List α) (ha : a ≠ []) :
    F.write off (a ++ b) = (F.write off a).write (off + a.length) b := by
  by_cases hb : b = []
  · rw [hb, List.append_nil, write_nil]
  · apply ext
    · rw [size_write _ _ (by simp [ha]), size_write _ _ hb, size_write _ _ ha, List.length_append]
      omega
    · intro i
      rw [cell_write, cell_write, cell_write, patch_append]

/-- A longer write at the same place covers the shorter one. -/
theorem write_write (F : ByteFile α) (off : Nat) {a b : List α} (h : a.length ≤ b.length) :
    (F.write off a).write off b = F.write off b := by
  by_cases hb : b = []
  · have ha : a = [] := by
      rw [hb] at h
      exact List.eq_nil_of_length_eq_zero (by simpa using h)
    rw [ha, hb, write_nil]
  · apply ext
    · rw [size_write _ _ hb, size_write _ _ hb]
      by_cases ha : a = []
      · rw [ha, write_nil]
      · rw [size_write _ _ ha]
        omega
    · intro i
      rw [cell_write, cell_write, cell_write]
      by_cases hi : i < off ∨ off + b.length ≤ i
      · rw [patch_outside hi, patch_outside hi, patch_outside (by omega)]
      · obtain ⟨j, rfl⟩ := Nat.exists_eq_add_of_le (show off ≤ i by omega)
        rw [patch_at (show j < b.length by omega), patch_at (show j < b.length by omega)]

/-- Growing the file first to the size a write gives it anyway. -/
theorem grow_write (F : ByteFile α) (off : Nat) (l : List α) : (F.grow (F.write off l).size).write off l = F.write off l := by
  apply ext
  · by_cases hl : l = []
    · rw [hl, write_nil, write_nil, size_grow, Nat.max_self]
    · rw [size_write _ _ hl, size_grow, size_write _ _ hl]
      omega
  · intro i
    rw [cell_write, cell_write, cell_grow]

/-! ## A buffer written out -/

theorem size_write_slice (F : ByteFile α) (off : Nat) (g : Nat → α) (n : Nat) :
    (F.write off (slice g 0 n)).size = if n = 0 then F.size else max F.size (off + n) := by
  by_cases hn : n = 0
  · rw [if_pos hn, hn, slice_zero, write_nil]
  · have hne : slice g 0 n ≠ [] := by
      intro hc
      have := length_slice g 0 n
      rw [hc] at this
      exact hn this.symm
    rw [if_neg hn, size_write _ _ hne, length_slice]

/-- The cells of a file over which the first `n` of a buffer were written. -/
theorem cell_write_slice (F : ByteFile α) (off : Nat) (g : Nat → α) (n j : Nat) :
    (F.write off (slice g 0 n)).cell (off + j) = if j < n then g j else F.cell (off + j) := by
  rw [cell_write]
  split
  · rename_i hj
    unfold patch
    rw [if_pos (Nat.le_add_right off j), Nat.add_sub_cancel_left, getElem?_slice hj, Option.getD_some, Nat.zero_add]
  · rename_i hj
    exact patch_outside (Or.inr (by rw [length_slice]; omega))

theorem cell_write_before (F : ByteFile α) {off i : Nat} (l : List α) (h : i < off) :
    (F.write off l).cell i = F.cell i := by
  rw [cell_write, patch_outside (Or.inl h)]

/-- Writing out what the file holds changes nothing. -/
theorem write_slice_self {F : ByteFile α} {off n : Nat} {g : Nat → α} (hsize : off + n ≤ F.size)
    (h : ∀ i < n, g i = F.cell (off + i)) : F.write off (slice g 0 n) = F := by
  apply ext
  · rw [size_write_slice]
    split
    · rfl
    · omega
  · intro i
    by_cases hi : i < off
    · exact cell_write_before F _ hi
    · obtain ⟨j, rfl⟩ := Nat.exists_eq_add_of_le (Nat.le_of_not_lt hi)
      rw [cell_write_slice]
      split
      · rename_i hj
        exact h j hj
      · rfl

/-- A write inside or right after the buffered part, in the file and in the buffer. -/
theorem write_slice_patch (F : ByteFile α) (off : Nat) (g : Nat → α) {c k : Nat} {l : List α} (hl : l ≠ [])
    (hc : c ≤ k) : (F.write off (slice g 0 k)).write (off + c) l
      = F.write off (slice (patch g c l) 0 (max k (c + l.length))) := by
  have hpos : 0 < l.length := List.length_pos_iff.mpr hl
  apply ext
  · have hgrown := size_write_slice F off (patch g c l) (max k (c + l.length))
    rw [if_neg (by omega)] at hgrown
    rw [hgrown, size_write _ _ hl, size_write_slice]
    split
    · omega
    · omega
  · intro i
    by_cases hi : i < off
    · rw [cell_write_before _ _ hi, cell_write_before _ _ (by omega), cell_write_before _ _ hi]
    · obtain ⟨j, rfl⟩ := Nat.exists_eq_add_of_le (Nat.le_of_not_lt hi)
      rw [cell_write_slice, cell_write]
      by_cases hj : c ≤ j ∧ j < c + l.length
      · obtain ⟨d, rfl⟩ := Nat.exists_eq_add_of_le hj.1
        have hd : d < l.length := by omega
        rw [if_pos (by omega), patch_at hd, ← Nat.add_assoc, patch_at hd]
      · rw [patch_outside (by omega), cell_write_slice, patch_outside (f := g) (by omega)]
        by_cases hk : j < k
        · rw [if_pos hk, if_pos (by omega)]
        · rw [if_neg hk, if_neg (by omega)]

end ByteFile
