import HuronFS.Client.Stream
import HuronFS.Lib.Run

/-!
# `Client.Position` — the position of a descriptor (`_read`, `_write`, `_lseek`, `_tell`, `pread64`, `pwrite64`)

Sizes and positions are the machine's: `size_t`, `ssize_t` and `off64_t` are 64 bits, and `_write` keeps the number of
bytes written in an `int`. What `remote_IO` moves, and the size the file has afterwards, are given with each call.

`_read` does what it should for every size. `_lseek` returns the offset it is given, which is the new position only from
the start of the file; the `int` of `_write` holds up to two gigabytes; and the positional calls are a seek and a
sequential call, so they leave the position behind the bytes they have moved.
-/

namespace HuronFS

def SEEK_SET : Int := 0
def SEEK_CUR : Int := 1
def SEEK_END : Int := 2

/-- `opened_file_info` of an open descriptor: its position and the size of its file. -/
structure Descriptor where
  currentPoint : BitVec 64
  stSize : BitVec 64
deriving DecidableEq, Repr

/-- What `remote_IO` does in a call: the bytes it would move, and the size the file has when it returns. -/
structure Reported where
  bytes : Nat
  stSize : BitVec 64
deriving DecidableEq, Repr

/-- `remote_IO` of `size` bytes: it moves no more, and returns a `ssize_t`. -/
def Reported.remoteIo (io : Reported) (size : BitVec 64) : BitVec 64 :=
  BitVec.ofNat 64 (min io.bytes (min size.toNat (2 ^ 63 - 1)))

/-- A `ssize_t` that has been an `int`. -/
def throughInt (n : BitVec 64) : BitVec 64 := (n.setWidth 32).signExtend 64

namespace Descriptor

/-! ## The calls -/

/-- `_read` from the point where it has found how much there is to read. -/
def readSome (s : Descriptor) (size : BitVec 64) (io : Reported) : BitVec 64 × Descriptor :=
  (io.remoteIo size, ⟨s.currentPoint + io.remoteIo size, io.stSize⟩)

/-- `_read` -/
def read (s : Descriptor) (size : BitVec 64) (io : Reported) : BitVec 64 × Descriptor :=
  if size = 0#64 then (size, s)
  else if size + s.currentPoint > s.stSize then
    if s.currentPoint.slt s.stSize then s.readSome (s.stSize - s.currentPoint) io else (0#64, s)
  else s.readSome size io

/-- `_write` -/
def write (s : Descriptor) (size : BitVec 64) (io : Reported) : BitVec 64 × Descriptor :=
  if size = 0#64 then (size, s)
  else (throughInt (io.remoteIo size), ⟨s.currentPoint + throughInt (io.remoteIo size), io.stSize⟩)

/-- `_lseek` -/
def lseek (s : Descriptor) (offset : BitVec 64) (whence : Int) : BitVec 64 × Descriptor :=
  if whence = SEEK_SET then (offset, { s with currentPoint := offset })
  else if whence = SEEK_CUR then (offset, { s with currentPoint := s.currentPoint + offset })
  else if whence = SEEK_END then (offset, { s with currentPoint := s.stSize + offset })
  else (offset, s)

/-- `_tell` -/
def tell (s : Descriptor) : BitVec 64 := s.currentPoint

/-- `pread64` -/
def pread64 (s : Descriptor) (count offset : BitVec 64) (io : Reported) : BitVec 64 × Descriptor :=
  if (s.lseek offset SEEK_SET).1 = -1 then (-1, (s.lseek offset SEEK_SET).2)
  else (s.lseek offset SEEK_SET).2.read count io

/-- `pwrite64` -/
def pwrite64 (s : Descriptor) (count offset : BitVec 64) (io : Reported) : BitVec 64 × Descriptor :=
  if (s.lseek offset SEEK_SET).1 = -1 then (-1, (s.lseek offset SEEK_SET).2)
  else (s.lseek offset SEEK_SET).2.write count io

/-! ## Runs -/

/-- A call on the descriptor. `elsewhere` is a change of the file's size by someone else. -/
inductive Call
  | read (size : BitVec 64) (io : Reported)
  | write (size : BitVec 64) (io : Reported)
  | lseek (offset : BitVec 64) (whence : Int)
  | tell
  | pread64 (count offset : BitVec 64) (io : Reported)
  | pwrite64 (count offset : BitVec 64) (io : Reported)
  | elsewhere (stSize : BitVec 64)
deriving DecidableEq, Repr

/-- What a call returns, and the descriptor after it. -/
def call (s : Descriptor) : Call → BitVec 64 × Descriptor
  | .read size io => s.read size io
  | .write size io => s.write size io
  | .lseek offset whence => s.lseek offset whence
  | .tell => (s.tell, s)
  | .pread64 count offset io => s.pread64 count offset io
  | .pwrite64 count offset io => s.pwrite64 count offset io
  | .elsewhere stSize => (0#64, { s with stSize := stSize })

def step (s : Descriptor) (c : Call) : Option Descriptor := some (s.call c).2

/-- The bytes `_read` asks `remote_IO` for. -/
def readSize (s : Descriptor) (size : BitVec 64) : BitVec 64 :=
  if size = 0#64 then 0#64
  else if size + s.currentPoint > s.stSize then
    if s.currentPoint.slt s.stSize then s.stSize - s.currentPoint else 0#64
  else size

/-- The call returns the bytes that were moved and advances the position by as many. -/
def Advances (s : Descriptor) (moved : BitVec 64) (r : BitVec 64 × Descriptor) : Prop :=
  r.1 = moved ∧ r.2.currentPoint.toInt = s.currentPoint.toInt + moved.toNat

/-- The call returns the position it leaves, as `tell` does. -/
def Reports (position : Int) (r : BitVec 64 × Descriptor) : Prop :=
  r.2.currentPoint.toInt = position ∧ r.1 = r.2.tell

/-- **The semantics of a position.** -/
def Meets (s : Descriptor) : Call → Prop
  | .read size io => s.Advances (io.remoteIo (s.readSize size)) (s.read size io)
  | .write size io => s.Advances (io.remoteIo size) (s.write size io)
  | .lseek offset whence =>
      (whence = SEEK_SET → Reports offset.toInt (s.lseek offset whence)) ∧
      (whence = SEEK_CUR → Reports (s.currentPoint.toInt + offset.toInt) (s.lseek offset whence)) ∧
      (whence = SEEK_END → Reports (s.stSize.toInt + offset.toInt) (s.lseek offset whence))
  | .tell => (s.call .tell).1 = s.currentPoint ∧ (s.call .tell).2 = s
  | .pread64 count offset io => (s.pread64 count offset io).2.currentPoint = s.currentPoint
  | .pwrite64 count offset io => (s.pwrite64 count offset io).2.currentPoint = s.currentPoint
  | .elsewhere _ => True

/-- When a call has these semantics: the bytes it moves do not take the position out of `off64_t`, a write moves less than
    two gigabytes, a relative seek starts from 0, and a positional call happens to end at the old position. -/
def Fits (s : Descriptor) : Call → Prop
  | .read size io => s.currentPoint.toInt + (io.remoteIo (s.readSize size)).toNat < 2 ^ 63
  | .write size io => (io.remoteIo size).toNat < 2 ^ 31 ∧ s.currentPoint.toInt + (io.remoteIo size).toNat < 2 ^ 63
  | .lseek _ whence => (whence = SEEK_CUR → s.currentPoint = 0#64) ∧ (whence = SEEK_END → s.stSize = 0#64)
  | .tell => True
  | .pread64 count offset io =>
      if offset = -1 then s.currentPoint = -1
      else s.currentPoint = offset + io.remoteIo (({ s with currentPoint := offset } : Descriptor).readSize count)
  | .pwrite64 count offset io =>
      if offset = -1 then s.currentPoint = -1 else s.currentPoint = offset + throughInt (io.remoteIo count)
  | .elsewhere _ => True

end Descriptor

/-! ## Machine numbers -/

theorem toNat_remoteIo (io : Reported) (size : BitVec 64) : (io.remoteIo size).toNat = min io.bytes (min size.toNat (2 ^ 63 - 1)) := by
  unfold Reported.remoteIo
  rw [BitVec.toNat_ofNat]
  exact Nat.mod_eq_of_lt (by omega)

theorem remoteIo_zero (io : Reported) : io.remoteIo 0#64 = 0#64 := by
  apply BitVec.eq_of_toNat_eq
  rw [toNat_remoteIo]
  simp

/-- Adding a number of bytes to a position is adding it unless the sum leaves `off64_t`. -/
theorem toInt_advance_iff {p n : BitVec 64} (h : n.toNat < 2 ^ 63) :
    (p + n).toInt = p.toInt + n.toNat ↔ p.toInt + n.toNat < 2 ^ 63 := by
  have hn : n.toInt = n.toNat := BitVec.toInt_eq_toNat_of_lt (by omega)
  have hlow := BitVec.le_toInt p
  rw [BitVec.toInt_add, hn]
  constructor
  · intro heq
    have hlt := @Int.bmod_lt (p.toInt + n.toNat) (2 ^ 64) (by decide)
    omega
  · intro hlt
    exact Int.bmod_eq_of_le (by omega) (by omega)

theorem throughInt_eq_iff {n : BitVec 64} (h : n.toNat < 2 ^ 63) : throughInt n = n ↔ n.toNat < 2 ^ 31 := by
  have hn : n.toInt = n.toNat := BitVec.toInt_eq_toNat_of_lt (by omega)
  rw [← BitVec.toInt_inj, hn]
  unfold throughInt
  rw [BitVec.toInt_signExtend_of_le (by decide), BitVec.toInt_setWidth]
  constructor
  · intro heq
    have hlt := @Int.bmod_lt n.toNat (2 ^ 32) (by decide)
    omega
  · intro hlt
    exact Int.bmod_eq_of_le (by omega) (by omega)

namespace Descriptor

/-! ## The calls, one by one -/

section

variable (s : Descriptor) (size : BitVec 64) (io : Reported)

theorem remoteIo_lt : (io.remoteIo size).toNat < 2 ^ 63 := by
  rw [toNat_remoteIo]
  omega

/-- `_read` in terms of what it asks for. -/
theorem read_spec : (s.read size io).1 = io.remoteIo (s.readSize size) ∧
    (s.read size io).2.currentPoint = s.currentPoint + io.remoteIo (s.readSize size) := by
  unfold read readSize
  by_cases hzero : size = 0#64
  · rw [if_pos hzero, if_pos hzero, remoteIo_zero, BitVec.add_zero]
    exact ⟨hzero, rfl⟩
  · rw [if_neg hzero, if_neg hzero]
    by_cases hover : size + s.currentPoint > s.stSize
    · rw [if_pos hover, if_pos hover]
      by_cases hleft : s.currentPoint.slt s.stSize = true
      · rw [if_pos hleft, if_pos hleft]
        exact ⟨rfl, rfl⟩
      · rw [if_neg hleft, if_neg hleft, remoteIo_zero, BitVec.add_zero]
        exact ⟨rfl, rfl⟩
    · rw [if_neg hover, if_neg hover]
      exact ⟨rfl, rfl⟩

theorem write_spec : (s.write size io).1 = throughInt (io.remoteIo size) ∧
    (s.write size io).2.currentPoint = s.currentPoint + throughInt (io.remoteIo size) := by
  unfold write
  by_cases hzero : size = 0#64
  · have hnone : throughInt 0#64 = 0#64 := by decide
    rw [if_pos hzero, hzero, remoteIo_zero, hnone, BitVec.add_zero]
    exact ⟨rfl, rfl⟩
  · rw [if_neg hzero]
    exact ⟨rfl, rfl⟩

theorem read_meets_iff : s.Meets (.read size io) ↔ s.Fits (.read size io) := by
  obtain ⟨hreturned, hposition⟩ := s.read_spec size io
  show s.Advances _ _ ↔ _
  unfold Advances
  rw [hposition, and_iff_right hreturned]
  exact toInt_advance_iff (remoteIo_lt _ io)

theorem write_meets_iff : s.Meets (.write size io) ↔ s.Fits (.write size io) := by
  obtain ⟨hreturned, hposition⟩ := s.write_spec size io
  have hsmall := throughInt_eq_iff (remoteIo_lt size io)
  have hadvance := @toInt_advance_iff s.currentPoint _ (remoteIo_lt size io)
  show s.Advances _ _ ↔ _
  unfold Advances
  rw [hreturned, hposition]
  constructor
  · rintro ⟨heq, hsum⟩
    rw [heq] at hsum
    exact ⟨hsmall.mp heq, hadvance.mp hsum⟩
  · rintro ⟨hlt, hsum⟩
    have heq := hsmall.mpr hlt
    rw [heq]
    exact ⟨rfl, hadvance.mpr hsum⟩

end

/-- From `base`, a seek that returns its offset reports the position only when `base` is 0. -/
theorem reports_iff {base offset : BitVec 64} {stSize : BitVec 64} :
    Reports (base.toInt + offset.toInt) (offset, ⟨base + offset, stSize⟩) ↔ base = 0#64 := by
  constructor
  · rintro ⟨-, hreturned⟩
    have hsum : offset = base + offset := hreturned
    exact BitVec.self_eq_add_left.mp hsum
  · rintro rfl
    refine ⟨?_, ?_⟩
    · show (0#64 + offset).toInt = (0#64).toInt + offset.toInt
      rw [BitVec.zero_add, BitVec.toInt_zero, Int.zero_add]
    · exact (BitVec.zero_add _).symm

theorem lseek_meets_iff (s : Descriptor) (offset : BitVec 64) (whence : Int) :
    s.Meets (.lseek offset whence) ↔ s.Fits (.lseek offset whence) := by
  have hset : whence = SEEK_SET → Reports offset.toInt (s.lseek offset whence) := by
    rintro rfl
    exact ⟨rfl, rfl⟩
  have hcur : (whence = SEEK_CUR → Reports (s.currentPoint.toInt + offset.toInt) (s.lseek offset whence)) ↔
      (whence = SEEK_CUR → s.currentPoint = 0#64) := by
    apply imp_congr_right
    rintro rfl
    exact reports_iff
  have hend : (whence = SEEK_END → Reports (s.stSize.toInt + offset.toInt) (s.lseek offset whence)) ↔
      (whence = SEEK_END → s.stSize = 0#64) := by
    apply imp_congr_right
    rintro rfl
    exact reports_iff
  exact (and_iff_right hset).trans (and_congr hcur hend)

/-- A positional call leaves the position where its sequential call does, from the offset on. -/
theorem pread64_meets_iff (s : Descriptor) (count offset : BitVec 64) (io : Reported) :
    s.Meets (.pread64 count offset io) ↔ s.Fits (.pread64 count offset io) := by
  obtain ⟨-, hposition⟩ := ({ s with currentPoint := offset } : Descriptor).read_spec count io
  show (s.pread64 count offset io).2.currentPoint = s.currentPoint ↔
    if offset = -1 then _ else _
  unfold pread64
  by_cases hoffset : offset = -1
  · rw [if_pos hoffset, if_pos (by exact hoffset), eq_comm, ← hoffset]
    rfl
  · rw [if_neg hoffset, if_neg (by exact hoffset), eq_comm, ← hposition]
    rfl

theorem pwrite64_meets_iff (s : Descriptor) (count offset : BitVec 64) (io : Reported) :
    s.Meets (.pwrite64 count offset io) ↔ s.Fits (.pwrite64 count offset io) := by
  obtain ⟨-, hposition⟩ := ({ s with currentPoint := offset } : Descriptor).write_spec count io
  show (s.pwrite64 count offset io).2.currentPoint = s.currentPoint ↔
    if offset = -1 then _ else _
  unfold pwrite64
  by_cases hoffset : offset = -1
  · rw [if_pos hoffset, if_pos (by exact hoffset), eq_comm, ← hoffset]
    rfl
  · rw [if_neg hoffset, if_neg (by exact hoffset), eq_comm, ← hposition]
    rfl

theorem meets_iff (s : Descriptor) (c : Call) : s.Meets c ↔ s.Fits c := by
  cases c with
  | read size io => exact s.read_meets_iff size io
  | write size io => exact s.write_meets_iff size io
  | lseek offset whence => exact s.lseek_meets_iff offset whence
  | tell => exact iff_of_true ⟨rfl, rfl⟩ trivial
  | pread64 count offset io => exact s.pread64_meets_iff count offset io
  | pwrite64 count offset io => exact s.pwrite64_meets_iff count offset io
  | elsewhere stSize => exact Iff.rfl

/-! ## The descriptor of a stream -/

/-- The descriptor stands for a file with a cursor. -/
structure At (s : Descriptor) (d : Fd) : Prop where
  position : s.currentPoint.toInt = d.cursor
  size : s.stSize.toInt = d.file.size

theorem toNat_of_toInt {x : BitVec 64} {n : Nat} (h : x.toInt = n) : x.toNat = n ∧ n < 2 ^ 63 := by
  rw [BitVec.toInt_eq_toNat_cond] at h
  have := x.isLt
  split at h <;> omega

section

variable {s : Descriptor} {d : Fd} {size : BitVec 64} {io : Reported}

theorem At.readSize (h : s.At d) (hsize : size.toNat < 2 ^ 63) :
    (s.readSize size).toNat = min size.toNat (d.file.size - d.cursor) := by
  obtain ⟨hpoint, hpointLt⟩ := toNat_of_toInt h.position
  obtain ⟨hfile, hfileLt⟩ := toNat_of_toInt h.size
  have hsum : (size + s.currentPoint).toNat = size.toNat + d.cursor := by
    rw [BitVec.toNat_add, hpoint]
    exact Nat.mod_eq_of_lt (by omega)
  have hover : size + s.currentPoint > s.stSize ↔ d.file.size < size.toNat + d.cursor := by
    rw [gt_iff_lt, BitVec.lt_def, hsum, hfile]
  have hleft : s.currentPoint.slt s.stSize = true ↔ d.cursor < d.file.size := by
    rw [BitVec.slt_iff_toInt_lt, h.position, h.size]
    exact Int.ofNat_lt
  unfold Descriptor.readSize
  split
  · rename_i hzero
    rw [hzero]
    exact (Nat.zero_min _).symm
  · split
    · rename_i hgt
      have := hover.mp hgt
      split
      · rename_i hlt
        have := hleft.mp hlt
        rw [BitVec.toNat_sub_of_le (by rw [BitVec.le_def]; omega)]
        omega
      · rename_i hge
        have : ¬ d.cursor < d.file.size := fun hlt => hge (hleft.mpr hlt)
        rw [BitVec.toNat_ofNat]
        omega
    · rename_i hle
      have : ¬ d.file.size < size.toNat + d.cursor := fun hlt => hle (hover.mpr hlt)
      omega

/-- A read that gets all it asks for is a read at the cursor. -/
theorem At.read (h : s.At d) (hsize : size.toNat < 2 ^ 63) (hall : size.toNat ≤ io.bytes) (hsame : io.stSize = s.stSize) :
    (s.read size io).1.toNat = (d.read size.toNat).1.length ∧ (s.read size io).2.At (d.read size.toNat).2 := by
  obtain ⟨hreturned, hposition⟩ := s.read_spec size io
  have hfileLt := (toNat_of_toInt h.size).2
  have hmoved : (io.remoteIo (s.readSize size)).toNat = (d.read size.toNat).1.length := by
    rw [toNat_remoteIo, h.readSize hsize]
    show _ = (d.file.read d.cursor size.toNat).length
    rw [ByteFile.length_read]
    omega
  have hlen : (d.read size.toNat).1.length ≤ d.file.size - d.cursor := by
    show (d.file.read d.cursor size.toNat).length ≤ _
    rw [ByteFile.length_read]
    omega
  have hpointLt := (toNat_of_toInt h.position).2
  refine ⟨by rw [hreturned, hmoved], ?_, ?_⟩
  · rw [hposition, (toInt_advance_iff (remoteIo_lt _ io)).mpr, hmoved, h.position]
    · rfl
    · rw [hmoved, h.position]
      omega
  · have hfile : (s.read size io).2.stSize = s.stSize := by
      unfold Descriptor.read readSome
      repeat' split
      all_goals first | rfl | exact hsame
    rw [hfile]
    exact h.size

/-- A write of less than two gigabytes that is done in full is a write at the cursor. -/
theorem At.write {bytes : List Byte} (h : s.At d) (hbytes : size.toNat = bytes.length) (hsmall : bytes.length < 2 ^ 31)
    (hall : bytes.length ≤ io.bytes) (hroom : d.cursor + bytes.length < 2 ^ 63)
    (hgrown : bytes ≠ [] → io.stSize.toInt = (d.file.write d.cursor bytes).size) :
    (s.write size io).1.toNat = bytes.length ∧ (s.write size io).2.At (d.write bytes) := by
  obtain ⟨hreturned, hposition⟩ := s.write_spec size io
  have hmoved : (io.remoteIo size).toNat = bytes.length := by
    rw [toNat_remoteIo]
    omega
  have hint : throughInt (io.remoteIo size) = io.remoteIo size := (throughInt_eq_iff (remoteIo_lt _ io)).mpr (by omega)
  rw [hint] at hreturned hposition
  refine ⟨by rw [hreturned, hmoved], ?_, ?_⟩
  · rw [hposition, (toInt_advance_iff (remoteIo_lt _ io)).mpr, hmoved, h.position]
    · rfl
    · rw [hmoved, h.position]
      omega
  · unfold Descriptor.write
    split
    · rename_i hzero
      obtain rfl : bytes = [] := by
        apply List.eq_nil_of_length_eq_zero
        rw [← hbytes, hzero]
        rfl
      show s.stSize.toInt = _
      rw [h.size]
      simp [Fd.write, ByteFile.write]
    · rename_i hne
      apply hgrown
      rintro rfl
      apply hne
      apply BitVec.eq_of_toNat_eq
      exact hbytes

/-- A seek from the start of the file. -/
theorem At.seekSet (h : s.At d) {offset : BitVec 64} {n : Nat} (hoffset : offset.toInt = n) :
    (s.lseek offset SEEK_SET).2.At (d.seekSet n) := ⟨hoffset, h.size⟩

end

/-- **Position semantics** hold in a run exactly when each of its calls is one they hold for. -/
theorem positions_exact (s : Descriptor) (calls : List Call) :
    Run.Guarded step Meets s calls ↔ Run.Guarded step Fits s calls := Run.Guarded.congr meets_iff

/-- After ten bytes have been written, `lseek(fd, 0, SEEK_CUR)` returns 0; a `pread64` of four bytes from the start leaves the
    position at 4; and a write of two gigabytes returns a negative number. -/
theorem positions_go_wrong :
    ¬ Run.Guarded step Meets ⟨0, 0⟩ [.write 10 ⟨10, 10⟩, .lseek 0 SEEK_CUR] ∧
    ¬ Run.Guarded step Meets ⟨0, 0⟩ [.write 10 ⟨10, 10⟩, .pread64 4 0 ⟨4, 10⟩] ∧
    ¬ Run.Guarded step Meets ⟨0, 0⟩ [.write 0x80000000 ⟨0x80000000, 0x80000000⟩] := by
  refine ⟨?_, ?_, ?_⟩
  · rintro ⟨-, hrest⟩
    obtain ⟨⟨-, hcur, -⟩, -⟩ := hrest _ rfl
    exact absurd (hcur rfl).2 (by decide)
  · rintro ⟨-, hrest⟩
    obtain ⟨hmeets, -⟩ := hrest _ rfl
    have hposition : (4 : BitVec 64) = 10 := hmeets
    exact absurd hposition (by decide)
  · rintro ⟨⟨hreturned, -⟩, -⟩
    exact absurd hreturned (by decide)

end Descriptor

end HuronFS
