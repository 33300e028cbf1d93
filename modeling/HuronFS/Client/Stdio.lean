import HuronFS.Client.StreamRefine

/-!
# `Client.Stdio` — the calls of `CBB_stdio.cpp` over the buffered stream

`fgetc`, `fgets`, `fread`, `fputc`, `fputs`, `fwrite`, `fseek`, `rewind`, `ftell`, `feof` and `fflush` on a stream that is the client's,
next to what each is to do to a plain file with a position.

A buffered stream is not the plain file when reads and writes follow each other. A program that only reads it, or only writes it, and
stays inside the file, never meets what goes wrong: a clean buffer ends where the descriptor stands (`Reads`), and a pointer beyond
the buffered bytes is inside the file underneath (`Writes`).
-/

namespace HuronFS

open Region

def NEWLINE : Byte := 10

/-- What the application calls. `fgetc` has an `int` on its stack, `fgets` the memory it is to fill, each with what was there before;
    `text` is the string before its terminator, `bytes` are the `size * nitems` bytes at `ptr`. -/
inductive StdioCall
  | fgetc (c : BitVec 32)
  | fgets (s : Nat → Byte) (n : Nat)
  | fread (size nitems : Nat)
  | fputc (c : BitVec 32)
  | fputs (text : List Byte)
  | fwrite (bytes : List Byte)
  | fseek (offset : Int) (whence : Stream.Whence)
  | rewind
  | ftell
  | feof
  | fflush

/-- What a call returns, and leaves in the caller's memory. -/
inductive StdioResult
  | int (v : BitVec 32)
  | memory (s : Nat → Byte)
  | bytes (l : List Byte)
  | count (n : Nat)
  | long (p : Int)
  | done

namespace StdioCall

def EOF : BitVec 32 := BitVec.ofInt 32 (-1)

/-- A byte is read into the lowest byte of the `int`, and the others stay. -/
def intWithByte (c : BitVec 32) (b : Byte) : BitVec 32 := BitVec.ofNat 32 (c.toNat / 256 * 256 + b.val)

/-- What `fgetc` returns for what was read. -/
def charRead (c : BitVec 32) : List Byte → StdioResult
  | [b] => .int (intWithByte c b)
  | _ => .int EOF

/-- The byte at the address of an `int`. -/
def byteOf (c : BitVec 32) : Byte := Fin.ofNat 256 c.toNat

/-- The calls that read. -/
def Reads : StdioCall → Prop
  | .fgetc _ | .fgets _ _ | .fread _ _ | .fseek _ _ | .rewind | .ftell | .feof | .fflush => True
  | .fputc _ | .fputs _ | .fwrite _ => False

/-- The calls that write; `SEEK_END` is not among them. -/
def Writes : StdioCall → Prop
  | .fgetc _ | .fgets _ _ | .fread _ _ | .fseek _ .fromEnd => False
  | .fseek _ .set | .fseek _ .cur | .fputc _ | .fputs _ | .fwrite _ | .rewind | .ftell | .feof | .fflush => True

instance : (c : StdioCall) → Decidable c.Reads
  | .fgetc _ | .fgets _ _ | .fread _ _ | .fseek _ _ | .rewind | .ftell | .feof | .fflush => .isTrue trivial
  | .fputc _ | .fputs _ | .fwrite _ => .isFalse id

instance : (c : StdioCall) → Decidable c.Writes
  | .fgetc _ | .fgets _ _ | .fread _ _ | .fseek _ .fromEnd => .isFalse id
  | .fseek _ .set | .fseek _ .cur | .fputc _ | .fputs _ | .fwrite _ | .rewind | .ftell | .feof | .fflush => .isTrue trivial

end StdioCall

open StdioCall

/-! ## The calls on the stream -/

namespace Stream

/-- The `while` loop of `fgets`. Whether a byte was read is not looked at. -/
def fgetsLoop : (turns i : Nat) → (Nat → Byte) → Stream → Option ((Nat → Byte) × Stream)
  | 0, _, mem, s => some (mem, s)
  | turns + 1, i, mem, s =>
      match s.readStream 1 with
      | none => none
      | some (bytes, s) =>
          let mem := patch mem i bytes
          if mem i = NEWLINE then some (Function.update mem i 0, s) else fgetsLoop turns (i + 1) mem s

/-- A call. With `n` zero `fgets` does not stop, and a text too long for an `int` has no length. -/
def stdioCall (s : Stream) : StdioCall → Option (StdioResult × Stream)
  | .fgetc c => (s.readStream 1).map fun (bytes, s) => (charRead c bytes, s)
  | .fgets mem n => if n = 0 then none else (fgetsLoop (n - 1) 0 mem s).map fun (mem, s) => (.memory mem, s)
  | .fread size nitems => (s.readStream (size * nitems % 2 ^ 64)).map fun (bytes, s) => (.bytes bytes, s)
  | .fputc c => (s.writeStream [byteOf c]).map fun (n, s) => (.int (if n = 1 then c else EOF), s)
  | .fputs text => if text.length < 2 ^ 31 then (s.writeStream text).map fun (_, s) => (.int 1, s) else none
  | .fwrite bytes => (s.writeStream bytes).map fun (n, s) => (.count n, s)
  | .fseek offset whence =>
      if s.newPosition offset whence < 0 then none
      else some (.int (BitVec.ofInt 32 (s.newPosition offset whence)), s.seekTo (s.newPosition offset whence).toNat)
  | .rewind => some (.done, s.seekTo 0)
  | .ftell => some (.long s.curFileOff, s)
  | .feof => some (.int (if s.curFileOff < s.fileSize then 0 else 1), s)
  | .fflush => some (.int (BitVec.ofInt 32 SUCCESS), s.flush)

end Stream

/-! ## The calls on the plain file -/

namespace Fd

/-- The next line, of at most `turns` bytes, to the memory from `i` on: up to the first newline that is there afterwards, which becomes
    a terminator. At the end of the file that may be one that was there before. -/
def getLine (d : Fd) (turns i : Nat) (mem : Nat → Byte) : (Nat → Byte) × Fd :=
  let line := d.file.read d.cursor turns
  match (List.range' i turns).find? fun k => patch mem i line k = NEWLINE with
  | some k => (Function.update (patch mem i (line.take (k + 1 - i))) k 0, { d with cursor := d.cursor + (line.take (k + 1 - i)).length })
  | none => (patch mem i line, { d with cursor := d.cursor + line.length })

def stdioCall (d : Fd) : StdioCall → Option (StdioResult × Fd)
  | .fgetc c => some (charRead c (d.read 1).1, (d.read 1).2)
  | .fgets mem n => if n = 0 then none else some (.memory (d.getLine (n - 1) 0 mem).1, (d.getLine (n - 1) 0 mem).2)
  | .fread size nitems => some (.bytes (d.read (size * nitems % 2 ^ 64)).1, (d.read (size * nitems % 2 ^ 64)).2)
  | .fputc c => some (.int c, d.write [byteOf c])
  | .fputs text => if text.length < 2 ^ 31 then some (.int 1, d.write text) else none
  | .fwrite bytes => some (.count bytes.length, d.write bytes)
  | .fseek offset whence =>
      if d.newPosition offset whence < 0 then none
      else some (.int (BitVec.ofInt 32 (d.newPosition offset whence)), d.seekSet (d.newPosition offset whence).toNat)
  | .rewind => some (.done, d.seekSet 0)
  | .ftell => some (.long d.cursor, d)
  | .feof => some (.int (if d.cursor < d.file.size then 0 else 1), d)
  | .fflush => some (.int (BitVec.ofInt 32 SUCCESS), d)

/-- The call is one that C allows, and leaves the position inside the file. -/
def Inside (d : Fd) : StdioCall → Prop
  | .fgets _ n => n ≠ 0
  | .fputs text => text.length < 2 ^ 31
  | .fseek offset whence => 0 ≤ d.newPosition offset whence ∧ d.newPosition offset whence ≤ d.file.size
  | _ => True

instance (d : Fd) : (c : StdioCall) → Decidable (d.Inside c)
  | .fgets _ n => inferInstanceAs (Decidable (n ≠ 0))
  | .fputs text => inferInstanceAs (Decidable (text.length < 2 ^ 31))
  | .fseek _ _ => inferInstanceAs (Decidable (_ ∧ _))
  | .fgetc _ | .fread _ _ | .fputc _ | .fwrite _ | .rewind | .ftell | .feof | .fflush => .isTrue trivial

def stdioStep (d : Fd) (c : StdioCall) : Option Fd := (d.stdioCall c).map Prod.snd

end Fd

/-! ## A line, byte by byte -/

/-- The first byte of a line. -/
theorem Fd.getLine_succ (d : Fd) (turns i : Nat) (mem : Nat → Byte) :
    d.getLine (turns + 1) i mem =
      if patch mem i (d.read 1).1 i = NEWLINE then (Function.update (patch mem i (d.read 1).1) i 0, (d.read 1).2)
      else (d.read 1).2.getLine turns (i + 1) (patch mem i (d.read 1).1) := by
  unfold Fd.read Fd.getLine
  dsimp only
  rw [List.range'_succ]
  by_cases hend : d.file.size ≤ d.cursor
  · -- nothing is read any more
    have hempty : ∀ size cursor, d.file.size ≤ cursor → d.file.read cursor size = [] := fun size cursor h => ByteFile.read_of_ge h size
    simp only [hempty _ _ hend, List.length_nil, Nat.add_zero, List.take_nil, patch_nil]
    by_cases hnew : mem i = NEWLINE
    · rw [if_pos hnew, List.find?_cons_of_pos (by simpa using hnew)]
    · rw [if_neg hnew, List.find?_cons_of_neg (by simpa using hnew)]
  · have hone : d.file.read d.cursor 1 = [d.file.cell d.cursor] := by
      rw [ByteFile.read_within (by omega)]
      rfl
    have hline : d.file.read d.cursor (turns + 1) = d.file.cell d.cursor :: d.file.read (d.cursor + 1) turns := by
      rw [Nat.add_comm turns 1, ByteFile.read_add turns (by omega)]
      rfl
    have hpatch : ∀ l : List Byte, patch mem i (d.file.cell d.cursor :: l) = patch (patch mem i [d.file.cell d.cursor]) (i + 1) l := by
      intro l
      exact patch_append mem i [d.file.cell d.cursor] l
    have hat : ∀ l : List Byte, patch (patch mem i [d.file.cell d.cursor]) (i + 1) l i = patch mem i [d.file.cell d.cursor] i :=
      fun l => patch_outside (.inl (Nat.lt_succ_self i))
    rw [hone, hline, hpatch]
    simp only [List.length_singleton]
    by_cases hnew : patch mem i [d.file.cell d.cursor] i = NEWLINE
    · rw [if_pos hnew, List.find?_cons_of_pos (by simpa [hat] using hnew)]
      simp [Nat.add_sub_cancel_left]
    · rw [if_neg hnew, List.find?_cons_of_neg (by simpa [hat] using hnew)]
      cases hfind : (List.range' (i + 1) turns).find? fun k =>
          patch (patch mem i [d.file.cell d.cursor]) (i + 1) (d.file.read (d.cursor + 1) turns) k = NEWLINE with
      | none =>
          dsimp only
          rw [List.length_cons, Nat.add_assoc, Nat.add_comm 1]
      | some k =>
          have hk : i + 1 ≤ k := (List.mem_range'_1.mp (List.mem_of_find?_eq_some hfind)).1
          have htake : k + 1 - i = (k + 1 - (i + 1)) + 1 := by omega
          dsimp only
          rw [htake, List.take_succ_cons, hpatch, List.length_cons, Nat.add_assoc, Nat.add_comm 1]

/-! ## Reading only -/

/-- The stream as if it were open for writing too; reading does not look at that. -/
def Stream.reopened (s : Stream) : Stream := { s with openFlag := O_RDWR }

namespace Stream

theorem flush_reopened (s : Stream) : s.reopened.flush = s.flush.reopened := by
  cases hdirty : s.dirtyFlag <;> simp [flush, reopened, hdirty]

theorem updateCurBufPtr_reopened (s : Stream) (size : Nat) : s.reopened.updateCurBufPtr size = (s.updateCurBufPtr size).reopened := rfl

theorem readLoop_reopened (fuel : Nat) : ∀ (size : Nat) (acc : List Byte) (s : Stream),
    readLoop fuel size acc s.reopened = (readLoop fuel size acc s).map fun (l, s) => (l, s.reopened) := by
  induction fuel with
  | zero => exact fun _ _ _ => rfl
  | succ fuel ih =>
      intro size acc s
      have hfill : s.reopened.flush.fillBuffer = (s.flush.fillBuffer.1, s.flush.fillBuffer.2.reopened) := by
        rw [flush_reopened]
        rfl
      have hmeta : ∀ (t : Stream) n, t.reopened.updateMetaForRebuf false n = (t.updateMetaForRebuf false n).reopened := fun _ _ => rfl
      have hremaining : ∀ t : Stream, t.reopened.remainingBufferDataSize = t.remainingBufferDataSize := fun _ => rfl
      have hcopy : ∀ (t : Stream) n, t.reopened.copyOut n = t.copyOut n := fun _ _ => rfl
      simp only [readLoop, hfill, hmeta, hremaining, hcopy, updateCurBufPtr_reopened]
      split
      · rfl
      · split
        · rfl
        · split
          · rfl
          · exact ih _ _ _

theorem readStream_reopened (s : Stream) (size : Nat) :
    s.reopened.readStream size = (s.readStream size).map fun (l, s) => (l, s.reopened) := by
  have hremaining : s.reopened.remainingBufferDataSize = s.remainingBufferDataSize := rfl
  have hcopy : ∀ n, s.reopened.copyOut n = s.copyOut n := fun _ => rfl
  unfold readStream
  simp only [hremaining, hcopy, updateCurBufPtr_reopened]
  split
  · rfl
  · exact readLoop_reopened _ _ _ _

/-- The buffer has not been written to, and ends where the descriptor stands. -/
structure Ahead (s : Stream) : Prop where
  clean : s.dirtyFlag = false
  cursor : s.fd.cursor = s.bufFileOff + s.bufferedDataSize

theorem Ahead.flush {s : Stream} (h : s.Ahead) : s.flush = s := by
  unfold Stream.flush
  rw [h.clean]
  exact if_neg Bool.false_ne_true

/-- A refill keeps it so: the next buffer begins where this one ended. -/
theorem Ahead.readLoop {fuel size : Nat} {acc out : List Byte} {s s' : Stream} (h : s.Ahead)
    (hr : Stream.readLoop fuel size acc s = some (out, s')) : s'.Ahead ∧ s'.fd.file = s.fd.file := by
  induction fuel generalizing size acc s with
  | zero => cases hr
  | succ fuel ih =>
      simp only [Stream.readLoop] at hr
      split at hr
      · cases hr
        exact ⟨h, rfl⟩
      · rw [h.flush] at hr
        split at hr
        · rename_i hzero
          cases hr
          refine ⟨⟨h.clean, ?_⟩, rfl⟩
          show s.fd.cursor + (s.fd.file.read s.fd.cursor STREAM_BUFFER_SIZE).length = _
          rw [show (s.fd.file.read s.fd.cursor STREAM_BUFFER_SIZE).length = 0 from hzero, Nat.add_zero]
          exact h.cursor
        · split at hr
          · cases hr
          · have hnext : ∀ k, ((s.fillBuffer.2.updateMetaForRebuf false s.fillBuffer.1.length).updateCurBufPtr k).Ahead := by
              intro k
              refine ⟨rfl, ?_⟩
              show s.fd.cursor + s.fillBuffer.1.length = s.bufFileOff + s.bufferedDataSize + s.fillBuffer.1.length
              rw [h.cursor]
            have hkept := ih (hnext _) hr
            exact hkept

theorem Ahead.readStream {size : Nat} {out : List Byte} {s s' : Stream} (h : s.Ahead) (hr : s.readStream size = some (out, s')) :
    s'.Ahead ∧ s'.fd.file = s.fd.file := by
  unfold Stream.readStream at hr
  dsimp only at hr
  split at hr
  · cases hr
  · have hnext : ∀ k, (s.updateCurBufPtr k).Ahead := fun _ => ⟨h.clean, h.cursor⟩
    have hkept := Ahead.readLoop (hnext _) hr
    exact hkept

end Stream

/-- A stream that is only read, and the plain file. -/
structure Reads (s : Stream) (d : Fd) : Prop where
  mirrors : Mirrors s.reopened d
  ahead : s.Ahead
  inside : d.cursor ≤ d.file.size

namespace Reads

variable {s : Stream} {d : Fd}

/-- The file underneath is the plain one. -/
theorem file (h : Reads s d) : d.file = s.fd.file := h.mirrors.clean h.ahead.clean

theorem curFileOff (h : Reads s d) : s.curFileOff = d.cursor := h.mirrors.curFileOff

/-- **`read_stream`** needs no condition. -/
theorem readStream (h : Reads s d) (size : Nat) : ∃ s', s.readStream size = some ((d.read size).1, s') ∧ Reads s' (d.read size).2 := by
  have hsafe : ReadSafe s.reopened size := by
    refine ⟨?_, .inr (.inr (.inr ⟨h.ahead.clean, h.ahead.cursor⟩))⟩
    have hsize : s.fileSize = d.file.size := h.mirrors.size
    have hoff := h.curFileOff
    have hinside := h.inside
    show s.curFileOff ≤ (s.fileSize : Int)
    omega
  obtain ⟨s1, hread, hmirrors⟩ := h.mirrors.readStream hsafe
  rw [Stream.readStream_reopened] at hread
  obtain ⟨⟨out, s'⟩, hread', heq⟩ := Option.map_eq_some_iff.mp hread
  obtain ⟨rfl, rfl⟩ := Prod.mk.inj heq
  refine ⟨s', hread', hmirrors, (h.ahead.readStream hread').1, ?_⟩
  show d.cursor + (d.file.read d.cursor size).length ≤ d.file.size
  rw [ByteFile.length_read]
  have hinside := h.inside
  omega

theorem fgetsLoop (h : Reads s d) (turns i : Nat) (mem : Nat → Byte) :
    ∃ s', Stream.fgetsLoop turns i mem s = some ((d.getLine turns i mem).1, s') ∧ Reads s' (d.getLine turns i mem).2 := by
  induction turns generalizing i mem s d with
  | zero =>
      have hnone : d.getLine 0 i mem = (mem, d) := by
        have hempty : d.file.read d.cursor 0 = [] := List.length_eq_zero_iff.mp (by rw [ByteFile.length_read, Nat.zero_min])
        unfold Fd.getLine
        rw [hempty]
        simp
      rw [hnone]
      exact ⟨s, rfl, h⟩
  | succ turns ih =>
      obtain ⟨s1, hread, h1⟩ := h.readStream 1
      rw [Fd.getLine_succ]
      simp only [Stream.fgetsLoop, hread]
      split
      · exact ⟨s1, rfl, h1⟩
      · exact ih h1 (i + 1) (patch mem i (d.read 1).1)

theorem newPosition (h : Reads s d) (offset : Int) (whence : Stream.Whence) : s.newPosition offset whence = d.newPosition offset whence := by
  cases whence with
  | set => rfl
  | cur =>
      show s.curFileOff + offset = d.cursor + offset
      rw [h.curFileOff]
  | fromEnd =>
      show (s.fd.file.size : Int) + offset = d.file.size + offset
      rw [h.file]

theorem seekTo (h : Reads s d) {newPos : Nat} (hinside : newPos ≤ d.file.size) : Reads (s.seekTo newPos) (d.seekSet newPos) := by
  have hreopened : s.reopened.seekTo newPos = (s.seekTo newPos).reopened := by
    unfold Stream.seekTo
    rw [Stream.flush_reopened]
    show (if newPos > s.bufFileOff + s.bufferedDataSize ∨ newPos < s.bufFileOff then _ else _) = _
    split <;> rfl
  refine ⟨hreopened ▸ h.mirrors.seekTo newPos, ?_, hinside⟩
  unfold Stream.seekTo
  rw [h.ahead.flush]
  split
  · exact ⟨h.ahead.clean, (Nat.add_zero _).symm⟩
  · exact ⟨h.ahead.clean, h.ahead.cursor⟩

/-- **Each call** that reads. -/
theorem call (h : Reads s d) {c : StdioCall} (hreads : c.Reads) (hinside : d.Inside c) :
    ∃ r s' d', s.stdioCall c = some (r, s') ∧ d.stdioCall c = some (r, d') ∧ Reads s' d' := by
  have hoff := h.curFileOff
  have hsize : s.fileSize = d.file.size := h.mirrors.size
  cases c with
  | fgetc c =>
      obtain ⟨s', hread, h'⟩ := h.readStream 1
      exact ⟨_, s', _, by simp only [Stream.stdioCall, hread, Option.map_some], rfl, h'⟩
  | fgets mem n =>
      obtain ⟨s', hloop, h'⟩ := h.fgetsLoop (n - 1) 0 mem
      have hn : n ≠ 0 := hinside
      refine ⟨_, s', _, ?_, if_neg hn, h'⟩
      simp only [Stream.stdioCall, if_neg hn, hloop, Option.map_some]
  | fread size nitems =>
      obtain ⟨s', hread, h'⟩ := h.readStream (size * nitems % 2 ^ 64)
      exact ⟨_, s', _, by simp only [Stream.stdioCall, hread, Option.map_some], rfl, h'⟩
  | fseek offset whence =>
      obtain ⟨hpos, hend⟩ := hinside
      have hnot : ¬ d.newPosition offset whence < 0 := not_lt.mpr hpos
      have hto : (d.newPosition offset whence).toNat ≤ d.file.size := by omega
      refine ⟨.int (BitVec.ofInt 32 (d.newPosition offset whence)), _, _, ?_, if_neg hnot, h.seekTo hto⟩
      simp only [Stream.stdioCall, h.newPosition, if_neg hnot]
  | rewind => exact ⟨.done, _, _, rfl, rfl, h.seekTo (Nat.zero_le _)⟩
  | ftell =>
      refine ⟨.long d.cursor, s, d, ?_, rfl, h⟩
      simp only [Stream.stdioCall, hoff]
  | feof =>
      refine ⟨.int (if d.cursor < d.file.size then 0 else 1), s, d, ?_, rfl, h⟩
      simp only [Stream.stdioCall, hoff, hsize, Int.ofNat_lt]
  | fflush =>
      refine ⟨.int (BitVec.ofInt 32 SUCCESS), s, d, ?_, rfl, h⟩
      simp only [Stream.stdioCall, h.ahead.flush]
  | fputc _ => exact hreads.elim
  | fputs _ => exact hreads.elim
  | fwrite _ => exact hreads.elim

theorem opened (file : ByteFile Byte) (openFlag : BitVec 32) (memory : Nat → Byte) :
    Reads (Stream.opened file openFlag memory) ⟨file, 0⟩ where
  mirrors := @Mirrors.opened file O_RDWR memory (by decide)
  ahead := ⟨rfl, rfl⟩
  inside := Nat.zero_le _

end Reads

namespace Stream

/-- The pointer is inside the buffered bytes. -/
def Held (s : Stream) : Prop := s.curBufOff ≤ s.bufferedDataSize

theorem held_writeMetaUpdate (s : Stream) (size : Nat) : (s.writeMetaUpdate size).Held := by
  show s.curBufOff + (size : Int) ≤ ((if s.curBufOff + (size : Int) > s.bufferedDataSize then (s.curBufOff + (size : Int)).toNat
    else s.bufferedDataSize : Nat) : Int)
  split <;> omega

theorem Held.writeLoop {fuel : Nat} {bytes : List Byte} {s s' : Stream} (h : s.Held) (hr : Stream.writeLoop fuel bytes s = some s') :
    s'.Held := by
  induction fuel generalizing bytes s with
  | zero => cases hr
  | succ fuel ih =>
      simp only [Stream.writeLoop] at hr
      split at hr
      · cases hr
        exact h
      · split at hr
        · cases hr
        · exact ih (held_writeMetaUpdate _ _) hr

/-- After a write the pointer is where the buffered bytes end, or before. -/
theorem held_writeStream {bytes : List Byte} {n : Nat} {s s' : Stream} (hw : s.Writable) (hr : s.writeStream bytes = some (n, s')) :
    s'.Held := by
  unfold Stream.writeStream at hr
  rw [if_neg fun hc => hw.elim (absurd hc.1) (absurd hc.2)] at hr
  dsimp only at hr
  split at hr
  · cases hr
  · obtain ⟨t, ht, heq⟩ := Option.map_eq_some_iff.mp hr
    obtain ⟨-, rfl⟩ := Prod.mk.inj heq
    have hheld : ∀ (t : Stream) size, Stream.Held { t.writeMetaUpdate size with dirtyFlag := true } := held_writeMetaUpdate
    exact Held.writeLoop (hheld _ _) ht

end Stream

/-- A stream that is only written, and the plain file. -/
structure Writes (s : Stream) (d : Fd) : Prop where
  mirrors : Mirrors s d
  held : s.Held ∨ s.curFileOff ≤ s.fd.file.size
  inside : d.cursor ≤ d.file.size

namespace Writes

variable {s : Stream} {d : Fd}

/-- **`write_stream`** needs no condition. -/
theorem writeStream (h : Writes s d) (bytes : List Byte) :
    ∃ s', s.writeStream bytes = some (bytes.length, s') ∧ Writes s' (d.write bytes) := by
  have hsafe : WriteSafe s bytes := by
    refine ⟨h.held, fun _ => ?_⟩
    have hsize := h.mirrors.size
    have hoff := h.mirrors.curFileOff
    have hinside := h.inside
    omega
  obtain ⟨s', hwrite, hmirrors, -⟩ := h.mirrors.writeStream hsafe
  refine ⟨s', hwrite, hmirrors, .inl (Stream.held_writeStream h.mirrors.writable hwrite), ?_⟩
  by_cases hnil : bytes = []
  · rw [hnil, Fd.write_nil]
    exact h.inside
  · show d.cursor + bytes.length ≤ (d.file.write d.cursor bytes).size
    rw [ByteFile.size_write _ _ hnil]
    exact Nat.le_max_right _ _

theorem seekTo (h : Writes s d) {newPos : Nat} (hinside : newPos ≤ d.file.size) : Writes (s.seekTo newPos) (d.seekSet newPos) := by
  have hmirrors := h.mirrors.seekTo newPos
  refine ⟨hmirrors, ?_, hinside⟩
  have hoff : (s.seekTo newPos).curFileOff = newPos := hmirrors.curFileOff
  rw [hoff]
  obtain ⟨hflushed, -, -⟩ := h.mirrors.toBuffered.flush
  unfold Stream.seekTo Stream.Held
  split
  · -- the buffer was flushed: the position is inside the file underneath
    right
    show (newPos : Int) ≤ s.flush.fd.file.size
    rw [hflushed.file]
    omega
  · rename_i hin
    left
    show (newPos : Int) - s.curFileOff + s.curBufOff ≤ s.bufferedDataSize
    unfold Stream.curFileOff
    omega

theorem flush (h : Writes s d) : Writes s.flush d := by
  obtain ⟨hflushed, -, -⟩ := h.mirrors.toBuffered.flush
  refine ⟨h.mirrors.flush, .inr ?_, h.inside⟩
  have hinside := h.inside
  rw [h.mirrors.flush.curFileOff, hflushed.file]
  omega

/-- **Each call** that writes. -/
theorem call (h : Writes s d) {c : StdioCall} (hwrites : c.Writes) (hinside : d.Inside c) :
    ∃ r s' d', s.stdioCall c = some (r, s') ∧ d.stdioCall c = some (r, d') ∧ Writes s' d' := by
  have hoff := h.mirrors.curFileOff
  have hsize := h.mirrors.size
  have hseek : ∀ offset whence, s.newPosition offset whence = d.newPosition offset whence → d.Inside (.fseek offset whence) →
      ∃ r s' d', s.stdioCall (.fseek offset whence) = some (r, s') ∧
        d.stdioCall (.fseek offset whence) = some (r, d') ∧ Writes s' d' := by
    rintro offset whence hsame ⟨hpos, hend⟩
    have hnot : ¬ d.newPosition offset whence < 0 := not_lt.mpr hpos
    have hto : (d.newPosition offset whence).toNat ≤ d.file.size := by omega
    refine ⟨.int (BitVec.ofInt 32 (d.newPosition offset whence)), _, _, ?_, if_neg hnot, h.seekTo hto⟩
    simp only [Stream.stdioCall, hsame, if_neg hnot]
  cases c with
  | fputc c =>
      obtain ⟨s', hwrite, h'⟩ := h.writeStream [byteOf c]
      refine ⟨.int c, s', _, ?_, rfl, h'⟩
      simp only [Stream.stdioCall, hwrite, Option.map_some, List.length_singleton, if_true]
  | fputs text =>
      obtain ⟨s', hwrite, h'⟩ := h.writeStream text
      have hlength : text.length < 2 ^ 31 := hinside
      refine ⟨.int 1, s', _, ?_, if_pos hlength, h'⟩
      simp only [Stream.stdioCall, if_pos hlength, hwrite, Option.map_some]
  | fwrite bytes =>
      obtain ⟨s', hwrite, h'⟩ := h.writeStream bytes
      exact ⟨.count bytes.length, s', _, by simp only [Stream.stdioCall, hwrite, Option.map_some], rfl, h'⟩
  | fseek offset whence =>
      cases whence with
      | set => exact hseek offset .set rfl hinside
      | cur =>
          refine hseek offset .cur ?_ hinside
          show s.curFileOff + offset = d.cursor + offset
          rw [hoff]
      | fromEnd => exact hwrites.elim
  | rewind => exact ⟨.done, _, _, rfl, rfl, h.seekTo (Nat.zero_le _)⟩
  | ftell =>
      refine ⟨.long d.cursor, s, d, ?_, rfl, h⟩
      simp only [Stream.stdioCall, hoff]
  | feof =>
      refine ⟨.int (if d.cursor < d.file.size then 0 else 1), s, d, ?_, rfl, h⟩
      simp only [Stream.stdioCall, hoff, hsize, Int.ofNat_lt]
  | fflush => exact ⟨.int (BitVec.ofInt 32 SUCCESS), _, _, rfl, rfl, h.flush⟩
  | fgetc _ => exact hwrites.elim
  | fgets _ _ => exact hwrites.elim
  | fread _ _ => exact hwrites.elim

theorem opened (file : ByteFile Byte) {openFlag : BitVec 32} (hflag : openFlag &&& O_WRONLY ≠ 0 ∨ openFlag &&& O_RDWR ≠ 0)
    (memory : Nat → Byte) : Writes (Stream.opened file openFlag memory) ⟨file, 0⟩ where
  mirrors := Mirrors.opened file memory hflag
  held := .inl (Int.le_refl _)
  inside := Nat.zero_le _

end Writes

/-- **A program that only writes a stream writes the file**: each call returns what it would with the plain file, and when the stream is
    flushed, as `fclose` does, the file underneath is what the plain file is. -/
theorem write_only_stream_exact (file : ByteFile Byte) {openFlag : BitVec 32}
    (hflag : openFlag &&& O_WRONLY ≠ 0 ∨ openFlag &&& O_RDWR ≠ 0) (memory : Nat → Byte) {calls : List StdioCall}
    (hwrites : ∀ c ∈ calls, c.Writes) (hinside : Run.Guarded Fd.stdioStep Fd.Inside ⟨file, 0⟩ calls) :
    ∃ results s d, Run.answers Stream.stdioCall (Stream.opened file openFlag memory) calls = some (results, s) ∧
      Run.answers Fd.stdioCall ⟨file, 0⟩ calls = some (results, d) ∧ s.flush.fd.file = d.file := by
  have hcall : ∀ s d c, Writes s d → c.Writes → d.Inside c →
      ∃ r s' d', s.stdioCall c = some (r, s') ∧ d.stdioCall c = some (r, d') ∧ Writes s' d' :=
    fun _ _ _ h hc hg => h.call hc hg
  obtain ⟨results, s, d, hs, hd, hrel⟩ := Run.answers_simulation hcall (Writes.opened file hflag memory) hwrites hinside
  obtain ⟨hflushed, -, -⟩ := hrel.mirrors.toBuffered.flush
  exact ⟨results, s, d, hs, hd, hflushed.file⟩

/-- A line over an older file, and its first byte once more. -/
theorem write_only_stream_exact_overwritten :
    ∃ results s d, Run.answers Stream.stdioCall (Stream.opened sixBytes O_WRONLY (fun _ => 7))
        [.fputs [72, 105], .fseek 2 .cur, .fputc 10#32, .fflush, .rewind, .fwrite [104], .ftell] = some (results, s) ∧
      Run.answers Fd.stdioCall ⟨sixBytes, 0⟩ [.fputs [72, 105], .fseek 2 .cur, .fputc 10#32, .fflush, .rewind, .fwrite [104], .ftell] =
        some (results, d) ∧ s.flush.fd.file = d.file :=
  write_only_stream_exact sixBytes (.inl (by decide)) _ (by decide) (by decide)

end HuronFS
