import HuronFS.Client.Stream

/-!
# `Client.StreamRefine` — when the buffered stream is the plain file

`Buffered s d` says that the stream `s` stands for the plain file `d`: the buffered bytes, written over the
file underneath, give the file of `d`, and the buffer pointer its position. `Mirrors` adds where the hidden
cursor of the descriptor is. Every operation keeps it, under a condition that leaves out what the source
gets wrong: a refill after a flush, which leaves the cursor one buffer too far; a refill of a buffer that
is not full, after which the pointer is not reset; a read beyond the end, which moves the position; a
write into a hole, whose bytes are whatever the buffer held; and a `SEEK_END` while the file has grown in
the buffer only.
-/

namespace HuronFS

open Region

/-- The stream stands for the plain file. -/
structure Buffered (s : Stream) (d : Fd) : Prop where
  data_le : s.bufferedDataSize ≤ STREAM_BUFFER_SIZE
  pointer : ∃ c : Nat, s.curBufOff = c ∧ c ≤ STREAM_BUFFER_SIZE ∧ s.bufFileOff + c = d.cursor ∧
    (s.bufferedDataSize < c → s.bufferedDataSize = 0 ∧ c < STREAM_BUFFER_SIZE)
  size : s.fileSize = d.file.size
  content : d.file = s.fd.file.write s.bufFileOff (slice s.buf 0 s.bufferedDataSize)
  clean : s.dirtyFlag = false → d.file = s.fd.file
  writable : s.Writable

/-- Besides, the descriptor's cursor is where a refill of a full buffer needs it, or one buffer further. -/
structure Mirrors (s : Stream) (d : Fd) : Prop extends Buffered s d where
  empty : s.bufferedDataSize = 0 → s.fd.cursor = s.bufFileOff
  cursor : s.dirtyFlag = false → 0 < s.bufferedDataSize →
    s.fd.cursor = s.bufFileOff + s.bufferedDataSize ∨ s.fd.cursor = s.bufFileOff + 2 * s.bufferedDataSize
  full : s.dirtyFlag = false → 0 < s.bufferedDataSize → s.fd.cursor = s.bufFileOff + s.bufferedDataSize →
    s.bufferedDataSize = min STREAM_BUFFER_SIZE (s.fd.file.size - s.bufFileOff)

namespace Buffered

variable {s : Stream} {d : Fd}

/-- The buffered bytes are inside the file. -/
theorem within (h : Buffered s d) (hpos : 0 < s.bufferedDataSize) : s.bufFileOff + s.bufferedDataSize ≤ d.file.size := by
  have hsize := ByteFile.size_write_slice s.fd.file s.bufFileOff s.buf s.bufferedDataSize
  rw [← h.content, if_neg (by omega)] at hsize
  omega

theorem under_le (h : Buffered s d) : s.fd.file.size ≤ d.file.size := by
  rw [h.content]
  exact ByteFile.size_le_write _ _ _

/-- The buffered bytes are the file's. -/
theorem cell (h : Buffered s d) {i : Nat} (hi : i < s.bufferedDataSize) : s.buf i = d.file.cell (s.bufFileOff + i) := by
  rw [h.content, ByteFile.cell_write_slice, if_pos hi]

/-- Bytes that the buffer has, from the pointer on. -/
theorem slice_eq (h : Buffered s d) {c k : Nat} (hk : c + k ≤ s.bufferedDataSize) :
    slice s.buf c k = slice d.file.cell (s.bufFileOff + c) k := by
  apply slice_congr
  intro i hi
  rw [h.cell (by omega), Nat.add_assoc]

end Buffered

theorem mirrors_of_dirty {s : Stream} {d : Fd} (h : Buffered s d) (hdirty : s.dirtyFlag = true)
    (hpos : 0 < s.bufferedDataSize) : Mirrors s d := by
  refine ⟨h, ?_, ?_, ?_⟩
  · intro h0; omega
  · intro hc; rw [hdirty] at hc; cases hc
  · intro hc; rw [hdirty] at hc; cases hc

/-! ## Flush -/

/-- What a flush leaves: the file underneath is the plain one. -/
structure Flushed (s s' : Stream) (d : Fd) : Prop where
  dirty : s'.dirtyFlag = false
  file : s'.fd.file = d.file
  buf : s'.buf = s.buf
  cur : s'.curBufOff = s.curBufOff
  data : s'.bufferedDataSize = s.bufferedDataSize
  size : s'.fileSize = s.fileSize
  off : s'.bufFileOff = s.bufFileOff
  flag : s'.openFlag = s.openFlag

theorem Flushed.writable {s s' : Stream} {d : Fd} (h : Flushed s s' d) (hw : s.Writable) : s'.Writable := by
  unfold Stream.Writable
  rw [h.flag]
  exact hw

theorem Buffered.flush {s : Stream} {d : Fd} (h : Buffered s d) : Flushed s s.flush d ∧
    (s.dirtyFlag = true → s.flush.fd.cursor = s.bufFileOff + 2 * s.bufferedDataSize) ∧
    (s.dirtyFlag = false → s.flush = s) := by
  cases hd : s.dirtyFlag with
  | false =>
      have heq : s.flush = s := by
        unfold Stream.flush
        simp [hd]
      rw [heq]
      exact ⟨⟨hd, (h.clean hd).symm, rfl, rfl, rfl, rfl, rfl, rfl⟩, by simp, by simp⟩
  | true =>
      have heq : s.flush = { s with
          dirtyFlag := false
          fd := (((s.fd.updateFileSize s.fileSize).seekSet s.bufFileOff).write
            (slice s.buf 0 s.bufferedDataSize)).seekCur s.bufferedDataSize } := by
        unfold Stream.flush
        simp [hd]
      rw [heq]
      refine ⟨⟨rfl, ?_, rfl, rfl, rfl, rfl, rfl, rfl⟩, ?_, by simp⟩
      · -- the file underneath first grows to the size of the plain one
        show (s.fd.file.grow s.fileSize).write s.bufFileOff (slice s.buf 0 s.bufferedDataSize) = d.file
        rw [h.size, h.content, ByteFile.grow_write]
      · intro _
        show s.bufFileOff + (slice s.buf 0 s.bufferedDataSize).length + s.bufferedDataSize = _
        rw [length_slice]
        omega

theorem Mirrors.flush {s : Stream} {d : Fd} (h : Mirrors s d) : Mirrors s.flush d := by
  obtain ⟨hf, hcur, hsame⟩ := h.toBuffered.flush
  cases hd : s.dirtyFlag with
  | false =>
      rw [hsame hd]
      exact h
  | true =>
      obtain ⟨c, hc⟩ := h.pointer
      have hb : Buffered s.flush d := by
        refine ⟨by rw [hf.data]; exact h.data_le, ⟨c, ?_⟩, by rw [hf.size]; exact h.size, ?_,
          fun _ => hf.file.symm, hf.writable h.writable⟩
        · rw [hf.cur, hf.off, hf.data]
          exact hc
        · rw [hf.file, hf.buf, hf.off, hf.data]
          by_cases h0 : s.bufferedDataSize = 0
          · rw [h0, slice_zero, ByteFile.write_nil]
          · symm
            apply ByteFile.write_slice_self
            · exact h.within (by omega)
            · intro i hi
              exact h.cell hi
      refine ⟨hb, ?_, ?_, ?_⟩
      · intro h0
        rw [hf.data] at h0
        rw [hcur hd, hf.off, h0]
        omega
      · intro _ _
        right
        rw [hcur hd, hf.off, hf.data]
      · intro _ hpos hc'
        rw [hf.data] at hpos
        rw [hcur hd, hf.off, hf.data] at hc'
        omega

/-! ## Read -/

/-- The position moves on, inside the file. -/
theorem Stream.updateCurBufPtr_eq {s : Stream} {d : Fd} (h : Buffered s d) {c k : Nat} (hc : s.curBufOff = c)
    (hk : s.bufFileOff + c + k ≤ d.file.size) : s.updateCurBufPtr k = { s with curBufOff := (c + k : Nat) } := by
  have hle := h.under_le
  have hsize := h.size
  have hsz : ¬ (s.fileSize < s.fd.file.size) := by omega
  have hpos : ¬ ((s.fileSize : Int) < k + s.curFileOff) := by
    unfold Stream.curFileOff
    omega
  unfold Stream.updateCurBufPtr
  simp only [if_neg hsz, if_neg hpos, hc]
  rfl

/-- **Bytes taken from the buffer** are the file's, and the stream moves with the file. -/
theorem Mirrors.take {s : Stream} {d : Fd} (h : Mirrors s d) {c k : Nat} (hc : s.curBufOff = c)
    (hk : k = 0 ∨ c + k ≤ s.bufferedDataSize) (hend : s.bufFileOff + c + k ≤ d.file.size) :
    s.copyOut k = some (slice d.file.cell d.cursor k) ∧
    Mirrors (s.updateCurBufPtr k) { d with cursor := d.cursor + k } ∧
    s.updateCurBufPtr k = { s with curBufOff := (c + k : Nat) } := by
  obtain ⟨c', hc', hcB, hpos, hempty⟩ := h.pointer
  obtain rfl : c = c' := by
    rw [hc] at hc'
    exact_mod_cast hc'
  have heq := Stream.updateCurBufPtr_eq h.toBuffered hc hend
  have hdata := h.data_le
  refine ⟨?_, ?_, heq⟩
  · unfold Stream.copyOut
    by_cases h0 : k = 0
    · rw [if_pos h0, h0, slice_zero]
    · have hle : c + k ≤ s.bufferedDataSize := hk.resolve_left h0
      have hin : (0 : Int) ≤ s.curBufOff ∧ s.curBufOff + k ≤ (STREAM_BUFFER_SIZE : Nat) := by
        rw [hc]
        omega
      rw [if_neg h0, if_pos hin, hc, Int.toNat_natCast, h.slice_eq hle, hpos]
  · rw [heq]
    refine ⟨⟨hdata, ⟨c + k, rfl, ?_, ?_, ?_⟩, h.size, h.content, h.clean, h.writable⟩, h.empty, h.cursor, h.full⟩
    · rcases hk with hk | hk
      · omega
      · omega
    · show s.bufFileOff + (c + k) = d.cursor + k
      omega
    · intro hlt
      have hlt' : s.bufferedDataSize < c + k := hlt
      rcases hk with hk | hk
      · have := hempty (by omega)
        exact ⟨this.1, by omega⟩
      · omega

/-- A buffer that can be refilled: the file underneath is the plain one, the cursor stands right after the
    buffered bytes, and the pointer is at the end of a full buffer or the buffer is empty. -/
structure Refillable (s : Stream) (d : Fd) : Prop where
  dirty : s.dirtyFlag = false
  cursor : s.fd.cursor = s.bufFileOff + s.bufferedDataSize
  full : (s.bufferedDataSize = STREAM_BUFFER_SIZE ∧ s.curBufOff = (STREAM_BUFFER_SIZE : Nat)) ∨
    (s.bufferedDataSize = 0 ∧ d.cursor ≤ d.file.size)

/-- What a refill leaves: a clean buffer of `n` bytes, filled from the cursor on, that reaches the position. -/
structure Refilled (s : Stream) (d : Fd) (n : Nat) : Prop extends Mirrors s d where
  dirty : s.dirtyFlag = false
  data : s.bufferedDataSize = n
  after : s.fd.cursor = s.bufFileOff + n
  reach : ∃ c : Nat, s.curBufOff = c ∧ c ≤ n

/-- **A refill.** Either the file has ended and nothing changes, or the stream stands for the same file
    with a buffer filled anew. -/
theorem Mirrors.refill {s : Stream} {d : Fd} (h : Mirrors s d) (hr : Refillable s d) {bytes : List Byte} {s1 : Stream}
    (hfill : s.fillBuffer = (bytes, s1)) :
    (bytes.length = 0 ∧ d.file.size ≤ d.cursor ∧ s1 = s) ∨
    (0 < bytes.length ∧ s.fd.cursor + bytes.length ≤ d.file.size ∧
      (s1.updateMetaForRebuf false bytes.length).bufFileOff = s.fd.cursor ∧
      Refilled (s1.updateMetaForRebuf false bytes.length) d bytes.length) := by
  have hF : s.fd.file = d.file := (h.clean hr.dirty).symm
  obtain ⟨c, hc, hcB, hpos, hempty⟩ := h.pointer
  have hsize := h.size
  have hbytes : bytes = d.file.read s.fd.cursor STREAM_BUFFER_SIZE := by
    rw [← hF]
    exact (congrArg Prod.fst hfill).symm
  have hs1 : s1 = { s with
      fd := { s.fd with cursor := s.fd.cursor + bytes.length }
      buf := patch s.buf 0 bytes } := by
    rw [hbytes, ← hF]
    exact (congrArg Prod.snd hfill).symm
  have hlen : bytes.length = min STREAM_BUFFER_SIZE (d.file.size - s.fd.cursor) := by
    rw [hbytes, ByteFile.length_read]
  have hcur := hr.cursor
  have hB : 0 < STREAM_BUFFER_SIZE := by decide
  by_cases h0 : bytes.length = 0
  · left
    refine ⟨h0, ?_, ?_⟩
    · rcases hr.full with ⟨hd, hp⟩ | ⟨hd, _⟩
      · omega
      · omega
    · have hnil : bytes = [] := List.eq_nil_of_length_eq_zero h0
      rw [hs1, hnil, patch_nil]
      rfl
  · right
    have hin : s.fd.cursor + bytes.length ≤ d.file.size := by omega
    -- where the pointer ends up
    have hptr : ∃ c' : Nat, (if s.curBufOff ≥ (STREAM_BUFFER_SIZE : Nat) then 0 else s.curBufOff) = (c' : Int) ∧
        c' ≤ bytes.length ∧ s.fd.cursor + c' = d.cursor := by
      rcases hr.full with ⟨hd, hp⟩ | ⟨hd, hle⟩
      · refine ⟨0, ?_, by omega, by omega⟩
        rw [if_pos (by rw [hp])]
        rfl
      · have hlt : c < STREAM_BUFFER_SIZE := by
          by_cases hcz : c = 0
          · omega
          · exact (hempty (by omega)).2
        refine ⟨c, ?_, by omega, by omega⟩
        rw [if_neg (by rw [hc]; omega), hc]
    obtain ⟨c', hc', hle, hpos'⟩ := hptr
    have ht : s1.updateMetaForRebuf false bytes.length = { s with
        fd := { s.fd with cursor := s.fd.cursor + bytes.length }
        buf := patch s.buf 0 bytes
        bufFileOff := s.fd.cursor
        dirtyFlag := false
        bufferedDataSize := bytes.length
        curBufOff := c' } := by
      rw [hs1]
      unfold Stream.updateMetaForRebuf
      have hns : ¬ (s.bufFileOff + s.bufferedDataSize + bytes.length > s.fileSize) := by omega
      simp only [if_neg hns, hc', hcur]
    rw [ht]
    have hcontent : d.file = s.fd.file.write s.fd.cursor (slice (patch s.buf 0 bytes) 0 bytes.length) := by
      rw [slice_patch, hbytes, ByteFile.read, hF]
      have hslice : slice d.file.cell s.fd.cursor (min STREAM_BUFFER_SIZE (d.file.size - s.fd.cursor))
          = slice (fun i => d.file.cell (s.fd.cursor + i)) 0 (min STREAM_BUFFER_SIZE (d.file.size - s.fd.cursor)) := by
        apply slice_congr
        intro i _
        rw [Nat.zero_add]
      rw [hslice, ByteFile.write_slice_self (by omega) (fun i _ => rfl)]
    have hbuf : Buffered { s with
        fd := { s.fd with cursor := s.fd.cursor + bytes.length }
        buf := patch s.buf 0 bytes
        bufFileOff := s.fd.cursor
        dirtyFlag := false
        bufferedDataSize := bytes.length
        curBufOff := c' } d := by
      refine ⟨by show bytes.length ≤ _; omega, ⟨c', rfl, by omega, hpos', ?_⟩, hsize, hcontent, fun _ => hF.symm, h.writable⟩
      intro hlt
      have hlt' : bytes.length < c' := hlt
      omega
    refine ⟨by omega, hin, rfl, ⟨⟨hbuf, ?_, ?_, ?_⟩, rfl, rfl, rfl, ⟨c', rfl, hle⟩⟩⟩
    · intro hz
      exact absurd hz h0
    · intro _ _
      exact Or.inl rfl
    · intro _ _ _
      show bytes.length = min STREAM_BUFFER_SIZE (s.fd.file.size - s.fd.cursor)
      rw [hF]
      exact hlen

/-- The position is at the end of the file, and so is the buffer. -/
def AtEnd (s : Stream) (d : Fd) : Prop :=
  0 < s.bufferedDataSize ∧ s.bufFileOff + s.bufferedDataSize = d.file.size ∧ d.cursor = d.file.size

/-- At the end a refill finds nothing, wherever a flush has left the cursor. -/
theorem Mirrors.fill_at_end {s : Stream} {d : Fd} (h : Mirrors s d) (he : AtEnd s d) :
    s.flush.fillBuffer = ([], s.flush) := by
  obtain ⟨hpos, hend, _⟩ := he
  obtain ⟨hf, hcur, hsame⟩ := h.toBuffered.flush
  have hcursor : d.file.size ≤ s.flush.fd.cursor := by
    cases hd : s.dirtyFlag with
    | true =>
        rw [hcur hd]
        omega
    | false =>
        rw [hsame hd]
        rcases h.cursor hd hpos with hc | hc
        · omega
        · omega
  have hnil : s.flush.fd.file.read s.flush.fd.cursor STREAM_BUFFER_SIZE = [] := by
    rw [hf.file]
    exact ByteFile.read_of_ge hcursor _
  unfold Stream.fillBuffer Fd.read
  simp only [hnil, patch_nil]
  rfl

theorem Stream.remaining_eq {s : Stream} {c : Nat} (hc : s.curBufOff = c) (hle : c ≤ s.bufferedDataSize) :
    s.remainingBufferDataSize = s.bufferedDataSize - c := by
  unfold Stream.remainingBufferDataSize
  rw [hc, if_neg (by omega)]
  omega

/-- **The loop of `read_stream`** delivers what the plain file has, and stops where it ends. -/
theorem Mirrors.readLoop (fuel : Nat) : ∀ {s : Stream} {d : Fd} (unbuffered : Nat) (acc : List Byte), Mirrors s d →
    (unbuffered = 0 ∧ 1 ≤ fuel) ∨ (AtEnd s d ∧ 1 ≤ fuel) ∨
      (Refillable s.flush d ∧ d.file.size - s.flush.fd.cursor + 2 ≤ fuel) →
    ∃ s', Stream.readLoop fuel unbuffered acc s = some (acc ++ d.file.read d.cursor unbuffered, s') ∧
      Mirrors s' { d with cursor := d.cursor + (d.file.read d.cursor unbuffered).length } := by
  induction fuel with
  | zero =>
      intro s d unbuffered acc _ hcase
      rcases hcase with ⟨_, hc⟩ | ⟨_, hc⟩ | ⟨_, hc⟩
      · omega
      · omega
      · omega
  | succ fuel ih =>
      intro s d unbuffered acc h hcase
      by_cases h0 : unbuffered = 0
      · have hnil : d.file.read d.cursor unbuffered = [] := by
          rw [h0]
          unfold ByteFile.read
          rw [Nat.zero_min, slice_zero]
        refine ⟨s, ?_, ?_⟩
        · rw [hnil, List.append_nil]
          unfold Stream.readLoop
          rw [if_pos h0]
        · rw [hnil]
          exact h
      · have hcase' := hcase.resolve_left (fun hc => h0 hc.1)
        rcases hcase' with ⟨hend, _⟩ | ⟨href, hfuel⟩
        · -- nothing is left
          have hnil : d.file.read d.cursor unbuffered = [] := ByteFile.read_of_ge (by rw [hend.2.2]) _
          refine ⟨s.flush, ?_, ?_⟩
          · rw [hnil, List.append_nil]
            unfold Stream.readLoop
            rw [if_neg h0, h.fill_at_end hend]
            rfl
          · rw [hnil]
            exact h.flush
        · cases hfill : s.flush.fillBuffer with
          | mk bytes s1 =>
              rcases h.flush.refill href hfill with ⟨hlen, hend, rfl⟩ | ⟨hlen, hin, hoff, ht⟩
              · have hnil : d.file.read d.cursor unbuffered = [] := ByteFile.read_of_ge hend _
                refine ⟨s.flush, ?_, ?_⟩
                · rw [hnil, List.append_nil]
                  unfold Stream.readLoop
                  rw [if_neg h0, hfill]
                  simp only [if_pos hlen]
                · rw [hnil]
                  exact h.flush
              · -- deliver from the new buffer, and go on
                obtain ⟨c, hc, hcle⟩ := ht.reach
                have hrem := Stream.remaining_eq hc (by rw [ht.data]; exact hcle)
                rw [ht.data] at hrem
                generalize hT : s1.updateMetaForRebuf false bytes.length = t at hc hrem ht hoff
                have hwithin := ht.within (by rw [ht.data]; exact hlen)
                have hdata := ht.data
                have hio : c + min unbuffered (bytes.length - c) ≤ t.bufferedDataSize := by omega
                obtain ⟨hcopy, hmir, hupd⟩ := ht.toMirrors.take hc (Or.inr hio) (by omega)
                obtain ⟨c', hc', _, hpos, _⟩ := ht.pointer
                have hcc : c = c' := by
                  rw [hc] at hc'
                  exact_mod_cast hc'
                have hread : d.file.read d.cursor unbuffered
                    = slice d.file.cell d.cursor (min unbuffered (bytes.length - c))
                      ++ d.file.read (d.cursor + min unbuffered (bytes.length - c))
                        (unbuffered - min unbuffered (bytes.length - c)) := by
                  rw [← ByteFile.read_add _ (by omega)]
                  congr 1
                  omega
                have hnext : (unbuffered - min unbuffered (bytes.length - c) = 0 ∧ 1 ≤ fuel) ∨
                    (AtEnd (t.updateCurBufPtr (min unbuffered (bytes.length - c)))
                      { d with cursor := d.cursor + min unbuffered (bytes.length - c) } ∧ 1 ≤ fuel) ∨
                    (Refillable (t.updateCurBufPtr (min unbuffered (bytes.length - c))).flush
                      { d with cursor := d.cursor + min unbuffered (bytes.length - c) } ∧
                      d.file.size - (t.updateCurBufPtr (min unbuffered (bytes.length - c))).flush.fd.cursor + 2 ≤ fuel) := by
                  by_cases hdone : unbuffered ≤ bytes.length - c
                  · left
                    omega
                  · right
                    have hfull := ht.full ht.dirty (by omega) (by rw [ht.after, hdata])
                    have hclean := ht.clean ht.dirty
                    rw [← hclean] at hfull
                    by_cases hB : bytes.length = STREAM_BUFFER_SIZE
                    · right
                      have hsame : (t.updateCurBufPtr (min unbuffered (bytes.length - c))).flush
                          = { t with curBufOff := (c + min unbuffered (bytes.length - c) : Nat) } := by
                        rw [hupd]
                        unfold Stream.flush
                        simp [ht.dirty]
                      rw [hsame]
                      refine ⟨⟨ht.dirty, by rw [ht.after, ← hdata], Or.inl ⟨by rw [← hB]; exact hdata, ?_⟩⟩, ?_⟩
                      · show ((c + min unbuffered (bytes.length - c) : Nat) : Int) = _
                        rw [← hB]
                        omega
                      · show d.file.size - t.fd.cursor + 2 ≤ fuel
                        rw [ht.after]
                        omega
                    · left
                      rw [hupd]
                      refine ⟨⟨by rw [← hdata] at hlen; exact hlen, ?_, ?_⟩, by omega⟩
                      · show t.bufFileOff + t.bufferedDataSize = d.file.size
                        omega
                      · show d.cursor + min unbuffered (bytes.length - c) = d.file.size
                        omega
                obtain ⟨s', hloop, hmir'⟩ := ih (unbuffered - min unbuffered (bytes.length - c))
                  (acc ++ slice d.file.cell d.cursor (min unbuffered (bytes.length - c))) hmir hnext
                refine ⟨s', ?_, ?_⟩
                · unfold Stream.readLoop
                  rw [if_neg h0, hfill]
                  have hlen' : ¬ (bytes.length = 0) := by omega
                  simp only [if_neg hlen', hT, hrem, hcopy]
                  rw [hloop, hread, List.append_assoc]
                · rw [hread, List.length_append, length_slice, ← Nat.add_assoc]
                  exact hmir'

/-- The condition on a read: the position is not past the end, and the read is inside the buffer, or the
    buffer is empty or at the end of the file, or the descriptor stands right after a clean buffer. -/
def ReadSafe (s : Stream) (size : Nat) : Prop :=
  s.curFileOff ≤ s.fileSize ∧ ((size : Int) ≤ s.bufferedDataSize - s.curBufOff ∨ s.bufferedDataSize = 0 ∨
    s.bufFileOff + s.bufferedDataSize = s.fileSize ∨
    (s.dirtyFlag = false ∧ s.fd.cursor = s.bufFileOff + s.bufferedDataSize))

instance (s : Stream) (size : Nat) : Decidable (ReadSafe s size) := inferInstanceAs (Decidable (_ ∧ (_ ∨ _ ∨ _ ∨ _ ∧ _)))

/-- **`read_stream`** returns what the plain file returns. -/
theorem Mirrors.readStream {s : Stream} {d : Fd} (h : Mirrors s d) {size : Nat} (hsafe : ReadSafe s size) :
    ∃ s', s.readStream size = some ((d.read size).1, s') ∧ Mirrors s' (d.read size).2 := by
  obtain ⟨c, hc, hcB, hpos, hempty⟩ := h.pointer
  obtain ⟨hend, hcase⟩ := hsafe
  have hsize := h.size
  have hwithin := h.within
  have hposle : d.cursor ≤ d.file.size := by
    unfold Stream.curFileOff at hend
    omega
  -- what the buffer gives
  have hk : ∃ k, min s.remainingBufferDataSize size = k ∧ (k = 0 ∨ c + k ≤ s.bufferedDataSize) ∧
      s.bufFileOff + c + k ≤ d.file.size ∧ k ≤ size ∧ (k = size ∨ s.bufferedDataSize = 0 ∨ c + k = s.bufferedDataSize) := by
    by_cases hle : c ≤ s.bufferedDataSize
    · rw [Stream.remaining_eq hc hle]
      refine ⟨_, rfl, by omega, ?_, by omega, by omega⟩
      by_cases hz : s.bufferedDataSize = 0
      · omega
      · have := hwithin (by omega)
        omega
    · have hz := (hempty (by omega)).1
      refine ⟨0, ?_, Or.inl rfl, by omega, by omega, Or.inr (Or.inl hz)⟩
      unfold Stream.remainingBufferDataSize
      rw [hc, if_pos (by omega), hz, Nat.zero_min]
  obtain ⟨k, hkeq, hk0, hkend, hksize, hkcase⟩ := hk
  obtain ⟨hcopy, hmir, hupd⟩ := h.take hc hk0 hkend
  have hread : d.file.read d.cursor size = slice d.file.cell d.cursor k ++ d.file.read (d.cursor + k) (size - k) := by
    rw [← ByteFile.read_add _ (by omega)]
    congr 1
    omega
  have hfuel : 1 ≤ s.fd.file.size + s.fileSize + s.bufFileOff + s.bufferedDataSize + 2 := by omega
  have hstart : (size - k = 0 ∧ 1 ≤ s.fd.file.size + s.fileSize + s.bufFileOff + s.bufferedDataSize + 2) ∨
      (AtEnd (s.updateCurBufPtr k) { d with cursor := d.cursor + k } ∧
        1 ≤ s.fd.file.size + s.fileSize + s.bufFileOff + s.bufferedDataSize + 2) ∨
      (Refillable (s.updateCurBufPtr k).flush { d with cursor := d.cursor + k } ∧
        d.file.size - (s.updateCurBufPtr k).flush.fd.cursor + 2
          ≤ s.fd.file.size + s.fileSize + s.bufFileOff + s.bufferedDataSize + 2) := by
    by_cases hdone : size = k
    · left
      exact ⟨by omega, hfuel⟩
    · right
      by_cases hz : s.bufferedDataSize = 0
      · -- an empty buffer: the descriptor stands at its start
        right
        obtain ⟨hf, _, _⟩ := hmir.toBuffered.flush
        have hcur := hmir.flush.empty (by rw [hf.data, hupd]; exact hz)
        have hdata : (s.updateCurBufPtr k).flush.bufferedDataSize = 0 := by rw [hf.data, hupd]; exact hz
        refine ⟨⟨hf.dirty, by rw [hcur, hdata]; rfl, Or.inr ⟨hdata, ?_⟩⟩, by omega⟩
        show d.cursor + k ≤ d.file.size
        omega
      · have hck : c + k = s.bufferedDataSize := by
          rcases hkcase with hkc | hkc | hkc
          · exact absurd hkc.symm hdone
          · exact absurd hkc hz
          · exact hkc
        have hin := hwithin (by omega)
        by_cases hfin : s.bufFileOff + s.bufferedDataSize = d.file.size
        · left
          rw [hupd]
          refine ⟨⟨by show 0 < s.bufferedDataSize; omega, hfin, ?_⟩, hfuel⟩
          show d.cursor + k = d.file.size
          omega
        · -- a clean buffer that is full, with the descriptor right after it
          right
          have hclean : s.dirtyFlag = false ∧ s.fd.cursor = s.bufFileOff + s.bufferedDataSize := by
            rcases hcase with hcc | hcc | hcc | hcc
            · omega
            · omega
            · omega
            · exact hcc
          have hfull := h.full hclean.1 (by omega) hclean.2
          rw [← h.clean hclean.1] at hfull
          have hsame : (s.updateCurBufPtr k).flush = { s with curBufOff := (c + k : Nat) } := by
            rw [hupd]
            unfold Stream.flush
            simp [hclean.1]
          rw [hsame]
          refine ⟨⟨hclean.1, hclean.2, Or.inl ⟨by show s.bufferedDataSize = _; omega, ?_⟩⟩, ?_⟩
          · show ((c + k : Nat) : Int) = _
            omega
          · show d.file.size - s.fd.cursor + 2 ≤ _
            omega
  obtain ⟨s', hloop, hmir'⟩ := Mirrors.readLoop _ (size - k) (slice d.file.cell d.cursor k) hmir hstart
  refine ⟨s', ?_, ?_⟩
  · unfold Stream.readStream
    simp only [hkeq, hcopy]
    rw [hloop]
    show some (_ ++ d.file.read (d.cursor + k) (size - k), s') = some (d.file.read d.cursor size, s')
    rw [hread]
  · show Mirrors s' { d with cursor := d.cursor + (d.file.read d.cursor size).length }
    rw [hread, List.length_append, length_slice, ← Nat.add_assoc]
    exact hmir'

/-! ## Write -/

theorem Fd.write_nil (d : Fd) : d.write [] = d := by
  unfold Fd.write
  rw [ByteFile.write_nil]
  rfl

theorem Fd.write_append (d : Fd) (a b : List Byte) : d.write (a ++ b) = (d.write a).write b := by
  by_cases ha : a = []
  · rw [ha, List.nil_append, Fd.write_nil]
  · unfold Fd.write
    simp only [ByteFile.write_append _ _ _ ha, List.length_append, Nat.add_assoc]

/-- A stream whose buffer can take bytes at its pointer: up to there it has the file's bytes. -/
structure Prepared (s : Stream) (d : Fd) (c : Nat) : Prop where
  data_le : s.bufferedDataSize ≤ STREAM_BUFFER_SIZE
  pointer : s.curBufOff = c
  position : s.bufFileOff + c = d.cursor
  size : s.fileSize = d.file.size
  content : d.file = s.fd.file.write s.bufFileOff (slice s.buf 0 (max s.bufferedDataSize c))
  writable : s.Writable

/-- The stream after `bytes` went into the buffer at the pointer. -/
def Stream.put (s : Stream) (c : Nat) (bytes : List Byte) : Stream :=
  { { s with buf := patch s.buf c bytes }.writeMetaUpdate bytes.length with dirtyFlag := true }

theorem Stream.copyIn_eq {s : Stream} {c : Nat} {bytes : List Byte} (hroom : c + bytes.length ≤ STREAM_BUFFER_SIZE) :
    s.copyIn c bytes = some { s with buf := patch s.buf c bytes } := by
  unfold Stream.copyIn
  by_cases h : bytes = []
  · rw [if_pos h, h, patch_nil]
  · rw [if_neg h, if_pos (by omega), Int.toNat_natCast]

/-- The fields after a chunk. -/
theorem Stream.put_fields {s : Stream} {d : Fd} {c : Nat} (h : Prepared s d c) (bytes : List Byte) :
    (s.put c bytes).curBufOff = (c + bytes.length : Nat) ∧
    (s.put c bytes).bufferedDataSize = max s.bufferedDataSize (c + bytes.length) ∧
    (s.put c bytes).fileSize = max s.fileSize (s.bufFileOff + (c + bytes.length)) := by
  have hc := h.pointer
  refine ⟨?_, ?_, ?_⟩
  · show s.curBufOff + bytes.length = _
    rw [hc]
    rfl
  · show (if s.curBufOff + bytes.length > s.bufferedDataSize then (s.curBufOff + bytes.length).toNat
      else s.bufferedDataSize) = _
    rw [hc]
    split
    · omega
    · omega
  · show (if s.bufFileOff + (s.curBufOff + bytes.length) > s.fileSize
      then (s.bufFileOff + (s.curBufOff + bytes.length)).toNat else s.fileSize) = _
    rw [hc]
    split
    · omega
    · omega

/-- **A chunk** into the buffer is a write to the plain file. -/
theorem Prepared.put {s : Stream} {d : Fd} {c : Nat} (h : Prepared s d c) {bytes : List Byte}
    (hroom : c + bytes.length ≤ STREAM_BUFFER_SIZE) (hend : bytes = [] → d.cursor ≤ d.file.size) :
    Buffered (s.put c bytes) (d.write bytes) := by
  obtain ⟨hcur, hdata, hsize⟩ := Stream.put_fields h bytes
  have hdle := h.data_le
  have hpos := h.position
  have hsz := h.size
  refine ⟨?_, ⟨c + bytes.length, hcur, hroom, ?_, ?_⟩, ?_, ?_, ?_, h.writable⟩
  · rw [hdata]
    omega
  · show s.bufFileOff + (c + bytes.length) = d.cursor + bytes.length
    omega
  · intro hlt
    rw [hdata] at hlt
    omega
  · rw [hsize]
    by_cases hnil : bytes = []
    · have := hend hnil
      rw [hnil, Fd.write_nil]
      simp only [List.length_nil]
      omega
    · show _ = (d.file.write d.cursor bytes).size
      rw [ByteFile.size_write _ _ hnil]
      omega
  · rw [hdata]
    show (d.file.write d.cursor bytes) = s.fd.file.write s.bufFileOff (slice (patch s.buf c bytes) 0 _)
    by_cases hnil : bytes = []
    · rw [hnil, ByteFile.write_nil, patch_nil]
      exact h.content
    · rw [← hpos, h.content, ByteFile.write_slice_patch _ _ _ hnil (le_max_right _ _)]
      congr 2
      omega
  · intro hc
    cases hc

/-- The next buffer: after a flush of a full buffer the stream starts a new one. -/
theorem Buffered.nextBuffer {s : Stream} {d : Fd} (h : Buffered s d) (hc : s.curBufOff = (STREAM_BUFFER_SIZE : Nat))
    (hdata : s.bufferedDataSize = STREAM_BUFFER_SIZE) :
    Prepared (s.flush.updateMetaForRebuf true 0) d 0 ∧
      (s.flush.updateMetaForRebuf true 0).dirtyFlag = true ∧
      (s.flush.updateMetaForRebuf true 0).bufferedDataSize = 0 := by
  obtain ⟨hf, _, _⟩ := h.flush
  obtain ⟨c', hc', _, hpos, _⟩ := h.pointer
  have hcc : c' = STREAM_BUFFER_SIZE := by
    rw [hc] at hc'
    exact_mod_cast hc'.symm
  have hwithin := h.within (by rw [hdata]; decide)
  have hsize := h.size
  refine ⟨⟨by show 0 ≤ _; omega, ?_, ?_, ?_, ?_, hf.writable h.writable⟩, rfl, rfl⟩
  · show (if s.flush.curBufOff ≥ (STREAM_BUFFER_SIZE : Nat) then 0 else s.flush.curBufOff) = ((0 : Nat) : Int)
    rw [hf.cur, hc, if_pos (le_refl _)]
    rfl
  · show s.flush.bufFileOff + s.flush.bufferedDataSize + 0 = d.cursor
    rw [hf.off, hf.data]
    omega
  · show (if s.flush.bufFileOff + s.flush.bufferedDataSize + 0 > s.flush.fileSize
      then s.flush.bufFileOff + s.flush.bufferedDataSize + 0 else s.flush.fileSize) = d.file.size
    rw [hf.off, hf.data, hf.size, if_neg (by omega)]
    exact hsize
  · show d.file = s.flush.fd.file.write _ (slice s.flush.buf 0 (max 0 0))
    rw [hf.file, Nat.max_self, slice_zero, ByteFile.write_nil]

theorem Stream.remainingBufferSize_eq {s : Stream} {c : Nat} (hc : s.curBufOff = c) (hle : c ≤ STREAM_BUFFER_SIZE) :
    s.remainingBufferSize = STREAM_BUFFER_SIZE - c := by
  unfold Stream.remainingBufferSize
  rw [hc]
  unfold STREAM_BUFFER_SIZE BLOCK_SIZE at *
  omega

/-- The stream after a turn of the loop of `write_stream`: the full buffer is flushed, the next one takes
    the bytes. -/
def Stream.turn (s : Stream) (bytes : List Byte) : Stream :=
  (s.flush.updateMetaForRebuf true 0).put 0 (bytes.take STREAM_BUFFER_SIZE)

/-- The buffer is full, with the pointer at its end. -/
def Stream.Full (s : Stream) : Prop := s.curBufOff = (STREAM_BUFFER_SIZE : Nat) ∧ s.bufferedDataSize = STREAM_BUFFER_SIZE

/-- A turn copies what fits the empty buffer. -/
theorem Buffered.turn_copy {s : Stream} {d : Fd} (h : Buffered s d) (hfull : s.Full) (bytes : List Byte) :
    min bytes.length (s.flush.updateMetaForRebuf true 0).remainingBufferSize = (bytes.take STREAM_BUFFER_SIZE).length ∧
    (s.flush.updateMetaForRebuf true 0).copyIn 0 (bytes.take STREAM_BUFFER_SIZE) =
      some { s.flush.updateMetaForRebuf true 0 with
        buf := patch (s.flush.updateMetaForRebuf true 0).buf 0 (bytes.take STREAM_BUFFER_SIZE) } := by
  obtain ⟨hprep, _, _⟩ := h.nextBuffer hfull.1 hfull.2
  have hrem := Stream.remainingBufferSize_eq hprep.pointer (Nat.zero_le _)
  refine ⟨?_, ?_⟩
  · rw [hrem, List.length_take]
    omega
  · apply Stream.copyIn_eq (c := 0)
    rw [List.length_take]
    omega

theorem take_length_take (bytes : List Byte) (n : Nat) : bytes.take (bytes.take n).length = bytes.take n := by
  rw [List.length_take, ← List.take_take, List.take_length]

theorem drop_length_take (bytes : List Byte) (n : Nat) : bytes.drop (bytes.take n).length = bytes.drop n := by
  rw [List.length_take]
  by_cases hle : bytes.length ≤ n
  · rw [Nat.min_eq_right hle, List.drop_length, List.drop_eq_nil_of_le hle]
  · rw [Nat.min_eq_left (by omega)]

/-- **One turn** of the loop of `write_stream`. -/
theorem Buffered.writeLoop_turn {s : Stream} {d : Fd} (h : Buffered s d) (hfull : s.Full) {bytes : List Byte}
    (hne : bytes ≠ []) (fuel : Nat) : Stream.writeLoop (fuel + 1) bytes s =
      Stream.writeLoop fuel (bytes.drop STREAM_BUFFER_SIZE) (s.turn bytes) := by
  obtain ⟨hmin, hcopy⟩ := h.turn_copy hfull bytes
  have hpos : 0 < bytes.length := List.length_pos_iff.mpr hne
  rw [Stream.writeLoop, if_neg (by omega)]
  simp only [hmin, take_length_take, hcopy, drop_length_take]
  rfl

/-- What a turn leaves: the bytes it took are written, and the buffer is full again when more remain. -/
theorem Buffered.turn {s : Stream} {d : Fd} (h : Buffered s d) (hfull : s.Full) {bytes : List Byte} (hne : bytes ≠ []) :
    Buffered (s.turn bytes) (d.write (bytes.take STREAM_BUFFER_SIZE)) ∧ 0 < (s.turn bytes).bufferedDataSize ∧
      (bytes.drop STREAM_BUFFER_SIZE = [] ∨ (s.turn bytes).Full) := by
  obtain ⟨hprep, _, hz⟩ := h.nextBuffer hfull.1 hfull.2
  have hB : 0 < STREAM_BUFFER_SIZE := by decide
  have hpos : 0 < bytes.length := List.length_pos_iff.mpr hne
  have hio : (bytes.take STREAM_BUFFER_SIZE).length = min STREAM_BUFFER_SIZE bytes.length := List.length_take
  obtain ⟨hcur, hdat, _⟩ := Stream.put_fields hprep (bytes.take STREAM_BUFFER_SIZE)
  refine ⟨hprep.put (by omega) ?_, ?_, ?_⟩
  · intro hnil
    rw [hnil, List.length_nil] at hio
    omega
  · show 0 < ((s.flush.updateMetaForRebuf true 0).put 0 (bytes.take STREAM_BUFFER_SIZE)).bufferedDataSize
    rw [hdat]
    omega
  · by_cases hle : bytes.length ≤ STREAM_BUFFER_SIZE
    · exact Or.inl (List.drop_eq_nil_of_le hle)
    · right
      refine ⟨?_, ?_⟩
      · apply hcur.trans
        rw [hio, Nat.min_eq_left (by omega), Nat.zero_add]
      · apply hdat.trans
        rw [hio, hz, Nat.min_eq_left (by omega), Nat.zero_add]
        exact Nat.zero_max _

/-- **The loop of `write_stream`**, buffer after buffer. -/
theorem Buffered.writeLoop (fuel : Nat) : ∀ {s : Stream} {d : Fd} (bytes : List Byte), Buffered s d →
    s.dirtyFlag = true → bytes.length < fuel → (bytes = [] ∨ s.Full) →
    ∃ s', Stream.writeLoop fuel bytes s = some s' ∧ Buffered s' (d.write bytes) ∧ s'.dirtyFlag = true ∧
      (bytes = [] ∧ s' = s ∨ 0 < s'.bufferedDataSize) := by
  induction fuel with
  | zero => intro s d bytes _ _ hfuel; omega
  | succ fuel ih =>
      intro s d bytes h hdirty hfuel hcase
      by_cases hnil : bytes = []
      · refine ⟨s, ?_, ?_, hdirty, Or.inl ⟨hnil, rfl⟩⟩
        · unfold Stream.writeLoop
          rw [if_pos (by rw [hnil]; rfl)]
        · rw [hnil, Fd.write_nil]
          exact h
      · have hfull := hcase.resolve_left hnil
        have hpos : 0 < bytes.length := List.length_pos_iff.mpr hnil
        have hB : 0 < STREAM_BUFFER_SIZE := by decide
        obtain ⟨hbuf, hsome, hnext⟩ := h.turn hfull hnil
        obtain ⟨s', hloop, hbuf', hdirty', hlast⟩ := ih (bytes.drop STREAM_BUFFER_SIZE) hbuf rfl
          (by rw [List.length_drop]; omega) hnext
        refine ⟨s', ?_, ?_, hdirty', Or.inr ?_⟩
        · rw [h.writeLoop_turn hfull hnil]
          exact hloop
        · rw [← List.take_append_drop STREAM_BUFFER_SIZE bytes, Fd.write_append]
          exact hbuf'
        · rcases hlast with ⟨_, rfl⟩ | hlast
          · exact hsome
          · exact hlast

/-- The condition on a write: the pointer is inside the buffered bytes or the position inside the file
    underneath, and an empty write is not past the end. -/
def WriteSafe (s : Stream) (bytes : List Byte) : Prop :=
  (s.curBufOff ≤ s.bufferedDataSize ∨ s.curFileOff ≤ s.fd.file.size) ∧ (bytes = [] → s.curFileOff ≤ s.fileSize)

instance (s : Stream) (bytes : List Byte) : Decidable (WriteSafe s bytes) := inferInstanceAs (Decidable ((_ ∨ _) ∧ (_ → _)))

/-- **`_init_buffer_for_writing`** fetches what the buffer lacks below the pointer. -/
theorem Mirrors.prepare {s : Stream} {d : Fd} (h : Mirrors s d) {c : Nat} (hc : s.curBufOff = c)
    (hsafe : s.curBufOff ≤ s.bufferedDataSize ∨ s.curFileOff ≤ s.fd.file.size) :
    Prepared s.initBufferForWriting d c ∧
    s.initBufferForWriting.bufferedDataSize = s.bufferedDataSize ∧ (c ≤ s.bufferedDataSize → s.initBufferForWriting = s) := by
  obtain ⟨c', hc', hcB, hpos, hempty⟩ := h.pointer
  obtain rfl : c = c' := by
    rw [hc] at hc'
    exact_mod_cast hc'
  by_cases hle : c ≤ s.bufferedDataSize
  · have hsame : s.initBufferForWriting = s := by
      unfold Stream.initBufferForWriting
      rw [if_neg (by rw [hc]; omega)]
    rw [hsame]
    refine ⟨⟨h.data_le, hc, hpos, h.size, ?_, h.writable⟩, rfl, fun _ => rfl⟩
    rw [max_eq_left hle]
    exact h.content
  · obtain ⟨hz, hlt⟩ := hempty (by omega)
    have hin : s.bufFileOff + c ≤ s.fd.file.size := by
      rcases hsafe with hs | hs
      · omega
      · unfold Stream.curFileOff at hs
        omega
    have hsize := h.size
    have hunder := h.under_le
    have hinit : s.initBufferForWriting = s.flush.fillBuffer.2 := by
      unfold Stream.initBufferForWriting
      rw [if_pos (by rw [hc]; omega)]
    obtain ⟨hf, _, _⟩ := h.toBuffered.flush
    have hcur : s.flush.fd.cursor = s.bufFileOff := by
      rw [h.flush.empty (by rw [hf.data]; exact hz), hf.off]
    rw [hinit]
    refine ⟨⟨?_, ?_, ?_, ?_, ?_, ?_⟩, hf.data, fun hc' => absurd hc' hle⟩
    · show s.flush.bufferedDataSize ≤ _
      rw [hf.data]
      exact h.data_le
    · show s.flush.curBufOff = c
      rw [hf.cur]
      exact hc
    · show s.flush.bufFileOff + c = d.cursor
      rw [hf.off]
      exact hpos
    · show s.flush.fileSize = d.file.size
      rw [hf.size]
      exact hsize
    · -- what was read covers the buffer up to the pointer
      show d.file = s.flush.fd.file.write s.flush.bufFileOff
        (slice (patch s.flush.buf 0 (s.flush.fd.file.read s.flush.fd.cursor STREAM_BUFFER_SIZE)) 0
          (max s.flush.bufferedDataSize c))
      rw [hf.file, hf.off, hf.data, hcur, hz, Nat.zero_max]
      symm
      apply ByteFile.write_slice_self
      · omega
      · intro i hi
        have hlen : i < (d.file.read s.bufFileOff STREAM_BUFFER_SIZE).length := by
          rw [ByteFile.length_read]
          omega
        have hat : patch s.flush.buf 0 (d.file.read s.bufFileOff STREAM_BUFFER_SIZE) (0 + i) = _ := patch_at hlen
        rw [Nat.zero_add] at hat
        rw [hat]
        have hget := List.getElem?_eq_getElem hlen
        unfold ByteFile.read at hget
        rw [getElem?_slice (by rw [ByteFile.length_read] at hlen; exact hlen)] at hget
        exact (Option.some.inj hget).symm
    · exact hf.writable h.writable

/-- The stream after the part of a write that fits the buffer. -/
def Stream.writeFirst (s : Stream) (bytes : List Byte) : Stream :=
  s.initBufferForWriting.put s.curBufOff.toNat (bytes.take (min s.remainingBufferSize bytes.length))

/-- That part is a write to the plain file, and the buffer is full when more remains. -/
theorem Mirrors.writeFirst {s : Stream} {d : Fd} (h : Mirrors s d) {bytes : List Byte} (hsafe : WriteSafe s bytes) :
    s.initBufferForWriting.copyIn s.curBufOff (bytes.take (min s.remainingBufferSize bytes.length)) =
      some { s.initBufferForWriting with
        buf := patch s.initBufferForWriting.buf s.curBufOff.toNat (bytes.take (min s.remainingBufferSize bytes.length)) } ∧
    Buffered (s.writeFirst bytes) (d.write (bytes.take (min s.remainingBufferSize bytes.length))) ∧
    (s.writeFirst bytes).bufferedDataSize =
      max s.bufferedDataSize (s.curBufOff.toNat + min s.remainingBufferSize bytes.length) ∧
    (bytes.drop (min s.remainingBufferSize bytes.length) = [] ∨ (s.writeFirst bytes).Full) := by
  obtain ⟨c, hc, hcB, hpos, hempty⟩ := h.pointer
  obtain ⟨hprep, hdata0, _⟩ := h.prepare hc hsafe.1
  have hcn : s.curBufOff.toNat = c := by rw [hc, Int.toNat_natCast]
  unfold Stream.writeFirst
  rw [Stream.remainingBufferSize_eq hc hcB, hcn, hc]
  have hio : (bytes.take (min (STREAM_BUFFER_SIZE - c) bytes.length)).length = min (STREAM_BUFFER_SIZE - c) bytes.length := by
    rw [List.length_take]
    omega
  have hroom : c + (bytes.take (min (STREAM_BUFFER_SIZE - c) bytes.length)).length ≤ STREAM_BUFFER_SIZE := by omega
  have hend : bytes.take (min (STREAM_BUFFER_SIZE - c) bytes.length) = [] → d.cursor ≤ d.file.size := by
    intro hnil
    rw [hnil] at hio
    simp only [List.length_nil] at hio
    by_cases hb : bytes = []
    · have hle := hsafe.2 hb
      have hsize := h.size
      unfold Stream.curFileOff at hle
      omega
    · -- the buffer is full, and its end is inside the file
      have hlen : 0 < bytes.length := List.length_pos_iff.mpr hb
      have hB : 0 < STREAM_BUFFER_SIZE := by decide
      have hge : c ≤ s.bufferedDataSize := by
        by_cases hlt : s.bufferedDataSize < c
        · have := (hempty hlt).2
          omega
        · omega
      have := h.within (by omega)
      omega
  obtain ⟨hcur, hdat, _⟩ := Stream.put_fields hprep (bytes.take (min (STREAM_BUFFER_SIZE - c) bytes.length))
  refine ⟨Stream.copyIn_eq hroom, hprep.put hroom hend, ?_, ?_⟩
  · rw [hdat, hdata0, hio]
  · by_cases hle : bytes.length ≤ STREAM_BUFFER_SIZE - c
    · left
      exact List.drop_eq_nil_of_le (by omega)
    · right
      have hdle := hprep.data_le
      unfold Stream.Full
      rw [hcur, hdat, hio]
      omega

/-- **`write_stream`** writes what the plain file writes. -/
theorem Mirrors.writeStream {s : Stream} {d : Fd} (h : Mirrors s d) {bytes : List Byte} (hsafe : WriteSafe s bytes) :
    ∃ s', s.writeStream bytes = some (bytes.length, s') ∧ Mirrors s' (d.write bytes) ∧ s'.dirtyFlag = true := by
  obtain ⟨c, hc, hcB, hpos, _⟩ := h.pointer
  obtain ⟨_, _, hsame⟩ := h.prepare hc hsafe.1
  obtain ⟨hcopy, hbuf, hdat, hnext⟩ := h.writeFirst hsafe
  obtain ⟨s', hloop, hbuf', hdirty, hlast⟩ := Buffered.writeLoop (bytes.length + 1)
    (bytes.drop (min s.remainingBufferSize bytes.length)) hbuf rfl (by rw [List.length_drop]; omega) hnext
  have hio : (bytes.take (min s.remainingBufferSize bytes.length)).length = min s.remainingBufferSize bytes.length := by
    rw [List.length_take]
    omega
  rw [← Fd.write_append, List.take_append_drop] at hbuf'
  refine ⟨s', ?_, ?_, hdirty⟩
  · unfold Stream.writeStream
    rw [if_neg (fun hc' => h.writable.elim (absurd hc'.1) (absurd hc'.2))]
    simp only [hcopy]
    unfold Stream.writeFirst Stream.put at hloop
    rw [hio] at hloop
    rw [hloop]
    rfl
  · rcases Nat.eq_zero_or_pos s'.bufferedDataSize with hz | hpos'
    · -- nothing was written into an empty buffer: the descriptor has not moved
      rcases hlast with ⟨_, rfl⟩ | hlast
      · refine ⟨hbuf', ?_, ?_, ?_⟩
        · intro _
          rw [hdat] at hz
          show s.initBufferForWriting.fd.cursor = s.initBufferForWriting.bufFileOff
          rw [hsame (by rw [hc, Int.toNat_natCast] at hz; omega)]
          exact h.empty (by omega)
        · intro hc'; rw [hdirty] at hc'; cases hc'
        · intro hc'; rw [hdirty] at hc'; cases hc'
      · omega
    · exact mirrors_of_dirty hbuf' hdirty hpos'

/-! ## Seek -/

/-- The flag of a stream says whether it was opened for writing. -/
theorem Stream.writable_mk {dirtyFlag : Bool} {openFlag : BitVec 32} {err : Int} {buf : Nat → Byte} {curBufOff : Int}
    {bufferedDataSize fileSize bufFileOff : Nat} {fd : Fd} :
    (Stream.mk dirtyFlag openFlag err buf curBufOff bufferedDataSize fileSize bufFileOff fd).Writable ↔
      openFlag &&& O_WRONLY ≠ 0 ∨ openFlag &&& O_RDWR ≠ 0 := Iff.rfl

/-- **`seek_stream`** to a position. -/
theorem Mirrors.seekTo {s : Stream} {d : Fd} (h : Mirrors s d) (newPos : Nat) : Mirrors (s.seekTo newPos) (d.seekSet newPos) := by
  obtain ⟨c, hc, hcB, hpos, _⟩ := h.pointer
  have hdle := h.data_le
  unfold Stream.seekTo
  split
  · -- outside the buffered bytes: the buffer is flushed and starts at the block of the position
    obtain ⟨hf, _, _⟩ := h.toBuffered.flush
    have hle := getBlockStartPoint_le newPos
    have hlt := lt_getBlockStartPoint_add newPos
    refine ⟨⟨by show 0 ≤ _; omega, ⟨newPos - getBlockStartPoint newPos, ?_, ?_, ?_, ?_⟩, ?_, ?_, ?_, ?_⟩, ?_, ?_, ?_⟩
    · show ((newPos : Int) - getBlockStartPoint newPos) = _
      omega
    · unfold STREAM_BUFFER_SIZE
      omega
    · show getBlockStartPoint newPos + (newPos - getBlockStartPoint newPos) = newPos
      omega
    · intro _
      refine ⟨rfl, ?_⟩
      unfold STREAM_BUFFER_SIZE
      omega
    · show s.flush.fileSize = d.file.size
      rw [hf.size]
      exact h.size
    · show d.file = s.flush.fd.file.write _ (slice s.flush.buf 0 0)
      rw [slice_zero, ByteFile.write_nil, hf.file]
    · intro _
      exact hf.file.symm
    · exact Stream.writable_mk.mpr (hf.writable h.writable)
    · intro _
      rfl
    · intro _ hc'
      exact absurd hc' (by show ¬ (0 < 0); omega)
    · intro _ hc'
      exact absurd hc' (by show ¬ (0 < 0); omega)
  · rename_i hin
    refine ⟨⟨hdle, ⟨newPos - s.bufFileOff, ?_, ?_, ?_, ?_⟩, h.size, h.content, h.clean, h.writable⟩, h.empty, h.cursor, h.full⟩
    · show (newPos : Int) - s.curFileOff + s.curBufOff = _
      unfold Stream.curFileOff
      omega
    · omega
    · show s.bufFileOff + (newPos - s.bufFileOff) = newPos
      omega
    · intro hlt
      have hlt' : s.bufferedDataSize < newPos - s.bufFileOff := hlt
      omega

/-! ## Runs -/

/-- **The condition on a step.** -/
def StreamGuard (t : Twin) : StreamOp → Prop
  | .read size => ReadSafe t.stream size
  | .write bytes => WriteSafe t.stream bytes
  | .seek offset whence => 0 ≤ t.stream.newPosition offset whence ∧
      (whence = .fromEnd → t.stream.fileSize = t.stream.fd.file.size)
  | _ => True

instance : (t : Twin) → (op : StreamOp) → Decidable (StreamGuard t op)
  | t, .read size => inferInstanceAs (Decidable (ReadSafe t.stream size))
  | t, .write bytes => inferInstanceAs (Decidable (WriteSafe t.stream bytes))
  | _, .seek _ _ => inferInstanceAs (Decidable (_ ∧ (_ → _)))
  | _, .tell => .isTrue trivial
  | _, .eof => .isTrue trivial
  | _, .flush => .isTrue trivial

/-- What every step keeps. -/
structure TwinInv (t : Twin) : Prop where
  mirrors : Mirrors t.stream t.plain
  same : ∀ p ∈ t.outs, p.1 = p.2

theorem Mirrors.curFileOff {s : Stream} {d : Fd} (h : Mirrors s d) : s.curFileOff = d.cursor := by
  obtain ⟨c, hc, _, hpos, _⟩ := h.pointer
  unfold Stream.curFileOff
  omega

/-- **One operation** returns the same on both, and keeps them together. -/
theorem Mirrors.exec {s : Stream} {d : Fd} (h : Mirrors s d) (op : StreamOp) (outs : List (StreamOut × StreamOut))
    (hg : StreamGuard ⟨s, d, outs⟩ op) :
    ∃ s' d' out, s.exec op = some (s', out) ∧ d.exec op = some (d', out) ∧ Mirrors s' d' := by
  have hoff := h.curFileOff
  have hsize := h.size
  cases op with
  | read size =>
      obtain ⟨s', hs', hmir⟩ := h.readStream hg
      exact ⟨s', _, _, by simp only [Stream.exec, hs', Option.map_some], rfl, hmir⟩
  | write bytes =>
      obtain ⟨s', hs', hmir, _⟩ := h.writeStream hg
      exact ⟨s', _, _, by simp only [Stream.exec, hs', Option.map_some], rfl, hmir⟩
  | seek offset whence =>
      obtain ⟨hpos, hend⟩ := hg
      have hsame : s.newPosition offset whence = d.newPosition offset whence := by
        cases whence with
        | set => rfl
        | cur =>
            show s.curFileOff + offset = d.cursor + offset
            rw [hoff]
        | fromEnd =>
            have hgrown : s.fileSize = s.fd.file.size := hend rfl
            show (s.fd.file.size : Int) + offset = d.file.size + offset
            rw [← hgrown, hsize]
      have hnn : ¬ (s.newPosition offset whence < 0) := not_lt.mpr hpos
      have hnn' : ¬ (d.newPosition offset whence < 0) := hsame ▸ hnn
      refine ⟨_, _, _, by simp only [Stream.exec, if_neg hnn]; rfl, ?_, h.seekTo _⟩
      simp only [Fd.exec, if_neg hnn', hsame]
  | tell =>
      refine ⟨s, d, _, rfl, ?_, h⟩
      simp only [Fd.exec, hoff]
  | eof =>
      refine ⟨s, d, _, rfl, ?_, h⟩
      simp only [Fd.exec, hoff, hsize, Int.ofNat_lt]
  | flush => exact ⟨s.flush, d, .done, rfl, rfl, h.flush⟩

theorem TwinInv.step {t : Twin} (h : TwinInv t) (op : StreamOp) (hg : StreamGuard t op) :
    ∃ t', t.step op = some t' ∧ TwinInv t' := by
  obtain ⟨s', d', out, hs, hd, hmir⟩ := h.mirrors.exec op t.outs hg
  refine ⟨⟨s', d', t.outs ++ [(out, out)]⟩, by simp only [Twin.step, hs, hd], hmir, ?_⟩
  intro p hp
  rcases List.mem_append.mp hp with hp | hp
  · exact h.same p hp
  · rw [List.mem_singleton.mp hp]

/-- Every step adds one pair of results. -/
theorem Twin.outs_length (ops : List StreamOp) {t t' : Twin} (h : Run.run Twin.step t ops = some t') :
    t'.outs.length = t.outs.length + ops.length := by
  induction ops generalizing t with
  | nil =>
      obtain rfl : t = t' := Option.some.inj h
      rfl
  | cons op ops ih =>
      simp only [Run.run] at h
      split at h
      · exact absurd h (by simp)
      · rename_i t1 hstep
        have hone : t1.outs.length = t.outs.length + 1 := by
          unfold Twin.step at hstep
          split at hstep
          · obtain rfl := Option.some.inj hstep
            exact List.length_append
          · exact absurd hstep (by simp)
        rw [ih h, hone, List.length_cons]
        omega

/-- A stream just opened stands for its file. -/
theorem Mirrors.opened (file : ByteFile Byte) {openFlag : BitVec 32} (memory : Nat → Byte)
    (hflag : openFlag &&& O_WRONLY ≠ 0 ∨ openFlag &&& O_RDWR ≠ 0) : Mirrors (Stream.opened file openFlag memory) ⟨file, 0⟩ := by
  refine ⟨⟨by show 0 ≤ _; omega, ⟨0, rfl, by omega, rfl, ?_⟩, rfl, ?_, fun _ => rfl, hflag⟩, fun _ => rfl, ?_, ?_⟩
  · intro hc
    exact absurd hc (by show ¬ (0 < 0); omega)
  · show file = file.write 0 (slice memory 0 0)
    rw [slice_zero, ByteFile.write_nil]
  · intro _ hc
    exact absurd hc (by show ¬ (0 < 0); omega)
  · intro _ hc
    exact absurd hc (by show ¬ (0 < 0); omega)

/-- **The stream refines the plain file** over every run whose operations meet the condition: each of them
    returns what it returns on the unbuffered file. -/
theorem stream_refines_file (file : ByteFile Byte) (openFlag : BitVec 32) (hflag : openFlag &&& O_RDWR ≠ 0)
    (memory : Nat → Byte) (ops : List StreamOp)
    (hg : Run.Guarded Twin.step StreamGuard ⟨Stream.opened file openFlag memory, ⟨file, 0⟩, []⟩ ops) :
    ∃ t, Run.run Twin.step ⟨Stream.opened file openFlag memory, ⟨file, 0⟩, []⟩ ops = some t ∧
      t.outs.length = ops.length ∧ ∀ p ∈ t.outs, p.1 = p.2 := by
  have hinit : TwinInv ⟨Stream.opened file openFlag memory, ⟨file, 0⟩, []⟩ := by
    refine ⟨Mirrors.opened file memory (Or.inr hflag), ?_⟩
    intro p hp
    cases hp
  obtain ⟨t, hrun, hinv⟩ := Run.run_progress (fun t op h hg => TwinInv.step h op hg) hinit hg
  refine ⟨t, hrun, ?_, hinv.same⟩
  rw [Twin.outs_length ops hrun]
  exact Nat.zero_add _

/-- A file of six bytes, `abcdef`. -/
def sixBytes : ByteFile Byte := ByteFile.empty.write 0 [97, 98, 99, 100, 101, 102]

/-- A run over it: two bytes read, one overwritten, and the file read again from its second byte. -/
theorem stream_refines_file_read_write :
    ∃ t, Run.run Twin.step ⟨Stream.opened sixBytes O_RDWR (fun _ => 0), ⟨sixBytes, 0⟩, []⟩
        [.read 2, .write [120], .tell, .seek 1 .set, .read 9] = some t ∧
      t.outs.length = 5 ∧ ∀ p ∈ t.outs, p.1 = p.2 :=
  stream_refines_file sixBytes O_RDWR (by decide) (fun _ => 0) _ (by decide)

/-- **A read after a write** flushes the buffer, which leaves the descriptor one byte too far, and keeps
    the pointer: where the file has its second byte, the stream returns the fourth. -/
theorem stream_differs_after_write :
    ∃ t, Run.run Twin.step ⟨Stream.opened sixBytes O_RDWR (fun _ => 0), ⟨sixBytes, 0⟩, []⟩
        [.write [120], .read 1] = some t ∧
      t.outs = [(.count 1, .count 1), (.bytes [100], .bytes [98])] ∧ ¬ ∀ p ∈ t.outs, p.1 = p.2 := by
  refine ⟨_, rfl, ?_, ?_⟩
  · decide
  · decide

end HuronFS
