import HuronFS.Client.StreamRefine

/-!
# `Client.FuseWrite` — writes through FUSE (`CBB_fuse.cpp`)

The single-threaded FUSE client keeps a stream for each open file. `CBB_write` seeks it to the offset the
kernel gives, writes, and tells the client the size; `CBB_flush` writes the buffer out and `CBB_release`
does so a last time. `Mirrors` of `Client.StreamRefine` carries the content; what is added is where the
window of the buffer can be. `writePoints` lists the states `write_stream` goes through, so that
the bound on the pointer is one on every state and not on the last.
-/

namespace HuronFS

open Region

namespace Stream

/-- The window starts at a block and the pointer is inside the buffer, or at its end. -/
def Placed (s : Stream) : Prop := BLOCK_SIZE ∣ s.bufFileOff ∧ 0 ≤ s.curBufOff ∧ s.curBufOff ≤ (STREAM_BUFFER_SIZE : Nat)

/-- `update_underlying_file_size`. -/
def updateUnderlyingFileSize (s : Stream) : Stream := { s with fd := s.fd.updateFileSize s.fileSize }

/-- `CBB_write`: what it returns, and the stream. -/
def cbbWrite (s : Stream) (offset : Nat) (bytes : List Byte) : Option (Nat × Stream) :=
  match (s.seekTo offset).writeStream bytes with
  | none => none
  | some (ret, s) => some (ret, s.updateUnderlyingFileSize)

/-- `CBB_release`, which is `close_stream`: what it leaves of the stream is the file. -/
def cbbRelease (s : Stream) : ByteFile Byte := s.flush.fd.file

/-- The states the loop of `write_stream` goes through: each turn flushes, rebuffers, copies and updates. -/
def writeLoopPoints : (fuel : Nat) → (bytes : List Byte) → Stream → List Stream
  | 0, _, _ => []
  | fuel + 1, bytes, s =>
      if bytes.length = 0 then []
      else
        let s1 := s.flush
        let s2 := s1.updateMetaForRebuf true 0
        let currentIOSize := min bytes.length s2.remainingBufferSize
        match s2.copyIn 0 (bytes.take currentIOSize) with
        | none => [s1, s2]
        | some s3 =>
            let s4 := s3.writeMetaUpdate currentIOSize
            s1 :: s2 :: s3 :: s4 :: writeLoopPoints fuel (bytes.drop currentIOSize) s4

/-- The states `write_stream` goes through. -/
def writePoints (s : Stream) (bytes : List Byte) : List Stream :=
  if s.openFlag &&& O_WRONLY = 0 ∧ s.openFlag &&& O_RDWR = 0 then [{ s with err := EBADF }]
  else
    let bufferableSize := min s.remainingBufferSize bytes.length
    s.initBufferForWriting ::
      match s.initBufferForWriting.copyIn s.curBufOff (bytes.take bufferableSize) with
      | none => []
      | some s1 =>
          let s2 := s1.writeMetaUpdate bufferableSize
          s1 :: s2 :: { s2 with dirtyFlag := true } ::
            writeLoopPoints (bytes.length + 1) (bytes.drop bufferableSize) { s2 with dirtyFlag := true }

end Stream

/-- A call on an open file. -/
inductive FuseCall
  | write (offset : Nat) (bytes : List Byte)
  | flush

/-- The stream after a call. -/
def Stream.call (s : Stream) : FuseCall → Option Stream
  | .write offset bytes => (s.cbbWrite offset bytes).map Prod.snd
  | .flush => some s.flush

/-- The states a call goes through. -/
def Stream.callPoints (s : Stream) : FuseCall → List Stream
  | .write offset bytes => s.seekTo offset :: (s.seekTo offset).writePoints bytes
  | .flush => [s.flush]

/-- Every state of a run, from the stream just opened to the one that is released. -/
def Stream.points (s : Stream) : List FuseCall → List Stream
  | [] => [s, s.flush]
  | op :: ops => s :: s.callPoints op ++ ((s.call op).map (fun s' => s'.points ops)).getD []

/-- The file after a call, as if there were no buffer. -/
def FuseCall.overwrite (file : ByteFile Byte) : FuseCall → ByteFile Byte
  | .write offset bytes => file.write offset bytes
  | .flush => file

/-- A write does not start beyond the end of the file. -/
def FuseCall.NoHole (file : ByteFile Byte) : FuseCall → Prop
  | .write offset _ => offset ≤ file.size
  | .flush => True

instance (file : ByteFile Byte) : (op : FuseCall) → Decidable (op.NoHole file)
  | .write offset _ => inferInstanceAs (Decidable (offset ≤ file.size))
  | .flush => .isTrue trivial

/-- No write of a run starts beyond the end of the file it is made to. -/
def NoHoles (file : ByteFile Byte) : List FuseCall → Prop
  | [] => True
  | op :: ops => op.NoHole file ∧ NoHoles (op.overwrite file) ops

/-! ## Where the window can be -/

theorem Buffered.placed {s : Stream} {d : Fd} (h : Buffered s d) (hoff : BLOCK_SIZE ∣ s.bufFileOff) : s.Placed := by
  obtain ⟨c, hc, hle, _, _⟩ := h.pointer
  refine ⟨hoff, ?_, ?_⟩
  · omega
  · omega

/-- A seek leaves the window at a block. -/
theorem Stream.seekTo_aligned {s : Stream} {d : Fd} (h : Buffered s d) (hoff : BLOCK_SIZE ∣ s.bufFileOff) (newPos : Nat) :
    BLOCK_SIZE ∣ (s.seekTo newPos).bufFileOff := by
  unfold Stream.seekTo
  split
  · exact Nat.dvd_mul_left _ _
  · exact hoff

/-- The last state of the loop is one of its points. -/
theorem Stream.writeLoop_mem (fuel : Nat) : ∀ {s s' : Stream} {bytes : List Byte}, Stream.writeLoop fuel bytes s = some s' →
    s' = s ∨ s' ∈ Stream.writeLoopPoints fuel bytes s := by
  induction fuel with
  | zero =>
      intro s s' bytes h
      cases h
  | succ fuel ih =>
      intro s s' bytes h
      unfold Stream.writeLoop at h
      unfold Stream.writeLoopPoints
      split at h
      · exact Or.inl (Option.some.inj h).symm
      · rename_i hne
        rw [if_neg hne]
        right
        simp only at h ⊢
        cases hcopy : (s.flush.updateMetaForRebuf true 0).copyIn 0
            (bytes.take (min bytes.length (s.flush.updateMetaForRebuf true 0).remainingBufferSize)) with
        | none =>
          rw [hcopy] at h
          cases h
        | some s3 =>
          rw [hcopy] at h
          simp only
          rcases ih h with rfl | hmem
          · simp
          · simp [hmem]

/-- The state `write_stream` returns is one of its points. -/
theorem Stream.writeStream_mem {s s' : Stream} {bytes : List Byte} {n : Nat} (h : s.writeStream bytes = some (n, s')) :
    s' ∈ s.writePoints bytes := by
  unfold Stream.writeStream at h
  unfold Stream.writePoints
  split at h
  · rename_i hflag
    rw [if_pos hflag]
    obtain ⟨_, rfl⟩ := Prod.mk.inj (Option.some.inj h)
    exact List.mem_singleton.mpr rfl
  · rename_i hflag
    rw [if_neg hflag]
    simp only at h ⊢
    cases hcopy : s.initBufferForWriting.copyIn s.curBufOff (bytes.take (min s.remainingBufferSize bytes.length)) with
    | none =>
      rw [hcopy] at h
      cases h
    | some s1 =>
      rw [hcopy] at h
      simp only
      obtain ⟨s2, hloop, heq⟩ := Option.map_eq_some_iff.mp h
      obtain ⟨_, rfl⟩ := Prod.mk.inj heq
      rcases Stream.writeLoop_mem _ hloop with rfl | hmem
      · simp
      · simp [hmem]

/-- **A turn of the loop** moves the window on by a whole buffer, and the pointer to its start. -/
theorem Buffered.turn_placed {s : Stream} {d : Fd} (h : Buffered s d) (hfull : s.Full) (hoff : BLOCK_SIZE ∣ s.bufFileOff) :
    s.flush.Placed ∧ (s.flush.updateMetaForRebuf true 0).Placed := by
  obtain ⟨hf, _, _⟩ := h.flush
  obtain ⟨hprep, _, _⟩ := h.nextBuffer hfull.1 hfull.2
  have hplaced := h.placed hoff
  refine ⟨⟨?_, ?_⟩, ?_, ?_⟩
  · rw [hf.off]
    exact hoff
  · rw [hf.cur]
    exact hplaced.2
  · show BLOCK_SIZE ∣ s.flush.bufFileOff + s.flush.bufferedDataSize
    rw [hf.off, hf.data, hfull.2]
    exact Nat.dvd_add hoff (Nat.dvd_refl _)
  · rw [hprep.pointer]
    omega

/-- **Every state of the loop** of `write_stream`. -/
theorem Buffered.writeLoopPoints (fuel : Nat) : ∀ {s : Stream} {d : Fd} {bytes : List Byte}, Buffered s d →
    BLOCK_SIZE ∣ s.bufFileOff → (bytes = [] ∨ s.Full) → ∀ p ∈ Stream.writeLoopPoints fuel bytes s, p.Placed := by
  induction fuel with
  | zero =>
      intro s d bytes _ _ _ p hp
      cases hp
  | succ fuel ih =>
      intro s d bytes h hoff hcase p hp
      unfold Stream.writeLoopPoints at hp
      split at hp
      · cases hp
      · rename_i hlen
        have hne : bytes ≠ [] := by
          rintro rfl
          exact hlen rfl
        have hfull := hcase.resolve_left hne
        obtain ⟨hmin, hcopy⟩ := h.turn_copy hfull bytes
        obtain ⟨hbuf, _, hnext⟩ := h.turn hfull hne
        obtain ⟨hflush, hrebuf⟩ := h.turn_placed hfull hoff
        have hturn : (s.turn bytes).Placed := hbuf.placed hrebuf.1
        simp only [hmin, take_length_take, hcopy, drop_length_take] at hp
        rcases List.mem_cons.mp hp with rfl | hp
        · exact hflush
        rcases List.mem_cons.mp hp with rfl | hp
        · exact hrebuf
        rcases List.mem_cons.mp hp with rfl | hp
        · exact hrebuf
        rcases List.mem_cons.mp hp with rfl | hp
        · exact hturn
        · exact ih hbuf hturn.1 hnext p hp

/-- **Every state of `write_stream`.** -/
theorem Mirrors.writePoints {s : Stream} {d : Fd} (h : Mirrors s d) {bytes : List Byte} (hsafe : WriteSafe s bytes)
    (hoff : BLOCK_SIZE ∣ s.bufFileOff) : ∀ p ∈ s.writePoints bytes, p.Placed := by
  intro p hp
  obtain ⟨c, hc, hcB, hpos, _⟩ := h.pointer
  obtain ⟨hprep, _, _⟩ := h.prepare hc hsafe.1
  obtain ⟨hcopy, hbuf, _, hnext⟩ := h.writeFirst hsafe
  have hinit : s.initBufferForWriting.Placed := by
    have hsame : s.initBufferForWriting.bufFileOff = s.bufFileOff := by
      have := hprep.position
      omega
    refine ⟨?_, ?_⟩
    · rw [hsame]
      exact hoff
    · rw [hprep.pointer]
      omega
  have hfirst : (s.writeFirst bytes).Placed := hbuf.placed hinit.1
  have hio : (bytes.take (min s.remainingBufferSize bytes.length)).length = min s.remainingBufferSize bytes.length := by
    rw [List.length_take]
    omega
  unfold Stream.writePoints at hp
  rw [if_neg (fun hc' => h.writable.elim (absurd hc'.1) (absurd hc'.2))] at hp
  simp only [hcopy] at hp
  unfold Stream.writeFirst Stream.put at hfirst hbuf hnext
  rw [hio] at hfirst hbuf hnext
  rcases List.mem_cons.mp hp with rfl | hp
  · exact hinit
  rcases List.mem_cons.mp hp with rfl | hp
  · exact hinit
  rcases List.mem_cons.mp hp with rfl | hp
  · exact hfirst
  rcases List.mem_cons.mp hp with rfl | hp
  · exact hfirst
  · exact Buffered.writeLoopPoints _ hbuf hfirst.1 hnext p hp

/-! ## Calls -/

/-- A stream under FUSE stands for the file, and its window starts at a block. -/
structure FuseInv (s : Stream) (file : ByteFile Byte) : Prop where
  mirrors : ∃ d : Fd, Mirrors s d ∧ d.file = file
  aligned : BLOCK_SIZE ∣ s.bufFileOff

theorem FuseInv.placed {s : Stream} {file : ByteFile Byte} (h : FuseInv s file) : s.Placed := by
  obtain ⟨d, hd, _⟩ := h.mirrors
  exact hd.toBuffered.placed h.aligned

/-- The size told to the client is one the file has already, behind the buffer. -/
theorem Mirrors.updateUnderlyingFileSize {s : Stream} {d : Fd} (h : Mirrors s d) (hdirty : s.dirtyFlag = true) :
    Mirrors s.updateUnderlyingFileSize d := by
  have hsize := h.size
  refine ⟨⟨h.data_le, h.pointer, h.size, ?_, ?_, h.writable⟩, h.empty, ?_, ?_⟩
  · show d.file = (s.fd.file.grow s.fileSize).write s.bufFileOff (slice s.buf 0 s.bufferedDataSize)
    rw [hsize, h.content, ByteFile.grow_write]
  · intro hc
    exact absurd (hdirty.symm.trans hc) (by decide)
  · intro hc
    exact absurd (hdirty.symm.trans hc) (by decide)
  · intro hc
    exact absurd (hdirty.symm.trans hc) (by decide)

/-- **`CBB_write`** inside the file or right at its end takes all bytes. -/
theorem FuseInv.cbbWrite {s : Stream} {file : ByteFile Byte} (h : FuseInv s file) {offset : Nat} (bytes : List Byte)
    (hoff : offset ≤ file.size) : ∃ s', s.cbbWrite offset bytes = some (bytes.length, s') ∧
      FuseInv s' (file.write offset bytes) ∧ (s.seekTo offset).Placed ∧ ∀ p ∈ (s.seekTo offset).writePoints bytes, p.Placed := by
  obtain ⟨d, hd, rfl⟩ := h.mirrors
  have hseek := hd.seekTo offset
  have haligned := Stream.seekTo_aligned hd.toBuffered h.aligned offset
  have hat : (s.seekTo offset).curFileOff = offset := hseek.curFileOff
  have hsize : (s.seekTo offset).fileSize = d.file.size := hseek.size
  have hsafe : WriteSafe (s.seekTo offset) bytes := by
    refine ⟨?_, fun _ => by omega⟩
    unfold Stream.seekTo
    split
    · -- the buffer was flushed, so that the file underneath is the whole file
      right
      show ((getBlockStartPoint offset : Nat) : Int) + ((offset : Int) - getBlockStartPoint offset) ≤ s.flush.fd.file.size
      rw [hd.toBuffered.flush.1.file]
      omega
    · left
      show (offset : Int) - s.curFileOff + s.curBufOff ≤ s.bufferedDataSize
      unfold Stream.curFileOff
      omega
  obtain ⟨s', hw, hmir, hdirty⟩ := hseek.writeStream hsafe
  have hpoints := hseek.writePoints hsafe haligned
  have hplaced := hpoints s' (Stream.writeStream_mem hw)
  refine ⟨s'.updateUnderlyingFileSize, ?_, ⟨⟨_, hmir.updateUnderlyingFileSize hdirty, rfl⟩, hplaced.1⟩,
    hseek.toBuffered.placed haligned, hpoints⟩
  unfold Stream.cbbWrite
  rw [hw]

/-- A flush keeps the window. -/
theorem FuseInv.flush {s : Stream} {file : ByteFile Byte} (h : FuseInv s file) : FuseInv s.flush file := by
  obtain ⟨d, hd, hfile⟩ := h.mirrors
  refine ⟨⟨d, hd.flush, hfile⟩, ?_⟩
  rw [hd.toBuffered.flush.1.off]
  exact h.aligned

/-- **One call** overwrites the file, and every state it goes through has its window at a block. -/
theorem FuseInv.call {s : Stream} {file : ByteFile Byte} (h : FuseInv s file) (op : FuseCall) (hop : op.NoHole file) :
    ∃ s', s.call op = some s' ∧ FuseInv s' (op.overwrite file) ∧ ∀ p ∈ s.callPoints op, p.Placed := by
  cases op with
  | write offset bytes =>
      obtain ⟨s', hw, hinv, hseek, hpoints⟩ := h.cbbWrite bytes hop
      refine ⟨s', ?_, hinv, ?_⟩
      · unfold Stream.call
        simp only [hw, Option.map_some]
      · intro p hp
        rcases List.mem_cons.mp hp with rfl | hp
        · exact hseek
        · exact hpoints p hp
  | flush =>
      refine ⟨s.flush, rfl, h.flush, ?_⟩
      intro p hp
      rw [List.mem_singleton.mp hp]
      exact h.flush.placed

/-- **A run of calls.** -/
theorem FuseInv.run {s : Stream} {file : ByteFile Byte} (h : FuseInv s file) (ops : List FuseCall) (hops : NoHoles file ops) :
    ∃ s', Run.run Stream.call s ops = some s' ∧ FuseInv s' (ops.foldl FuseCall.overwrite file) ∧
      ∀ p ∈ s.points ops, p.Placed := by
  induction ops generalizing s file with
  | nil =>
      refine ⟨s, rfl, h, ?_⟩
      intro p hp
      rcases List.mem_cons.mp hp with rfl | hp
      · exact h.placed
      · rw [List.mem_singleton.mp hp]
        exact h.flush.placed
  | cons op ops ih =>
      obtain ⟨s1, hcall, hinv, hpoints⟩ := h.call op hops.1
      obtain ⟨s', hrun, hinv', hrest⟩ := ih hinv hops.2
      refine ⟨s', ?_, hinv', ?_⟩
      · simp only [Run.run, hcall]
        exact hrun
      · intro p hp
        unfold Stream.points at hp
        rw [hcall] at hp
        rcases List.mem_cons.mp hp with rfl | hp
        · exact h.placed
        rcases List.mem_append.mp hp with hp | hp
        · exact hpoints p hp
        · exact hrest p hp

/-- **Every write through FUSE reaches the file.** Over any file, any run of writes that leave no hole and
    of flushes has a result; what is released is the file overwritten by the writes in order, and in every
    state of the run the window starts at a block with the pointer in the buffer. -/
theorem fuse_writes_reach_file (file : ByteFile Byte) (openFlag : BitVec 32)
    (hflag : openFlag &&& O_WRONLY ≠ 0 ∨ openFlag &&& O_RDWR ≠ 0) (memory : Nat → Byte) (ops : List FuseCall)
    (hops : NoHoles file ops) :
    ∃ s, Run.run Stream.call (Stream.opened file openFlag memory) ops = some s ∧
      s.cbbRelease = ops.foldl FuseCall.overwrite file ∧
      ∀ p ∈ (Stream.opened file openFlag memory).points ops, p.Placed := by
  have hinv : FuseInv (Stream.opened file openFlag memory) file :=
    ⟨⟨⟨file, 0⟩, Mirrors.opened file memory hflag, rfl⟩, Nat.dvd_zero _⟩
  obtain ⟨s, hrun, hs, hpoints⟩ := hinv.run ops hops
  refine ⟨s, hrun, ?_, hpoints⟩
  obtain ⟨d, hd, hfile⟩ := hs.mirrors
  rw [← hfile]
  exact hd.toBuffered.flush.1.file

/-- A write over the middle of `abcdef`, a flush, a write at its end. -/
theorem fuse_writes_reach_file_six :
    ∃ s, Run.run Stream.call (Stream.opened sixBytes O_WRONLY (fun _ => 0)) [.write 2 [120], .flush, .write 6 [121]] = some s ∧
      s.cbbRelease = (sixBytes.write 2 [120]).write 6 [121] ∧
      ∀ p ∈ (Stream.opened sixBytes O_WRONLY (fun _ => 0)).points [.write 2 [120], .flush, .write 6 [121]], p.Placed :=
  fuse_writes_reach_file sixBytes O_WRONLY (by decide) (fun _ => 0) [.write 2 [120], .flush, .write 6 [121]]
    ⟨by decide, trivial, by decide, trivial⟩

end HuronFS
