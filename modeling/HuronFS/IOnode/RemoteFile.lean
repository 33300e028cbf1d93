import HuronFS.Common.Const
import HuronFS.Lib.ByteFile
import HuronFS.Lib.Run

/-!
# `IOnode.RemoteFile` — one file of the shared storage, used by two threads

A `file` has one descriptor for reading and one for writing, `read_remote_fd` and `write_remote_fd`. `_write_to_storage` and
`_read_from_storage` open the one they need unless it is open, position it, transfer, and close both. The handler and the
remote task thread can be in these functions at once, for two blocks of one file; every system call is a step here.

A descriptor is a number that is not given out again: neither thread opens a second time, so the number the other still has
cannot come to mean another file.
-/

namespace HuronFS

abbrev MAX_OPEN_FILE_COUNT : Nat := 4096

/-- `file`, as far as the storage goes. `offset` has the offset of each open descriptor, `opened` counts those given out. -/
structure RemoteFile where
  storage : ByteFile Byte
  readRemoteFd : Option Nat
  writeRemoteFd : Option Nat
  offset : Nat → Option Nat
  opened : Nat
  openFileCount : Nat

namespace RemoteFile

/-- The descriptor for one kind of access. -/
def fd (f : RemoteFile) (write : Bool) : Option Nat := if write then f.writeRemoteFd else f.readRemoteFd

def setFd (f : RemoteFile) (write : Bool) (fd : Option Nat) : RemoteFile :=
  if write then { f with writeRemoteFd := fd } else { f with readRemoteFd := fd }

/-- `_open_remote_file`; no result when too many files are open. -/
def openRemoteFile (f : RemoteFile) (write : Bool) : Option (Nat × RemoteFile) :=
  match f.fd write with
  | some fd => some (fd, f)
  | none =>
      if MAX_OPEN_FILE_COUNT ≤ f.openFileCount then none
      else
        some (f.opened, { f with
          offset := Function.update f.offset f.opened (some 0)
          opened := f.opened + 1
          openFileCount := f.openFileCount + 1 }.setFd write (some f.opened))

/-- `close`, if there is something to close. -/
def close (f : RemoteFile) (write : Bool) : RemoteFile :=
  match f.fd write with
  | none => f
  | some fd => { f with offset := Function.update f.offset fd none, openFileCount := f.openFileCount - 1 }.setFd write none

/-- `_close_remote_file`. -/
def closeRemoteFile (f : RemoteFile) : RemoteFile := (f.close false).close true

/-- `lseek64` on an open descriptor. -/
def seek (f : RemoteFile) (fd pos : Nat) : RemoteFile := { f with offset := Function.update f.offset fd (some pos) }

end RemoteFile

/-- `block`, as far as the storage goes: `data_size` bytes of its memory count. -/
structure StorageBlock where
  index : Nat
  data : Nat → Byte
  dataSize : Nat
  le : dataSize ≤ BLOCK_SIZE

/-- `start_point`. -/
def StorageBlock.startPoint (b : StorageBlock) : Nat := b.index * BLOCK_SIZE

/-- Where a thread is in its function; `done` bytes are transferred. -/
inductive StoragePhase
  | opening
  | seeking (fd : Nat)
  | moving (fd done : Nat)
  | closing
  | finished
  | failed
deriving DecidableEq

/-- A thread in `_write_to_storage`, or in `_read_from_storage`. `toBeDeleted` is the `postponed_operation` of the block, and `base`
    is where `iov_base` points, from the start of the block's memory. -/
structure Worker where
  block : StorageBlock
  write : Bool
  toBeDeleted : Bool
  phase : StoragePhase
  base : Nat

namespace Worker

/-- The thread still has system calls before it on its descriptor that transfer something. -/
def transferring (w : Worker) : Bool :=
  match w.phase with
  | .moving _ done => decide (done < w.block.dataSize)
  | _ => false

/-- The thread has a descriptor it is going to use. -/
def holding (w : Worker) : Bool :=
  match w.phase with
  | .seeking _ => true
  | _ => w.transferring

/-- One transfer, at offset `pos`: `write` puts down at most `n` bytes, `readv` gets all there is. The thread leaves its loop when
    nothing comes. -/
def transfer (w : Worker) (f : RemoteFile) (fd done pos n : Nat) : Worker × RemoteFile :=
  if w.write then
    let k := max 1 (min n (w.block.dataSize - done))
    ({ w with phase := .moving fd (done + k) },
      { f with storage := f.storage.write pos (Region.slice w.block.data done k) }.seek fd (pos + k))
  else
    let bytes := f.storage.read pos (w.block.dataSize - done)
    if bytes = [] then ({ w with phase := .closing }, f)
    else
      ({ w with
        block := { w.block with data := Region.patch w.block.data w.base bytes }
        phase := .moving fd (done + bytes.length)
        base := bytes.length }, f.seek fd (pos + bytes.length))

/-- The next system call. A descriptor that was closed ends a transfer without an error; `lseek64` on it throws in
    `_write_to_storage`, and lets `_read_from_storage` return at once. -/
def advance (w : Worker) (f : RemoteFile) (n : Nat) : Option (Worker × RemoteFile) :=
  match w.phase with
  | .opening =>
      match f.openRemoteFile w.write with
      | none => some ({ w with phase := .failed }, f)
      | some (fd, f) => some ({ w with phase := if w.write && w.toBeDeleted then .closing else .seeking fd }, f)
  | .seeking fd =>
      match f.offset fd with
      | none => some ({ w with phase := if w.write then .failed else .finished }, f)
      | some _ => some ({ w with phase := .moving fd 0, base := 0 }, f.seek fd w.block.startPoint)
  | .moving fd done =>
      if w.block.dataSize ≤ done then some ({ w with phase := .closing }, f)
      else
        match f.offset fd with
        | none => some ({ w with phase := .closing }, f)
        | some pos => some (w.transfer f fd done pos n)
  | .closing => some ({ w with phase := .finished }, f.closeRemoteFile)
  | .finished | .failed => none

end Worker

inductive Side
  | background
  | foreground
deriving DecidableEq

def Side.other : Side → Side
  | .background => .foreground
  | .foreground => .background

/-- The file and the two threads. -/
structure SharedStorage where
  file : RemoteFile
  worker : Side → Worker

/-- What a thread is called for: `_write_to_storage` or `_read_from_storage` of a block. -/
structure StorageJob where
  block : StorageBlock
  write : Bool
  toBeDeleted : Bool

namespace SharedStorage

/-- The two threads enter their functions; the file has no descriptor open. -/
def start (storage : ByteFile Byte) (openFileCount : Nat) (job : Side → StorageJob) : SharedStorage where
  file := { storage := storage, readRemoteFd := none, writeRemoteFd := none, offset := fun _ => none, opened := 0, openFileCount := openFileCount }
  worker := fun t => { block := (job t).block, write := (job t).write, toBeDeleted := (job t).toBeDeleted, phase := .opening, base := 0 }

/-- One thread takes a step. -/
def step (s : SharedStorage) (e : Side × Nat) : Option SharedStorage :=
  ((s.worker e.1).advance s.file e.2).map (fun (w, f) => { file := f, worker := Function.update s.worker e.1 w })

/-- The condition on a step of `w`, at its phase, while the other thread is at `o`: a descriptor can be opened; the offset of the
    descriptor both threads use is not changed while the other transfers; the descriptors are not closed while the other still
    needs one. -/
def Undisturbing (f : RemoteFile) (w o : Worker) : StoragePhase → Prop
  | .opening => (f.fd w.write).isSome ∨ f.openFileCount < MAX_OPEN_FILE_COUNT
  | .seeking _ => w.write = o.write → o.transferring = false
  | .moving _ done => done < w.block.dataSize → w.write = o.write → o.transferring = false
  | .closing => o.holding = false
  | .finished | .failed => True

instance Undisturbing.decidable (f : RemoteFile) (w o : Worker) : (phase : StoragePhase) → Decidable (Undisturbing f w o phase)
  | .opening => inferInstanceAs (Decidable (_ ∨ _))
  | .seeking _ => inferInstanceAs (Decidable (_ → _))
  | .moving _ _ => inferInstanceAs (Decidable (_ → _ → _))
  | .closing => inferInstanceAs (Decidable (_ = _))
  | .finished => .isTrue trivial
  | .failed => .isTrue trivial

/-- The step does not disturb the other thread. -/
def Undisturbed (s : SharedStorage) (e : Side × Nat) : Prop :=
  Undisturbing s.file (s.worker e.1) (s.worker e.1.other) (s.worker e.1).phase

instance (s : SharedStorage) (e : Side × Nat) : Decidable (s.Undisturbed e) := Undisturbing.decidable _ _ _ _

end SharedStorage

/-! ## Descriptors -/

namespace RemoteFile

/-- The two descriptors of the file are open and not the same. -/
structure Ok (f : RemoteFile) : Prop where
  isOpen : ∀ write d, f.fd write = some d → d < f.opened ∧ (f.offset d).isSome
  apart : ∀ d, f.fd true = some d → f.fd false ≠ some d

theorem fd_setFd (f : RemoteFile) (write other : Bool) (d : Option Nat) :
    (f.setFd write d).fd other = if other = write then d else f.fd other := by
  cases write <;> cases other <;> rfl

@[simp] theorem setFd_offset (f : RemoteFile) (write : Bool) (d : Option Nat) : (f.setFd write d).offset = f.offset := by
  cases write <;> rfl

@[simp] theorem setFd_opened (f : RemoteFile) (write : Bool) (d : Option Nat) : (f.setFd write d).opened = f.opened := by
  cases write <;> rfl

@[simp] theorem setFd_storage (f : RemoteFile) (write : Bool) (d : Option Nat) : (f.setFd write d).storage = f.storage := by
  cases write <;> rfl

theorem Ok.ne {f : RemoteFile} (h : f.Ok) {a b : Bool} (hab : a ≠ b) {d d' : Nat} (hd : f.fd a = some d) (hd' : f.fd b = some d') :
    d ≠ d' := by
  rintro rfl
  cases a <;> cases b
  · exact hab rfl
  · exact h.apart d hd' hd
  · exact h.apart d hd hd'
  · exact hab rfl

/-- `_open_remote_file` gives the descriptor of the file, open; the other one is as it was. -/
theorem Ok.openRemoteFile {f f' : RemoteFile} {write : Bool} {d : Nat} (h : f.Ok) (hr : f.openRemoteFile write = some (d, f')) :
    f'.Ok ∧ f'.fd write = some d ∧ f'.storage = f.storage ∧ (∀ m e, f.fd m = some e → f'.fd m = some e ∧ f'.offset e = f.offset e) := by
  unfold RemoteFile.openRemoteFile at hr
  split at hr
  · rename_i e he
    cases hr
    exact ⟨h, he, rfl, fun m e he => ⟨he, rfl⟩⟩
  · rename_i hnone
    split at hr
    · cases hr
    · cases hr
      have hfresh : ∀ m e, f.fd m = some e → m ≠ write ∧ e ≠ f.opened := by
        intro m e he
        refine ⟨?_, Nat.ne_of_lt (h.isOpen m e he).1⟩
        rintro rfl
        rw [hnone] at he
        cases he
      refine ⟨⟨?_, ?_⟩, ?_, by simp, ?_⟩
      · intro m e he
        rw [fd_setFd] at he
        simp only [setFd_opened, setFd_offset]
        split at he
        · cases he
          exact ⟨Nat.lt_succ_self _, by rw [Function.update_self]; rfl⟩
        · obtain ⟨hlt, hopen⟩ := h.isOpen m e he
          refine ⟨Nat.lt_succ_of_lt hlt, ?_⟩
          rw [Function.update_of_ne (Nat.ne_of_lt hlt)]
          exact hopen
      · intro e he he'
        rw [fd_setFd] at he he'
        cases write with
        | false =>
            rw [if_pos rfl] at he'
            rw [if_neg (by decide)] at he
            cases he'
            exact (hfresh true _ he).2 rfl
        | true =>
            rw [if_pos rfl] at he
            rw [if_neg (by decide)] at he'
            cases he
            exact (hfresh false _ he').2 rfl
      · rw [fd_setFd, if_pos rfl]
      · intro m e he
        obtain ⟨hm, hne⟩ := hfresh m e he
        rw [fd_setFd, if_neg hm]
        refine ⟨he, ?_⟩
        rw [setFd_offset]
        exact Function.update_of_ne hne _ _

@[simp] theorem seek_fd (f : RemoteFile) (d pos : Nat) (m : Bool) : (f.seek d pos).fd m = f.fd m := rfl

theorem Ok.seek {f : RemoteFile} (h : f.Ok) (d pos : Nat) (storage : ByteFile Byte) : ({ f with storage := storage }.seek d pos).Ok := by
  refine ⟨?_, h.apart⟩
  intro m e he
  obtain ⟨hlt, hopen⟩ := h.isOpen m e he
  refine ⟨hlt, ?_⟩
  show (Function.update f.offset d (some pos) e).isSome
  by_cases hed : e = d
  · rw [hed, Function.update_self]
    rfl
  · rw [Function.update_of_ne hed]
    exact hopen

theorem Ok.closeRemoteFile (f : RemoteFile) : f.closeRemoteFile.Ok ∧ f.closeRemoteFile.storage = f.storage := by
  have hstorage : ∀ (g : RemoteFile) m, (g.close m).storage = g.storage := by
    intro g m
    unfold close
    split
    · rfl
    · simp
  have hfd : ∀ (g : RemoteFile) m, (g.close m).fd m = none ∧ ∀ m', g.fd m' = none → (g.close m).fd m' = none := by
    intro g m
    unfold close
    split
    · rename_i hnone
      exact ⟨hnone, fun _ h => h⟩
    · refine ⟨by rw [fd_setFd, if_pos rfl], ?_⟩
      intro m' hm'
      rw [fd_setFd]
      split
      · rfl
      · exact hm'
  have hnone : ∀ m, f.closeRemoteFile.fd m = none := by
    intro m
    cases m with
    | true => exact (hfd _ true).1
    | false => exact (hfd _ true).2 false (hfd f false).1
  refine ⟨⟨?_, ?_⟩, (hstorage _ _).trans (hstorage _ _)⟩
  · intro m d hd
    rw [hnone] at hd
    cases hd
  · intro d hd
    rw [hnone] at hd
    cases hd

end RemoteFile

/-! ## What a thread has reached -/

namespace Worker

/-- The block's first `n` bytes are in the storage. -/
def Stored (w : Worker) (F : ByteFile Byte) (n : Nat) : Prop :=
  (∀ i < n, F.cell (w.block.startPoint + i) = w.block.data i) ∧ (0 < n → w.block.startPoint + n ≤ F.size)

/-- The bytes of the block that are among the first `n` of the storage are those of the storage. -/
def Filled (w : Worker) (F : ByteFile Byte) (n : Nat) : Prop :=
  ∀ i < w.block.dataSize, w.block.startPoint + i < n → w.block.data i = F.cell (w.block.startPoint + i)

/-- `readv` has read up to the end of the file, or beyond nothing. A second `readv` finds something only if the file has grown, and then
    it has grown beyond the block. -/
structure Reading (w : Worker) (F : ByteFile Byte) (done : Nat) : Prop where
  read : ∀ i < done, w.block.data i = F.cell (w.block.startPoint + i)
  base : w.base = done ∨ done = w.block.dataSize
  stop : done = 0 ∨ done = w.block.dataSize ∨ F.size = w.block.startPoint + done ∨ w.block.startPoint + BLOCK_SIZE ≤ F.size

/-- What holds of a thread, where it is; the file had `n` bytes at first. -/
def Sound (w : Worker) (f : RemoteFile) (n : Nat) : StoragePhase → Prop
  | .opening => True
  | .seeking d => f.fd w.write = some d
  | .moving d done => done ≤ w.block.dataSize ∧
      (done < w.block.dataSize → f.fd w.write = some d ∧ f.offset d = some (w.block.startPoint + done)) ∧
      (w.write = true → w.Stored f.storage done) ∧ (w.write = false → w.Reading f.storage done)
  | .closing | .finished =>
      (w.write = true → w.toBeDeleted = false → w.Stored f.storage w.block.dataSize) ∧ (w.write = false → w.Filled f.storage n)
  | .failed => False

/-- What the other thread may do to the file, seen from here. -/
structure Frame (w : Worker) (f f' : RemoteFile) : Prop where
  fd : w.holding = true → ∀ d, f.fd w.write = some d → f'.fd w.write = some d
  offset : w.transferring = true → ∀ d, f.fd w.write = some d → f'.offset d = f.offset d
  cell : ∀ i < BLOCK_SIZE, f'.storage.cell (w.block.startPoint + i) = f.storage.cell (w.block.startPoint + i)
  size : f.storage.size ≤ f'.storage.size
  grown : f'.storage.size = f.storage.size ∨ w.block.startPoint + BLOCK_SIZE ≤ f'.storage.size ∨ f'.storage.size ≤ w.block.startPoint

/-- A file whose storage is left alone. -/
theorem Frame.of_storage {w : Worker} {f f' : RemoteFile} (hstorage : f'.storage = f.storage)
    (hfd : w.holding = true → ∀ d, f.fd w.write = some d → f'.fd w.write = some d)
    (hoffset : w.transferring = true → ∀ d, f.fd w.write = some d → f'.offset d = f.offset d) : Frame w f f' := by
  refine ⟨hfd, hoffset, ?_, ?_, ?_⟩
  · intro i _
    rw [hstorage]
  · rw [hstorage]
  · rw [hstorage]
    exact Or.inl rfl

theorem holding_of_transferring {w : Worker} (h : w.transferring = true) : w.holding = true := by
  unfold holding
  split
  · rfl
  · exact h

theorem Stored.frame {w : Worker} {f f' : RemoteFile} {n : Nat} (h : w.Stored f.storage n) (hf : Frame w f f') (hn : n ≤ w.block.dataSize) :
    w.Stored f'.storage n := by
  have hle := w.block.le
  refine ⟨?_, ?_⟩
  · intro i hi
    rw [hf.cell i (by omega)]
    exact h.1 i hi
  · intro hpos
    exact Nat.le_trans (h.2 hpos) hf.size

/-- **A thread is where it was** after a step of the other that keeps to the frame. -/
theorem Sound.frame {w : Worker} {f f' : RemoteFile} {n : Nat} (h : w.Sound f n w.phase) (hf : Frame w f f') : w.Sound f' n w.phase := by
  have hle := w.block.le
  cases hphase : w.phase with
  | opening => trivial
  | seeking d =>
      rw [hphase] at h
      exact hf.fd (by unfold holding; rw [hphase]) d h
  | moving d done =>
      rw [hphase] at h
      obtain ⟨hdone, hat, hstored, hreading⟩ := h
      refine ⟨hdone, ?_, fun hw => (hstored hw).frame hf hdone, ?_⟩
      · intro hlt
        obtain ⟨hfd, hoff⟩ := hat hlt
        have htrans : w.transferring = true := by
          unfold transferring
          rw [hphase]
          exact decide_eq_true hlt
        refine ⟨hf.fd (holding_of_transferring htrans) d hfd, ?_⟩
        rw [hf.offset htrans d hfd]
        exact hoff
      · intro hw
        have hreached := hreading hw
        refine ⟨?_, hreached.base, ?_⟩
        · intro i hi
          rw [hf.cell i (by omega)]
          exact hreached.read i hi
        · rcases hreached.stop with hs | hs | hs | hs
          · exact Or.inl hs
          · exact Or.inr (Or.inl hs)
          · have hsize := hf.size
            rcases hf.grown with hg | hg | hg
            · exact Or.inr (Or.inr (Or.inl (hg.trans hs)))
            · exact Or.inr (Or.inr (Or.inr hg))
            · exact Or.inl (by omega)
          · exact Or.inr (Or.inr (Or.inr (Nat.le_trans hs hf.size)))
  | closing | finished =>
      rw [hphase] at h
      obtain ⟨hstored, hfilled⟩ := h
      refine ⟨fun hw hdel => (hstored hw hdel).frame hf (Nat.le_refl _), ?_⟩
      intro hw i hi hn
      rw [hf.cell i (by omega)]
      exact hfilled hw i hi hn
  | failed =>
      rw [hphase] at h
      exact h

/-! ## One step -/

/-- The parts of a thread that do not change. -/
structure Same (w w' : Worker) : Prop where
  index : w'.block.index = w.block.index
  dataSize : w'.block.dataSize = w.block.dataSize
  write : w'.write = w.write
  toBeDeleted : w'.toBeDeleted = w.toBeDeleted
  data : w.write = true → w'.block.data = w.block.data

/-- What is written in one block is not seen in another. -/
theorem cell_write_other {F : ByteFile Byte} {B i j off : Nat} {l : List Byte} (hij : i ≠ j) (hoff : j * B ≤ off)
    (hend : off + l.length ≤ j * B + B) {k : Nat} (hk : k < B) : (F.write off l).cell (i * B + k) = F.cell (i * B + k) := by
  rw [ByteFile.cell_write]
  apply Region.patch_outside
  rcases Nat.lt_or_gt_of_ne hij with hlt | hlt
  · left
    have hle := Nat.mul_le_mul_right B (Nat.succ_le_of_lt hlt)
    rw [Nat.succ_mul] at hle
    omega
  · right
    have hle := Nat.mul_le_mul_right B (Nat.succ_le_of_lt hlt)
    rw [Nat.succ_mul] at hle
    omega

/-- A write makes the file end in the block it is in, or leaves its size. -/
theorem size_write_other {F : ByteFile Byte} {B i j off : Nat} {l : List Byte} (hij : i ≠ j) (hoff : j * B ≤ off)
    (hend : off + l.length ≤ j * B + B) :
    (F.write off l).size = F.size ∨ i * B + B ≤ (F.write off l).size ∨ (F.write off l).size ≤ i * B := by
  by_cases hl : l = []
  · rw [hl, ByteFile.write_nil]
    exact Or.inl rfl
  · rw [ByteFile.size_write F off hl]
    rcases Nat.lt_or_gt_of_ne hij with hlt | hlt
    · have hle := Nat.mul_le_mul_right B (Nat.succ_le_of_lt hlt)
      rw [Nat.succ_mul] at hle
      omega
    · have hle := Nat.mul_le_mul_right B (Nat.succ_le_of_lt hlt)
      rw [Nat.succ_mul] at hle
      omega

/-- The bytes a `write` adds to those that are there. -/
theorem Stored.write {w : Worker} {F : ByteFile Byte} {done k : Nat} (h : w.Stored F done) (hk : 0 < k) :
    w.Stored (F.write (w.block.startPoint + done) (Region.slice w.block.data done k)) (done + k) := by
  have hl : Region.slice w.block.data done k ≠ [] := by
    intro hc
    have hlen := Region.length_slice w.block.data done k
    rw [hc] at hlen
    exact Nat.ne_of_lt hk hlen
  refine ⟨?_, ?_⟩
  · intro i hi
    rw [ByteFile.cell_write]
    by_cases hid : i < done
    · rw [Region.patch_outside (Or.inl (by omega))]
      exact h.1 i hid
    · obtain ⟨j, rfl⟩ := Nat.exists_eq_add_of_le (Nat.le_of_not_lt hid)
      have hj : j < (Region.slice w.block.data done k).length := by
        rw [Region.length_slice]
        omega
      rw [← Nat.add_assoc, Region.patch_at hj]
      apply Option.some.inj
      rw [← List.getElem?_eq_getElem hj, Region.getElem?_slice (by omega)]
  · intro _
    rw [ByteFile.size_write F _ hl, Region.length_slice]
    omega

/-- The bytes a `readv` adds. It reads up to the end of the file or of the block; the second one is the last. -/
theorem Reading.readv {w : Worker} {F : ByteFile Byte} {done : Nat} (h : w.Reading F done) (hlt : done < w.block.dataSize)
    {bytes : List Byte} (hbytes : F.read (w.block.startPoint + done) (w.block.dataSize - done) = bytes) (hne : bytes ≠ []) (phase : StoragePhase) :
    done + bytes.length ≤ w.block.dataSize ∧
    Reading { w with
      block := { w.block with data := Region.patch w.block.data w.base bytes }
      phase := phase
      base := bytes.length } F (done + bytes.length) := by
  have hbase : w.base = done := h.base.resolve_right (Nat.ne_of_lt hlt)
  have hlen := ByteFile.length_read F (w.block.startPoint + done) (w.block.dataSize - done)
  rw [hbytes] at hlen
  have hpos : 0 < bytes.length := List.length_pos_of_ne_nil hne
  have hle := w.block.le
  refine ⟨by omega, ?_, ?_, ?_⟩
  · intro i hi
    show Region.patch w.block.data w.base bytes i = F.cell (w.block.startPoint + i)
    rw [hbase]
    by_cases hid : i < done
    · rw [Region.patch_outside (Or.inl hid)]
      exact h.read i hid
    · obtain ⟨j, rfl⟩ := Nat.exists_eq_add_of_le (Nat.le_of_not_lt hid)
      have hj : j < bytes.length := by omega
      rw [Region.patch_at hj]
      apply Option.some.inj
      rw [← List.getElem?_eq_getElem hj, ← hbytes, ByteFile.read, Region.getElem?_slice (by omega), Nat.add_assoc]
  · show bytes.length = done + bytes.length ∨ done + bytes.length = w.block.dataSize
    rcases h.stop with hs | hs | hs | hs <;> omega
  · show done + bytes.length = 0 ∨ done + bytes.length = w.block.dataSize ∨ F.size = w.block.startPoint + (done + bytes.length) ∨
      w.block.startPoint + BLOCK_SIZE ≤ F.size
    omega

/-- **One system call**, when it does not disturb the other thread `o` and `o` has not disturbed this one. -/
theorem Sound.advance {w o w' : Worker} {f f' : RemoteFile} {n k : Nat} (hfile : f.Ok) (hn : n ≤ f.storage.size)
    (hne : o.block.index ≠ w.block.index) (h : w.Sound f n w.phase)
    (hg : SharedStorage.Undisturbing f w o w.phase) (hr : w.advance f k = some (w', f')) :
    f'.Ok ∧ w.Same w' ∧ w'.Sound f' n w'.phase ∧ o.Frame f f' := by
  have hsame : ∀ phase base, w.Same { w with phase := phase, base := base } := fun _ _ => ⟨rfl, rfl, rfl, rfl, fun _ => rfl⟩
  -- the descriptor of the other thread is another one, or is not in use
  have hother : ∀ d, f.fd w.write = some d → (w.write = o.write → o.transferring = false) → o.transferring = true →
      ∀ e, f.fd o.write = some e → e ≠ d := by
    intro d hd hfree htrans e he
    by_cases hmode : o.write = w.write
    · rw [hfree hmode.symm] at htrans
      cases htrans
    · exact hfile.ne hmode he hd
  unfold Worker.advance at hr
  cases hphase : w.phase with
  | opening =>
      rw [hphase] at hr hg
      simp only at hr
      cases hopen : f.openRemoteFile w.write with
      | none =>
          -- the file can be opened
          exfalso
          unfold RemoteFile.openRemoteFile at hopen
          split at hopen
          · cases hopen
          · rename_i hnone
            rcases hg with hsome | hcount
            · rw [hnone] at hsome
              cases hsome
            · rw [if_neg (by omega)] at hopen
              cases hopen
      | some e =>
          obtain ⟨d, g⟩ := e
          rw [hopen] at hr
          simp only [Option.some.injEq, Prod.mk.injEq] at hr
          obtain ⟨rfl, rfl⟩ := hr
          obtain ⟨hok, hfd, hstorage, hkeep⟩ := hfile.openRemoteFile hopen
          refine ⟨hok, hsame _ _, ?_, Frame.of_storage hstorage (fun _ e he => (hkeep _ e he).1) (fun _ e he => (hkeep _ e he).2)⟩
          by_cases hdel : (w.write && w.toBeDeleted) = true
          · rw [if_pos hdel]
            rw [Bool.and_eq_true] at hdel
            refine ⟨fun _ hc => ?_, fun hc => ?_⟩
            · rw [show w.toBeDeleted = false from hc] at hdel
              cases hdel.2
            · rw [show w.write = false from hc] at hdel
              cases hdel.1
          · rw [if_neg hdel]
            exact hfd
  | seeking d =>
      rw [hphase] at hr hg h
      have hfd : f.fd w.write = some d := h
      obtain ⟨pos, hpos⟩ := Option.isSome_iff_exists.mp (hfile.isOpen w.write d hfd).2
      simp only [hpos, Option.some.injEq, Prod.mk.injEq] at hr
      obtain ⟨rfl, rfl⟩ := hr
      refine ⟨hfile.seek d _ f.storage, hsame _ _, ⟨Nat.zero_le _, ?_, ?_, ?_⟩, ?_⟩
      · intro _
        refine ⟨hfd, ?_⟩
        rw [Nat.add_zero]
        exact Function.update_self ..
      · intro _
        refine ⟨fun i hi => absurd hi (Nat.not_lt_zero i), fun hc => absurd hc (Nat.lt_irrefl 0)⟩
      · intro _
        exact ⟨fun i hi => absurd hi (Nat.not_lt_zero i), Or.inl rfl, Or.inl rfl⟩
      · refine Frame.of_storage rfl (fun _ e he => he) ?_
        intro htrans e he
        exact Function.update_of_ne (hother d hfd hg htrans e he) _ _
  | moving d done =>
      rw [hphase] at hr hg h
      obtain ⟨hdone, hat, hstored, hreading⟩ := h
      simp only at hr
      have hframe : o.Frame f f := Frame.of_storage rfl (fun _ _ he => he) (fun _ _ _ => rfl)
      by_cases hall : w.block.dataSize ≤ done
      · -- the loop ends: all is transferred
        rw [if_pos hall] at hr
        simp only [Option.some.injEq, Prod.mk.injEq] at hr
        obtain ⟨rfl, rfl⟩ := hr
        have heq : done = w.block.dataSize := Nat.le_antisymm hdone hall
        rw [heq] at hstored hreading
        refine ⟨hfile, hsame _ _, ⟨fun hw _ => hstored hw, ?_⟩, hframe⟩
        intro hw i hi _
        exact (hreading hw).read i hi
      · have hlt : done < w.block.dataSize := Nat.lt_of_not_le hall
        obtain ⟨hfd, hoff⟩ := hat hlt
        have hle := w.block.le
        rw [if_neg hall, hoff] at hr
        simp only [Option.some.injEq] at hr
        unfold Worker.transfer at hr
        by_cases hw : w.write = true
        · -- `write`
          rw [if_pos hw] at hr
          simp only [Prod.mk.injEq] at hr
          obtain ⟨rfl, rfl⟩ := hr
          obtain ⟨c, hc⟩ : ∃ c, max 1 (min k (w.block.dataSize - done)) = c := ⟨_, rfl⟩
          rw [hc]
          have hin : w.block.index * BLOCK_SIZE ≤ w.block.startPoint + done ∧ w.block.startPoint + done +
              (Region.slice w.block.data done c).length ≤ w.block.index * BLOCK_SIZE + BLOCK_SIZE := by
            rw [Region.length_slice, ← StorageBlock.startPoint]
            omega
          refine ⟨hfile.seek _ _ _, hsame _ _, ⟨by show done + c ≤ w.block.dataSize; omega, ?_, ?_, ?_⟩, ?_⟩
          · intro _
            refine ⟨hfd, ?_⟩
            rw [← Nat.add_assoc]
            exact Function.update_self ..
          · intro _
            exact (hstored hw).write (by omega)
          · intro hc'
            rw [show w.write = false from hc'] at hw
            cases hw
          · refine ⟨fun _ e he => he, ?_, ?_, ByteFile.size_le_write .., ?_⟩
            · intro htrans e he
              exact Function.update_of_ne (hother d hfd (hg hlt) htrans e he) _ _
            · intro i hi
              exact cell_write_other hne hin.1 hin.2 hi
            · exact size_write_other hne hin.1 hin.2
        · -- `readv`
          rw [if_neg hw] at hr
          have hread' := hreading (Bool.eq_false_iff.mpr hw)
          simp only at hr
          obtain ⟨bytes, hbytes⟩ : ∃ bytes, f.storage.read (w.block.startPoint + done) (w.block.dataSize - done) = bytes := ⟨_, rfl⟩
          rw [hbytes] at hr
          by_cases hnil : bytes = []
          · rw [if_pos hnil] at hr
            simp only [Prod.mk.injEq] at hr
            obtain ⟨rfl, rfl⟩ := hr
            have hlen := ByteFile.length_read f.storage (w.block.startPoint + done) (w.block.dataSize - done)
            rw [hbytes, hnil, List.length_nil] at hlen
            refine ⟨hfile, hsame _ _, ⟨fun hc => ?_, ?_⟩, hframe⟩
            · exact absurd hc hw
            · intro _ i hi hin
              exact hread'.read i (by
                have hin' : w.block.startPoint + i < n := hin
                omega)
          · rw [if_neg hnil] at hr
            simp only [Prod.mk.injEq] at hr
            obtain ⟨rfl, rfl⟩ := hr
            obtain ⟨hdone', hread⟩ := hread'.readv hlt hbytes hnil (.moving d (done + bytes.length))
            refine ⟨hfile.seek _ _ f.storage, ⟨rfl, rfl, rfl, rfl, ?_⟩, ⟨hdone', ?_, ?_, fun _ => hread⟩, ?_⟩
            · intro hc
              exact absurd hc hw
            · intro _
              refine ⟨hfd, ?_⟩
              rw [← Nat.add_assoc]
              exact Function.update_self ..
            · intro hc
              exact absurd hc hw
            · refine Frame.of_storage rfl (fun _ e he => he) ?_
              intro htrans e he
              exact Function.update_of_ne (hother d hfd (hg hlt) htrans e he) _ _
  | closing =>
      rw [hphase] at hr hg h
      simp only [Option.some.injEq, Prod.mk.injEq] at hr
      obtain ⟨rfl, rfl⟩ := hr
      obtain ⟨hok, hstorage⟩ := RemoteFile.Ok.closeRemoteFile f
      refine ⟨hok, hsame _ _, ?_, Frame.of_storage hstorage ?_ ?_⟩
      · obtain ⟨hstored, hfilled⟩ := h
        refine ⟨?_, ?_⟩
        · rw [hstorage]
          exact hstored
        · rw [hstorage]
          exact hfilled
      · intro hc
        rw [show o.holding = false from hg] at hc
        cases hc
      · intro hc
        have hhold := holding_of_transferring hc
        rw [show o.holding = false from hg] at hhold
        cases hhold
  | finished | failed =>
      rw [hphase] at hr
      cases hr

end Worker

/-! ## Runs -/

namespace SharedStorage

/-- What is to hold in every state. -/
structure Intact (storage : ByteFile Byte) (job : Side → StorageJob) (s : SharedStorage) : Prop where
  notFailed : ∀ t, (s.worker t).phase ≠ .failed
  /-- The next transfer is on an open descriptor, at the offset the thread itself has come to. -/
  own : ∀ t d done, (s.worker t).phase = .moving d done → done < (job t).block.dataSize →
    s.file.offset d = some ((job t).block.startPoint + done)
  stored : ∀ t, (s.worker t).phase = .finished → (job t).write = true → (job t).toBeDeleted = false →
    s.file.storage.read (job t).block.startPoint (job t).block.dataSize = Region.slice (job t).block.data 0 (job t).block.dataSize
  filled : ∀ t, (s.worker t).phase = .finished → (job t).write = false → ∀ i < (job t).block.dataSize,
    (job t).block.startPoint + i < storage.size → (s.worker t).block.data i = s.file.storage.cell ((job t).block.startPoint + i)

/-- The invariant of the two threads. -/
structure Inv (storage : ByteFile Byte) (job : Side → StorageJob) (s : SharedStorage) : Prop where
  file : s.file.Ok
  size : storage.size ≤ s.file.storage.size
  same : ∀ t, Worker.Same ((start storage 0 job).worker t) (s.worker t)
  sound : ∀ t, (s.worker t).Sound s.file storage.size (s.worker t).phase

variable {storage : ByteFile Byte} {count : Nat} {job : Side → StorageJob} {s s' : SharedStorage}

theorem Inv.start : Inv storage job (start storage count job) := by
  refine ⟨⟨?_, ?_⟩, Nat.le_refl _, fun t => ⟨rfl, rfl, rfl, rfl, fun _ => rfl⟩, fun t => trivial⟩
  · intro write d hd
    cases write <;> cases hd
  · intro d hd
    cases hd

theorem Side.eq_other {t t' : Side} (h : t' ≠ t) : t' = t.other := by
  cases t <;> cases t' <;> first | rfl | exact absurd rfl h

theorem Inv.step (h : Inv storage job s) (hne : (job .background).block.index ≠ (job .foreground).block.index) {e : Side × Nat}
    (hg : s.Undisturbed e) (hr : s.step e = some s') : Inv storage job s' := by
  obtain ⟨t, k⟩ := e
  obtain ⟨⟨w', f'⟩, hadv, rfl⟩ := Option.map_eq_some_iff.mp hr
  have hindex : (s.worker t.other).block.index ≠ (s.worker t).block.index := by
    rw [(h.same t.other).index, (h.same t).index]
    cases t with
    | background => exact hne.symm
    | foreground => exact hne
  obtain ⟨hfile, hsame, hsound, hframe⟩ := (h.sound t).advance h.file h.size hindex hg hadv
  refine ⟨hfile, Nat.le_trans h.size hframe.size, ?_, ?_⟩
  · intro t'
    by_cases ht : t' = t
    · subst ht
      have hbefore := h.same t'
      show Worker.Same _ (Function.update s.worker t' w' t')
      rw [Function.update_self]
      refine ⟨hsame.index.trans hbefore.index, hsame.dataSize.trans hbefore.dataSize, hsame.write.trans hbefore.write,
        hsame.toBeDeleted.trans hbefore.toBeDeleted, ?_⟩
      intro hw
      exact (hsame.data (hbefore.write.trans hw)).trans (hbefore.data hw)
    · show Worker.Same _ (Function.update s.worker t w' t')
      rw [Function.update_of_ne ht]
      exact h.same t'
  · intro t'
    by_cases ht : t' = t
    · subst ht
      show (Function.update s.worker t' w' t').Sound f' storage.size (Function.update s.worker t' w' t').phase
      rw [Function.update_self]
      exact hsound
    · show (Function.update s.worker t w' t').Sound f' storage.size (Function.update s.worker t w' t').phase
      rw [Function.update_of_ne ht]
      have hs := h.sound t'
      rw [Side.eq_other ht] at hs ⊢
      exact hs.frame hframe

theorem Inv.intact (h : Inv storage job s) : Intact storage job s := by
  have hstart : ∀ t, (s.worker t).block.startPoint = (job t).block.startPoint := by
    intro t
    unfold StorageBlock.startPoint
    rw [(h.same t).index]
    rfl
  have hsize : ∀ t, (s.worker t).block.dataSize = (job t).block.dataSize := fun t => (h.same t).dataSize
  refine ⟨?_, ?_, ?_, ?_⟩
  · intro t hphase
    have hsound := h.sound t
    rw [hphase] at hsound
    exact hsound
  · intro t d done hphase hlt
    have hsound := h.sound t
    rw [hphase] at hsound
    rw [← hstart]
    exact (hsound.2.1 (by rw [hsize]; exact hlt)).2
  · intro t hphase hw hdel
    have hsound := h.sound t
    rw [hphase] at hsound
    obtain ⟨hcell, hend⟩ := hsound.1 ((h.same t).write.trans hw) ((h.same t).toBeDeleted.trans hdel)
    have hdata : (s.worker t).block.data = (job t).block.data := (h.same t).data hw
    rw [hstart, hsize] at hcell hend
    rw [hdata] at hcell
    rcases Nat.eq_zero_or_pos (job t).block.dataSize with hzero | hpos
    · rw [hzero]
      unfold ByteFile.read
      rw [Nat.zero_min]
      rfl
    · rw [ByteFile.read_within (hend hpos)]
      apply Region.slice_congr
      intro i hi
      rw [Nat.zero_add]
      exact hcell i hi
  · intro t hphase hw i hi hin
    have hsound := h.sound t
    rw [hphase] at hsound
    rw [← hstart] at hin ⊢
    exact hsound.2 ((h.same t).write.trans hw) i (by rw [hsize]; exact hi) hin

/-- **Two threads on one file do not disturb each other**, as long as neither changes the offset of a descriptor the other is
transferring on, or closes one the other still needs. -/
theorem write_back_undisturbed (hne : (job .background).block.index ≠ (job .foreground).block.index) {events : List (Side × Nat)}
    (hg : Run.Guarded step Undisturbed (start storage count job) events)
    (hr : Run.run step (start storage count job) events = some s) : Intact storage job s := by
  have hstep : ∀ (m : SharedStorage) e m', Inv storage job m → m.Undisturbed e → m.step e = some m' → Inv storage job m' :=
    fun m e m' hm he hs => hm.step hne he hs
  exact (Run.run_invariant hstep Inv.start hg hr).intact

/-- The first block, for the background, and the second, for the handler. -/
def twoBlocks (write : Bool) : Side → StorageJob
  | .background => { block := { index := 0, data := fun _ => 1, dataSize := 2, le := by decide }, write := true, toBeDeleted := false }
  | .foreground => { block := { index := 1, data := fun _ => 2, dataSize := 1, le := by decide }, write := write, toBeDeleted := false }

/-- The threads have the descriptor open at the same time, and take turns on it. -/
def politeRun : List (Side × Nat) :=
  [(.background, 1), (.foreground, 1), (.background, 1), (.background, 1), (.background, 1), (.foreground, 1), (.foreground, 1),
    (.background, 1), (.foreground, 1), (.background, 1), (.foreground, 1)]

theorem write_back_undisturbed_polite : Run.Guarded step Undisturbed (start ByteFile.empty 0 (twoBlocks true)) politeRun ∧
    (Run.run step (start ByteFile.empty 0 (twoBlocks true)) politeRun).isSome ∧
    ∀ s, Run.run step (start ByteFile.empty 0 (twoBlocks true)) politeRun = some s → Intact ByteFile.empty (twoBlocks true) s := by
  have hg : Run.Guarded step Undisturbed (start ByteFile.empty 0 (twoBlocks true)) politeRun := by decide +kernel
  refine ⟨hg, by decide +kernel, ?_⟩
  intro s hr
  exact write_back_undisturbed (by decide) hg hr

/-- The handler positions the descriptor between `lseek64` and `write` of the background: the first block is written over the second, and
    the second behind it. -/
def hastyRun : List (Side × Nat) :=
  [(.background, 2), (.background, 2), (.foreground, 2), (.foreground, 2), (.background, 2), (.foreground, 2), (.background, 2),
    (.foreground, 2), (.background, 2), (.foreground, 2)]

theorem write_back_at_wrong_place : ¬ ∀ (storage : ByteFile Byte) (count : Nat) (job : Side → StorageJob) (events : List (Side × Nat))
    (s : SharedStorage), (job .background).write = true → (job .background).block.index ≠ (job .foreground).block.index →
    count < MAX_OPEN_FILE_COUNT → Run.run step (start storage count job) events = some s → Intact storage job s := by
  intro hintact
  have hrun : (Run.run step (start ByteFile.empty 0 (twoBlocks true)) hastyRun).map
      (fun s => ((s.worker .background).phase, s.file.storage.read 0 2, s.file.storage.read BLOCK_SIZE 3)) =
      some (.finished, [0, 0], [1, 1, 2]) := by
    decide +kernel
  obtain ⟨s, hs, hend⟩ := Option.map_eq_some_iff.mp hrun
  simp only [Prod.mk.injEq] at hend
  have hstored := (hintact _ _ _ _ s rfl (by decide) (by decide) hs).stored .background hend.1 rfl rfl
  have hread : s.file.storage.read 0 2 = [1, 1] := hstored
  rw [hend.2.1] at hread
  exact absurd hread (by decide)

end SharedStorage

end HuronFS
