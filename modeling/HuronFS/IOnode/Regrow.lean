import HuronFS.IOnode.Serving
import HuronFS.IOnode.Truncate

/-!
# `IOnode.Regrow` — what a truncated file reads as when it grows again

The IOnode forgets the bytes behind a new end, it does not clear them: they stay in the memory of the block, and on storage. A write that
begins behind the end makes the bytes in between part of the file again. `Cut` is an IOnode after the truncate of one file, next to the
bytes its files should have, the end of that file and the positions written since; a byte between an old end and a write should be zero.
-/

namespace HuronFS

open Region

namespace IOnode

variable {n n' : IOnode} {f : Int} {k : BlockKey} {b : Block} {file : IOFile} {cap : Nat} {ref : Ref}

/-! ## Reading one position -/

/-- One block of a read: the piece points at the memory of the block. -/
theorem sendBlock_piece {offset size : Nat} {piece : SendBuffer} (hstep : n.sendBlock k b offset size = some (piece, n')) :
    ∃ e, piece = ⟨e, offset, size⟩ ∧ n'.elemOf k = some e := by
  obtain ⟨m, e, -, he, rfl, rfl⟩ := sendBlock_some hstep
  exact ⟨e, rfl, (WorksIn.updateAccessOrder m k).elem.trans he⟩

/-- The request for one byte. -/
def readAt (f : Int) (p : Nat) : Request := .readFile f (getBlockStartPoint p) (p - getBlockStartPoint p) 1

/-- A position that was written, or was on storage, is read back. -/
theorem Inv.handle_readAt (h : Inv cap [] n ref) (hcap : 0 < cap) (hlive : n.intervalProcess.Live f) {p : Nat} {v : Byte}
    (hv : ref f p = some v) : ∃ m, n.handle (readAt f p) = some (.bytes [v], m) := by
  obtain ⟨hm, -⟩ := h.intervalProcess
  obtain ⟨file, hfile, hdel⟩ := hlive
  obtain ⟨b, hb, -⟩ := hm.bytes f file p v hfile hdel hv
  have hblock : n.intervalProcess.block? (f, getBlockStartPoint p) = some b := block?_some_iff.mpr ⟨file, hfile, hb⟩
  obtain ⟨piece, m, hsend, hm', hsame⟩ := hm.sendBlock (p - getBlockStartPoint p) 1 (k := (f, getBlockStartPoint p)) hcap hfile hdel
    hblock rfl hv
  obtain ⟨e, rfl, he⟩ := sendBlock_piece hsend
  obtain ⟨hsplit, hoffset⟩ := inside_block p
  have hfirst : (if p - getBlockStartPoint p + 1 > BLOCK_SIZE then BLOCK_SIZE - (p - getBlockStartPoint p) else 1) = 1 :=
    if_neg (Nat.not_lt.mpr hoffset)
  have hslice : slice (m.memory e) (p - getBlockStartPoint p) 1 = slice (fun _ => v) (getBlockStartPoint p + (p - getBlockStartPoint p)) 1 := by
    apply hm'.slice_memory (hsame.live ⟨file, hfile, hdel⟩) (getBlockStartPoint_self p) hoffset he
    intro i hi
    obtain rfl : i = 0 := Nat.lt_one_iff.mp hi
    rw [Nat.add_zero, ← hsplit]
    exact hv
  refine ⟨m, ?_⟩
  unfold readAt IOnode.handle
  simp only [parseRequest, IOnode.sendData, hfile, Option.isNone_some, Bool.false_eq_true, if_false, hfirst]
  unfold IOnode.sendLoop
  rw [if_neg (by decide)]
  simp only [hblock, hsend]
  unfold IOnode.sendLoop
  simp only [Nat.sub_self, if_true, Option.map_some, List.nil_append, List.flatMap_cons, List.flatMap_nil, List.append_nil, hslice]
  rfl

/-! ## The truncate -/

/-- The bytes of the files once one of them is cut off at `s`. -/
def cutRef (ref : Ref) (f : Int) (s : Nat) : Ref := Function.update ref f (fun p => if p < s then ref f p else none)

theorem cutRef_some {s p : Nat} {g : Int} {v : Byte} (h : cutRef ref f s g p = some v) : ref g p = some v := by
  unfold cutRef at h
  by_cases hg : g = f
  · subst hg
    rw [Function.update_self] at h
    by_cases hp : p < s
    · rwa [if_pos hp] at h
    · rw [if_neg hp] at h
      cases h
  · rwa [Function.update_of_ne hg] at h

theorem cutRef_behind {s p : Nat} (h : s ≤ p) : cutRef ref f s f p = none := by
  unfold cutRef
  rw [Function.update_self, if_neg (Nat.not_lt.mpr h)]

/-- Fewer bytes that count. -/
theorem Inv.weaken {ref' : Ref} (h : Inv cap [] n ref) (hsub : ∀ g p v, ref' g p = some v → ref g p = some v) : Inv cap [] n ref' :=
  ⟨h.pool, h.frames, h.blockOk, h.present, h.listed, h.paths,
    fun g file pos v hfile hlive hv => h.bytes g file pos v hfile hlive (hsub g pos v hv)⟩

/-- The block that contains the new end gets the size that is left. -/
theorem Inv.shorten {s : Nat} (h : Inv cap [] n ref) (hb : n.block? (f, getBlockStartPoint s) = some b)
    (hnone : ∀ p, s ≤ p → ref f p = none) :
    Inv cap [] (n.setBlock (f, getBlockStartPoint s) { b with dataSize := s - getBlockStartPoint s }) ref := by
  obtain ⟨file, hfile, hfind⟩ := block?_some_iff.mp hb
  have hok := h.block hfile hb
  have hlt := lt_getBlockStartPoint_add s
  refine h.updateBlock hfile rfl rfl h.pool ?_ (fun _ _ => Iff.rfl) (fun _ _ _ _ _ _ => rfl) (fun _ hp => hp) (fun _ _ _ hv _ => hv) ?_
    (fun _ _ _ => rfl) ?_
  · show Frames.Ok n.pool.head n.pool.created ([] ++ n.queue) (Function.update n.elemOf (f, getBlockStartPoint s) b.elem)
    rw [← elemOf_of_block hb, Function.update_eq_self]
    exact h.frames
  · exact ⟨hok.page, hok.valid, hok.idle, by show s - getBlockStartPoint s ≤ BLOCK_SIZE; omega, hok.aligned, hok.exist_eq,
      hok.deleted_eq, hok.backed⟩
  · intro hdel pos v hpos hv
    have hholds := h.holds hfile hb hdel hpos hv
    refine ⟨?_, hholds.inMemory, hholds.onStorage, hholds.reload⟩
    show pos - getBlockStartPoint pos < s - getBlockStartPoint s
    have hbefore : pos < s := by
      by_contra hc
      rw [hnone pos (Nat.not_lt.mp hc)] at hv
      cases hv
    have hle := getBlockStartPoint_le pos
    have hstart : getBlockStartPoint pos = getBlockStartPoint s := hpos
    omega

/-- The blocks of a live file of which no byte counts any more. -/
theorem Inv.dropBlocks (starts : List Nat) : ∀ {n : IOnode}, Inv cap [] n ref → n.Live f →
    (∀ s ∈ starts, ∀ pos, getBlockStartPoint pos = s → ref f pos = none) →
    Inv cap [] (starts.foldl (fun n s => n.deleteBlock (f, s)) n) ref ∧ (starts.foldl (fun n s => n.deleteBlock (f, s)) n).Live f := by
  induction starts with
  | nil => exact fun h hlive _ => ⟨h, hlive⟩
  | cons s starts ih =>
      intro n h hlive hnone
      obtain ⟨file, hfile, hdel⟩ := hlive
      obtain ⟨hm, -, -, file', hfile', hdel', -, -⟩ := h.deleteBlock (k := (f, s)) hfile (fun _ => hnone s List.mem_cons_self)
      exact ih hm ⟨file', hfile', hdel'.trans hdel⟩ (fun s' hs' => hnone s' (List.mem_cons_of_mem _ hs'))

/-- **A truncate** keeps the bytes in front of the new end. -/
theorem Inv.truncateFile {s : Nat} (h : Inv cap [] n ref) (hlive : n.Live f)
    (hcut : n.truncateFile f (getBlockStartPoint s) (s - getBlockStartPoint s) = some n') :
    Inv cap [] n' (cutRef ref f s) ∧ n'.Live f := by
  obtain ⟨b, hb, rfl⟩ := truncateFile_some.mp hcut
  have hshort := (h.weaken (fun g p v => cutRef_some (s := s) (f := f))).shorten hb (fun p hp => cutRef_behind hp)
  apply hshort.dropBlocks _ (SameFiles.live (SameFiles.of_setBlock rfl) hlive)
  rintro start hstart pos rfl
  apply cutRef_behind
  -- the block begins behind the one that contains the new end
  have hnext : getBlockStartPoint s + BLOCK_SIZE ≤ getBlockStartPoint pos :=
    block_le_of_lt (getBlockStartPoint_self s) (getBlockStartPoint_self pos) (mem_laterStarts.mp hstart).1
  have hend := lt_getBlockStartPoint_add s
  have hle := getBlockStartPoint_le pos
  omega

/-- A byte of the file names a block that is there. -/
theorem Inv.truncateFile_progress {s : Nat} {v : Byte} (h : Inv cap [] n ref) (hlive : n.Live f) (hv : ref f s = some v) (size : Nat) :
    ∃ n', n.truncateFile f (getBlockStartPoint s) size = some n' := by
  obtain ⟨file, hfile, hdel⟩ := hlive
  obtain ⟨b, hb, -⟩ := h.bytes f file s v hfile hdel hv
  exact ⟨_, truncateFile_some.mpr ⟨b, block?_some_iff.mpr ⟨file, hfile, hb⟩, rfl⟩⟩

/-! ## A write behind the end -/

/-- The block of `k` has memory, and it is zero from one offset to another. -/
def ZeroIn (n : IOnode) (k : BlockKey) (start stop : Nat) : Prop :=
  ∃ b ∈ n.block? k, ∃ e ∈ b.elem, ∀ i < stop, start ≤ i → n.memory e i = 0

instance {n : IOnode} {k : BlockKey} {start stop : Nat} : Decidable (n.ZeroIn k start stop) := by
  unfold ZeroIn
  infer_instance

/-- The block as if the zeros in front of a write belonged to it. -/
def filledBlock (b : Block) (offset : Nat) : Block := { b with dataSize := max b.dataSize offset, dirtyFlag := true }

/-- **The zeros in front of a write** may be counted among the bytes of the file before the write. -/
theorem Inv.filled {startPoint offset fileEnd e : Nat} (h : Inv cap [] n ref) (hb : n.block? (f, startPoint) = some b) (he : b.elem = some e)
    (haligned : getBlockStartPoint startPoint = startPoint) (hoffset : offset < BLOCK_SIZE) (hstart : startPoint ≤ fileEnd)
    (hend : fileEnd ≤ startPoint + offset) (hzero : ∀ i < offset, fileEnd - startPoint ≤ i → n.memory e i = 0) :
    Inv cap [] (n.setBlock (f, startPoint) (filledBlock b offset))
      (refWrite ref f fileEnd (List.replicate (startPoint + offset - fileEnd) 0)) := by
  obtain ⟨file, hfile, hfind⟩ := block?_some_iff.mp hb
  have hok := h.block hfile hb
  have hlength : (List.replicate (startPoint + offset - fileEnd) (0 : Byte)).length = startPoint + offset - fileEnd := List.length_replicate
  refine h.updateBlock hfile rfl rfl h.pool ?_ (fun _ _ => Iff.rfl) (fun _ _ _ _ _ _ => rfl) (fun _ hp => hp) (fun _ _ _ hv _ => hv) ?_ ?_ ?_
  · show Frames.Ok n.pool.head n.pool.created ([] ++ n.queue) (Function.update n.elemOf (f, startPoint) b.elem)
    rw [← elemOf_of_block hb, Function.update_eq_self]
    exact h.frames
  · refine ⟨hok.page, hok.valid, hok.idle, ?_, hok.aligned, hok.exist_eq, hok.deleted_eq, ?_⟩
    · exact Nat.max_le.mpr ⟨hok.size_le, Nat.le_of_lt hoffset⟩
    · rintro hlive (hswap | ⟨-, hc⟩)
      · exact hok.backed hlive (Or.inl hswap)
      · cases hc
  · intro g pos hapart
    by_cases hg : g = f
    · subst hg
      apply refWrite_outside
      rw [hlength]
      by_contra hc
      apply hapart rfl
      obtain ⟨i, rfl⟩ : ∃ i, pos = startPoint + i := ⟨pos - startPoint, by omega⟩
      rw [getBlockStartPoint_add haligned, getBlockStartPoint_of_lt (by omega), Nat.add_zero]
    · exact congrFun (refWrite_other ref fileEnd _ hg) pos
  · intro hdel pos v hpos hv
    have hstartPos : getBlockStartPoint pos = startPoint := hpos
    by_cases hin : fileEnd ≤ pos ∧ pos < startPoint + offset
    · obtain ⟨i, rfl⟩ : ∃ i, pos = fileEnd + i := ⟨pos - fileEnd, by omega⟩
      have hi : i < (List.replicate (startPoint + offset - fileEnd) (0 : Byte)).length := by omega
      have hv' := (refWrite_inside ref f fileEnd hi).symm.trans hv
      rw [List.getElem_replicate] at hv'
      obtain rfl := Option.some.inj hv'
      refine ⟨?_, ?_, ?_, ?_⟩
      · rw [hstartPos]
        exact Nat.lt_of_lt_of_le (by omega) (Nat.le_max_right _ _)
      · intro e' he'
        obtain rfl := Option.some.inj (he.symm.trans he')
        rw [hstartPos]
        exact hzero _ (by omega) (by omega)
      · rintro (hc | hc)
        · exact absurd (he.symm.trans hc) (by simp)
        · cases hc
      · intro hc
        exact absurd (he.symm.trans hc) (by simp)
    · have hv' : ref f pos = some v := by
        have hout : pos < fileEnd ∨ fileEnd + (List.replicate (startPoint + offset - fileEnd) (0 : Byte)).length ≤ pos := by
          rw [hlength]
          omega
        rw [← refWrite_outside ref f hout]
        exact hv
      have hholds := h.holds hfile hb hdel hpos hv'
      refine ⟨Nat.lt_of_lt_of_le hholds.lt (Nat.le_max_left _ _), hholds.inMemory, ?_, hholds.reload⟩
      rintro (hc | hc)
      · exact absurd (he.symm.trans hc) (by simp)
      · cases hc

theorem writtenBlock_filled (b : Block) {offset size : Nat} (hsize : 0 < size) :
    writtenBlock (filledBlock b offset) offset size = writtenBlock b offset size := by
  have hmax : (if max b.dataSize offset < offset + size then offset + size else max b.dataSize offset)
      = if b.dataSize < offset + size then offset + size else b.dataSize := by
    split <;> split <;> omega
  unfold writtenBlock copiedBlock filledBlock
  dsimp only
  rw [hmax]

/-- The copy of a write does not see whether the zeros in front of it were counted. -/
theorem Inv.updateBlockData_filled {startPoint offset size e : Nat} {data : List Byte} (h : Inv cap [] n ref)
    (hb : n.block? (f, startPoint) = some b) (he : b.elem = some e) (hsize : 0 < size) (hfit : offset + size ≤ BLOCK_SIZE)
    (hdata : size ≤ data.length) :
    (n.setBlock (f, startPoint) (filledBlock b offset)).updateBlockData (f, startPoint) offset size data
      = n.updateBlockData (f, startPoint) offset size data := by
  obtain ⟨file, hfile, hfind⟩ := block?_some_iff.mp hb
  have hok := h.block hfile hb
  have hmin : min size (BLOCK_SIZE - offset) = size := by omega
  -- both copies, written out
  have hcopy : ∀ {m : IOnode} {b' : Block} {file' : IOFile}, m.files.find? (f, startPoint).1 = some file' →
      m.block? (f, startPoint) = some b' → b'.elem = some e → b'.needAllocation = false →
      (b'.writebackPage = true ↔ (f, startPoint) ∈ m.queue) →
      m.updateBlockData (f, startPoint) offset size data = some (size, m.written (f, startPoint) b' e offset (data.take size)) := by
    intro m b' file' hfile' hb' he' hneed hpage
    have hsame : m.blockForWriting (f, startPoint) size = m := by
      unfold IOnode.blockForWriting
      rw [hfile']
      dsimp only
      rw [← block?_of_file (k := (f, startPoint)) hfile', hb']
      rfl
    have hinto : m.receiveInto (f, startPoint) offset size data = some (min size (BLOCK_SIZE - offset),
        m.written (f, startPoint) b' e offset (data.take (min size (BLOCK_SIZE - offset)))) :=
      receiveInto_eq hfile' hb' he' hpage (by omega) (by omega)
    rw [hmin] at hinto
    unfold IOnode.updateBlockData
    simp only [hsame, hb', hneed, Bool.false_eq_true, if_false]
    exact hinto
  have hfile' : (n.setBlock (f, startPoint) (filledBlock b offset)).files.find? (f, startPoint).1
      = some (file.setBlock startPoint (filledBlock b offset)) := by
    rw [files_setBlock, if_pos rfl, hfile]
    rfl
  have hneed := needAllocation_of_some hok he
  rw [hcopy hfile hb he hneed hok.page, hcopy hfile' (block?_setBlock_self hfile) he hneed hok.page]
  have hlength : (data.take size).length = size := by
    rw [List.length_take]
    omega
  unfold IOnode.written
  rw [hlength, setBlock_setBlock, writtenBlock_filled b hsize]
  rfl

/-- **A write behind the end**: the bytes between the old end and the write are those in memory, and here they are zero. -/
theorem Inv.receiveGap {startPoint offset fileEnd : Nat} {data : List Byte} (h : Inv cap [] n ref) (hcap : 0 < cap) (hlive : n.Live f)
    (haligned : getBlockStartPoint startPoint = startPoint) (hoffset : offset < BLOCK_SIZE) (hdata : data ≠ []) (hstart : startPoint ≤ fileEnd)
    (hend : fileEnd ≤ startPoint + offset) (hzero : n.ZeroIn (f, startPoint) (fileEnd - startPoint) offset) :
    ∃ n', IOnode.receiveLoop f (data.length + 1) startPoint offset (min data.length (BLOCK_SIZE - offset)) data.length data n = some n' ∧
      Inv cap [] n' (refWrite (refWrite ref f fileEnd (List.replicate (startPoint + offset - fileEnd) 0)) f (startPoint + offset) data) ∧
      n'.Live f := by
  obtain ⟨b, hb, e, he, hmemory⟩ := hzero
  have hfilled := h.filled hb he haligned hoffset hstart hend hmemory
  have hlive' : (n.setBlock (f, startPoint) (filledBlock b offset)).Live f := SameFiles.live (SameFiles.of_setBlock rfl) hlive
  obtain ⟨n', hloop, hn', hsame⟩ := Inv.receiveLoop hcap (Nat.le_succ data.length) rfl haligned hoffset hfilled hlive'
  refine ⟨n', ?_, hn', hsame.live hlive'⟩
  rw [← hloop]
  -- the two loops agree from the first block on
  have hpos : 0 < data.length := List.length_pos_iff.mpr hdata
  have hstep : (n.setBlock (f, startPoint) (filledBlock b offset)).updateBlockData (f, startPoint) offset
        (min data.length (BLOCK_SIZE - offset)) data
      = n.updateBlockData (f, startPoint) offset (min data.length (BLOCK_SIZE - offset)) data :=
    h.updateBlockData_filled hb he (by omega) (by omega) (by omega)
  unfold IOnode.receiveLoop
  rw [if_neg (Nat.ne_of_gt hpos), if_neg (Nat.ne_of_gt hpos), hstep]

/-! ## A file stays -/

/-- A live file outlives the removal of the others. -/
theorem Inv.interval_live (h : Inv cap [] n ref) (hlive : n.Live f) : n.intervalProcess.Live f := by
  obtain ⟨file, hfile, hdel⟩ := hlive
  have hnot : f ∉ n.removeFileList := by
    intro hc
    rw [(h.listed f file hfile).mpr hc] at hdel
    cases hdel
  obtain ⟨-, -, hfiles⟩ := Inv.eraseFiles n.removeFileList h (fun _ hf => hf)
  exact ⟨file, ((hfiles f).trans (if_neg hnot)).trans hfile, hdel⟩

theorem openFile_live {g : Int} {existFlag : ExistFlag} {path : Str} {blocks : List (Nat × Nat)} (h : n.Live f) :
    (n.openFile g existFlag path blocks).Live f := by
  obtain ⟨file, hfile, hdel⟩ := h
  unfold IOnode.openFile
  by_cases hg : (n.files.find? g).isSome
  · rw [if_pos hg]
    exact ⟨file, hfile, hdel⟩
  · rw [if_neg hg]
    refine ⟨file, ?_, hdel⟩
    have hfg : f ≠ g := by
      rintro rfl
      exact hg (by rw [hfile]; rfl)
    exact (OrdMap.find?_put_ne _ _ hfg).trans hfile

theorem removeFile_live {g : Int} (hg : g ≠ f) (h : n.Live f) : (n.removeFile g).Live f := by
  obtain ⟨file, hfile, hdel⟩ := h
  unfold IOnode.removeFile
  cases hfind : n.files.find? g with
  | none => exact ⟨file, hfile, hdel⟩
  | some other =>
      dsimp only
      split
      · exact ⟨file, hfile, hdel⟩
      · exact ⟨file, (OrdMap.find?_put_ne _ _ hg.symm).trans hfile, hdel⟩

/-- **A file stays live** until it is unlinked. -/
theorem Inv.handle_live (h : Inv cap [] n ref) (hcap : 0 < cap) {r : Request} (hr : Tracked.Permitted ⟨n, ref⟩ r) (hlive : n.Live f)
    (hunlink : r ≠ .unlink f) {reply : Reply} (hstep : n.handle r = some (reply, n')) : n'.Live f := by
  obtain ⟨hm, -⟩ := h.intervalProcess
  have hlive := h.interval_live hlive
  unfold IOnode.handle at hstep
  cases r with
  | openFile g existFlag path blocks =>
      cases hstep
      exact openFile_live hlive
  | writeFile g startPoint offset size data =>
      obtain ⟨haligned, hoffset, hdata⟩ := hr
      simp only [parseRequest, IOnode.receiveData, firstSize] at hstep
      cases hf : n.intervalProcess.files.find? g with
      | none =>
          rw [hf] at hstep
          cases hstep
          exact hlive
      | some file =>
          obtain ⟨m, hloop, -, hsame⟩ := Inv.receiveLoop hcap (Nat.le_succ size) hdata haligned hoffset hm (h.live_of_interval hf)
          rw [hf, hloop] at hstep
          cases hstep
          exact hsame.live hlive
  | readFile g startPoint offset size =>
      obtain ⟨haligned, hoffset, hbytes⟩ := hr
      simp only [parseRequest, IOnode.sendData, firstSize] at hstep
      cases hf : n.intervalProcess.files.find? g with
      | none =>
          rw [hf] at hstep
          cases hstep
          exact hlive
      | some file =>
          obtain ⟨pieces, m, hloop, -, hsame, -⟩ := Inv.sendLoop hcap [] (Nat.le_succ size) haligned hoffset hbytes hm (h.live_of_interval hf)
          rw [hf, hloop] at hstep
          cases hstep
          exact hsame.live hlive
  | unlink g =>
      cases hstep
      apply removeFile_live _ hlive
      rintro rfl
      exact hunlink rfl

/-! ## A transfer to one file -/

/-- **A write request** to a live file is served. -/
theorem Inv.handle_writeFile {startPoint offset : Nat} (h : Inv cap [] n ref) (hcap : 0 < cap) (hlive : n.Live f)
    (haligned : getBlockStartPoint startPoint = startPoint) (hoffset : offset < BLOCK_SIZE) (data : List Byte) :
    ∃ n', n.handle (.writeFile f startPoint offset data.length data) = some (.status SUCCESS, n') ∧
      Inv cap [] n' (refWrite ref f (startPoint + offset) data) ∧ n'.Live f := by
  obtain ⟨hm, -⟩ := h.intervalProcess
  have hlive := h.interval_live hlive
  obtain ⟨n', hloop, hn', hsame⟩ := Inv.receiveLoop hcap (Nat.le_succ data.length) rfl haligned hoffset hm hlive
  refine ⟨n', ?_, hn', hsame.live hlive⟩
  obtain ⟨file, hfile, -⟩ := hlive
  unfold IOnode.handle
  simp only [parseRequest, IOnode.receiveData, hfile, Option.isNone_some, Bool.false_eq_true, if_false, firstSize, hloop, Option.map_some]

theorem length_replyBytes (n : IOnode) (pieces : List SendBuffer) : (n.replyBytes pieces).length = replySize pieces := by
  unfold replyBytes replySize
  rw [List.length_flatMap]
  simp only [length_slice]

/-- **A read request** of known bytes of a live file is answered with as many bytes as it asks for. -/
theorem Inv.handle_readFile {startPoint offset size : Nat} (h : Inv cap [] n ref) (hcap : 0 < cap) (hlive : n.Live f)
    (haligned : getBlockStartPoint startPoint = startPoint) (hoffset : offset < BLOCK_SIZE)
    (hbytes : ∀ i < size, (ref f (startPoint + offset + i)).isSome) :
    ∃ l n', n.handle (.readFile f startPoint offset size) = some (.bytes l, n') ∧ l.length = size ∧ Inv cap [] n' ref ∧ n'.Live f := by
  obtain ⟨hm, -⟩ := h.intervalProcess
  have hlive := h.interval_live hlive
  obtain ⟨pieces, n', hloop, hn', hsame, hsum⟩ := Inv.sendLoop hcap [] (Nat.le_succ size) haligned hoffset hbytes hm hlive
  refine ⟨n'.replyBytes pieces, n', ?_, ?_, hn', hsame.live hlive⟩
  · obtain ⟨file, hfile, -⟩ := hlive
    unfold IOnode.handle
    simp only [parseRequest, IOnode.sendData, hfile, Option.isNone_some, Bool.false_eq_true, if_false, firstSize, hloop, Option.map_some]
    rfl
  · rw [length_replyBytes, hsum]
    exact Nat.zero_add size

/-! ## Runs after a truncate -/

/-- An IOnode that has truncated a file: the bytes its files should have, the end of that file, and what was written to it since. -/
structure Cut where
  node : IOnode
  ref : Ref
  fileEnd : Nat
  written : Nat → Bool

namespace Cut

/-- The handler's turn for a truncate to `s`, with the numbers the Master sends. -/
def truncate (t : Tracked) (f : Int) (s : Nat) : Option Cut :=
  (t.node.intervalProcess.truncateFile f (getBlockStartPoint s) (s - getBlockStartPoint s)).map (fun node =>
    ⟨node, cutRef t.ref f s, s, fun _ => false⟩)

/-- What a write to the file does to the bytes it should have: those between the old end and the write are zero. -/
def afterWrite (c : Cut) (f : Int) (pos : Nat) (data : List Byte) : Cut :=
  if data = [] then c
  else
    { c with
      ref := refWrite (refWrite c.ref f c.fileEnd (List.replicate (pos - c.fileEnd) 0)) f pos data
      fileEnd := max c.fileEnd (pos + data.length)
      written := fun p => c.written p || decide (pos ≤ p ∧ p < pos + data.length) }

/-- What a request does to the bytes of the files. -/
def after (c : Cut) (f : Int) (r : Request) : Cut :=
  match r with
  | .writeFile g startPoint offset _ data =>
      if g = f then c.afterWrite f (startPoint + offset) data else { c with ref := Tracked.refAfter ⟨c.node, c.ref⟩ r }
  | _ => { c with ref := Tracked.refAfter ⟨c.node, c.ref⟩ r }

/-- One turn of the handler. -/
def step (f : Int) (c : Cut) (r : Request) : Option Cut := (c.node.handle r).map (fun (_, node) => { c.after f r with node := node })

/-- The requests after a truncate to `s`: the file is not unlinked, and is written from `s` on. -/
def Allowed (f : Int) (s : Nat) (c : Cut) (r : Request) : Prop :=
  Tracked.Permitted ⟨c.node, c.ref⟩ r ∧
    match r with
    | .writeFile g startPoint offset _ _ => g = f → s ≤ startPoint + offset
    | .unlink g => g ≠ f
    | _ => True

/-- A write begins inside the file or at its end; or the end is in the block it begins in, and the memory of the block is zero from there
    to the write. -/
def ZeroGap (f : Int) (c : Cut) : Request → Prop
  | .writeFile g startPoint offset _ data => g = f → data ≠ [] → c.fileEnd < startPoint + offset →
      startPoint ≤ c.fileEnd ∧ c.node.intervalProcess.ZeroIn (f, startPoint) (c.fileEnd - startPoint) offset
  | _ => True

instance (f : Int) (s : Nat) (c : Cut) : (r : Request) → Decidable (Allowed f s c r)
  | .openFile _ _ _ _ => inferInstanceAs (Decidable (_ ∧ True))
  | .writeFile _ _ _ _ _ => inferInstanceAs (Decidable (_ ∧ (_ → _)))
  | .readFile _ _ _ _ => inferInstanceAs (Decidable (_ ∧ True))
  | .unlink _ => inferInstanceAs (Decidable (_ ∧ _ ≠ _))

instance (f : Int) (c : Cut) : (r : Request) → Decidable (ZeroGap f c r)
  | .openFile _ _ _ _ => .isTrue trivial
  | .writeFile _ _ _ _ _ => inferInstanceAs (Decidable (_ → _ → _ → _ ∧ _))
  | .readFile _ _ _ _ => .isTrue trivial
  | .unlink _ => .isTrue trivial

variable {c c' : Cut} {s : Nat}

/-- The invariant: the positions behind the cut that were not written since should be zero. -/
structure Inv (cap : Nat) (f : Int) (s : Nat) (c : Cut) : Prop where
  node : IOnode.Inv cap [] c.node c.ref
  live : c.node.Live f
  zero : ∀ p, s ≤ p → p < c.fileEnd → c.written p = false → c.ref f p = some 0

theorem Inv.start {t : Tracked} (h : IOnode.Inv cap [] t.node t.ref) (hlive : t.node.Live f) (hcut : truncate t f s = some c) :
    c.Inv cap f s := by
  obtain ⟨node, hnode, rfl⟩ := Option.map_eq_some_iff.mp hcut
  obtain ⟨hm, -⟩ := h.intervalProcess
  obtain ⟨hinv, hlive'⟩ := hm.truncateFile (h.interval_live hlive) hnode
  exact ⟨hinv, hlive', fun p hp hlt => absurd hlt (Nat.not_lt.mpr hp)⟩

/-- The bytes the file should have after a write. -/
theorem zero_afterWrite {pos : Nat} {data : List Byte} (h : ∀ p, s ≤ p → p < c.fileEnd → c.written p = false → c.ref f p = some 0) :
    ∀ p, s ≤ p → p < (c.afterWrite f pos data).fileEnd → (c.afterWrite f pos data).written p = false →
      (c.afterWrite f pos data).ref f p = some 0 := by
  intro p hp hlt hunwritten
  unfold afterWrite at hlt hunwritten ⊢
  by_cases hdata : data = []
  · rw [if_pos hdata] at hlt hunwritten ⊢
    exact h p hp hlt hunwritten
  · rw [if_neg hdata] at hlt hunwritten ⊢
    dsimp only at hlt hunwritten ⊢
    obtain ⟨hold, hnot⟩ := Bool.or_eq_false_iff.mp hunwritten
    have hout : ¬ (pos ≤ p ∧ p < pos + data.length) := of_decide_eq_false hnot
    rw [refWrite_outside _ _ (by omega)]
    by_cases hgap : c.fileEnd ≤ p
    · -- the position is in the gap the write leaves
      obtain ⟨i, rfl⟩ : ∃ i, p = c.fileEnd + i := ⟨p - c.fileEnd, by omega⟩
      have hi : i < (List.replicate (pos - c.fileEnd) (0 : Byte)).length := by
        rw [List.length_replicate]
        omega
      rw [refWrite_inside _ _ _ hi, List.getElem_replicate]
    · rw [refWrite_outside _ _ (Or.inl (Nat.not_le.mp hgap))]
      exact h p hp (Nat.not_le.mp hgap) hold

/-- A write to the truncated file. -/
theorem Inv.writeFile {startPoint offset size : Nat} {data : List Byte} (h : c.Inv cap f s) (hcap : 0 < cap)
    (hallowed : Allowed f s c (.writeFile f startPoint offset size data)) (hgap : ZeroGap f c (.writeFile f startPoint offset size data)) :
    ∃ c', step f c (.writeFile f startPoint offset size data) = some c' ∧ c'.Inv cap f s := by
  obtain ⟨⟨haligned, hoffset, rfl⟩, -⟩ := hallowed
  obtain ⟨hm, -⟩ := h.node.intervalProcess
  have hlive := h.node.interval_live h.live
  -- the loop, and the bytes it leaves
  have hloop : ∃ node, IOnode.receiveLoop f (data.length + 1) startPoint offset (min data.length (BLOCK_SIZE - offset)) data.length data
      c.node.intervalProcess = some node ∧ IOnode.Inv cap [] node (c.afterWrite f (startPoint + offset) data).ref ∧ node.Live f := by
    unfold afterWrite
    by_cases hdata : data = []
    · subst hdata
      rw [if_pos rfl]
      exact ⟨_, rfl, hm, hlive⟩
    · rw [if_neg hdata]
      by_cases hend : c.fileEnd < startPoint + offset
      · obtain ⟨hstart, hzero⟩ := hgap rfl hdata hend
        exact hm.receiveGap hcap hlive haligned hoffset hdata hstart (Nat.le_of_lt hend) hzero
      · obtain ⟨node, hrun, hnode, hsame⟩ := IOnode.Inv.receiveLoop hcap (Nat.le_succ data.length) rfl haligned hoffset hm hlive
        refine ⟨node, hrun, ?_, hsame.live hlive⟩
        have hempty : startPoint + offset - c.fileEnd = 0 := by omega
        have hsameRef : refWrite c.ref f c.fileEnd [] = c.ref := by
          unfold refWrite
          rw [List.map_nil, patch_nil, Function.update_eq_self]
        show IOnode.Inv cap [] node (refWrite (refWrite c.ref f c.fileEnd (List.replicate (startPoint + offset - c.fileEnd) 0)) f _ data)
        rw [hempty, List.replicate_zero, hsameRef]
        exact hnode
  obtain ⟨node, hrun, hnode, hnodeLive⟩ := hloop
  obtain ⟨file, hfile, -⟩ := hlive
  have hhandle : c.node.handle (.writeFile f startPoint offset data.length data) = some (.status SUCCESS, node) := by
    unfold IOnode.handle
    simp only [parseRequest, IOnode.receiveData, hfile, Option.isNone_some, Bool.false_eq_true, if_false, firstSize, hrun, Option.map_some]
  refine ⟨{ c.afterWrite f (startPoint + offset) data with node := node }, ?_, hnode, hnodeLive, zero_afterWrite h.zero⟩
  have hafter : c.after f (.writeFile f startPoint offset data.length data) = c.afterWrite f (startPoint + offset) data := if_pos rfl
  unfold step
  rw [hhandle, hafter]
  rfl

/-- A write to a file. -/
def writesTo (f : Int) : Request → Bool
  | .writeFile g _ _ _ _ => decide (g = f)
  | _ => false

theorem after_other {r : Request} (h : writesTo f r = false) : c.after f r = { c with ref := Tracked.refAfter ⟨c.node, c.ref⟩ r } := by
  cases r with
  | writeFile g startPoint offset size data => exact if_neg (of_decide_eq_false h)
  | openFile g existFlag path blocks => rfl
  | readFile g startPoint offset size => rfl
  | unlink g => rfl

/-- The other requests leave the bytes of the file alone. -/
theorem refAfter_other {t : Tracked} {r : Request} (h : writesTo f r = false) (hlive : t.node.intervalProcess.Live f) :
    t.refAfter r f = t.ref f := by
  obtain ⟨file, hfile, -⟩ := hlive
  cases r with
  | openFile g existFlag path blocks =>
      simp only [Tracked.refAfter]
      by_cases hknown : (t.node.intervalProcess.files.find? g).isSome
      · rw [if_pos hknown]
      · rw [if_neg hknown]
        apply Function.update_of_ne
        rintro rfl
        exact hknown (by rw [hfile]; rfl)
  | writeFile g startPoint offset size data =>
      simp only [Tracked.refAfter]
      have hg : f ≠ g := fun hc => of_decide_eq_false h hc.symm
      split
      · exact refWrite_other _ _ _ hg
      · rfl
  | readFile g startPoint offset size => rfl
  | unlink g => rfl

/-- Every other request. -/
theorem Inv.other {r : Request} (h : c.Inv cap f s) (hcap : 0 < cap) (hallowed : Allowed f s c r) (hr : writesTo f r = false) :
    ∃ c', step f c r = some c' ∧ c'.Inv cap f s := by
  obtain ⟨hpermitted, hscope⟩ := hallowed
  obtain ⟨t, hstep, ht⟩ := h.node.handle hcap hpermitted
  obtain ⟨⟨reply, node⟩, hhandle, rfl⟩ := Option.map_eq_some_iff.mp hstep
  have hunlink : r ≠ .unlink f := by
    rintro rfl
    exact hscope rfl
  refine ⟨{ c with node := node, ref := Tracked.refAfter ⟨c.node, c.ref⟩ r }, ?_, ht, h.node.handle_live hcap hpermitted h.live hunlink hhandle, ?_⟩
  · unfold step
    rw [hhandle, after_other hr]
    rfl
  · intro p hp hlt hunwritten
    show Tracked.refAfter ⟨c.node, c.ref⟩ r f p = some 0
    rw [refAfter_other hr (h.node.interval_live h.live)]
    exact h.zero p hp hlt hunwritten

/-- **One request after the truncate.** -/
theorem Inv.step {r : Request} (h : c.Inv cap f s) (hcap : 0 < cap) (hallowed : Allowed f s c r) (hgap : ZeroGap f c r) :
    ∃ c', step f c r = some c' ∧ c'.Inv cap f s := by
  by_cases hr : writesTo f r = true
  · cases r with
    | writeFile g startPoint offset size data =>
        obtain rfl : g = f := of_decide_eq_true hr
        exact h.writeFile hcap hallowed hgap
    | openFile g existFlag path blocks => cases hr
    | readFile g startPoint offset size => cases hr
    | unlink g => cases hr
  · exact h.other hcap hallowed (Bool.eq_false_iff.mpr hr)

end Cut

/-- **Truncated bytes do not come back.** A byte of a live file names a place where it can be truncated; and whatever requests come after
    the truncate, if each write begins inside the file or at its end, or leaves a gap that is zero already, every position behind the cut
    that was not written since is read as zero. -/
theorem truncated_bytes_stay_zero (hcap : 0 < cap) (memory : Nat → Nat → Byte) (storage : Str → Option (ByteFile Byte))
    (before : List Request)
    (hbefore : Run.Guarded Tracked.step Tracked.Permitted ⟨start cap memory storage, fun _ _ => none⟩ before) :
    ∃ t, Run.run Tracked.step ⟨start cap memory storage, fun _ _ => none⟩ before = some t ∧
      ∀ f s, t.node.Live f → ((t.ref f s).isSome → (Cut.truncate t f s).isSome) ∧
        ∀ c, Cut.truncate t f s = some c → ∀ later, Run.Guarded (Cut.step f) (Cut.Allowed f s) c later →
          Run.Guarded (Cut.step f) (Cut.ZeroGap f) c later →
          ∃ c', Run.run (Cut.step f) c later = some c' ∧
            ∀ p, s ≤ p → p < c'.fileEnd → c'.written p = false → ∃ m, c'.node.handle (readAt f p) = some (.bytes [0], m) := by
  have hstep : ∀ (t : Tracked) r, Inv cap [] t.node t.ref → t.Permitted r →
      ∃ t', Tracked.step t r = some t' ∧ Inv cap [] t'.node t'.ref := fun t r h hr => h.handle hcap hr
  obtain ⟨t, hrun, hinv⟩ := Run.run_progress hstep (start_inv hcap memory storage _) hbefore
  refine ⟨t, hrun, ?_⟩
  intro f s hlive
  constructor
  · intro hs
    obtain ⟨v, hv⟩ := Option.isSome_iff_exists.mp hs
    obtain ⟨hm, -⟩ := hinv.intervalProcess
    obtain ⟨n', hn'⟩ := hm.truncateFile_progress (hinv.interval_live hlive) hv (s - getBlockStartPoint s)
    unfold Cut.truncate
    rw [hn']
    rfl
  · intro c hcut later hallowed hgap
    obtain ⟨c', hrun', hc'⟩ := Run.run_progress (fun c r h hr => Cut.Inv.step h hcap hr.1 hr.2) (Cut.Inv.start hinv hlive hcut)
      (hallowed.and hgap)
    refine ⟨c', hrun', ?_⟩
    intro p hp hlt hunwritten
    exact hc'.node.handle_readAt hcap (hc'.node.interval_live hc'.live) (hc'.zero p hp hlt hunwritten)

/-- A run before a truncate to `s`, the truncate, and a run after it, looked at with `look`. -/
def aroundTruncate {α : Type} (n : IOnode) (before : List Request) (f : Int) (s : Nat) (later : List Request) (look : Tracked → Cut → Cut → α) :
    Option α :=
  (Run.run Tracked.step ⟨n, fun _ _ => none⟩ before).bind (fun t =>
    (Cut.truncate t f s).bind (fun c => (Run.run (Cut.step f) c later).map (look t c)))

theorem aroundTruncate_some {α : Type} {before later : List Request} {s : Nat} {look : Tracked → Cut → Cut → α} {a : α}
    (h : aroundTruncate n before f s later look = some a) :
    ∃ t c c', Run.run Tracked.step ⟨n, fun _ _ => none⟩ before = some t ∧ Cut.truncate t f s = some c ∧
      Run.run (Cut.step f) c later = some c' ∧ look t c c' = a := by
  obtain ⟨t, ht, h⟩ := Option.bind_eq_some_iff.mp h
  obtain ⟨c, hc, h⟩ := Option.bind_eq_some_iff.mp h
  obtain ⟨c', hc', h⟩ := Option.map_eq_some_iff.mp h
  exact ⟨t, c, c', ht, hc, hc', h⟩

/-- Two files that share the memory of one block; the first is to be truncated. -/
def twoBytesWritten : List Request :=
  [.openFile 0 .notExist [97] [(0, 0)], .openFile 1 .existing [98] [(0, 3)], .writeFile 0 0 0 2 [1, 2]]

/-- The truncated file grows again, with a gap, and is evicted. -/
def grownAgain : List Request := [.writeFile 0 0 1 1 [5], .writeFile 0 0 4 1 [9], .readFile 1 0 0 3]

theorem truncated_bytes_stay_zero_evicted :
    ∃ t c c', Run.run Tracked.step ⟨start 1 (fun _ _ => 0) oneBlockStorage, fun _ _ => none⟩ twoBytesWritten = some t ∧
      Cut.truncate t 0 1 = some c ∧ Run.run (Cut.step 0) c grownAgain = some c' ∧ c'.fileEnd = 5 ∧ c'.written 3 = false ∧
      ∃ m, c'.node.handle (readAt 0 3) = some (.bytes [0], m) := by
  have hbefore : Run.Guarded Tracked.step Tracked.Permitted ⟨start 1 (fun _ _ => 0) oneBlockStorage, fun _ _ => none⟩ twoBytesWritten := by
    decide +kernel
  have hcheck : aroundTruncate (start 1 (fun _ _ => 0) oneBlockStorage) twoBytesWritten 0 1 grownAgain (fun t c c' =>
      ((t.node.files.find? 0).map IOFile.toBeDeleted, decide (Run.Guarded (Cut.step 0) (Cut.Allowed 0 1) c grownAgain),
        decide (Run.Guarded (Cut.step 0) (Cut.ZeroGap 0) c grownAgain), c'.fileEnd, c'.written 3))
      = some (some false, true, true, 5, false) := by decide +kernel
  obtain ⟨t, c, c', ht, hc, hc', hlook⟩ := aroundTruncate_some hcheck
  obtain ⟨hlive, hallowed, hgap, hend, hunwritten⟩ : _ ∧ _ ∧ _ ∧ _ ∧ _ := by simpa only [Prod.mk.injEq] using hlook
  obtain ⟨t', ht', hall⟩ := truncated_bytes_stay_zero (by decide) (fun _ _ => 0) oneBlockStorage twoBytesWritten hbefore
  obtain rfl := Option.some.inj (ht.symm.trans ht')
  obtain ⟨file, hfile, hdel⟩ := Option.map_eq_some_iff.mp hlive
  obtain ⟨c'', hc'', hzero⟩ := (hall 0 1 ⟨file, hfile, hdel⟩).2 c hc grownAgain (of_decide_eq_true hallowed) (of_decide_eq_true hgap)
  obtain rfl := Option.some.inj (hc'.symm.trans hc'')
  exact ⟨t, c, c', ht, hc, hc', hend, hunwritten, hzero 3 (by decide) (by rw [hend]; decide) hunwritten⟩

/-- Four bytes are written, three of them are cut off, and the fourth is written again: the third is back. -/
theorem truncated_byte_comes_back :
    Run.Guarded Tracked.step Tracked.Permitted ⟨start 1 (fun _ _ => 0) oneBlockStorage, fun _ _ => none⟩
      [.openFile 0 .notExist [97] [(0, 0)], .writeFile 0 0 0 4 [1, 2, 3, 4]] ∧
    aroundTruncate (start 1 (fun _ _ => 0) oneBlockStorage)
        [.openFile 0 .notExist [97] [(0, 0)], .writeFile 0 0 0 4 [1, 2, 3, 4]] 0 1 [.writeFile 0 0 3 1 [9]]
        (fun _ c c' => (decide (Run.Guarded (Cut.step 0) (Cut.Allowed 0 1) c [.writeFile 0 0 3 1 [9]]), c'.fileEnd, c'.written 2,
          (c'.node.handle (readAt 0 2)).map Prod.fst))
      = some (true, 4, false, some (.bytes [3])) := by
  constructor <;> decide +kernel


end IOnode

end HuronFS
