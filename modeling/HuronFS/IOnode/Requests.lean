import HuronFS.IOnode.Eviction

/-!
# `IOnode.Requests` — whole requests, and runs of them

The loops of `_receive_data` and `_send_data` over the blocks of a request, the opening and the removal of
files, and what holds after any sequence of requests: every byte is where the IOnode looks for it.
-/

namespace HuronFS

open Region

namespace IOnode

variable {n : IOnode} {k : BlockKey} {b : Block} {file : IOFile} {cap : Nat} {ref : Ref}

/-! ## One block of a write -/

/-- A file that is not to be removed. -/
def Live (n : IOnode) (f : Int) : Prop := ∃ file, n.files.find? f = some file ∧ file.toBeDeleted = false

theorem SameFiles.live {n' : IOnode} {f : Int} (h : SameFiles n n') (hf : n.Live f) : n'.Live f := by
  obtain ⟨file, hfile, hlive⟩ := hf
  obtain ⟨file', hfile', -, hdel, -⟩ := h f file hfile
  exact ⟨file', hfile', hdel.trans hlive⟩

/-- The block of a write is there, or is created without memory. -/
theorem Inv.blockForWriting {size : Nat} (h : Inv cap [] n ref) (hlive : n.Live k.1)
    (haligned : getBlockStartPoint k.2 = k.2) (hsize : size ≤ BLOCK_SIZE) :
    Inv cap [] (n.blockForWriting k size) ref ∧ SameFiles n (n.blockForWriting k size) ∧
      ∃ b, (n.blockForWriting k size).block? k = some b := by
  obtain ⟨file, hfile, hlive⟩ := hlive
  unfold IOnode.blockForWriting
  rw [hfile]
  cases hb : file.blocks.find? k.2 with
  | some b =>
      simp only [hb, Option.isSome_some, if_true]
      exact ⟨h, SameFiles.refl n, b, by rw [block?_of_file hfile, hb]⟩
  | none =>
      simp only [hb, Option.isSome_none, Bool.false_eq_true, if_false]
      have hk : n.elemOf k = none := by
        unfold elemOf
        rw [block?_of_file hfile, hb]
        rfl
      refine ⟨?_, SameFiles.of_setBlock rfl, _, block?_setBlock_self hfile⟩
      refine h.updateBlock hfile rfl rfl h.pool ?_ (fun _ _ => Iff.rfl) (fun _ _ _ _ _ _ => rfl) (fun _ hp => hp)
        (fun _ _ _ hv _ => hv) ?_ (fun _ _ _ => rfl) ?_
      · show Frames.Ok n.pool.head n.pool.created ([] ++ n.queue) (Function.update n.elemOf k none)
        rw [← hk, Function.update_eq_self]
        exact h.frames
      · refine ⟨?_, fun hc => absurd rfl hc, rfl, hsize, haligned, rfl, hlive.symm, ?_⟩
        · constructor
          · intro hc
            cases hc
          · intro hc
            exact absurd hc (h.not_mem_queue hk)
        · rintro _ (hc | ⟨hc, -⟩)
          · cases hc
          · exact absurd hc (h.not_mem_queue hk)
      · -- there was no block, so there was no byte
        intro _ pos v hpos hv
        obtain ⟨b', hb', -⟩ := h.bytes k.1 file pos v hfile hlive hv
        rw [hpos, hb] at hb'
        cases hb'

theorem needAllocation_of_none (he : b.elem = none) : b.needAllocation = true := by
  unfold Block.needAllocation
  rw [he]
  simp

theorem needAllocation_of_some {e : Nat} (hok : BlockOk n file k b) (he : b.elem = some e) : b.needAllocation = false := by
  unfold Block.needAllocation
  rw [hok.valid (by rw [he]; simp), he]
  rfl

/-- A block without memory needs some. -/
theorem Inv.elem_of_needAllocation (h : Inv cap [] n ref) (hb : n.block? k = some b) (hneed : b.needAllocation = true) :
    b.elem = none := by
  obtain ⟨file, hfile, -⟩ := block?_some_iff.mp hb
  cases he : b.elem with
  | none => rfl
  | some e =>
      rw [needAllocation_of_some (h.block hfile hb) he] at hneed
      cases hneed

/-- **One block of a write.** -/
theorem Inv.updateBlockData {offset size : Nat} {data : List Byte} (h : Inv cap [] n ref) (hcap : 0 < cap)
    (hlive : n.Live k.1) (haligned : getBlockStartPoint k.2 = k.2) (hoffset : offset < BLOCK_SIZE)
    (hsize : offset + size ≤ BLOCK_SIZE) (hdata : size ≤ data.length) :
    ∃ n', n.updateBlockData k offset size data = some (size, n') ∧
      Inv cap [] n' (refWrite ref k.1 (k.2 + offset) (data.take size)) ∧ SameFiles n n' := by
  obtain ⟨h0, hsame0, b, hb⟩ := h.blockForWriting hlive haligned (show size ≤ BLOCK_SIZE by omega)
  obtain ⟨file, hfile, hlive0⟩ := hsame0.live hlive
  have hok := h0.block hfile hb
  have hmin : min size (BLOCK_SIZE - offset) = size := by omega
  have hlength : offset + (data.take size).length ≤ BLOCK_SIZE := by
    rw [List.length_take]
    omega
  -- the copy, once the block has memory
  have hcopy : ∀ {m : IOnode} {pending b' e file'}, Inv cap pending m ref → (pending = [] ∨ pending = [k]) →
      m.files.find? k.1 = some file' → m.block? k = some b' → b'.elem = some e →
      m.receiveInto k offset size data = some (size, m.written k b' e offset (data.take size)) := by
    intro m pending b' e file' hm _ hfile' hb' he
    have := receiveInto_eq hfile' hb' he (hm.block hfile' hb').page hoffset (by rw [hmin]; exact hdata)
    rwa [hmin] at this
  unfold IOnode.updateBlockData
  simp only [hb]
  cases he : b.elem with
  | some e =>
      rw [if_neg (by rw [needAllocation_of_some hok he]; decide), hcopy h0 (Or.inl rfl) hfile hb he]
      exact ⟨_, rfl, h0.written (Or.inl rfl) hfile hb he hlength, hsame0.trans (SameFiles.of_setBlock rfl)⟩
  | none =>
      rw [if_pos (needAllocation_of_none he)]
      obtain ⟨m, hload, hm, hsame⟩ := h0.loadForWriting hcap hfile hlive0 hb he
      obtain ⟨file', hfile', -, -, -⟩ := hsame k.1 file hfile
      obtain ⟨e, howner⟩ := (hm.frames.mem_held k).mp (List.mem_append.mpr (Or.inl (List.mem_singleton_self k)))
      obtain ⟨b', hb', he'⟩ := Option.bind_eq_some_iff.mp howner
      rw [hload]
      refine ⟨_, hcopy hm (Or.inr rfl) hfile' hb' he', hm.written (Or.inr rfl) hfile' hb' he' hlength, ?_⟩
      exact (hsame0.trans hsame).trans (SameFiles.of_setBlock rfl)

/-- **A write request**: block after block, the whole of it. -/
theorem Inv.receiveLoop {f : Int} (hcap : 0 < cap) : ∀ {fuel startPoint offset remaining : Nat} {data : List Byte}
    {n : IOnode} {ref : Ref}, remaining ≤ fuel → data.length = remaining → getBlockStartPoint startPoint = startPoint →
    offset < BLOCK_SIZE → Inv cap [] n ref → n.Live f →
    ∃ n', IOnode.receiveLoop f fuel startPoint offset (min remaining (BLOCK_SIZE - offset)) remaining data n = some n' ∧
      Inv cap [] n' (refWrite ref f (startPoint + offset) data) ∧ SameFiles n n' := by
  intro fuel
  induction fuel with
  | zero =>
      intro startPoint offset remaining data n ref hfuel hdata _ _ h _
      obtain rfl : remaining = 0 := by omega
      obtain rfl := List.eq_nil_of_length_eq_zero hdata
      refine ⟨n, rfl, ?_, SameFiles.refl n⟩
      unfold refWrite
      rw [List.map_nil, patch_nil, Function.update_eq_self]
      exact h
  | succ fuel ih =>
      intro startPoint offset remaining data n ref hfuel hdata haligned hoffset h hlive
      unfold IOnode.receiveLoop
      by_cases hzero : remaining = 0
      · subst hzero
        obtain rfl := List.eq_nil_of_length_eq_zero hdata
        rw [if_pos rfl]
        refine ⟨n, rfl, ?_, SameFiles.refl n⟩
        unfold refWrite
        rw [List.map_nil, patch_nil, Function.update_eq_self]
        exact h
      · rw [if_neg hzero]
        obtain ⟨m, hstep, hm, hsame⟩ := h.updateBlockData (k := (f, startPoint)) hcap hlive haligned hoffset
          (show offset + min remaining (BLOCK_SIZE - offset) ≤ BLOCK_SIZE by omega)
          (show min remaining (BLOCK_SIZE - offset) ≤ data.length by omega)
        rw [hstep]
        dsimp only
        have htake : (data.take (min remaining (BLOCK_SIZE - offset))).length = min remaining (BLOCK_SIZE - offset) := by
          rw [List.length_take]
          omega
        by_cases hlast : remaining ≤ BLOCK_SIZE - offset
        · -- the request ends in this block
          have hmin : min remaining (BLOCK_SIZE - offset) = remaining := by omega
          rw [hmin] at hm ⊢
          refine ⟨m, ?_, ?_, hsame⟩
          · rw [Nat.sub_self]
            cases fuel <;> rfl
          · rw [List.take_of_length_le (by omega)] at hm
            exact hm
        · -- the block is filled to its end, and the next one begins
          have hmin : min remaining (BLOCK_SIZE - offset) = BLOCK_SIZE - offset := by omega
          rw [hmin] at hm htake ⊢
          have hnext : getBlockStartPoint (startPoint + (BLOCK_SIZE - offset + offset))
              = startPoint + (BLOCK_SIZE - offset + offset) := by
            rw [Nat.sub_add_cancel (Nat.le_of_lt hoffset)]
            exact getBlockStartPoint_next haligned
          obtain ⟨n', hrest, hn', hsame'⟩ := ih (show remaining - (BLOCK_SIZE - offset) ≤ fuel by omega)
            (show (data.drop (BLOCK_SIZE - offset)).length = remaining - (BLOCK_SIZE - offset) by
              rw [List.length_drop]; omega)
            hnext (show 0 < BLOCK_SIZE by decide) hm (hsame.live hlive)
          refine ⟨n', hrest, ?_, hsame.trans hsame'⟩
          have hsplit := refWrite_append ref f (startPoint + offset) (data.take (BLOCK_SIZE - offset))
            (data.drop (BLOCK_SIZE - offset))
          rw [List.take_append_drop, htake] at hsplit
          rw [hsplit]
          have hpos : startPoint + offset + (BLOCK_SIZE - offset) = startPoint + (BLOCK_SIZE - offset + offset) + 0 := by
            omega
          rw [hpos]
          exact hn'

/-! ## Reading -/

/-- **One block of a read**, of which a byte has been written or was on storage. -/
theorem Inv.sendBlock (offset size : Nat) {pos : Nat} {v : Byte} (h : Inv cap [] n ref) (hcap : 0 < cap)
    (hfile : n.files.find? k.1 = some file) (hlive : file.toBeDeleted = false) (hb : n.block? k = some b)
    (hpos : getBlockStartPoint pos = k.2) (hv : ref k.1 pos = some v) :
    ∃ piece n', n.sendBlock k b offset size = some (piece, n') ∧ Inv cap [] n' ref ∧ SameFiles n n' := by
  have hok := h.block hfile hb
  have hholds := h.holds hfile hb hlive hpos hv
  -- the access, once the block has memory
  have haccess : ∀ {m : IOnode} {pending b' e file'}, Inv cap pending m ref → (pending = [] ∨ pending = [k]) →
      m.files.find? k.1 = some file' → m.block? k = some b' → b'.elem = some e →
      Inv cap [] (m.updateAccessOrder k) ref ∧ SameFiles m (m.updateAccessOrder k) := by
    intro m pending b' e file' hm hpending hfile' hb' he
    refine ⟨hm.updateAccessOrder hpending hfile' hb' he ?_, ?_⟩
    · intro hlive' hclean
      have hstored := (hm.holds hfile' hb' hlive' hpos hv).onStorage (Or.inr hclean)
      obtain ⟨F, hF, -⟩ := stored_eq_some.mp hstored
      rw [hF]
      rfl
    · rw [updateAccessOrder_eq hb' (hm.block hfile' hb').page]
      exact SameFiles.of_setBlock rfl
  unfold IOnode.sendBlock
  cases he : b.elem with
  | some e =>
      rw [needAllocation_of_some hok he]
      simp only [Bool.false_eq_true, if_false, hb, Option.bind_some, he]
      obtain ⟨hinv, hsame⟩ := haccess h (Or.inl rfl) hfile hb he
      exact ⟨_, _, rfl, hinv, hsame⟩
  | none =>
      rw [needAllocation_of_none he]
      obtain ⟨m, hload, hm, hsame, -, -, e, b', hb', he', -⟩ := h.loadForSending hcap hfile hlive hb he
        (hholds.reload he).symm
      obtain ⟨file', hfile', -, -, -⟩ := hsame k.1 file hfile
      simp only [if_true, hload, hb', Option.bind_some, he']
      obtain ⟨hinv, hsame'⟩ := haccess hm (Or.inr rfl) hfile' hb' he'
      exact ⟨_, _, rfl, hinv, hsame.trans hsame'⟩

/-- The piece of a block has the size that was asked for. -/
theorem sendBlock_size {n' : IOnode} {offset size : Nat} {piece : SendBuffer} (h : n.sendBlock k b offset size = some (piece, n')) :
    piece.size = size := by
  obtain ⟨m, e, -, -, rfl, -⟩ := sendBlock_some h
  rfl

/-- How many bytes the pieces of a reply are. -/
def replySize (pieces : List SendBuffer) : Nat := (pieces.map SendBuffer.size).sum

theorem replySize_append (pieces : List SendBuffer) (piece : SendBuffer) : replySize (pieces ++ [piece]) = replySize pieces + piece.size := by
  unfold replySize
  rw [List.map_append, List.sum_append, List.map_singleton, List.sum_singleton]

/-- **A read request** of bytes that have been written or were on storage: the reply has all of them. -/
theorem Inv.sendLoop {f : Int} (hcap : 0 < cap) {ref : Ref} : ∀ {fuel startPoint offset remaining : Nat}
    (acc : List SendBuffer) {n : IOnode}, remaining ≤ fuel → getBlockStartPoint startPoint = startPoint →
    offset < BLOCK_SIZE → (∀ i < remaining, (ref f (startPoint + offset + i)).isSome) → Inv cap [] n ref → n.Live f →
    ∃ pieces n', IOnode.sendLoop f fuel startPoint offset (min remaining (BLOCK_SIZE - offset)) remaining acc n
        = some (pieces, n') ∧ Inv cap [] n' ref ∧ SameFiles n n' ∧ replySize pieces = replySize acc + remaining := by
  intro fuel
  induction fuel with
  | zero =>
      intro startPoint offset remaining acc n hfuel _ _ _ h _
      obtain rfl : remaining = 0 := by omega
      exact ⟨acc, n, rfl, h, SameFiles.refl n, rfl⟩
  | succ fuel ih =>
      intro startPoint offset remaining acc n hfuel haligned hoffset hbytes h hlive
      unfold IOnode.sendLoop
      by_cases hzero : remaining = 0
      · rw [if_pos hzero]
        exact ⟨acc, n, rfl, h, SameFiles.refl n, by rw [hzero, Nat.add_zero]⟩
      · rw [if_neg hzero]
        -- the first byte of the request says that the block is there
        obtain ⟨v, hv⟩ := Option.isSome_iff_exists.mp (hbytes 0 (by omega))
        obtain ⟨file, hfile, hdel⟩ := hlive
        have hpos : getBlockStartPoint (startPoint + offset + 0) = startPoint := by
          have := getBlockStartPoint_mul_add (startPoint / BLOCK_SIZE) offset hoffset
          unfold getBlockStartPoint at this haligned ⊢
          rw [haligned] at this
          rw [Nat.add_zero, this]
        obtain ⟨b, hb, -⟩ := h.bytes f file _ v hfile hdel hv
        rw [hpos] at hb
        have hblock : n.block? (f, startPoint) = some b := block?_some_iff.mpr ⟨file, hfile, hb⟩
        simp only [hblock]
        obtain ⟨piece, m, hsend, hm, hsame⟩ := h.sendBlock offset (min remaining (BLOCK_SIZE - offset))
          (k := (f, startPoint)) hcap hfile hdel hblock hpos hv
        have hsize := sendBlock_size hsend
        rw [hsend]
        dsimp only
        by_cases hlast : remaining ≤ BLOCK_SIZE - offset
        · have hmin : min remaining (BLOCK_SIZE - offset) = remaining := by omega
          refine ⟨acc ++ [piece], m, ?_, hm, hsame, ?_⟩
          · rw [hmin, Nat.sub_self]
            cases fuel <;> rfl
          · rw [replySize_append, hsize, hmin]
        · have hmin : min remaining (BLOCK_SIZE - offset) = BLOCK_SIZE - offset := by omega
          rw [hmin]
          have hbytes' : ∀ i < remaining - (BLOCK_SIZE - offset), (ref f (startPoint + BLOCK_SIZE + 0 + i)).isSome := by
            intro i hi
            have := hbytes (BLOCK_SIZE - offset + i) (by omega)
            rwa [show startPoint + offset + (BLOCK_SIZE - offset + i) = startPoint + BLOCK_SIZE + 0 + i by omega] at this
          obtain ⟨pieces, n', hrest, hn', hsame', hsum⟩ := ih (acc ++ [piece])
            (show remaining - (BLOCK_SIZE - offset) ≤ fuel by omega) (getBlockStartPoint_next haligned)
            (show 0 < BLOCK_SIZE by decide) hbytes' hm (hsame.live ⟨file, hfile, hdel⟩)
          refine ⟨pieces, n', hrest, hn', hsame.trans hsame', ?_⟩
          rw [hsum, replySize_append, hsize, hmin]
          omega

/-! ## Opening -/

/-- The blocks of a newly opened file. -/
def openedBlocks (existFlag : ExistFlag) (blocks : List (Nat × Nat)) : OrdMap Nat Block :=
  blocks.foldl (fun m (startPoint, dataSize) => m.insert startPoint (Block.create dataSize existFlag)) OrdMap.empty

/-- `_open_file`, for a file that is not known. -/
theorem openFile_unknown {n : IOnode} {f : Int} (hunknown : n.files.find? f = none) (existFlag : ExistFlag) (path : Str)
    (blocks : List (Nat × Nat)) :
    n.openFile f existFlag path blocks = { n with files := n.files.put f ⟨path, existFlag, false, openedBlocks existFlag blocks⟩ } := by
  unfold openFile
  rw [hunknown]
  rfl

theorem openedBlocks_eq (existFlag : ExistFlag) (blocks : List (Nat × Nat)) :
    openedBlocks existFlag blocks =
      (blocks.map (fun e => (e.1, Block.create e.2 existFlag))).foldl (fun acc e => acc.insert e.1 e.2) OrdMap.empty := by
  rw [List.foldl_map]
  rfl

/-- A block of a newly opened file is one of the list. -/
theorem openedBlocks_mem {existFlag : ExistFlag} {blocks : List (Nat × Nat)} {s : Nat} {b : Block}
    (h : (openedBlocks existFlag blocks).find? s = some b) :
    ∃ dataSize, (s, dataSize) ∈ blocks ∧ b = Block.create dataSize existFlag := by
  rw [openedBlocks_eq] at h
  rcases OrdMap.find?_foldl_insert h with hempty | hlist
  · cases hempty
  · obtain ⟨e, he, heq⟩ := List.mem_map.mp hlist
    cases heq
    exact ⟨e.2, he, rfl⟩

/-- A listed block of a newly opened file. -/
theorem openedBlocks_find {existFlag : ExistFlag} {bl : OrdMap Nat Nat} {k d : Nat} (h : bl.find? k = some d) :
    (openedBlocks existFlag bl.entries).find? k = some (Block.create d existFlag) := by
  have hmem : k ∈ (openedBlocks existFlag bl.entries).keys := by
    rw [openedBlocks_eq, OrdMap.mem_keys_foldl_insert]
    exact Or.inr ⟨_, List.mem_map.mpr ⟨(k, d), OrdMap.mem_entries.mpr h, rfl⟩⟩
  obtain ⟨b, hb⟩ := OrdMap.mem_keys.mp hmem
  obtain ⟨d', hd', rfl⟩ := openedBlocks_mem hb
  have hd := OrdMap.mem_entries.mp hd'
  rw [h] at hd
  rw [hb, Option.some.inj hd]

/-- A newly opened file has no memory. -/
theorem elemOf_openFile {f : Int} (hnew : n.files.find? f = none) (existFlag : ExistFlag) (path : Str) (blocks : List (Nat × Nat)) :
    (n.openFile f existFlag path blocks).elemOf = n.elemOf := by
  rw [openFile_unknown hnew]
  funext j
  unfold elemOf block?
  dsimp only
  rw [OrdMap.find?_put]
  by_cases hj : j.1 = f
  · rw [if_pos hj, hj, hnew]
    show ((openedBlocks existFlag blocks).find? j.2).bind Block.elem = none
    cases hb : (openedBlocks existFlag blocks).find? j.2 with
    | none => rfl
    | some b =>
        obtain ⟨d, -, rfl⟩ := openedBlocks_mem hb
        rfl
  · rw [if_neg hj]

/-- The bytes a file has when it is opened: those on storage, if it is there. -/
def openedBytes (n : IOnode) (existFlag : ExistFlag) (path : Str) : Nat → Option Byte :=
  match existFlag with
  | .notExist => fun _ => none
  | .existing => n.stored path

/-- What the Master promises about a file it has opened on an IOnode for the first time: no other file there
    has the path, the listed blocks start at multiples of the block size and are not longer, and a file that
    exists is on storage and covered by the list. -/
structure Openable (n : IOnode) (existFlag : ExistFlag) (path : Str) (blocks : List (Nat × Nat)) : Prop where
  fresh : ∀ e ∈ n.files.entries, e.2.filePath ≠ path
  aligned : ∀ e ∈ blocks, getBlockStartPoint e.1 = e.1 ∧ e.2 ≤ BLOCK_SIZE
  present : existFlag = .existing → (n.storage path).isSome
  covered : existFlag = .existing → ∀ pos < ((n.storage path).map ByteFile.size).getD 0,
    ∃ b ∈ (openedBlocks existFlag blocks).find? (getBlockStartPoint pos), pos - getBlockStartPoint pos < b.dataSize

theorem Inv.openFile {f : Int} {existFlag : ExistFlag} {path : Str} {blocks : List (Nat × Nat)} (h : Inv cap [] n ref)
    (hlist : n.removeFileList = []) (hnew : n.files.find? f = none) (hopen : Openable n existFlag path blocks) :
    Inv cap [] (n.openFile f existFlag path blocks) (Function.update ref f (n.openedBytes existFlag path)) := by
  rw [openFile_unknown hnew]
  have hfiles : ∀ {g file'}, (n.files.put f ⟨path, existFlag, false, openedBlocks existFlag blocks⟩).find? g = some file' →
      (g = f ∧ file' = ⟨path, existFlag, false, openedBlocks existFlag blocks⟩) ∨
        (g ≠ f ∧ n.files.find? g = some file') := by
    intro g file' hg
    rw [OrdMap.find?_put] at hg
    by_cases hgf : g = f
    · rw [if_pos hgf] at hg
      exact Or.inl ⟨hgf, (Option.some.inj hg).symm⟩
    · rw [if_neg hgf] at hg
      exact Or.inr ⟨hgf, hg⟩
  have hfresh : ∀ {g file'}, n.files.find? g = some file' → file'.filePath ≠ path := by
    intro g file' hg
    exact hopen.fresh (g, file') (OrdMap.mem_entries.mpr hg)
  have hnone : ∀ s, n.elemOf (f, s) = none := by
    intro s
    unfold elemOf block?
    rw [hnew]
    rfl
  have helems : elemOf { n with files := n.files.put f ⟨path, existFlag, false, openedBlocks existFlag blocks⟩ } = n.elemOf := by
    rw [← openFile_unknown hnew, elemOf_openFile hnew]
  refine ⟨h.pool, by rw [helems]; exact h.frames, ?_, ?_, ?_, ?_, ?_⟩
  · intro g file' s b hg hs
    rcases hfiles hg with ⟨rfl, rfl⟩ | ⟨hgf, hg'⟩
    · obtain ⟨d, hmem, rfl⟩ := openedBlocks_mem hs
      have hqueue : (g, s) ∉ n.queue := h.not_mem_queue (hnone s)
      obtain ⟨ha, hd⟩ := hopen.aligned (s, d) hmem
      refine ⟨⟨fun hc => (nomatch hc), fun hc => absurd hc hqueue⟩, fun hc => absurd rfl hc, rfl, hd, ha, rfl, rfl, ?_⟩
      rintro _ (hc | ⟨hc, -⟩)
      · cases hc
      · exact absurd hc hqueue
    · have hok := h.blockOk g file' s b hg' hs
      exact ⟨hok.page, hok.valid, hok.idle, hok.size_le, hok.aligned, hok.exist_eq, hok.deleted_eq, hok.backed⟩
  · intro g file' hg hlive hexist
    rcases hfiles hg with ⟨rfl, rfl⟩ | ⟨hgf, hg'⟩
    · exact hopen.present hexist
    · exact h.present g file' hg' hlive hexist
  · intro g file' hg
    rcases hfiles hg with ⟨rfl, rfl⟩ | ⟨hgf, hg'⟩
    · show false = true ↔ g ∈ n.removeFileList
      rw [hlist]
      simp
    · exact h.listed g file' hg'
  · intro g file' g' file'' hg hg' hlive hlive' hpath
    rcases hfiles hg with ⟨rfl, rfl⟩ | ⟨hgf, hg1⟩
    · rcases hfiles hg' with ⟨rfl, rfl⟩ | ⟨-, hg2⟩
      · rfl
      · exact absurd hpath.symm (hfresh hg2)
    · rcases hfiles hg' with ⟨rfl, rfl⟩ | ⟨-, hg2⟩
      · exact absurd hpath (hfresh hg1)
      · exact h.paths g file' g' file'' hg1 hg2 hlive hlive' hpath
  · intro g file' pos v hg hlive hv
    rcases hfiles hg with ⟨rfl, rfl⟩ | ⟨hgf, hg'⟩
    · rw [Function.update_self] at hv
      cases existFlag with
      | notExist => cases hv
      | existing =>
          have hstored : n.stored path pos = some v := hv
          obtain ⟨F, hF, hpos, -⟩ := stored_eq_some.mp hstored
          obtain ⟨b, hb, hlt⟩ := hopen.covered rfl pos (by rw [hF]; exact hpos)
          obtain ⟨d, -, rfl⟩ := openedBlocks_mem hb
          exact ⟨_, hb, hlt, fun e he => (nomatch he), fun _ => hstored, fun _ => Or.inr rfl⟩
    · rw [Function.update_of_ne hgf] at hv
      obtain ⟨b, hb, hholds⟩ := h.bytes g file' pos v hg' hlive hv
      exact ⟨b, hb, hholds.lt, hholds.inMemory, hholds.onStorage, hholds.reload⟩

/-! ## Removing -/

/-- A step that touches only a file that is to be removed, or removes it. -/
theorem Inv.of_dead {n' : IOnode} {f : Int} (h : Inv cap [] n ref) (hpool : n'.pool.Ok cap)
    (hframes : Frames.Ok n'.pool.head n'.pool.created ([] ++ n'.queue) n'.elemOf)
    (hfiles : ∀ g, g ≠ f → n'.files.find? g = n.files.find? g)
    (hdead : ∀ file, n'.files.find? f = some file → file.toBeDeleted = true ∧ f ∈ n'.removeFileList)
    (hblocks : ∀ file s b, n'.files.find? f = some file → file.blocks.find? s = some b → BlockOk n' file (f, s) b)
    (hlist : ∀ g, g ≠ f → (g ∈ n'.removeFileList ↔ g ∈ n.removeFileList))
    (hqueue : ∀ g s, g ≠ f → ((g, s) ∈ n'.queue ↔ (g, s) ∈ n.queue)) (hmemory : n'.memory = n.memory)
    (hstorage : n'.storage = n.storage) : Inv cap [] n' ref := by
  -- a live file is one of the others
  have hother : ∀ {g file}, n'.files.find? g = some file → file.toBeDeleted = false →
      g ≠ f ∧ n.files.find? g = some file := by
    intro g file hg hlive
    have hgf : g ≠ f := by
      intro hc
      rw [hc] at hg
      rw [(hdead file hg).1] at hlive
      cases hlive
    exact ⟨hgf, (hfiles g hgf).symm.trans hg⟩
  refine ⟨hpool, hframes, ?_, ?_, ?_, ?_, ?_⟩
  · intro g file s b hg hs
    by_cases hgf : g = f
    · subst hgf
      exact hblocks file s b hg hs
    · rw [hfiles g hgf] at hg
      have hok := h.blockOk g file s b hg hs
      refine ⟨hok.page.trans (hqueue g s hgf).symm, hok.valid, hok.idle, hok.size_le, hok.aligned, hok.exist_eq,
        hok.deleted_eq, ?_⟩
      rw [hqueue g s hgf, hstorage]
      exact hok.backed
  · intro g file hg hlive hexist
    rw [hstorage]
    exact h.present g file (hother hg hlive).2 hlive hexist
  · intro g file hg
    by_cases hgf : g = f
    · subst hgf
      obtain ⟨hdel, hmem⟩ := hdead file hg
      exact ⟨fun _ => hmem, fun _ => hdel⟩
    · rw [hfiles g hgf] at hg
      exact (h.listed g file hg).trans (hlist g hgf).symm
  · intro g file g' file' hg hg' hlive hlive' hpath
    exact h.paths g file g' file' (hother hg hlive).2 (hother hg' hlive').2 hlive hlive' hpath
  · intro g file pos v hg hlive hv
    obtain ⟨b, hb, hholds⟩ := h.bytes g file pos v (hother hg hlive).2 hlive hv
    refine ⟨b, hb, hholds.lt, ?_, ?_, hholds.reload⟩
    · rw [hmemory]
      exact hholds.inMemory
    · unfold stored
      rw [hstorage]
      exact hholds.onStorage

/-- The file that an unlink leaves. -/
def markedFile (file : IOFile) : IOFile :=
  { file with blocks := file.blocks.mapValues (fun b => { b with toBeDeleted := true }), toBeDeleted := true }

/-- `_remove_file`, for a file that is not removed yet. -/
theorem removeFile_marks {n : IOnode} {f : Int} {file : IOFile} (hfile : n.files.find? f = some file)
    (hlive : file.toBeDeleted = false) :
    n.removeFile f = { n with files := n.files.put f (markedFile file), removeFileList := n.removeFileList ++ [f] } := by
  unfold IOnode.removeFile
  rw [hfile]
  simp only [hlive, Bool.false_eq_true, if_false]
  rfl

/-- The elements stay with their blocks until the file goes. -/
theorem elemOf_removeFile (n : IOnode) (f : Int) : (n.removeFile f).elemOf = n.elemOf := by
  cases hfile : n.files.find? f with
  | none =>
      unfold IOnode.removeFile
      rw [hfile]
  | some file =>
      cases hdel : file.toBeDeleted with
      | true =>
          unfold IOnode.removeFile
          simp only [hfile, hdel, if_true]
      | false =>
          rw [removeFile_marks hfile hdel]
          funext j
          unfold elemOf block?
          dsimp only
          rw [OrdMap.find?_put]
          by_cases hj : j.1 = f
          · rw [if_pos hj, hj, hfile]
            show ((file.blocks.mapValues _).find? j.2).bind Block.elem = (file.blocks.find? j.2).bind Block.elem
            rw [OrdMap.find?_mapValues]
            cases file.blocks.find? j.2 <;> rfl
          · rw [if_neg hj]

/-- An unlink marks the file and its blocks; its bytes do not count any more. -/
theorem Inv.removeFile {f : Int} (h : Inv cap [] n ref) : Inv cap [] (n.removeFile f) ref := by
  cases hfile : n.files.find? f with
  | none =>
      unfold IOnode.removeFile
      rw [hfile]
      exact h
  | some file =>
      cases hdel : file.toBeDeleted with
      | true =>
          unfold IOnode.removeFile
          simp only [hfile, hdel, if_true]
          exact h
      | false =>
          have helems := elemOf_removeFile n f
          rw [removeFile_marks hfile hdel] at helems ⊢
          have hself : (n.files.put f (markedFile file)).find? f = some (markedFile file) := OrdMap.find?_put_self _ _ _
          refine h.of_dead (f := f) h.pool ?_ ?_ ?_ ?_ ?_ (fun _ _ _ => Iff.rfl) rfl rfl
          · rw [helems]
            exact h.frames
          · intro g hg
            exact OrdMap.find?_put_ne _ _ hg
          · intro file' hf
            obtain rfl := Option.some.inj (hself.symm.trans hf)
            exact ⟨rfl, List.mem_append.mpr (Or.inr (List.mem_singleton_self f))⟩
          · intro file' s b hf hs
            obtain rfl := Option.some.inj (hself.symm.trans hf)
            unfold markedFile at hs
            dsimp only at hs
            rw [OrdMap.find?_mapValues] at hs
            obtain ⟨b', hb', rfl⟩ := Option.map_eq_some_iff.mp hs
            have hok := h.blockOk f file s b' hfile hb'
            exact ⟨hok.page, hok.valid, hok.idle, hok.size_le, hok.aligned, hok.exist_eq, rfl, fun hc => (nomatch hc)⟩
          · intro g hg
            show g ∈ n.removeFileList ++ [f] ↔ g ∈ n.removeFileList
            rw [List.mem_append, List.mem_singleton, or_iff_left hg]

/-- The memory of a deleted block is free. -/
theorem Inv.release (h : Inv cap [] n ref) (hb : n.block? k = some b) :
    (b.release n.pool).Ok cap ∧ Frames.Ok (b.release n.pool).head (b.release n.pool).created ([] ++ n.queue.erase k)
      (Function.update n.elemOf k none) := by
  have howner := elemOf_of_block hb
  unfold Block.release
  cases he : b.elem with
  | none =>
      rw [he] at howner
      have hnot : k ∉ n.queue := h.not_mem_queue howner
      have hsame : Function.update n.elemOf k none = n.elemOf := by rw [← howner, Function.update_eq_self]
      rw [List.erase_of_not_mem hnot, hsame]
      exact ⟨h.pool, h.frames⟩
  | some e =>
      rw [he] at howner
      have hmem : k ∈ n.queue := by
        have := (h.frames.mem_held k).mpr ⟨e, howner⟩
        rwa [List.nil_append] at this
      exact ⟨h.pool.free e, h.frames.release howner (List.perm_cons_erase hmem)⟩

/-- The file a state had before one of the blocks was deleted. -/
theorem file_before_delete (hfile : n.files.find? k.1 = some file) {g : Int} {file' : IOFile}
    (hg : (n.files.modify k.1 (fun file => { file with blocks := file.blocks.erase k.2 })).find? g = some file') :
    ∃ old, n.files.find? g = some old ∧ old.filePath = file'.filePath ∧ old.toBeDeleted = file'.toBeDeleted ∧
      old.existFlag = file'.existFlag ∧ (g = k.1 → old = file) ∧
      ∀ s, file'.blocks.find? s = if (g, s) = k then none else old.blocks.find? s := by
  rw [OrdMap.find?_modify] at hg
  by_cases hgk : g = k.1
  · subst hgk
    rw [if_pos rfl, hfile] at hg
    obtain rfl := Option.some.inj hg
    refine ⟨file, hfile, rfl, rfl, rfl, fun _ => rfl, ?_⟩
    intro s
    show (file.blocks.erase k.2).find? s = _
    rw [OrdMap.find?_erase]
    by_cases hs : s = k.2
    · subst hs
      rw [if_pos rfl, if_pos rfl]
    · rw [if_neg hs, if_neg (fun hc => hs (congrArg Prod.snd hc))]
  · rw [if_neg hgk] at hg
    refine ⟨file', hg, rfl, rfl, rfl, fun hc => absurd hc hgk, ?_⟩
    intro s
    rw [if_neg (fun hc => hgk (congrArg Prod.fst hc))]

/-- A deleted block owns nothing. -/
theorem elemOf_deleteBlock (n : IOnode) (k : BlockKey) : (n.deleteBlock k).elemOf = Function.update n.elemOf k none := by
  unfold IOnode.deleteBlock
  cases hb : n.block? k with
  | none =>
      have hk : n.elemOf k = none := by
        unfold elemOf
        rw [hb]
        rfl
      rw [← hk, Function.update_eq_self]
  | some b =>
      obtain ⟨file, hfile, -⟩ := block?_some_iff.mp hb
      funext j
      unfold elemOf block?
      dsimp only
      rw [OrdMap.find?_modify]
      by_cases hj : j = k
      · subst hj
        rw [if_pos rfl, Function.update_self, hfile]
        show ((file.blocks.erase j.2).find? j.2).bind Block.elem = none
        rw [OrdMap.find?_erase_self]
        rfl
      · rw [Function.update_of_ne hj]
        by_cases hj1 : j.1 = k.1
        · have hj2 : j.2 ≠ k.2 := fun he => hj (Prod.ext hj1 he)
          rw [if_pos hj1, hj1, hfile]
          show ((file.blocks.erase k.2).find? j.2).bind Block.elem = (file.blocks.find? j.2).bind Block.elem
          rw [OrdMap.find?_erase_ne _ hj2]
        · rw [if_neg hj1]

/-- A block that is deleted: its page leaves the queue and its element is free. Its file is one that goes, or none of its bytes count. -/
theorem Inv.deleteBlock (h : Inv cap [] n ref) (hfile : n.files.find? k.1 = some file)
    (hfree : file.toBeDeleted = false → ∀ pos, getBlockStartPoint pos = k.2 → ref k.1 pos = none) :
    Inv cap [] (n.deleteBlock k) ref ∧ (n.deleteBlock k).removeFileList = n.removeFileList ∧
      (∀ g, g ≠ k.1 → (n.deleteBlock k).files.find? g = n.files.find? g) ∧
      ∃ file', (n.deleteBlock k).files.find? k.1 = some file' ∧ file'.toBeDeleted = file.toBeDeleted ∧
        file'.blocks.find? k.2 = none ∧ ∀ s, s ≠ k.2 → file'.blocks.find? s = file.blocks.find? s := by
  unfold IOnode.deleteBlock
  cases hb : n.block? k with
  | none =>
      refine ⟨h, rfl, fun _ _ => rfl, file, hfile, rfl, ?_, fun _ _ => rfl⟩
      rw [← block?_of_file hfile, hb]
  | some b =>
      dsimp only
      have hok := h.block hfile hb
      obtain ⟨hpool, hframes⟩ := h.release hb
      have hfiles : ∀ g, (n.files.modify k.1 (fun file => { file with blocks := file.blocks.erase k.2 })).find? g
          = if g = k.1 then some { file with blocks := file.blocks.erase k.2 } else n.files.find? g := by
        intro g
        rw [OrdMap.find?_modify, hfile]
        rfl
      have hqueue : (if b.writebackPage then n.queue.erase k else n.queue) = n.queue.erase k := by
        by_cases hpage : b.writebackPage = true
        · rw [if_pos hpage]
        · rw [if_neg hpage, List.erase_of_not_mem (fun hc => hpage (hok.page.mpr hc))]
      rw [hqueue]
      refine ⟨⟨hpool, ?_, ?_, ?_, ?_, ?_, ?_⟩, rfl, fun g hg => (hfiles g).trans (if_neg hg), _,
        (hfiles k.1).trans (if_pos rfl), rfl, OrdMap.find?_erase_self _ _, fun s hs => OrdMap.find?_erase_ne _ hs⟩
      · have helems : elemOf { n with
            files := n.files.modify k.1 (fun file => { file with blocks := file.blocks.erase k.2 })
            queue := n.queue.erase k
            pool := b.release n.pool } = Function.update n.elemOf k none := by
          have hdeleted := elemOf_deleteBlock n k
          unfold IOnode.deleteBlock at hdeleted
          rw [hb] at hdeleted
          exact hdeleted
        rw [helems]
        exact hframes
      · intro g file' s b' hg hs
        obtain ⟨old, hold, hpath, hdel, hex, -, hblocks⟩ := file_before_delete hfile hg
        rw [hblocks] at hs
        by_cases hk : (g, s) = k
        · rw [if_pos hk] at hs
          cases hs
        · rw [if_neg hk] at hs
          have hok' := h.blockOk g old s b' hold hs
          have hmem : (g, s) ∈ n.queue.erase k ↔ (g, s) ∈ n.queue := List.mem_erase_of_ne hk
          refine ⟨hok'.page.trans hmem.symm, hok'.valid, hok'.idle, hok'.size_le, hok'.aligned, hex ▸ hok'.exist_eq,
            hdel ▸ hok'.deleted_eq, ?_⟩
          intro hlive hor
          rw [hmem] at hor
          rw [← hpath]
          exact hok'.backed (hdel ▸ hlive) hor
      · intro g file' hg hlive hexist
        obtain ⟨old, hold, hpath, hdel, hex, -, -⟩ := file_before_delete hfile hg
        rw [← hpath]
        exact h.present g old hold (hdel ▸ hlive) (hex ▸ hexist)
      · intro g file' hg
        obtain ⟨old, hold, -, hdel, -, -, -⟩ := file_before_delete hfile hg
        rw [← hdel]
        exact h.listed g old hold
      · intro g file' g' file'' hg hg' hlive hlive' hsame
        obtain ⟨old, hold, hpath, hdel, -, -, -⟩ := file_before_delete hfile hg
        obtain ⟨old', hold', hpath', hdel', -, -, -⟩ := file_before_delete hfile hg'
        exact h.paths g old g' old' hold hold' (hdel ▸ hlive) (hdel' ▸ hlive') (by rw [hpath, hpath', hsame])
      · intro g file' pos v hg hlive hv
        obtain ⟨old, hold, hpath, hdel, -, hself, hblocks⟩ := file_before_delete hfile hg
        have hk : (g, getBlockStartPoint pos) ≠ k := by
          intro hc
          subst hc
          obtain rfl := hself rfl
          rw [hfree (hdel ▸ hlive) pos rfl] at hv
          cases hv
        obtain ⟨b', hb', hholds⟩ := h.bytes g old pos v hold (hdel ▸ hlive) hv
        refine ⟨b', by rw [hblocks, if_neg hk]; exact hb', hholds.lt, hholds.inMemory, ?_, hholds.reload⟩
        rw [← hpath]
        exact hholds.onStorage

/-- The blocks of a file go one after the other. -/
theorem Inv.deleteBlocks {f : Int} : ∀ (starts : List Nat) {n : IOnode} {file : IOFile}, Inv cap [] n ref →
    n.files.find? f = some file → file.toBeDeleted = true →
    ∃ n' file', starts.foldl (fun n startPoint => n.deleteBlock (f, startPoint)) n = n' ∧ Inv cap [] n' ref ∧
      n'.removeFileList = n.removeFileList ∧ (∀ g, g ≠ f → n'.files.find? g = n.files.find? g) ∧
      n'.files.find? f = some file' ∧ file'.toBeDeleted = true ∧
      ∀ s, (s ∈ starts ∨ file.blocks.find? s = none) → file'.blocks.find? s = none := by
  intro starts
  induction starts with
  | nil =>
      intro n file h hfile hdel
      refine ⟨n, file, rfl, h, rfl, fun _ _ => rfl, hfile, hdel, ?_⟩
      rintro s (hc | hs)
      · cases hc
      · exact hs
  | cons start starts ih =>
      intro n file h hfile hdel
      obtain ⟨hm, hlist, hother, file1, hfile1, hdel1, hgone, hkept⟩ := h.deleteBlock (k := (f, start)) hfile
        (fun hlive => absurd (hdel.symm.trans hlive) (by decide))
      obtain ⟨n', file', hfold, hn', hlist', hother', hfile', hdel', hnone⟩ := ih hm hfile1 (hdel1.trans hdel)
      refine ⟨n', file', hfold, hn', hlist'.trans hlist, fun g hg => (hother' g hg).trans (hother g hg), hfile', hdel', ?_⟩
      intro s hs
      apply hnone
      by_cases hss : s = start
      · subst hss
        exact Or.inr hgone
      · rcases hs with hmem | hempty
        · exact Or.inl ((List.mem_cons.mp hmem).resolve_left hss)
        · exact Or.inr ((hkept s hss).trans hempty)

/-- **A removed file** leaves the pool and the queue as if it had never been there. -/
theorem Inv.eraseFile {f : Int} (h : Inv cap [] n ref) (hmem : f ∈ n.removeFileList) :
    Inv cap [] (n.eraseFile f) ref ∧ (n.eraseFile f).removeFileList = n.removeFileList ∧
      ∀ g, (n.eraseFile f).files.find? g = if g = f then none else n.files.find? g := by
  unfold IOnode.eraseFile
  cases hfile : n.files.find? f with
  | none =>
      refine ⟨h, rfl, ?_⟩
      intro g
      by_cases hg : g = f
      · rw [if_pos hg, hg, hfile]
      · rw [if_neg hg]
  | some file =>
      obtain ⟨m, file', hfold, hm, hlist, hother, hfile', hdel', hnone⟩ :=
        Inv.deleteBlocks file.blocks.keys h hfile ((h.listed f file hfile).mpr hmem)
      dsimp only
      rw [hfold]
      have hgone : ∀ s, file'.blocks.find? s = none := by
        intro s
        apply hnone
        by_cases hs : s ∈ file.blocks.keys
        · exact Or.inl hs
        · exact Or.inr (OrdMap.find?_none_iff_not_mem_keys.mpr hs)
      refine ⟨?_, hlist, ?_⟩
      · refine hm.of_dead (f := f) hm.pool ?_ (fun g hg => OrdMap.find?_erase_ne _ hg) ?_ ?_ (fun _ _ => Iff.rfl)
          (fun _ _ _ => Iff.rfl) rfl rfl
        · have helems : elemOf { m with files := m.files.erase f } = m.elemOf := by
            funext j
            unfold elemOf block?
            dsimp only
            rw [OrdMap.find?_erase]
            by_cases hj : j.1 = f
            · rw [if_pos hj, hj, hfile']
              show none = (file'.blocks.find? j.2).bind Block.elem
              rw [hgone]
              rfl
            · rw [if_neg hj]
          rw [helems]
          exact hm.frames
        · intro file'' hf
          have hf' : (m.files.erase f).find? f = some file'' := hf
          rw [OrdMap.find?_erase_self] at hf'
          cases hf'
        · intro file'' s b hf
          have hf' : (m.files.erase f).find? f = some file'' := hf
          rw [OrdMap.find?_erase_self] at hf'
          cases hf'
      · intro g
        show (m.files.erase f).find? g = _
        rw [OrdMap.find?_erase]
        by_cases hg : g = f
        · rw [if_pos hg, if_pos hg]
        · rw [if_neg hg, if_neg hg]
          exact hother g hg

theorem Inv.eraseFiles : ∀ (l : List Int) {n : IOnode}, Inv cap [] n ref → (∀ f ∈ l, f ∈ n.removeFileList) →
    Inv cap [] (l.foldl IOnode.eraseFile n) ref ∧ (l.foldl IOnode.eraseFile n).removeFileList = n.removeFileList ∧
      ∀ g, (l.foldl IOnode.eraseFile n).files.find? g = if g ∈ l then none else n.files.find? g := by
  intro l
  induction l with
  | nil =>
      intro n h _
      refine ⟨h, rfl, ?_⟩
      intro g
      rw [if_neg (List.not_mem_nil)]
      rfl
  | cons f l ih =>
      intro n h hl
      obtain ⟨hm, hlist, hfiles⟩ := h.eraseFile (hl f List.mem_cons_self)
      obtain ⟨hn', hlist', hfiles'⟩ := ih hm (by rw [hlist]; exact fun g hg => hl g (List.mem_cons_of_mem _ hg))
      refine ⟨hn', hlist'.trans hlist, ?_⟩
      intro g
      rw [List.foldl_cons, hfiles', hfiles]
      by_cases hg : g = f
      · simp [hg]
      · simp [hg]

/-- **Between two requests** the files that were unlinked go, and the others stay. -/
theorem Inv.intervalProcess (h : Inv cap [] n ref) :
    Inv cap [] n.intervalProcess ref ∧ n.intervalProcess.removeFileList = [] := by
  obtain ⟨hm, hlist, hfiles⟩ := Inv.eraseFiles n.removeFileList h (fun _ hf => hf)
  refine ⟨⟨hm.pool, hm.frames, ?_, hm.present, ?_, hm.paths, ?_⟩, rfl⟩
  · intro f file s b hf hs
    have hok := hm.blockOk f file s b hf hs
    exact ⟨hok.page, hok.valid, hok.idle, hok.size_le, hok.aligned, hok.exist_eq, hok.deleted_eq, hok.backed⟩
  · intro f file hf
    have hf' : (n.removeFileList.foldl IOnode.eraseFile n).files.find? f = some file := hf
    have hlisted := hm.listed f file hf'
    rw [hfiles] at hf'
    have hnot : f ∉ n.removeFileList := by
      intro hmem
      rw [if_pos hmem] at hf'
      cases hf'
    show file.toBeDeleted = true ↔ f ∈ []
    rw [hlisted, hlist]
    exact ⟨fun hc => absurd hc hnot, fun hc => (nomatch hc)⟩
  · intro f file pos v hf hlive hv
    obtain ⟨b, hb, hholds⟩ := hm.bytes f file pos v hf hlive hv
    exact ⟨b, hb, hholds.lt, hholds.inMemory, hholds.onStorage, hholds.reload⟩

/-! ## Runs -/

/-- The byte at a position as the IOnode finds it: in the block's memory when it has any, on storage otherwise. -/
def logical (n : IOnode) (file : IOFile) (pos : Nat) : Option Byte :=
  match (file.blocks.find? (getBlockStartPoint pos)).bind Block.elem with
  | some e => some (n.memory e (pos - getBlockStartPoint pos))
  | none => n.stored file.filePath pos

/-- An IOnode next to the bytes its files should have. -/
structure Tracked where
  node : IOnode
  ref : Ref

namespace Tracked

/-- What a request does to the bytes of the files, given the files the IOnode knows when it handles it. -/
def refAfter (t : Tracked) : Request → Ref
  | .openFile f existFlag path _ =>
      if (t.node.intervalProcess.files.find? f).isSome then t.ref
      else Function.update t.ref f (t.node.intervalProcess.openedBytes existFlag path)
  | .writeFile f startPoint offset _ data =>
      if (t.node.intervalProcess.files.find? f).isSome then refWrite t.ref f (startPoint + offset) data else t.ref
  | .readFile _ _ _ _ => t.ref
  | .unlink _ => t.ref

/-- One turn of the handler. -/
def step (t : Tracked) (r : Request) : Option Tracked := (t.node.handle r).map (fun (_, node) => ⟨node, t.refAfter r⟩)

/-- What the Master and the clients keep to: a file is opened as `Openable` says, a transfer starts in a block
    and brings the bytes it announces, and a read is of bytes that were written or were on storage. -/
def Permitted (t : Tracked) : Request → Prop
  | .openFile f existFlag path blocks =>
      (t.node.intervalProcess.files.find? f).isSome ∨ Openable t.node.intervalProcess existFlag path blocks
  | .writeFile _ startPoint offset size data =>
      getBlockStartPoint startPoint = startPoint ∧ offset < BLOCK_SIZE ∧ data.length = size
  | .readFile f startPoint offset size =>
      getBlockStartPoint startPoint = startPoint ∧ offset < BLOCK_SIZE ∧
        ∀ i < size, (t.ref f (startPoint + offset + i)).isSome
  | .unlink _ => True

instance {n : IOnode} {existFlag : ExistFlag} {path : Str} {blocks : List (Nat × Nat)} :
    Decidable (Openable n existFlag path blocks) :=
  decidable_of_iff
    ((∀ e ∈ n.files.entries, e.2.filePath ≠ path) ∧
      (∀ e ∈ blocks, getBlockStartPoint e.1 = e.1 ∧ e.2 ≤ BLOCK_SIZE) ∧
      (existFlag = .existing → (n.storage path).isSome) ∧
      (existFlag = .existing → ∀ pos < ((n.storage path).map ByteFile.size).getD 0,
        ∃ b ∈ (openedBlocks existFlag blocks).find? (getBlockStartPoint pos), pos - getBlockStartPoint pos < b.dataSize))
    ⟨fun ⟨h1, h2, h3, h4⟩ => ⟨h1, h2, h3, h4⟩, fun h => ⟨h.fresh, h.aligned, h.present, h.covered⟩⟩

instance (t : Tracked) (r : Request) : Decidable (t.Permitted r) := by
  cases r <;> unfold Permitted <;> infer_instance

end Tracked

/-- Once the unlinked files are gone, every file is live. -/
theorem Inv.live_of_interval (h : Inv cap [] n ref) {f : Int} (hf : n.intervalProcess.files.find? f = some file) :
    n.intervalProcess.Live f := by
  obtain ⟨hm, hlist⟩ := h.intervalProcess
  refine ⟨file, hf, ?_⟩
  have := hm.listed f file hf
  rw [hlist] at this
  simpa using this

/-- **One request.** -/
theorem Inv.handle (h : Inv cap [] n ref) (hcap : 0 < cap) {r : Request} (hr : Tracked.Permitted ⟨n, ref⟩ r) :
    ∃ t, Tracked.step ⟨n, ref⟩ r = some t ∧ Inv cap [] t.node t.ref := by
  obtain ⟨hm, hlist⟩ := h.intervalProcess
  unfold Tracked.step IOnode.handle
  cases r with
  | openFile f existFlag path blocks =>
      refine ⟨_, rfl, ?_⟩
      show Inv cap [] (n.intervalProcess.openFile f existFlag path blocks)
        (if (n.intervalProcess.files.find? f).isSome then ref
          else Function.update ref f (n.intervalProcess.openedBytes existFlag path))
      cases hf : n.intervalProcess.files.find? f with
      | some file =>
          have hsame : n.intervalProcess.openFile f existFlag path blocks = n.intervalProcess := by
            unfold IOnode.openFile
            rw [hf]
            rfl
          rw [hsame]
          exact hm
      | none =>
          have hopen : Openable n.intervalProcess existFlag path blocks := by
            rcases hr with hr | hr
            · rw [hf] at hr
              cases hr
            · exact hr
          exact hm.openFile hlist hf hopen
  | writeFile f startPoint offset size data =>
      obtain ⟨haligned, hoffset, hdata⟩ := hr
      simp only [parseRequest, IOnode.receiveData, Tracked.refAfter]
      cases hf : n.intervalProcess.files.find? f with
      | none => exact ⟨_, rfl, hm⟩
      | some file =>
          have hfirst : (if offset + size > BLOCK_SIZE then BLOCK_SIZE - offset else size)
              = min size (BLOCK_SIZE - offset) := by
            split <;> omega
          obtain ⟨n', hloop, hn', -⟩ := Inv.receiveLoop hcap (Nat.le_succ size) hdata haligned hoffset hm (h.live_of_interval hf)
          simp only [Option.isNone_some, Bool.false_eq_true, if_false, Option.isSome_some, if_true, hfirst, hloop]
          exact ⟨_, rfl, hn'⟩
  | readFile f startPoint offset size =>
      obtain ⟨haligned, hoffset, hbytes⟩ := hr
      simp only [parseRequest, IOnode.sendData, Tracked.refAfter]
      cases hf : n.intervalProcess.files.find? f with
      | none => exact ⟨_, rfl, hm⟩
      | some file =>
          have hfirst : (if offset + size > BLOCK_SIZE then BLOCK_SIZE - offset else size)
              = min size (BLOCK_SIZE - offset) := by
            split <;> omega
          obtain ⟨pieces, n', hloop, hn', -, -⟩ := Inv.sendLoop hcap [] (Nat.le_succ size) haligned hoffset hbytes hm
            (h.live_of_interval hf)
          simp only [Option.isNone_some, Bool.false_eq_true, if_false, hfirst, hloop]
          exact ⟨_, rfl, hn'⟩
  | unlink f => exact ⟨_, rfl, hm.removeFile⟩

theorem start_inv (hcap : 0 < cap) (memory : Nat → Nat → Byte) (storage : Str → Option (ByteFile Byte)) (ref : Ref) :
    Inv cap [] (start cap memory storage) ref := by
  refine ⟨MemoryPool.setup_ok hcap (by decide), Frames.Ok.start, ?_, ?_, ?_, ?_, ?_⟩
  · intro f file s b hf
    cases hf
  · intro f file hf
    cases hf
  · intro f file hf
    cases hf
  · intro f file g file' hf
    cases hf
  · intro f file pos v hf
    cases hf

/-- Where the bytes of a file are found. -/
theorem Inv.logical (h : Inv cap [] n ref) {f : Int} {pos : Nat} {v : Byte} (hf : n.files.find? f = some file)
    (hlive : file.toBeDeleted = false) (hv : ref f pos = some v) :
    n.logical file pos = some v ∧ ∃ b, file.blocks.find? (getBlockStartPoint pos) = some b ∧
      (b.elem = none → b.swappedOut = true ∨ b.existFlag = .existing) := by
  obtain ⟨b, hb, hholds⟩ := h.bytes f file pos v hf hlive hv
  refine ⟨?_, b, hb, hholds.reload⟩
  unfold IOnode.logical
  rw [hb, Option.bind_some]
  cases he : b.elem with
  | none => exact hholds.onStorage (Or.inl he)
  | some e => exact congrArg some (hholds.inMemory e he)

/-- **Eviction never loses data.** Whatever requests come, the handler always gets memory for a block, and every
    byte written to a live file, or on storage when it was opened, is found where the IOnode looks for it. -/
theorem eviction_keeps_data (hcap : 0 < cap) (memory : Nat → Nat → Byte) (storage : Str → Option (ByteFile Byte))
    (requests : List Request)
    (hrequests : Run.Guarded Tracked.step Tracked.Permitted ⟨start cap memory storage, fun _ _ => none⟩ requests) :
    ∃ t, Run.run Tracked.step ⟨start cap memory storage, fun _ _ => none⟩ requests = some t ∧
      ∀ f file pos v, t.node.files.find? f = some file → file.toBeDeleted = false → t.ref f pos = some v →
        t.node.logical file pos = some v ∧ ∃ b, file.blocks.find? (getBlockStartPoint pos) = some b ∧
          (b.elem = none → b.swappedOut = true ∨ b.existFlag = .existing) := by
  have hstep : ∀ (t : Tracked) r, Inv cap [] t.node t.ref → t.Permitted r →
      ∃ t', Tracked.step t r = some t' ∧ Inv cap [] t'.node t'.ref := fun t r h hr => h.handle hcap hr
  obtain ⟨t, hrun, hinv⟩ := Run.run_progress hstep (start_inv hcap memory storage _) hrequests
  exact ⟨t, hrun, fun f file pos v hf hlive hv => hinv.logical hf hlive hv⟩

/-- A file on storage, and two files that have to share the memory of one block. -/
def oneBlockStorage : Str → Option (ByteFile Byte) :=
  fun path => if path = [98] then some (ByteFile.empty.write 0 [5, 6, 7]) else none

def twoFiles : List Request :=
  [.openFile 0 .notExist [97] [(0, 0)], .openFile 1 .existing [98] [(0, 3)], .writeFile 0 0 2 2 [9, 8],
    .readFile 1 0 0 3, .writeFile 0 0 3 1 [4], .writeFile 1 0 1 1 [1], .unlink 0, .readFile 1 0 0 3]

theorem eviction_keeps_data_two_files :
    Run.Guarded Tracked.step Tracked.Permitted ⟨start 1 (fun _ _ => 0) oneBlockStorage, fun _ _ => none⟩ twoFiles ∧
    ∃ t, Run.run Tracked.step ⟨start 1 (fun _ _ => 0) oneBlockStorage, fun _ _ => none⟩ twoFiles = some t ∧
      ∀ f file pos v, t.node.files.find? f = some file → file.toBeDeleted = false → t.ref f pos = some v →
        t.node.logical file pos = some v ∧ ∃ b, file.blocks.find? (getBlockStartPoint pos) = some b ∧
          (b.elem = none → b.swappedOut = true ∨ b.existFlag = .existing) := by
  have hrequests : Run.Guarded Tracked.step Tracked.Permitted
      ⟨start 1 (fun _ _ => 0) oneBlockStorage, fun _ _ => none⟩ twoFiles := by decide +kernel
  exact ⟨hrequests, eviction_keeps_data (by decide) _ _ twoFiles hrequests⟩

end IOnode

end HuronFS
