import HuronFS.IOnode.Requests

/-!
# `IOnode.Serving` — an IOnode whose memory does not run out

While every block that is used has an element of its own, nothing is swapped out: a step changes the block it works
on and no other. A reply to a read, which is a list of pointers into memory, then has the bytes of the file.
-/

namespace HuronFS

open Region

namespace IOnode

variable {n n' n'' : IOnode} {k : BlockKey} {b : Block} {file : IOFile} {cap : Nat} {ref : Ref}

/-! ## Steps that work on one block -/

/-- The other blocks, and the files to be removed, are what they were. -/
structure Touches (k : BlockKey) (n n' : IOnode) : Prop where
  others : ∀ j, j ≠ k → n'.block? j = n.block? j
  list : n'.removeFileList = n.removeFileList

theorem Touches.refl (k : BlockKey) (n : IOnode) : Touches k n n := ⟨fun _ _ => rfl, rfl⟩

theorem Touches.trans (h : Touches k n n') (h' : Touches k n' n'') : Touches k n n'' :=
  ⟨fun j hj => (h'.others j hj).trans (h.others j hj), h'.list.trans h.list⟩

theorem Touches.elemOf (h : Touches k n n') {j : BlockKey} (hj : j ≠ k) : n'.elemOf j = n.elemOf j := by
  unfold IOnode.elemOf
  rw [h.others j hj]

theorem Touches.setBlock (hfiles : n'.files = (n.setBlock k b).files) (hlist : n'.removeFileList = n.removeFileList) :
    Touches k n n' := by
  refine ⟨?_, hlist⟩
  intro j hj
  unfold block?
  rw [hfiles, files_setBlock]
  by_cases hf : j.1 = k.1
  · rw [if_pos hf, hf]
    cases n.files.find? k.1 with
    | none => rfl
    | some file =>
        refine OrdMap.find?_put_ne file.blocks b ?_
        intro hs
        exact hj (Prod.ext hf hs)
  · rw [if_neg hf]

theorem Touches.blockForWriting (n : IOnode) (k : BlockKey) (size : Nat) : Touches k n (n.blockForWriting k size) := by
  unfold IOnode.blockForWriting
  split
  · exact Touches.refl k n
  · split
    · exact Touches.refl k n
    · exact Touches.setBlock rfl rfl

/-- With memory left nothing is swapped out. -/
theorem Touches.allocateMemoryForBlock (hleft : n.pool.hasMemoryLeft BLOCK_SIZE = true)
    (h : n.allocateMemoryForBlock k = some n') : Touches k n n' := by
  unfold IOnode.allocateMemoryForBlock at h
  rw [if_pos hleft] at h
  dsimp only at h
  split at h
  · cases h
  · obtain ⟨⟨b, pool⟩, -, rfl⟩ := Option.map_eq_some_iff.mp h
    exact Touches.setBlock rfl rfl

/-- A step in the memory the block has: it keeps the memory, and the rest of memory keeps its bytes. -/
structure WorksIn (k : BlockKey) (n n' : IOnode) : Prop extends Touches k n n' where
  elem : n'.elemOf k = n.elemOf k
  memory : ∀ x, n.elemOf k ≠ some x → n'.memory x = n.memory x

theorem WorksIn.refl (k : BlockKey) (n : IOnode) : WorksIn k n n := ⟨Touches.refl k n, rfl, fun _ _ => rfl⟩

theorem WorksIn.trans (h : WorksIn k n n') (h' : WorksIn k n' n'') : WorksIn k n n'' := by
  refine ⟨h.toTouches.trans h'.toTouches, h'.elem.trans h.elem, ?_⟩
  intro x hx
  rw [h'.memory x (by rw [h.elem]; exact hx), h.memory x hx]

theorem WorksIn.setBlock {b' : Block} (hb : n.block? k = some b) (hfiles : n'.files = (n.setBlock k b').files)
    (helem : b'.elem = b.elem) (hlist : n'.removeFileList = n.removeFileList)
    (hmemory : ∀ x, b.elem ≠ some x → n'.memory x = n.memory x) : WorksIn k n n' := by
  obtain ⟨file, hfile, -⟩ := block?_some_iff.mp hb
  have hself := elemOf_of_block hb
  refine ⟨Touches.setBlock hfiles hlist, ?_, ?_⟩
  · rw [elemOf_of_update hfiles hfile, Function.update_self, helem, hself]
  · intro x hx
    exact hmemory x (hself ▸ hx)

theorem WorksIn.updateAccessOrder (n : IOnode) (k : BlockKey) : WorksIn k n (n.updateAccessOrder k) := by
  unfold IOnode.updateAccessOrder
  split
  · exact WorksIn.refl k n
  · rename_i b hb
    split
    · exact ⟨⟨fun _ _ => rfl, rfl⟩, rfl, fun _ _ => rfl⟩
    · exact WorksIn.setBlock hb rfl rfl rfl (fun _ _ => rfl)

theorem WorksIn.readFromStorage {path : Str} {count : Nat} (hb : n.block? k = some b)
    (h : n.readFromStorage path k b = some (count, n')) : WorksIn k n n' ∧ n'.block? k = some b := by
  unfold IOnode.readFromStorage at h
  split at h
  · rename_i F e _ he
    cases h
    refine ⟨⟨⟨fun _ _ => rfl, rfl⟩, rfl, ?_⟩, hb⟩
    intro x hx
    rw [elemOf_of_block hb, he] at hx
    exact Function.update_of_ne (fun hc => hx (congrArg some hc.symm)) _ _
  · cases h

/-- `update_block_data` reads into the memory it has allocated. -/
theorem WorksIn.loadForWriting {m : IOnode} (halloc : n.allocateMemoryForBlock k = some m)
    (h : n.loadForWriting k = some n') : WorksIn k m n' := by
  unfold IOnode.loadForWriting at h
  rw [halloc] at h
  dsimp only at h
  split at h
  · rename_i file b _ hb
    split at h
    · split at h
      · cases h
      · rename_i count m' hread
        cases h
        obtain ⟨hm, hb'⟩ := WorksIn.readFromStorage hb hread
        exact hm.trans (WorksIn.setBlock hb' rfl rfl rfl (fun _ _ => rfl))
    · cases h
      exact WorksIn.setBlock hb rfl rfl rfl (fun _ _ => rfl)
  · cases h

/-- And so does `_send_data`. -/
theorem WorksIn.loadForSending {m : IOnode} (halloc : n.allocateMemoryForBlock k = some m)
    (h : n.loadForSending k = some n') : WorksIn k m n' := by
  unfold IOnode.loadForSending at h
  rw [halloc] at h
  dsimp only at h
  split at h
  · rename_i file b _ hb
    split at h
    · split at h
      · cases h
      · rename_i count m' hread
        cases h
        obtain ⟨hm, hb'⟩ := WorksIn.readFromStorage hb hread
        exact hm.trans (WorksIn.setBlock hb' rfl rfl rfl (fun _ _ => rfl))
    · cases h
      exact WorksIn.refl k n'
  · cases h

theorem WorksIn.receiveInto {offset size count : Nat} {data : List Byte}
    (h : n.receiveInto k offset size data = some (count, n')) : WorksIn k n n' := by
  unfold IOnode.receiveInto at h
  split at h
  · cases h
  · rename_i b hb
    dsimp only at h
    split at h
    · cases h
    · rename_i e he
      generalize (if offset + size > BLOCK_SIZE then BLOCK_SIZE - offset else size) = taken at h
      split at h
      · cases h
      · cases h
        refine WorksIn.trans ?_ (WorksIn.updateAccessOrder _ k)
        refine WorksIn.setBlock hb rfl rfl rfl ?_
        intro x hx
        refine Function.update_of_ne ?_ _ _
        rintro rfl
        exact hx he

/-- A load allocates first. -/
theorem loadForWriting_allocates (h : n.loadForWriting k = some n') : ∃ m, n.allocateMemoryForBlock k = some m := by
  cases halloc : n.allocateMemoryForBlock k with
  | none =>
      unfold IOnode.loadForWriting at h
      rw [halloc] at h
      cases h
  | some m => exact ⟨m, rfl⟩

theorem loadForSending_allocates (h : n.loadForSending k = some n') : ∃ m, n.allocateMemoryForBlock k = some m := by
  cases halloc : n.allocateMemoryForBlock k with
  | none =>
      unfold IOnode.loadForSending at h
      rw [halloc] at h
      cases h
  | some m => exact ⟨m, rfl⟩

theorem Touches.loadForWriting (hleft : n.pool.hasMemoryLeft BLOCK_SIZE = true) (h : n.loadForWriting k = some n') :
    Touches k n n' := by
  obtain ⟨m, halloc⟩ := loadForWriting_allocates h
  exact (Touches.allocateMemoryForBlock hleft halloc).trans (WorksIn.loadForWriting halloc h).toTouches

theorem Touches.loadForSending (hleft : n.pool.hasMemoryLeft BLOCK_SIZE = true) (h : n.loadForSending k = some n') :
    Touches k n n' := by
  obtain ⟨m, halloc⟩ := loadForSending_allocates h
  exact (Touches.allocateMemoryForBlock hleft halloc).trans (WorksIn.loadForSending halloc h).toTouches

/-! ## Enough memory -/

/-- Only the blocks of the list have memory. -/
def Within (l : List BlockKey) (n : IOnode) : Prop := ∀ j e, n.elemOf j = some e → j ∈ l

theorem Within.touched {l : List BlockKey} (h : Within l n) (ht : Touches k n n') (hk : k ∈ l) : Within l n' := by
  intro j e he
  by_cases hj : j = k
  · exact hj ▸ hk
  · exact h j e ((ht.elemOf hj).symm.trans he)

/-- With an element for each block of the list, one that has none can get it without a swap. -/
theorem Inv.hasMemoryLeft {l : List BlockKey} (h : Inv cap [] n ref) (hl : Within l n) (hcap : l.length ≤ cap) (hk : k ∈ l)
    (helem : n.elemOf k = none) : n.pool.hasMemoryLeft BLOCK_SIZE = true := by
  apply h.pool.hasMemoryLeft_iff.mpr
  by_contra hfull
  rw [not_or, not_not] at hfull
  obtain ⟨hhead, hcreated⟩ := hfull
  have hframes := h.frames
  rw [hhead, List.nil_append] at hframes
  have hlength := hframes.held_length
  -- the blocks in the queue and `k` are different blocks of the list
  have hnodup : (k :: n.queue).Nodup := List.nodup_cons.mpr ⟨h.not_mem_queue helem, hframes.held_nodup⟩
  have hsub : (k :: n.queue) ⊆ l := by
    intro j hj
    rcases List.mem_cons.mp hj with rfl | hqueue
    · exact hk
    · obtain ⟨e, he⟩ := (hframes.mem_held j).mp hqueue
      exact hl j e he
  have hle := (List.subperm_of_subset hnodup hsub).length_le
  rw [List.length_cons] at hle
  omega

theorem Touches.updateBlockData {offset size count : Nat} {data : List Byte} (h : Inv cap [] n ref) (hlive : n.Live k.1)
    (haligned : getBlockStartPoint k.2 = k.2) (hsize : size ≤ BLOCK_SIZE)
    (hleft : n.elemOf k = none → n.pool.hasMemoryLeft BLOCK_SIZE = true)
    (hstep : n.updateBlockData k offset size data = some (count, n')) : Touches k n n' := by
  obtain ⟨hm, -, b, hb⟩ := h.blockForWriting hlive haligned hsize
  have htouch := Touches.blockForWriting n k size
  have hpool : (n.blockForWriting k size).pool = n.pool := by
    unfold IOnode.blockForWriting
    split
    · rfl
    · split <;> rfl
  obtain ⟨file, hfile, -⟩ := block?_some_iff.mp hb
  unfold IOnode.updateBlockData at hstep
  simp only [hb] at hstep
  by_cases hneed : b.needAllocation = true
  · rw [if_pos hneed] at hstep
    obtain ⟨m, hload, hreceive⟩ := Option.bind_eq_some_iff.mp hstep
    have hnone : n.elemOf k = none := by
      cases he : n.elemOf k with
      | none => rfl
      | some e =>
          -- a block with memory stays as it is, and needs none
          exfalso
          obtain ⟨b0, hb0, he0⟩ := Option.bind_eq_some_iff.mp he
          have hsame : n.blockForWriting k size = n := by
            obtain ⟨file0, hfile0, hfind0⟩ := block?_some_iff.mp hb0
            unfold IOnode.blockForWriting
            simp only [hfile0, hfind0, Option.isSome_some, if_true]
          rw [hsame, hb0] at hb
          obtain rfl := Option.some.inj hb
          rw [hsame] at hfile
          rw [needAllocation_of_some (h.block hfile hb0) he0] at hneed
          cases hneed
    exact (htouch.trans (Touches.loadForWriting (hpool ▸ hleft hnone) hload)).trans (WorksIn.receiveInto hreceive).toTouches
  · rw [if_neg hneed] at hstep
    exact htouch.trans (WorksIn.receiveInto hstep).toTouches

/-- The blocks of a range of a file. -/
def InRange (l : List BlockKey) (f : Int) (pos size : Nat) : Prop := ∀ i < size, (f, getBlockStartPoint (pos + i)) ∈ l

/-- **A write that fits in memory** takes memory for its own blocks only. -/
theorem Inv.receiveLoop_within {f : Int} {l : List BlockKey} (hcap : 0 < cap) (hl : l.length ≤ cap) :
    ∀ {fuel startPoint offset remaining : Nat} {data : List Byte} {n n' : IOnode} {ref : Ref}, remaining ≤ fuel →
    data.length = remaining → getBlockStartPoint startPoint = startPoint → offset < BLOCK_SIZE → Inv cap [] n ref →
    n.Live f → Within l n → InRange l f (startPoint + offset) remaining →
    IOnode.receiveLoop f fuel startPoint offset (min remaining (BLOCK_SIZE - offset)) remaining data n = some n' →
    Within l n' ∧ n'.removeFileList = n.removeFileList := by
  intro fuel
  induction fuel with
  | zero =>
      intro startPoint offset remaining data n n' ref hfuel _ _ _ _ _ hw _ hloop
      obtain rfl : remaining = 0 := by omega
      cases hloop
      exact ⟨hw, rfl⟩
  | succ fuel ih =>
      intro startPoint offset remaining data n n' ref hfuel hdata haligned hoffset h hlive hw hrange hloop
      unfold IOnode.receiveLoop at hloop
      by_cases hzero : remaining = 0
      · rw [if_pos hzero] at hloop
        cases hloop
        exact ⟨hw, rfl⟩
      · rw [if_neg hzero] at hloop
        obtain ⟨m, hstep, hm, hsame⟩ := h.updateBlockData (k := (f, startPoint)) hcap hlive haligned hoffset
          (show offset + min remaining (BLOCK_SIZE - offset) ≤ BLOCK_SIZE by omega)
          (show min remaining (BLOCK_SIZE - offset) ≤ data.length by omega)
        have hpos : getBlockStartPoint (startPoint + offset + 0) = startPoint := by
          have := getBlockStartPoint_mul_add (startPoint / BLOCK_SIZE) offset hoffset
          unfold getBlockStartPoint at this haligned ⊢
          rw [haligned] at this
          rw [Nat.add_zero, this]
        have hk : (f, startPoint) ∈ l := hpos ▸ hrange 0 (by omega)
        have hsize : min remaining (BLOCK_SIZE - offset) ≤ BLOCK_SIZE := by omega
        have htouch := Touches.updateBlockData (k := (f, startPoint)) h hlive haligned hsize (h.hasMemoryLeft hw hl hk) hstep
        have hw' := hw.touched htouch hk
        rw [hstep] at hloop
        dsimp only at hloop
        by_cases hlast : remaining ≤ BLOCK_SIZE - offset
        · have hmin : min remaining (BLOCK_SIZE - offset) = remaining := by omega
          rw [hmin, Nat.sub_self] at hloop
          have hdone : m = n' := by
            cases fuel with
            | zero => exact Option.some.inj hloop
            | succ fuel => exact Option.some.inj hloop
          exact hdone ▸ ⟨hw', htouch.list⟩
        · have hmin : min remaining (BLOCK_SIZE - offset) = BLOCK_SIZE - offset := by omega
          rw [hmin] at hloop hm
          have hnext : startPoint + (BLOCK_SIZE - offset + offset) = startPoint + BLOCK_SIZE := by omega
          rw [hnext] at hloop
          have hrest : InRange l f (startPoint + BLOCK_SIZE + 0) (remaining - (BLOCK_SIZE - offset)) := by
            intro i hi
            have := hrange (BLOCK_SIZE - offset + i) (by omega)
            rwa [show startPoint + offset + (BLOCK_SIZE - offset + i) = startPoint + BLOCK_SIZE + 0 + i by omega] at this
          obtain ⟨hw'', hlist⟩ := ih (show remaining - (BLOCK_SIZE - offset) ≤ fuel by omega)
            (show (data.drop (BLOCK_SIZE - offset)).length = remaining - (BLOCK_SIZE - offset) by
              rw [List.length_drop]; omega)
            (getBlockStartPoint_next haligned) (show 0 < BLOCK_SIZE by decide) hm (hsame.live hlive) hw' hrest hloop
          exact ⟨hw'', hlist.trans htouch.list⟩

/-! ## Reading -/

/-- One block of a read that fits in memory: the piece points at the memory of the block, which is the one it had. -/
theorem Inv.sendBlock_within {offset size : Nat} {piece : SendBuffer} (h : Inv cap [] n ref)
    (hb : n.block? k = some b) (hleft : n.elemOf k = none → n.pool.hasMemoryLeft BLOCK_SIZE = true)
    (hstep : n.sendBlock k b offset size = some (piece, n')) :
    Touches k n n' ∧ (∀ e, n.elemOf k = some e → n'.elemOf k = some e) ∧
      ∃ e, piece = ⟨e, offset, size⟩ ∧ n'.elemOf k = some e := by
  obtain ⟨file, hfile, -⟩ := block?_some_iff.mp hb
  have hok := h.block hfile hb
  obtain ⟨m, e, hm, he, rfl, rfl⟩ := sendBlock_some hstep
  have hworks := WorksIn.updateAccessOrder m k
  have helem := hworks.elem.trans he
  by_cases hneed : b.needAllocation = true
  · rw [if_pos hneed] at hm
    have hnone : n.elemOf k = none := by rw [elemOf_of_block hb, h.elem_of_needAllocation hb hneed]
    refine ⟨(Touches.loadForSending (hleft hnone) hm).trans hworks.toTouches, ?_, e, rfl, helem⟩
    intro e he
    rw [hnone] at he
    cases he
  · rw [if_neg hneed] at hm
    obtain rfl := Option.some.inj hm
    refine ⟨hworks.toTouches, ?_, e, rfl, helem⟩
    intro e he
    exact hworks.elem.trans he

/-- The bytes of a reply, as they are in memory when it is sent. -/
def replyBytes (n : IOnode) (pieces : List SendBuffer) : List Byte :=
  pieces.flatMap (fun piece => slice (n.memory piece.elem) piece.offset piece.size)

/-- The memory of a block has the bytes of the file. -/
theorem Inv.slice_memory {f : Int} {start offset size e : Nat} {cell : Nat → Byte} (h : Inv cap [] n ref)
    (hlive : n.Live f) (haligned : getBlockStartPoint start = start) (hfit : offset + size ≤ BLOCK_SIZE)
    (he : n.elemOf (f, start) = some e) (hcell : ∀ i < size, ref f (start + offset + i) = some (cell (start + offset + i))) :
    slice (n.memory e) offset size = slice cell (start + offset) size := by
  obtain ⟨file, hfile, hdel⟩ := hlive
  apply slice_congr
  intro i hi
  have hpos : getBlockStartPoint (start + (offset + i)) = start := by
    have := getBlockStartPoint_mul_add (start / BLOCK_SIZE) (offset + i) (by omega)
    unfold getBlockStartPoint at this haligned ⊢
    rw [haligned] at this
    exact this
  obtain ⟨b, hb, hholds⟩ := h.bytes f file _ _ hfile hdel (hcell i hi)
  rw [Nat.add_assoc] at hb hholds ⊢
  rw [hpos] at hb
  have helem : b.elem = some e := by
    rw [← he, elemOf_of_block (block?_some_iff.mpr ⟨file, hfile, hb⟩)]
  have hmem := hholds.inMemory e helem
  rwa [hpos, Nat.add_sub_cancel_left] at hmem

/-- **A read that fits in memory** is answered with the bytes of the file. -/
theorem Inv.sendLoop_within {f : Int} {l : List BlockKey} {cell : Nat → Byte} (hcap : 0 < cap) (hl : l.length ≤ cap) :
    ∀ {fuel startPoint offset remaining : Nat} (acc : List SendBuffer) {n : IOnode}, remaining ≤ fuel →
    getBlockStartPoint startPoint = startPoint → offset < BLOCK_SIZE →
    (∀ i < remaining, ref f (startPoint + offset + i) = some (cell (startPoint + offset + i))) → Inv cap [] n ref →
    n.Live f → Within l n → InRange l f (startPoint + offset) remaining →
    ∃ pieces n', IOnode.sendLoop f fuel startPoint offset (min remaining (BLOCK_SIZE - offset)) remaining acc n
        = some (acc ++ pieces, n') ∧ Inv cap [] n' ref ∧ n'.Live f ∧ Within l n' ∧
      n'.removeFileList = n.removeFileList ∧ (∀ j e, n.elemOf j = some e → n'.elemOf j = some e) ∧
      n'.replyBytes pieces = slice cell (startPoint + offset) remaining := by
  intro fuel
  induction fuel with
  | zero =>
      intro startPoint offset remaining acc n hfuel _ _ _ h hlive hw _
      obtain rfl : remaining = 0 := by omega
      exact ⟨[], n, by rw [List.append_nil]; rfl, h, hlive, hw, rfl, fun _ _ he => he, rfl⟩
  | succ fuel ih =>
      intro startPoint offset remaining acc n hfuel haligned hoffset hbytes h hlive hw hrange
      unfold IOnode.sendLoop
      by_cases hzero : remaining = 0
      · rw [if_pos hzero]
        subst hzero
        exact ⟨[], n, by rw [List.append_nil], h, hlive, hw, rfl, fun _ _ he => he, rfl⟩
      · rw [if_neg hzero]
        -- the first byte of the request says that the block is there
        have hv := hbytes 0 (by omega)
        obtain ⟨file, hfile, hdel⟩ := hlive
        have hpos : getBlockStartPoint (startPoint + offset + 0) = startPoint := by
          have := getBlockStartPoint_mul_add (startPoint / BLOCK_SIZE) offset hoffset
          unfold getBlockStartPoint at this haligned ⊢
          rw [haligned] at this
          rw [Nat.add_zero, this]
        obtain ⟨b, hb, -⟩ := h.bytes f file _ _ hfile hdel hv
        rw [hpos] at hb
        have hblock : n.block? (f, startPoint) = some b := block?_some_iff.mpr ⟨file, hfile, hb⟩
        have hk : (f, startPoint) ∈ l := hpos ▸ hrange 0 (by omega)
        simp only [hblock]
        obtain ⟨piece, m, hsend, hm, hsame⟩ := h.sendBlock offset (min remaining (BLOCK_SIZE - offset))
          (k := (f, startPoint)) hcap hfile hdel hblock hpos hv
        obtain ⟨htouch, hkept, e, rfl, he⟩ := h.sendBlock_within hblock (h.hasMemoryLeft hw hl hk) hsend
        have hlive' : m.Live f := hsame.live ⟨file, hfile, hdel⟩
        have hw' := hw.touched htouch hk
        have hkept' : ∀ j x, n.elemOf j = some x → m.elemOf j = some x := by
          intro j x hx
          by_cases hj : j = (f, startPoint)
          · rw [hj] at hx ⊢
            exact hkept x hx
          · exact (htouch.elemOf hj).trans hx
        rw [hsend]
        dsimp only
        by_cases hlast : remaining ≤ BLOCK_SIZE - offset
        · have hmin : min remaining (BLOCK_SIZE - offset) = remaining := by omega
          rw [hmin, Nat.sub_self]
          refine ⟨[⟨e, offset, remaining⟩], m, by cases fuel <;> rfl, hm, hlive', hw', htouch.list, hkept', ?_⟩
          unfold replyBytes
          rw [List.flatMap_singleton]
          have hfit : offset + remaining ≤ BLOCK_SIZE := by omega
          exact hm.slice_memory hlive' haligned hfit he hbytes
        · have hmin : min remaining (BLOCK_SIZE - offset) = BLOCK_SIZE - offset := by omega
          rw [hmin]
          have hshift : ∀ i, startPoint + offset + (BLOCK_SIZE - offset + i) = startPoint + BLOCK_SIZE + 0 + i := by
            intro i
            omega
          have hbytes' : ∀ i < remaining - (BLOCK_SIZE - offset), ref f (startPoint + BLOCK_SIZE + 0 + i)
              = some (cell (startPoint + BLOCK_SIZE + 0 + i)) := by
            intro i hi
            rw [← hshift i]
            exact hbytes _ (by omega)
          have hrange' : InRange l f (startPoint + BLOCK_SIZE + 0) (remaining - (BLOCK_SIZE - offset)) := by
            intro i hi
            rw [← hshift i]
            exact hrange _ (by omega)
          obtain ⟨pieces, n', hrest, hn', hlive'', hw'', hlist, hkept'', hreply⟩ := ih
            (acc ++ [⟨e, offset, BLOCK_SIZE - offset⟩])
            (show remaining - (BLOCK_SIZE - offset) ≤ fuel by omega) (getBlockStartPoint_next haligned)
            (show 0 < BLOCK_SIZE by decide) hbytes' hm hlive' hw' hrange'
          refine ⟨⟨e, offset, BLOCK_SIZE - offset⟩ :: pieces, n', ?_, hn', hlive'', hw'', hlist.trans htouch.list,
            fun j x hx => hkept'' j x (hkept' j x hx), ?_⟩
          · rw [Nat.sub_zero] at hrest
            rw [hrest, List.append_assoc, List.singleton_append]
          · -- the element is still the block's when the reply is sent
            have hpiece := hn'.slice_memory hlive'' haligned (by omega : offset + (BLOCK_SIZE - offset) ≤ BLOCK_SIZE)
              (hkept'' _ e he) (fun i hi => hbytes i (by omega))
            unfold replyBytes at hreply ⊢
            rw [List.flatMap_cons, hpiece, hreply]
            conv_rhs => rw [show remaining = (BLOCK_SIZE - offset) + (remaining - (BLOCK_SIZE - offset)) by omega, slice_add]
            rw [Nat.add_zero, show startPoint + offset + (BLOCK_SIZE - offset) = startPoint + BLOCK_SIZE by omega]

/-! ## Requests -/

theorem intervalProcess_idle (h : n.removeFileList = []) : n.intervalProcess = n := by
  unfold IOnode.intervalProcess
  rw [h, List.foldl_nil, ← h]

/-- What a client can rely on: a file with the bytes `bytes`, no removal under way, memory for its blocks only. -/
structure Serves (cap : Nat) (f : Int) (bytes : Nat → Option Byte) (l : List BlockKey) (n : IOnode) : Prop where
  inv : ∃ ref, Inv cap [] n ref ∧ ref f = bytes
  live : n.Live f
  idle : n.removeFileList = []
  within : Within l n

theorem firstSize (offset size : Nat) :
    (if offset + size > BLOCK_SIZE then BLOCK_SIZE - offset else size) = min size (BLOCK_SIZE - offset) := by
  split <;> omega

/-- **A write request.** -/
theorem Serves.writeFile {f : Int} {bytes : Nat → Option Byte} {l : List BlockKey} {startPoint offset : Nat}
    {data : List Byte} (h : Serves cap f bytes l n) (hcap : 0 < cap) (hl : l.length ≤ cap)
    (haligned : getBlockStartPoint startPoint = startPoint) (hoffset : offset < BLOCK_SIZE)
    (hrange : InRange l f (startPoint + offset) data.length) :
    ∃ n', n.handle (.writeFile f startPoint offset data.length data) = some (.status SUCCESS, n') ∧
      Serves cap f (patch bytes (startPoint + offset) (data.map some)) l n' := by
  obtain ⟨ref, hinv, href⟩ := h.inv
  obtain ⟨n', hloop, hn', hsame⟩ := Inv.receiveLoop hcap (Nat.le_succ data.length) rfl haligned hoffset hinv h.live
  obtain ⟨hw, hlist⟩ := Inv.receiveLoop_within hcap hl (Nat.le_succ data.length) rfl haligned hoffset hinv h.live
    h.within hrange hloop
  refine ⟨n', ?_, ⟨_, hn', ?_⟩, hsame.live h.live, hlist.trans h.idle, hw⟩
  · obtain ⟨file, hfile, -⟩ := h.live
    unfold IOnode.handle
    rw [intervalProcess_idle h.idle]
    simp only [parseRequest, IOnode.receiveData, hfile, Option.isNone_some, Bool.false_eq_true, if_false, firstSize, hloop,
      Option.map_some]
  · unfold refWrite
    rw [Function.update_self, href]

/-- **A read request.** -/
theorem Serves.readFile {f : Int} {bytes : Nat → Option Byte} {l : List BlockKey} {startPoint offset size : Nat}
    {cell : Nat → Byte} (h : Serves cap f bytes l n) (hcap : 0 < cap) (hl : l.length ≤ cap)
    (haligned : getBlockStartPoint startPoint = startPoint) (hoffset : offset < BLOCK_SIZE)
    (hrange : InRange l f (startPoint + offset) size)
    (hbytes : ∀ i < size, bytes (startPoint + offset + i) = some (cell (startPoint + offset + i))) :
    ∃ n', n.handle (.readFile f startPoint offset size) = some (.bytes (slice cell (startPoint + offset) size), n') ∧
      Serves cap f bytes l n' := by
  obtain ⟨ref, hinv, rfl⟩ := h.inv
  obtain ⟨pieces, n', hloop, hn', hlive, hw, hlist, -, hreply⟩ := Inv.sendLoop_within hcap hl [] (Nat.le_succ size)
    haligned hoffset hbytes hinv h.live h.within hrange
  refine ⟨n', ?_, ⟨ref, hn', rfl⟩, hlive, hlist.trans h.idle, hw⟩
  obtain ⟨file, hfile, -⟩ := h.live
  unfold IOnode.handle
  rw [intervalProcess_idle h.idle]
  simp only [parseRequest, IOnode.sendData, hfile, Option.isNone_some, Bool.false_eq_true, if_false, firstSize, hloop,
    Option.map_some]
  rw [← hreply]
  rfl

end IOnode

end HuronFS
