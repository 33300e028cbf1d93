import HuronFS.IOnode.Invariant
import HuronFS.Lib.Run

/-!
# `IOnode.Eviction` — evicting a block loses nothing

One lemma for each operation on a block (evicting the oldest one, giving memory to one, loading it, writing
into it, moving it in the queue), one for each loop over blocks, one for each request.
-/

namespace HuronFS

open Region

namespace IOnode

variable {n : IOnode} {k : BlockKey} {b : Block} {file : IOFile} {cap : Nat} {pending : List BlockKey} {ref : Ref}

/-! ## Reading the invariant -/

theorem Inv.block (h : Inv cap pending n ref) (hfile : n.files.find? k.1 = some file) (hb : n.block? k = some b) :
    BlockOk n file k b := by
  rw [block?_of_file hfile] at hb
  exact h.blockOk k.1 file k.2 b hfile hb

/-- The bytes of a block. -/
theorem Inv.holds (h : Inv cap pending n ref) (hfile : n.files.find? k.1 = some file) (hb : n.block? k = some b)
    (hlive : file.toBeDeleted = false) {pos : Nat} {v : Byte} (hpos : getBlockStartPoint pos = k.2)
    (hv : ref k.1 pos = some v) : Holds n file.filePath b pos v := by
  obtain ⟨b', hb', hholds⟩ := h.bytes k.1 file pos v hfile hlive hv
  rw [hpos, ← block?_of_file hfile, hb] at hb'
  obtain rfl := Option.some.inj hb'
  exact hholds

theorem Inv.not_mem_queue (h : Inv cap pending n ref) (helem : n.elemOf k = none) : k ∉ pending ++ n.queue := by
  intro hmem
  obtain ⟨e, he⟩ := (h.frames.mem_held k).mp hmem
  rw [helem] at he
  cases he

/-- What a file is, its blocks apart, and that it is still there. -/
def SameFiles (n n' : IOnode) : Prop :=
  ∀ f file, n.files.find? f = some file → ∃ file', n'.files.find? f = some file' ∧
    file'.filePath = file.filePath ∧ file'.toBeDeleted = file.toBeDeleted ∧ file'.existFlag = file.existFlag

theorem SameFiles.refl (n : IOnode) : SameFiles n n := fun _ file hf => ⟨file, hf, rfl, rfl, rfl⟩

theorem SameFiles.trans {n' n'' : IOnode} (h : SameFiles n n') (h' : SameFiles n' n'') : SameFiles n n'' := by
  intro f file hf
  obtain ⟨file', hf', hp, hd, he⟩ := h f file hf
  obtain ⟨file'', hf'', hp', hd', he'⟩ := h' f file' hf'
  exact ⟨file'', hf'', hp'.trans hp, hd'.trans hd, he'.trans he⟩

theorem SameFiles.of_setBlock {n' : IOnode} (hfiles : n'.files = (n.setBlock k b).files) : SameFiles n n' := by
  intro f file hf
  rw [files_of_update hfiles]
  by_cases hk : f = k.1
  · subst hk
    rw [if_pos rfl, hf]
    exact ⟨_, rfl, rfl, rfl, rfl⟩
  · rw [if_neg hk]
    exact ⟨file, hf, rfl, rfl, rfl⟩

/-! ## Storage -/

theorem stored_eq_some {path : Str} {pos : Nat} {v : Byte} :
    n.stored path pos = some v ↔ ∃ F, n.storage path = some F ∧ pos < F.size ∧ F.cell pos = v := by
  unfold stored
  rw [Option.bind_eq_some_iff]
  refine exists_congr (fun F => and_congr_right (fun _ => ?_))
  by_cases hpos : pos < F.size
  · simp [hpos]
  · simp [hpos]

/-- Storage after the write-back of a block that owns `e`. -/
def flushed (n : IOnode) (path : Str) (k : BlockKey) (b : Block) (e : Nat) : Str → Option (ByteFile Byte) :=
  if b.dirtyFlag = false then n.storage
  else if b.toBeDeleted = true then Function.update n.storage path (some ((n.storage path).getD ByteFile.empty))
  else
    Function.update n.storage path
      (some (((n.storage path).getD ByteFile.empty).write k.2 (slice (n.memory e) 0 b.dataSize)))

/-- The write-back, as `swap_out` does it. -/
theorem writeback_eq {e : Nat} (hfile : n.files.find? k.1 = some file) (hb : n.block? k = some b)
    (hidle : b.receivingData = false) (he : b.elem = some e) :
    (if n.needWriteback k then n.writeback k else n)
      = { n.setBlock k { b with dirtyFlag := false } with storage := n.flushed file.filePath k b e } := by
  have hneed : n.needWriteback k = b.dirtyFlag := by
    unfold needWriteback
    rw [hb]
  unfold flushed
  by_cases hdirty : b.dirtyFlag = false
  · have hsame : ({ b with dirtyFlag := false } : Block) = b := by rw [← hdirty]
    rw [hneed, hdirty, if_neg (by decide), if_pos rfl, hsame, setBlock_self hb]
  · have htrue : b.dirtyFlag = true := by simpa using hdirty
    unfold writeback
    rw [hneed, htrue, if_pos rfl, if_pos rfl, if_neg (by decide)]
    unfold writeToStorage
    rw [hfile, hb]
    simp only [hidle, he]
    by_cases hdel : b.toBeDeleted = true
    · rw [if_pos hdel, if_pos hdel]
      rfl
    · rw [if_neg hdel, if_neg hdel]
      simp only [Bool.false_eq_true, if_false, openForWriting, writeAt, setBlock, Function.update_self, Option.getD_some,
        Function.update_idem]

theorem flushed_present {e : Nat} {path path' : Str} (h : (n.storage path').isSome) :
    (n.flushed path k b e path').isSome := by
  unfold flushed
  split
  · exact h
  · split <;> by_cases hp : path' = path <;> simp [hp, Function.update_of_ne, h]

theorem flushed_self {e : Nat} {path : Str} (hdirty : b.dirtyFlag = true) : (n.flushed path k b e path).isSome := by
  unfold flushed
  rw [if_neg (by rw [hdirty]; decide)]
  split <;> simp

/-- Positions of two blocks are apart. -/
theorem outside_block {pos start : Nat} (hstart : getBlockStartPoint start = start) (h : getBlockStartPoint pos ≠ start) :
    pos < start ∨ start + BLOCK_SIZE ≤ pos := by
  unfold getBlockStartPoint BLOCK_SIZE at *
  omega

theorem inside_block (pos : Nat) : pos = getBlockStartPoint pos + (pos - getBlockStartPoint pos) ∧
    pos - getBlockStartPoint pos < BLOCK_SIZE := by
  unfold getBlockStartPoint BLOCK_SIZE
  omega

/-- A write-back leaves the bytes of the other blocks. -/
theorem stored_of_flushed {n' : IOnode} {e : Nat} {path path' : Str} {pos : Nat} {v : Byte}
    (hstorage : n'.storage = n.flushed path k b e) (hsize : b.dataSize ≤ BLOCK_SIZE)
    (haligned : getBlockStartPoint k.2 = k.2) (h : n.stored path' pos = some v)
    (hapart : b.toBeDeleted = false → path' = path → getBlockStartPoint pos ≠ k.2) : n'.stored path' pos = some v := by
  obtain ⟨F, hF, hpos, hcell⟩ := stored_eq_some.mp h
  apply stored_eq_some.mpr
  rw [hstorage]
  unfold flushed
  split
  · exact ⟨F, hF, hpos, hcell⟩
  · by_cases hp : path' = path
    · subst hp
      split
      · rw [Function.update_self, hF]
        exact ⟨F, rfl, hpos, hcell⟩
      · rename_i hdel
        rw [Function.update_self, hF]
        refine ⟨_, rfl, Nat.lt_of_lt_of_le hpos (ByteFile.size_le_write _ _ _), ?_⟩
        have hout := outside_block haligned (hapart (by simpa using hdel) rfl)
        rw [ByteFile.cell_write, patch_outside]
        · exact hcell
        · rw [length_slice]
          omega
    · split <;> (rw [Function.update_of_ne hp]; exact ⟨F, hF, hpos, hcell⟩)

/-- A write-back puts the bytes of its block on storage. -/
theorem stored_flushed {n' : IOnode} {e : Nat} {path : Str} {pos : Nat} (hstorage : n'.storage = n.flushed path k b e)
    (hdirty : b.dirtyFlag = true) (hlive : b.toBeDeleted = false) (hpos : getBlockStartPoint pos = k.2)
    (hlt : pos - getBlockStartPoint pos < b.dataSize) :
    n'.stored path pos = some (n.memory e (pos - getBlockStartPoint pos)) := by
  apply stored_eq_some.mpr
  rw [hstorage]
  unfold flushed
  rw [if_neg (by rw [hdirty]; decide), if_neg (by rw [hlive]; decide), Function.update_self]
  refine ⟨_, rfl, ?_, ?_⟩
  · rw [ByteFile.size_write_slice, if_neg (by omega)]
    have := (inside_block pos).1
    omega
  · have hsplit : pos = k.2 + (pos - getBlockStartPoint pos) := by
      rw [← hpos]
      exact (inside_block pos).1
    conv_lhs => rw [hsplit]
    rw [ByteFile.cell_write_slice, if_pos hlt]

/-! ## Evicting the oldest block -/

/-- The block after its eviction. -/
def evictedBlock (b : Block) : Block :=
  { b with dirtyFlag := false, elem := none, writebackPage := false, swappedOut := true }

theorem swapOutLoop_zero (l : List BlockKey) (n : IOnode) : swapOutLoop l 0 n = n := by
  cases l with
  | nil => rfl
  | cons k rest => rfl

theorem freeData_eq {e : Nat} (hb : n.block? k = some b) (hclean : b.dirtyFlag = false) (hvalid : b.valid = true)
    (he : b.elem = some e) :
    n.freeData k = (BLOCK_SIZE, { n.setBlock k { b with elem := none, writebackPage := false, swappedOut := true } with
      pool := n.pool.free e }) := by
  have hfree : b.freeMemory n.pool = (BLOCK_SIZE, { b with elem := none, writebackPage := false }, n.pool.free e) := by
    unfold Block.freeMemory
    rw [if_neg (by rw [hclean]; decide), if_neg (by rw [hvalid]; decide), he]
  unfold freeData
  rw [hb]
  simp only [hfree]

/-- `swap_out` for one block's memory takes the oldest block. -/
theorem swapOut_eq {rest : List BlockKey} {e : Nat} (hqueue : n.queue = k :: rest)
    (hfile : n.files.find? k.1 = some file) (hb : n.block? k = some b) (hidle : b.receivingData = false)
    (hvalid : b.valid = true) (he : b.elem = some e) :
    n.swapOut BLOCK_SIZE = { n.setBlock k (evictedBlock b) with
      queue := rest, pool := n.pool.free e, storage := n.flushed file.filePath k b e } := by
  -- after the pop and the write-back the block is clean
  have hclean : (if needWriteback { n with queue := rest } k then writeback { n with queue := rest } k
        else { n with queue := rest })
      = { n.setBlock k { b with dirtyFlag := false } with
          queue := rest, storage := n.flushed file.filePath k b e } :=
    writeback_eq (n := { n with queue := rest }) hfile hb hidle he
  have hblock : ({ n.setBlock k { b with dirtyFlag := false } with
      queue := rest, storage := n.flushed file.filePath k b e } : IOnode).block? k = some { b with dirtyFlag := false } :=
    block?_setBlock_self hfile
  have hfiles : ((n.setBlock k { b with dirtyFlag := false }).setBlock k (evictedBlock b)).files
      = (n.setBlock k (evictedBlock b)).files := by
    rw [setBlock_setBlock]
  unfold swapOut
  rw [hqueue]
  unfold swapOutLoop
  rw [if_neg (by decide)]
  simp only [hclean, freeData_eq hblock rfl hvalid he, Nat.sub_self, swapOutLoop_zero]
  show (IOnode.mk ((n.setBlock k { b with dirtyFlag := false }).setBlock k (evictedBlock b)).files rest (n.pool.free e)
    n.memory (n.flushed file.filePath k b e) n.removeFileList : IOnode) = _
  rw [hfiles]
  rfl

/-- **Eviction keeps the invariant** and gives back the memory of the oldest block. -/
theorem Inv.swapOut {rest : List BlockKey} (h : Inv cap [] n ref) (hqueue : n.queue = k :: rest) :
    Inv cap [] (n.swapOut BLOCK_SIZE) ref ∧ (n.swapOut BLOCK_SIZE).pool.head ≠ [] ∧
      (∀ j, j ≠ k → (n.swapOut BLOCK_SIZE).block? j = n.block? j) ∧
      SameFiles n (n.swapOut BLOCK_SIZE) := by
  -- the oldest page is that of a block with memory
  obtain ⟨e, he⟩ := (h.frames.mem_held k).mp (show k ∈ [] ++ n.queue by rw [hqueue]; exact List.mem_cons_self)
  obtain ⟨b, hb, helem⟩ := Option.bind_eq_some_iff.mp he
  obtain ⟨file, hfile, -⟩ := block?_some_iff.mp hb
  have hok := h.block hfile hb
  have hvalid : b.valid = true := hok.valid (by rw [helem]; simp)
  rw [swapOut_eq hqueue hfile hb hok.idle hvalid helem]
  have hframes := h.frames.release he (show ([] ++ n.queue).Perm (k :: rest) by rw [List.nil_append, hqueue])
  have hnodup : (k :: rest).Nodup := by
    have := h.frames.held_nodup
    rwa [List.nil_append, hqueue] at this
  refine ⟨?_, by simp [MemoryPool.free], ?_, ?_⟩
  · refine h.updateBlock hfile rfl rfl (h.pool.free e) ?_ ?_ (fun _ _ _ _ _ _ => rfl) (fun path => flushed_present) ?_ ?_
      (fun _ _ _ => rfl) ?_
    · exact hframes
    · intro j hj
      show j ∈ rest ↔ j ∈ n.queue
      rw [hqueue, List.mem_cons, or_iff_right hj]
    · intro path pos v hv hapart
      refine stored_of_flushed rfl hok.size_le hok.aligned hv ?_
      intro hdel
      exact hapart (hok.deleted_eq ▸ hdel)
    · refine ⟨?_, fun hne => absurd rfl hne, hok.idle, hok.size_le, hok.aligned, hok.exist_eq, hok.deleted_eq, ?_⟩
      · constructor
        · intro hc
          cases hc
        · intro hmem
          exact absurd hmem (List.nodup_cons.mp hnodup).1
      · intro hlive _
        show (n.flushed file.filePath k b e file.filePath).isSome
        by_cases hdirty : b.dirtyFlag = true
        · exact flushed_self hdirty
        · apply flushed_present
          exact hok.backed hlive (Or.inr ⟨by rw [hqueue]; exact List.mem_cons_self, by simpa using hdirty⟩)
    · intro hlive pos v hpos hv
      have hholds := h.holds hfile hb hlive hpos hv
      refine ⟨hholds.lt, fun e' he' => (nomatch he'), fun _ => ?_, fun _ => Or.inl rfl⟩
      by_cases hdirty : b.dirtyFlag = true
      · rw [stored_flushed (k := k) (b := b) rfl hdirty (hok.deleted_eq ▸ hlive) hpos hholds.lt, hholds.inMemory e helem]
      · have hclean : b.dirtyFlag = false := by simpa using hdirty
        have hsame : n.flushed file.filePath k b e = n.storage := by
          unfold flushed
          rw [if_pos hclean]
        have hstored := hholds.onStorage (Or.inr hclean)
        unfold stored at hstored ⊢
        show ((n.flushed file.filePath k b e) file.filePath).bind _ = _
        rw [hsame]
        exact hstored
  · intro j hj
    show (n.setBlock k (evictedBlock b)).block? j = _
    rw [block?_setBlock hfile, if_neg hj]
  · exact SameFiles.of_setBlock (k := k) (b := evictedBlock b) rfl

/-! ## Giving memory to a block -/

/-- The state `allocate_memory_for_block` allocates in. -/
def room (n : IOnode) : IOnode := if n.pool.hasMemoryLeft BLOCK_SIZE then n else n.swapOut BLOCK_SIZE

/-- A block with the memory it was given, nothing read into it yet. -/
def withMemory (n : IOnode) (k : BlockKey) (b : Block) (e : Nat) (pool : MemoryPool) : IOnode :=
  { n.setBlock k { b with elem := some e, valid := true } with pool := pool }

/-- **There is always room**: a pool of at least one block has memory left, or a block that can give its own. -/
theorem Inv.room (h : Inv cap [] n ref) (hcap : 0 < cap) (hk : n.elemOf k = none) :
    Inv cap [] n.room ref ∧ (n.room.pool.head ≠ [] ∨ n.room.pool.created < cap) ∧ n.room.block? k = n.block? k ∧
      SameFiles n n.room := by
  unfold IOnode.room
  by_cases hleft : n.pool.hasMemoryLeft BLOCK_SIZE = true
  · rw [if_pos hleft]
    exact ⟨h, h.pool.hasMemoryLeft_iff.mp hleft, rfl, SameFiles.refl n⟩
  · rw [if_neg hleft]
    have hnone := fun hor => hleft (h.pool.hasMemoryLeft_iff.mpr hor)
    have hhead : n.pool.head = [] := by
      by_contra hne
      exact hnone (Or.inl hne)
    have hfull : ¬ n.pool.created < cap := fun hlt => hnone (Or.inr hlt)
    -- nothing is free and nothing can be made, so all `cap` elements are held by blocks in the queue
    have hframes := h.frames
    rw [hhead] at hframes
    have hlength := hframes.held_length
    rw [List.nil_append] at hlength
    obtain ⟨j, rest, hqueue⟩ : ∃ j rest, n.queue = j :: rest := by
      apply List.exists_cons_of_ne_nil
      intro hnil
      rw [hnil, List.length_nil] at hlength
      omega
    obtain ⟨hinv, hfree, hblocks, hfiles⟩ := h.swapOut hqueue
    refine ⟨hinv, Or.inl hfree, hblocks k ?_, hfiles⟩
    intro hjk
    apply h.not_mem_queue hk
    rw [List.nil_append, hqueue, hjk]
    exact List.mem_cons_self

/-- **`allocate_memory_for_block` never throws `bad_alloc`**, and takes an element nobody owns. -/
theorem Inv.allocateMemoryForBlock (h : Inv cap [] n ref) (hcap : 0 < cap) (hb : n.block? k = some b)
    (helem : b.elem = none) :
    ∃ e pool, n.allocateMemoryForBlock k = some (n.room.withMemory k b e pool) ∧
      pool.Ok cap ∧ Frames.Ok (e :: pool.head) pool.created n.room.queue n.room.elemOf := by
  have hk : n.elemOf k = none := by rw [elemOf_of_block hb, helem]
  obtain ⟨hinv, hleft, hblock, -⟩ := h.room hcap hk
  obtain ⟨e, pool, halloc, hok, hframes⟩ := hinv.pool.allocate hinv.frames hleft
  refine ⟨e, pool, ?_, hok, hframes⟩
  have hroom : (if n.pool.hasMemoryLeft BLOCK_SIZE then n else n.swapOut BLOCK_SIZE) = n.room := rfl
  unfold IOnode.allocateMemoryForBlock
  simp only [hroom, hblock, hb, Block.allocateMemory, helem, halloc]
  rfl

/-! ## Loading a block -/

/-- A block in the memory it was given, with the bytes read back into it. -/
def loaded (n : IOnode) (k : BlockKey) (b : Block) (e : Nat) (pool : MemoryPool) (dataSize : Nat) (bytes : List Byte) :
    IOnode :=
  { n.setBlock k { b with dataSize := dataSize, swappedOut := false, elem := some e, valid := true } with
    pool := pool, memory := Function.update n.memory e (patch (n.memory e) 0 bytes) }

/-- Memory that nobody owns can be given to a block if what is put there is what the block should have. -/
theorem Inv.loaded {e : Nat} {pool : MemoryPool} {dataSize : Nat} {bytes : List Byte} (h : Inv cap [] n ref)
    (hfile : n.files.find? k.1 = some file) (hb : n.block? k = some b) (helem : b.elem = none) (hpool : pool.Ok cap)
    (hframes : Frames.Ok (e :: pool.head) pool.created n.queue n.elemOf) (hsize : dataSize ≤ BLOCK_SIZE)
    (hbytes : file.toBeDeleted = false → ∀ pos v, getBlockStartPoint pos = k.2 → ref k.1 pos = some v →
      pos - getBlockStartPoint pos < dataSize ∧ bytes[pos - getBlockStartPoint pos]? = some v) :
    Inv cap [k] (n.loaded k b e pool dataSize bytes) ref := by
  have hk : n.elemOf k = none := by rw [elemOf_of_block hb, helem]
  have hqueue : k ∉ n.queue := h.not_mem_queue hk
  have hok := h.block hfile hb
  refine h.updateBlock hfile rfl rfl hpool (hframes.take hk) (fun _ _ => Iff.rfl) ?_ (fun _ hp => hp)
    (fun _ _ _ hv _ => hv) ?_ (fun _ _ _ => rfl) ?_
  · intro j b' x _ hb' hx
    -- the element was free, so no other block has it
    have hne : x ≠ e := by
      intro he
      have howned : n.elemOf j = some x := by rw [elemOf_of_block hb', hx]
      exact hframes.owned_not_free j x howned (he ▸ List.mem_cons_self)
    exact Function.update_of_ne hne _ _
  · refine ⟨hok.page, fun _ => rfl, hok.idle, hsize, hok.aligned, hok.exist_eq, hok.deleted_eq, ?_⟩
    intro _ hor
    rcases hor with hc | ⟨hc, -⟩
    · cases hc
    · exact absurd hc hqueue
  · intro hlive pos v hpos hv
    obtain ⟨hlt, hget⟩ := hbytes hlive pos v hpos hv
    have hholds := h.holds hfile hb hlive hpos hv
    refine ⟨hlt, ?_, fun _ => hholds.onStorage (Or.inl helem), fun hc => (nomatch hc)⟩
    intro e' he'
    obtain rfl : e = e' := Option.some.inj he'
    show Function.update n.memory e (patch (n.memory e) 0 bytes) e (pos - getBlockStartPoint pos) = v
    rw [Function.update_self]
    unfold patch
    rw [if_pos (Nat.zero_le _), Nat.sub_zero, hget]
    rfl

/-- The bytes of a block, as a read from storage returns them. -/
theorem read_of_stored {F : ByteFile Byte} {path : Str} {pos : Nat} {v : Byte} {dataSize : Nat}
    (hF : n.storage path = some F) (hv : n.stored path pos = some v) (hpos : getBlockStartPoint pos = k.2)
    (hlt : pos - getBlockStartPoint pos < dataSize) :
    pos - getBlockStartPoint pos < (F.read k.2 dataSize).length ∧
      (F.read k.2 dataSize)[pos - getBlockStartPoint pos]? = some v := by
  obtain ⟨G, hG, hsize, hcell⟩ := stored_eq_some.mp hv
  rw [hF] at hG
  obtain rfl := Option.some.inj hG
  have hsplit := (inside_block pos).1
  rw [hpos] at hsplit hlt ⊢
  have hmin : pos - k.2 < min dataSize (F.size - k.2) := by omega
  refine ⟨by rw [ByteFile.length_read]; exact hmin, ?_⟩
  unfold ByteFile.read
  rw [getElem?_slice hmin, ← hsplit, hcell]

/-- Storage read back into the block's memory. -/
theorem readFromStorage_eq {F : ByteFile Byte} {e : Nat} (path : Str) (hF : n.storage path = some F)
    (he : b.elem = some e) :
    n.readFromStorage path k b = some ((F.read k.2 b.dataSize).length,
      { n with memory := Function.update n.memory e (patch (n.memory e) 0 (F.read k.2 b.dataSize)) }) := by
  unfold readFromStorage
  rw [hF, he]

theorem withMemory_setBlock (e : Nat) (pool : MemoryPool) (dataSize : Nat) (bytes : List Byte) :
    setBlock { n.withMemory k b e pool with memory := Function.update n.memory e (patch (n.memory e) 0 bytes) } k
      { b with dataSize := dataSize, swappedOut := false, elem := some e, valid := true }
      = n.loaded k b e pool dataSize bytes := by
  have hset := setBlock_setBlock (n := n) (k := k) (b := { b with elem := some e, valid := true })
    { b with dataSize := dataSize, swappedOut := false, elem := some e, valid := true }
  exact congrArg (fun n' : IOnode => ({ n' with
    pool := pool, memory := Function.update n.memory e (patch (n.memory e) 0 bytes) } : IOnode)) hset

section Load

variable {m : IOnode} {e : Nat} {pool : MemoryPool}

theorem withMemory_file (hfile : m.files.find? k.1 = some file) :
    (m.withMemory k b e pool).files.find? k.1 = some (file.setBlock k.2 { b with elem := some e, valid := true }) := by
  show (m.setBlock k _).files.find? k.1 = _
  rw [files_setBlock, if_pos rfl, hfile]
  rfl

theorem withMemory_block (hfile : m.files.find? k.1 = some file) :
    (m.withMemory k b e pool).block? k = some { b with elem := some e, valid := true } :=
  block?_setBlock_self (n := m) hfile

/-- The load of a block that is read back, for a write. -/
theorem loadForWriting_reload {F : ByteFile Byte} (halloc : n.allocateMemoryForBlock k = some (m.withMemory k b e pool))
    (hfile : m.files.find? k.1 = some file) (hF : m.storage file.filePath = some F)
    (hreload : file.existFlag = .existing ∨ b.swappedOut = true) :
    n.loadForWriting k = some (m.loaded k b e pool (F.read k.2 b.dataSize).length (F.read k.2 b.dataSize)) := by
  have hread := readFromStorage_eq (n := m.withMemory k b e pool) (k := k)
    (b := { b with elem := some e, valid := true }) file.filePath hF rfl
  unfold loadForWriting
  rw [halloc]
  simp only [withMemory_file hfile, withMemory_block hfile, IOFile.setBlock_existFlag, IOFile.setBlock_filePath,
    hreload, if_true, hread]
  exact congrArg some (withMemory_setBlock e pool _ _)

/-- The load of a block that has never been on storage, for a write. -/
theorem loadForWriting_fresh (halloc : n.allocateMemoryForBlock k = some (m.withMemory k b e pool))
    (hfile : m.files.find? k.1 = some file) (hfresh : ¬ (file.existFlag = .existing ∨ b.swappedOut = true)) :
    n.loadForWriting k = some (m.loaded k b e pool b.dataSize []) := by
  have hswapped : b.swappedOut = false := by
    by_contra hc
    exact hfresh (Or.inr (by simpa using hc))
  unfold loadForWriting
  rw [halloc]
  simp only [withMemory_file hfile, withMemory_block hfile, IOFile.setBlock_existFlag, hfresh, if_false]
  rw [← withMemory_setBlock, patch_nil, Function.update_eq_self, ← hswapped]
  rfl

/-- The load of a block that is read back, for a read. -/
theorem loadForSending_reload {F : ByteFile Byte} (halloc : n.allocateMemoryForBlock k = some (m.withMemory k b e pool))
    (hfile : m.files.find? k.1 = some file) (hF : m.storage file.filePath = some F)
    (hreload : b.existFlag = .existing ∨ b.swappedOut = true) :
    n.loadForSending k = some (m.loaded k b e pool b.dataSize (F.read k.2 b.dataSize)) := by
  have hread := readFromStorage_eq (n := m.withMemory k b e pool) (k := k)
    (b := { b with elem := some e, valid := true }) file.filePath hF rfl
  unfold loadForSending
  rw [halloc]
  simp only [withMemory_file hfile, withMemory_block hfile, IOFile.setBlock_filePath]
  rw [if_pos hreload, hread]
  exact congrArg some (withMemory_setBlock e pool _ _)

end Load

/-- A block that should be read back has its file on storage. -/
theorem Inv.reload_present (h : Inv cap pending n ref) (hfile : n.files.find? k.1 = some file) (hb : n.block? k = some b)
    (hlive : file.toBeDeleted = false) (hreload : file.existFlag = .existing ∨ b.swappedOut = true) :
    ∃ F, n.storage file.filePath = some F := by
  rw [← Option.isSome_iff_exists]
  rcases hreload with hexist | hswapped
  · exact h.present k.1 file hfile hlive hexist
  · exact (h.block hfile hb).backed hlive (Or.inl hswapped)

/-- **Loading for a write** keeps the invariant; the block then has memory and is not in the queue yet. -/
theorem Inv.loadForWriting (h : Inv cap [] n ref) (hcap : 0 < cap) (hfile : n.files.find? k.1 = some file)
    (hlive : file.toBeDeleted = false) (hb : n.block? k = some b) (helem : b.elem = none) :
    ∃ n', n.loadForWriting k = some n' ∧ Inv cap [k] n' ref ∧ SameFiles n n' := by
  obtain ⟨e, pool, halloc, hpool, hframes⟩ := h.allocateMemoryForBlock hcap hb helem
  obtain ⟨hroom, -, hblock, hsame⟩ := h.room hcap (show n.elemOf k = none by rw [elemOf_of_block hb, helem])
  rw [hb] at hblock
  obtain ⟨file', hfile', -, hdel, -⟩ := hsame k.1 file hfile
  have hlive' : file'.toBeDeleted = false := hdel.trans hlive
  have hok := hroom.block hfile' hblock
  by_cases hreload : file'.existFlag = .existing ∨ b.swappedOut = true
  · obtain ⟨F, hF⟩ := hroom.reload_present hfile' hblock hlive' hreload
    refine ⟨_, loadForWriting_reload halloc hfile' hF hreload, ?_, hsame.trans (SameFiles.of_setBlock rfl)⟩
    apply hroom.loaded hfile' hblock helem hpool hframes
    · rw [ByteFile.length_read]
      have := hok.size_le
      omega
    · intro _ pos v hpos hv
      have hholds := hroom.holds hfile' hblock hlive' hpos hv
      exact read_of_stored hF (hholds.onStorage (Or.inl helem)) hpos hholds.lt
  · refine ⟨_, loadForWriting_fresh halloc hfile' hreload, ?_, hsame.trans (SameFiles.of_setBlock rfl)⟩
    apply hroom.loaded hfile' hblock helem hpool hframes hok.size_le
    intro _ pos v hpos hv
    -- a block that is neither on storage nor swapped out has no byte yet
    have hholds := hroom.holds hfile' hblock hlive' hpos hv
    exfalso
    apply hreload
    rcases hholds.reload helem with hswapped | hexist
    · exact Or.inr hswapped
    · exact Or.inl (hok.exist_eq ▸ hexist)

/-- **Loading for a read** of a block that has been on storage. -/
theorem Inv.loadForSending (h : Inv cap [] n ref) (hcap : 0 < cap) (hfile : n.files.find? k.1 = some file)
    (hlive : file.toBeDeleted = false) (hb : n.block? k = some b) (helem : b.elem = none)
    (hreload : b.existFlag = .existing ∨ b.swappedOut = true) :
    ∃ n', n.loadForSending k = some n' ∧ Inv cap [k] n' ref ∧ SameFiles n n' ∧ n'.storage = n.room.storage ∧
      n'.queue = n.room.queue ∧ ∃ e b', n'.block? k = some b' ∧ b'.elem = some e ∧
        (∀ x, x ≠ e → n'.memory x = n.room.memory x) ∧ ∀ j, j ≠ k → n'.block? j = n.room.block? j := by
  obtain ⟨e, pool, halloc, hpool, hframes⟩ := h.allocateMemoryForBlock hcap hb helem
  obtain ⟨hroom, -, hblock, hsame⟩ := h.room hcap (show n.elemOf k = none by rw [elemOf_of_block hb, helem])
  rw [hb] at hblock
  obtain ⟨file', hfile', -, hdel, -⟩ := hsame k.1 file hfile
  have hlive' : file'.toBeDeleted = false := hdel.trans hlive
  have hok := hroom.block hfile' hblock
  obtain ⟨F, hF⟩ := hroom.reload_present hfile' hblock hlive' (by rw [← hok.exist_eq]; exact hreload)
  refine ⟨_, loadForSending_reload halloc hfile' hF hreload, ?_, hsame.trans (SameFiles.of_setBlock rfl), rfl, rfl, e, _,
    block?_setBlock_self (n := n.room) hfile', rfl, ?_, ?_⟩
  · apply hroom.loaded hfile' hblock helem hpool hframes hok.size_le
    intro _ pos v hpos hv
    have hholds := hroom.holds hfile' hblock hlive' hpos hv
    exact ⟨hholds.lt, (read_of_stored hF (hholds.onStorage (Or.inl helem)) hpos hholds.lt).2⟩
  · intro x hx
    exact Function.update_of_ne hx _ _
  · intro j hj
    show (n.room.setBlock k _).block? j = _
    rw [block?_setBlock hfile', if_neg hj]

/-! ## The queue -/

/-- The page of the block goes to the young end of the queue, wherever it was. -/
theorem updateAccessOrder_eq (hb : n.block? k = some b) (hpage : b.writebackPage = true ↔ k ∈ n.queue) :
    n.updateAccessOrder k
      = { n.setBlock k { b with writebackPage := true } with queue := n.queue.erase k ++ [k] } := by
  unfold updateAccessOrder
  rw [hb]
  by_cases hp : b.writebackPage = true
  · have hsame : ({ b with writebackPage := true } : Block) = b := by rw [← hp]
    simp only [hp, if_true]
    rw [hsame, setBlock_self hb]
  · have hnot : k ∉ n.queue := fun hc => hp (hpage.mpr hc)
    simp only [hp]
    rw [List.erase_of_not_mem hnot]
    rfl

/-- The queue after the move, next to what is pending. -/
theorem perm_touched {queue pending : List BlockKey} (hmem : k ∈ pending ++ queue) (hpending : pending = [] ∨ pending = [k])
    (hnodup : (pending ++ queue).Nodup) : (pending ++ queue).Perm ([] ++ (queue.erase k ++ [k])) := by
  rw [List.nil_append]
  rcases hpending with rfl | rfl
  · rw [List.nil_append] at hmem ⊢
    exact (List.perm_cons_erase hmem).trans (List.perm_append_singleton k _).symm
  · have hnot : k ∉ queue := (List.nodup_cons.mp hnodup).1
    rw [List.erase_of_not_mem hnot]
    exact (List.perm_append_singleton k queue).symm

/-- A block with memory is rewritten there and moved to the young end of the queue. -/
theorem Inv.settle {e : Nat} {b' : Block} {memory : Nat → Nat → Byte} {ref' : Ref} (h : Inv cap pending n ref)
    (hpending : pending = [] ∨ pending = [k]) (hfile : n.files.find? k.1 = some file) (hb : n.block? k = some b)
    (he : b.elem = some e) (hcore : b' = { b with
      dataSize := b'.dataSize, dirtyFlag := b'.dirtyFlag, receivingData := false, writebackPage := true })
    (hsize : b'.dataSize ≤ BLOCK_SIZE) (hmemory : ∀ x, x ≠ e → memory x = n.memory x)
    (hclean : file.toBeDeleted = false → b'.dirtyFlag = false → (n.storage file.filePath).isSome)
    (href : ∀ g pos, (g = k.1 → getBlockStartPoint pos ≠ k.2) → ref' g pos = ref g pos)
    (hbytes : file.toBeDeleted = false → ∀ pos v, getBlockStartPoint pos = k.2 → ref' k.1 pos = some v →
      pos - getBlockStartPoint pos < b'.dataSize ∧ memory e (pos - getBlockStartPoint pos) = v ∧
        (b'.dirtyFlag = false → n.stored file.filePath pos = some v)) :
    Inv cap [] { n.setBlock k b' with memory := memory, queue := n.queue.erase k ++ [k] } ref' := by
  have hok := h.block hfile hb
  have howner : n.elemOf k = some e := by rw [elemOf_of_block hb, he]
  have helem : b'.elem = some e := by rw [hcore]; exact he
  have hmem : k ∈ pending ++ n.queue := (h.frames.mem_held k).mpr ⟨e, howner⟩
  refine h.updateBlock hfile rfl rfl h.pool ?_ ?_ ?_ (fun _ hp => hp) (fun _ _ _ hv _ => hv) ?_ href ?_
  · show Frames.Ok n.pool.head n.pool.created ([] ++ (n.queue.erase k ++ [k])) (Function.update n.elemOf k b'.elem)
    rw [helem, ← howner, Function.update_eq_self]
    exact h.frames.perm (perm_touched hmem hpending h.frames.held_nodup)
  · intro j hj
    show j ∈ n.queue.erase k ++ [k] ↔ j ∈ n.queue
    rw [List.mem_append, List.mem_singleton, or_iff_left hj, List.mem_erase_of_ne hj]
  · intro j b'' x hj hb'' hx
    apply hmemory
    intro hxe
    have hother : n.elemOf j = some x := by rw [elemOf_of_block hb'', hx]
    exact hj (h.frames.owner_inj j k x hother (hxe ▸ howner))
  · rw [hcore]
    refine ⟨?_, hok.valid, rfl, hsize, hok.aligned, hok.exist_eq, hok.deleted_eq, ?_⟩
    · show true = true ↔ k ∈ n.queue.erase k ++ [k]
      simp
    · intro hlive hor
      rcases hor with hswapped | ⟨-, hdirty⟩
      · exact hok.backed hlive (Or.inl hswapped)
      · exact hclean hlive hdirty
  · intro hlive pos v hpos hv
    obtain ⟨hlt, hval, hstored⟩ := hbytes hlive pos v hpos hv
    refine ⟨hlt, ?_, ?_, ?_⟩
    · intro e' he'
      rw [helem] at he'
      obtain rfl := Option.some.inj he'
      exact hval
    · rintro (hc | hc)
      · rw [helem] at hc
        cases hc
      · exact hstored hc
    · intro hc
      rw [helem] at hc
      cases hc

/-- **An access** moves the block in the queue and nothing else. -/
theorem Inv.updateAccessOrder {e : Nat} (h : Inv cap pending n ref) (hpending : pending = [] ∨ pending = [k])
    (hfile : n.files.find? k.1 = some file) (hb : n.block? k = some b) (he : b.elem = some e)
    (hclean : file.toBeDeleted = false → b.dirtyFlag = false → (n.storage file.filePath).isSome) :
    Inv cap [] (n.updateAccessOrder k) ref := by
  have hok := h.block hfile hb
  rw [updateAccessOrder_eq hb hok.page]
  show Inv cap [] { n.setBlock k { b with writebackPage := true } with
    memory := n.memory, queue := n.queue.erase k ++ [k] } ref
  refine h.settle hpending hfile hb he ?_ hok.size_le (fun _ _ => rfl) hclean (fun _ _ _ => rfl) ?_
  · rw [← hok.idle]
  · intro hlive pos v hpos hv
    have hholds := h.holds hfile hb hlive hpos hv
    exact ⟨hholds.lt, hholds.inMemory e he, fun hdirty => hholds.onStorage (Or.inr hdirty)⟩

/-! ## Writing into a block -/

/-- The bytes a file should have after a write. -/
def refWrite (ref : Ref) (f : Int) (pos : Nat) (bytes : List Byte) : Ref :=
  Function.update ref f (patch (ref f) pos (bytes.map some))

theorem refWrite_other (ref : Ref) {f g : Int} (pos : Nat) (bytes : List Byte) (hg : g ≠ f) :
    refWrite ref f pos bytes g = ref g := Function.update_of_ne hg _ _

theorem refWrite_outside (ref : Ref) (f : Int) {pos i : Nat} {bytes : List Byte} (h : i < pos ∨ pos + bytes.length ≤ i) :
    refWrite ref f pos bytes f i = ref f i := by
  unfold refWrite
  rw [Function.update_self, patch_outside (by rw [List.length_map]; exact h)]

theorem refWrite_inside (ref : Ref) (f : Int) (pos : Nat) {bytes : List Byte} {i : Nat} (h : i < bytes.length) :
    refWrite ref f pos bytes f (pos + i) = some bytes[i] := by
  unfold refWrite
  rw [Function.update_self, patch_at (by rw [List.length_map]; exact h), List.getElem_map]

theorem refWrite_known {ref : Ref} {f g : Int} {pos i : Nat} {bytes : List Byte} (h : (ref g i).isSome) :
    (refWrite ref f pos bytes g i).isSome := by
  by_cases hg : g = f
  · subst hg
    by_cases hin : pos ≤ i ∧ i < pos + bytes.length
    · obtain ⟨d, rfl⟩ : ∃ d, i = pos + d := ⟨i - pos, by omega⟩
      rw [refWrite_inside ref g pos (by omega)]
      rfl
    · rw [refWrite_outside ref g (by omega)]
      exact h
  · rw [refWrite_other ref pos bytes hg]
    exact h

theorem refWrite_append (ref : Ref) (f : Int) (pos : Nat) (a b : List Byte) :
    refWrite ref f pos (a ++ b) = refWrite (refWrite ref f pos a) f (pos + a.length) b := by
  unfold refWrite
  rw [Function.update_self, Function.update_idem, List.map_append, patch_append, List.length_map]

/-- The block with the bytes copied into it. -/
def copiedBlock (b : Block) (offset size : Nat) : Block :=
  { b with
    dataSize := if b.dataSize < offset + size then offset + size else b.dataSize
    dirtyFlag := true, receivingData := false }

/-- The block after the copy, with its page in the queue. -/
def writtenBlock (b : Block) (offset size : Nat) : Block := { copiedBlock b offset size with writebackPage := true }

/-- The state with bytes copied into a block. -/
def copied (n : IOnode) (k : BlockKey) (b : Block) (e offset : Nat) (bytes : List Byte) : IOnode :=
  { n.setBlock k (copiedBlock b offset bytes.length) with
    memory := Function.update n.memory e (patch (n.memory e) offset bytes) }

/-- The state after the copy, with the block at the young end of the queue. -/
def written (n : IOnode) (k : BlockKey) (b : Block) (e offset : Nat) (bytes : List Byte) : IOnode :=
  { n.setBlock k (writtenBlock b offset bytes.length) with
    memory := Function.update n.memory e (patch (n.memory e) offset bytes)
    queue := n.queue.erase k ++ [k] }

theorem updateAccessOrder_copied {e offset : Nat} {bytes : List Byte} (hfile : n.files.find? k.1 = some file)
    (hpage : b.writebackPage = true ↔ k ∈ n.queue) :
    (n.copied k b e offset bytes).updateAccessOrder k = n.written k b e offset bytes := by
  have hblock : (n.copied k b e offset bytes).block? k = some (copiedBlock b offset bytes.length) :=
    block?_setBlock_self (n := n) hfile
  have hset := setBlock_setBlock (n := n) (k := k) (b := copiedBlock b offset bytes.length)
    (writtenBlock b offset bytes.length)
  have hstate := congrArg (fun n' : IOnode => ({ n' with
    memory := Function.update n.memory e (patch (n.memory e) offset bytes)
    queue := n.queue.erase k ++ [k] } : IOnode)) hset
  rw [updateAccessOrder_eq hblock hpage]
  exact hstate

theorem receiveInto_eq {e offset size : Nat} {data : List Byte} (hfile : n.files.find? k.1 = some file)
    (hb : n.block? k = some b) (he : b.elem = some e) (hpage : b.writebackPage = true ↔ k ∈ n.queue)
    (hoffset : offset < BLOCK_SIZE) (hdata : min size (BLOCK_SIZE - offset) ≤ data.length) :
    n.receiveInto k offset size data = some (min size (BLOCK_SIZE - offset),
      n.written k b e offset (data.take (min size (BLOCK_SIZE - offset)))) := by
  have hsize : (if offset + size > BLOCK_SIZE then BLOCK_SIZE - offset else size) = min size (BLOCK_SIZE - offset) := by
    split <;> omega
  have hlength : (data.take (min size (BLOCK_SIZE - offset))).length = min size (BLOCK_SIZE - offset) := by
    rw [List.length_take]
    omega
  rw [← updateAccessOrder_copied hfile hpage]
  unfold receiveInto copied copiedBlock
  rw [hb, hlength]
  simp only [hsize, he]
  rw [if_neg (by omega)]
  rfl

/-- **A copy into a block with memory** is a write of the file. -/
theorem Inv.written {e offset : Nat} {bytes : List Byte} (h : Inv cap pending n ref)
    (hpending : pending = [] ∨ pending = [k]) (hfile : n.files.find? k.1 = some file) (hb : n.block? k = some b)
    (he : b.elem = some e) (hfit : offset + bytes.length ≤ BLOCK_SIZE) :
    Inv cap [] (n.written k b e offset bytes) (refWrite ref k.1 (k.2 + offset) bytes) := by
  have hok := h.block hfile hb
  have hsize : (writtenBlock b offset bytes.length).dataSize = max b.dataSize (offset + bytes.length) := by
    unfold writtenBlock copiedBlock
    dsimp only
    split <;> omega
  refine h.settle hpending hfile hb he rfl ?_ ?_ ?_ ?_ ?_
  · rw [hsize]
    have := hok.size_le
    omega
  · intro x hx
    exact Function.update_of_ne hx _ _
  · intro _ hc
    cases hc
  · intro g pos hapart
    by_cases hg : g = k.1
    · subst hg
      apply refWrite_outside
      have := outside_block hok.aligned (hapart rfl)
      omega
    · rw [refWrite_other ref _ _ hg]
  · intro hlive pos v hpos hv
    have hsplit := (inside_block pos).1
    rw [hpos] at hsplit ⊢
    rw [hsize, Function.update_self]
    refine ⟨?_, ?_, fun hc => (nomatch hc)⟩
    · by_cases hin : k.2 + offset ≤ pos ∧ pos < k.2 + offset + bytes.length
      · omega
      · rw [refWrite_outside ref k.1 (by omega)] at hv
        have hlt := (h.holds hfile hb hlive hpos hv).lt
        rw [hpos] at hlt
        omega
    · by_cases hin : k.2 + offset ≤ pos ∧ pos < k.2 + offset + bytes.length
      · -- a byte of this write
        obtain ⟨i, rfl⟩ : ∃ i, pos = k.2 + offset + i := ⟨pos - (k.2 + offset), by omega⟩
        have hi : i < bytes.length := by omega
        rw [refWrite_inside ref k.1 (k.2 + offset) hi] at hv
        rw [show k.2 + offset + i - k.2 = offset + i by omega, patch_at hi]
        exact Option.some.inj hv
      · rw [refWrite_outside ref k.1 (by omega)] at hv
        have hholds := h.holds hfile hb hlive hpos hv
        rw [patch_outside (by omega), ← hpos]
        exact hholds.inMemory e he

end IOnode

end HuronFS
