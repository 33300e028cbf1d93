import HuronFS.Common.MemoryPool
import HuronFS.IOnode.Basic
import HuronFS.Lib.Frames

/-!
# `IOnode.Invariant` — where a byte of a file is

`Inv` is what holds of an IOnode between two blocks of a request: every element of memory is free or owned
by one block, the blocks that own one are those in the swap queue, and each byte that was written (or was
on storage when the file was opened) is in its block's memory or, when the block has none or is clean, at
its own position on storage. `Inv.updateBlock` is the rule for a step that touches one block; every
operation is proved through it.
-/

namespace HuronFS

open Region

/-! ## The pool -/

namespace MemoryPool

/-- The sizes of a pool of `cap` blocks agree with its lists. -/
structure Ok (p : MemoryPool) (cap : Nat) : Prop where
  block : p.blockSize = BLOCK_SIZE
  total : p.totalSize = BLOCK_SIZE * cap
  step : ∃ s, 0 < s ∧ p.stepSize = s * BLOCK_SIZE
  available : p.availableMemory = BLOCK_SIZE * p.head.length
  allocated : p.allocatedSize = BLOCK_SIZE * p.created
  created_le : p.created ≤ cap

theorem setup_ok {cap : Nat} (hcap : 0 < cap) {pre : Nat} (hpre : 0 < pre) : (setup BLOCK_SIZE cap pre).Ok cap := by
  refine ⟨rfl, rfl, ?_, rfl, rfl, Nat.zero_le _⟩
  unfold setup
  split
  · exact ⟨cap, hcap, rfl⟩
  · exact ⟨pre, hpre, rfl⟩

/-- There is memory left exactly when an element is free or another can be made. -/
theorem Ok.hasMemoryLeft_iff {p : MemoryPool} {cap : Nat} (h : p.Ok cap) :
    p.hasMemoryLeft BLOCK_SIZE = true ↔ p.head ≠ [] ∨ p.created < cap := by
  unfold hasMemoryLeft
  rw [Bool.or_eq_true, decide_eq_true_iff, decide_eq_true_iff, h.available, h.total, h.allocated, h.block]
  have hhead : p.head ≠ [] ↔ 0 < p.head.length := List.length_pos_iff.symm
  rw [hhead]
  unfold BLOCK_SIZE
  omega

theorem Ok.free {p : MemoryPool} {cap : Nat} (h : p.Ok cap) (e : Nat) : (p.free e).Ok cap := by
  refine ⟨h.block, h.total, h.step, ?_, h.allocated, h.created_le⟩
  show p.availableMemory + p.blockSize = BLOCK_SIZE * (e :: p.head).length
  rw [h.available, h.block, List.length_cons]
  unfold BLOCK_SIZE
  omega

section Frames

variable {K : Type*} {held : List K} {owner : K → Option Nat}

/-- The loop makes as many elements as fit, all of them free. -/
theorem newElems_ok {count : Nat} : ∀ {fuel : Nat} {p : MemoryPool}, count ≤ fuel → p.blockSize = BLOCK_SIZE →
    Frames.Ok p.head p.created held owner →
    ∃ head, newElems fuel (count * BLOCK_SIZE) p = { p with head := head, created := p.created + count } ∧
      head.length = p.head.length + count ∧ Frames.Ok head (p.created + count) held owner := by
  induction count with
  | zero =>
      intro fuel p _ hblock hok
      refine ⟨p.head, ?_, rfl, hok⟩
      have hp : { p with head := p.head, created := p.created + 0 } = p := rfl
      rw [hp]
      cases fuel with
      | zero => rfl
      | succ fuel =>
          unfold newElems
          rw [if_neg (by rw [hblock, Nat.zero_mul]; decide)]
  | succ count ih =>
      intro fuel p hfuel hblock hok
      obtain ⟨fuel, rfl⟩ : ∃ f, fuel = f + 1 := ⟨fuel - 1, by omega⟩
      obtain ⟨head, heq, hlen, hok'⟩ := ih (p := { p with head := p.created :: p.head, created := p.created + 1 })
        (Nat.le_of_succ_le_succ hfuel) hblock hok.grow
      have hstep : newElems (fuel + 1) ((count + 1) * BLOCK_SIZE) p
          = newElems fuel (count * BLOCK_SIZE) { p with head := p.created :: p.head, created := p.created + 1 } := by
        conv_lhs => unfold newElems
        rw [if_pos (by rw [hblock, Nat.succ_mul]; omega)]
        congr 1
        rw [hblock, Nat.succ_mul, Nat.add_sub_cancel]
      refine ⟨head, ?_, ?_, ?_⟩
      · rw [hstep, heq]
        show _ = { p with head := head, created := p.created + (count + 1) }
        rw [← Nat.add_assoc, Nat.add_right_comm]
      · rw [hlen, List.length_cons]
        omega
      · rw [← Nat.add_assoc, Nat.add_right_comm]
        exact hok'

/-- With memory left, `allocate` hands out an element nobody owns. -/
theorem Ok.allocate {p : MemoryPool} {cap : Nat} (h : p.Ok cap) (hf : Frames.Ok p.head p.created held owner)
    (hleft : p.head ≠ [] ∨ p.created < cap) :
    ∃ e p', p.allocate = some (e, p') ∧ p'.Ok cap ∧ Frames.Ok (e :: p'.head) p'.created held owner := by
  unfold MemoryPool.allocate
  by_cases hhead : p.head = []
  · rw [if_pos hhead]
    have hcap : p.created < cap := hleft.resolve_left (fun hne => hne hhead)
    obtain ⟨s, hs, hstep⟩ := h.step
    -- the pool grows by a number of elements that is at least one
    have hmin : min (p.totalSize - p.allocatedSize) p.stepSize = min (cap - p.created) s * BLOCK_SIZE := by
      rw [h.total, h.allocated, hstep, ← Nat.mul_sub, Nat.mul_comm BLOCK_SIZE, Nat.mul_min_mul_right]
    have hpos : 0 < min (cap - p.created) s := by omega
    have hfuel : min (cap - p.created) s ≤ min (cap - p.created) s * BLOCK_SIZE :=
      Nat.le_mul_of_pos_right (min (cap - p.created) s) (by decide)
    obtain ⟨head, heq, hlen, hok⟩ := newElems_ok hfuel h.block hf
    have hmore : p.allocateMoreMemory = some
        { p with head := head, created := p.created + min (cap - p.created) s
                 availableMemory := p.availableMemory + min (cap - p.created) s * BLOCK_SIZE
                 allocatedSize := p.allocatedSize + min (cap - p.created) s * BLOCK_SIZE } := by
      unfold allocateMoreMemory
      have hle : p.allocatedSize + p.blockSize ≤ p.totalSize := by
        rw [h.total, h.allocated, h.block]
        unfold BLOCK_SIZE
        omega
      rw [if_pos hle, hmin]
      show some _ = some _
      rw [heq]
    rw [hmore]
    obtain ⟨e, next, rfl⟩ : ∃ e next, head = e :: next := by
      cases head with
      | nil => rw [List.length_nil] at hlen; omega
      | cons e next => exact ⟨e, next, rfl⟩
    rw [hhead, List.length_nil, Nat.zero_add, List.length_cons] at hlen
    refine ⟨e, _, rfl, ⟨h.block, h.total, h.step, ?_, ?_, ?_⟩, hok⟩
    · show p.availableMemory + min (cap - p.created) s * BLOCK_SIZE - p.blockSize = BLOCK_SIZE * next.length
      rw [h.available, h.block, hhead, ← hlen, List.length_nil]
      unfold BLOCK_SIZE
      omega
    · show p.allocatedSize + min (cap - p.created) s * BLOCK_SIZE = BLOCK_SIZE * (p.created + min (cap - p.created) s)
      rw [h.allocated, Nat.mul_add, Nat.mul_comm (min _ _)]
    · show p.created + min (cap - p.created) s ≤ cap
      omega
  · rw [if_neg hhead]
    obtain ⟨e, next, he⟩ : ∃ e next, p.head = e :: next := List.exists_cons_of_ne_nil hhead
    unfold takeHead
    rw [he]
    refine ⟨e, _, rfl, ⟨h.block, h.total, h.step, ?_, h.allocated, h.created_le⟩, ?_⟩
    · show p.availableMemory - p.blockSize = BLOCK_SIZE * next.length
      rw [h.available, h.block, he, List.length_cons]
      unfold BLOCK_SIZE
      omega
    · rw [he] at hf
      exact hf

end Frames

end MemoryPool

/-! The pool of `Common.MemoryPool` has the range of `size_t` and a `malloc` that can fail; where neither is
met, this one is the same. -/

namespace ElementPool

/-- The pool without the range of `size_t`. -/
def ideal (p : ElementPool) : MemoryPool :=
  { head := p.freeList, created := p.nextElem, availableMemory := p.availableMemory, allocatedSize := p.allocatedSize
    blockSize := p.blockSize, stepSize := p.stepSize, totalSize := p.totalSize }

theorem newElems_ideal (n : Nat) : ∀ {fuel : Nat} {p : ElementPool}, 0 < p.blockSize → n ≤ fuel →
    MemoryPool.newElems fuel (p.blockSize * n) p.ideal = (p.pushN n).ideal := by
  induction n with
  | zero =>
      intro fuel p hpos _
      cases fuel with
      | zero => rfl
      | succ fuel =>
          unfold MemoryPool.newElems
          rw [if_neg (by rw [Nat.mul_zero]; exact Nat.not_le_of_lt hpos)]
          rfl
  | succ n ih =>
      intro fuel p hpos hfuel
      obtain ⟨fuel, rfl⟩ := Nat.exists_eq_succ_of_ne_zero (Nat.ne_of_gt (Nat.lt_of_lt_of_le (Nat.succ_pos n) hfuel))
      unfold MemoryPool.newElems
      have hle : p.ideal.blockSize ≤ p.blockSize * (n + 1) := Nat.le_mul_of_pos_right _ (Nat.succ_pos n)
      have hsub : p.blockSize * (n + 1) - p.ideal.blockSize = p.blockSize * n := by
        rw [Nat.mul_add, Nat.mul_one]
        exact Nat.add_sub_cancel _ _
      rw [if_pos hle, hsub]
      exact ih (p := { p with freeList := p.nextElem :: p.freeList, nextElem := p.nextElem + 1 }) hpos (Nat.le_of_succ_le_succ hfuel)

end ElementPool

namespace PoolUse

variable {size total pre : Nat} {s : PoolUse}

theorem Inv.takeHead_ideal (h : Inv size total pre s) (hfits : size * (total + 1) < SIZE_T) {e : Nat} {p : ElementPool}
    (htake : s.pool.takeHead = some (.elem e, p)) : s.pool.ideal.takeHead = some (e, p.ideal) := by
  have hcount := h.count
  unfold ElementPool.takeHead at htake
  split at htake
  · cases htake
  · rename_i e0 rest hlist
    cases htake
    have hle : size * (rest.length + 1) ≤ size * (total + 1) := by
      apply Nat.mul_le_mul_left
      rw [hlist, List.length_cons] at hcount
      omega
    have hav : s.pool.availableMemory = size * rest.length + size := by
      rw [h.available, hlist, List.length_cons, Nat.mul_succ]
    have hmod : (s.pool.availableMemory + SIZE_T - s.pool.blockSize) % SIZE_T = s.pool.availableMemory - s.pool.blockSize := by
      rw [h.block, hav]
      rw [Nat.mul_succ] at hle
      have hsum : size * rest.length + size + SIZE_T - size = size * rest.length + SIZE_T := by omega
      rw [hsum, Nat.add_mod_right, Nat.mod_eq_of_lt (by omega), Nat.add_sub_cancel]
    unfold MemoryPool.takeHead ElementPool.ideal
    simp only [hlist, hmod]

/-- There is room to grow, in plain numbers. -/
theorem Inv.room_ideal (h : Inv size total pre s) (hpos : 0 < size) :
    s.pool.ideal.totalSize ≥ s.pool.ideal.allocatedSize + s.pool.ideal.blockSize ↔
      s.pool.freeList.length + s.outstanding.card < total := by
  show s.pool.allocatedSize + s.pool.blockSize ≤ s.pool.totalSize ↔ _
  rw [h.totalSize, h.allocated, h.block, ← Nat.mul_succ, Nat.mul_le_mul_left_iff hpos]
  exact Nat.succ_le_iff

theorem Inv.allocateMoreMemory_ideal (h : Inv size total pre s) (hpos : 0 < size)
    (hroom : s.pool.freeList.length + s.outstanding.card < total) {n : Nat}
    (hn : min (total - (s.pool.freeList.length + s.outstanding.card)) pre = n) :
    s.pool.ideal.allocateMoreMemory = some (s.pool.grown n).ideal := by
  have hplain : min (s.pool.ideal.totalSize - s.pool.ideal.allocatedSize) s.pool.ideal.stepSize = size * n := by
    show min (s.pool.totalSize - s.pool.allocatedSize) s.pool.stepSize = _
    rw [h.totalSize, h.allocated, h.step, ← Nat.mul_sub, Nat.mul_min_mul_left, hn]
  obtain ⟨hav, hal, _, _, _⟩ := ElementPool.pushN_counters n s.pool
  have hnew : MemoryPool.newElems (size * n) (size * n) s.pool.ideal = (s.pool.pushN n).ideal := by
    have := ElementPool.newElems_ideal n (p := s.pool) (by rw [h.block]; exact hpos) (Nat.le_mul_of_pos_left n hpos)
    rwa [h.block] at this
  unfold MemoryPool.allocateMoreMemory
  rw [if_pos ((h.room_ideal hpos).mpr hroom), hplain]
  simp only [hnew]
  unfold ElementPool.ideal ElementPool.grown
  simp only [hav, hal, h.block]

/-- **`allocate` is the same** on both pools, when `malloc` gives what it asks for. -/
theorem Inv.allocate_ideal (h : Inv size total pre s) (hpos : 0 < size) (hfits : size * (total + 1) < SIZE_T) (hpre : total = 0 ∨ 0 < pre)
    {mallocs : Nat} (hm : s.pool.mallocsNeeded ≤ mallocs) :
    (∃ e p, s.pool.allocate mallocs = some (.elem e, p) ∧ s.pool.ideal.allocate = some (e, p.ideal)) ∨
    (s.pool.allocate mallocs = some (.badAlloc, s.pool) ∧ s.pool.ideal.allocate = none) := by
  have hcount := h.count
  by_cases hleft : s.outstanding.card < total
  · left
    obtain ⟨e, p, hal, _, _⟩ := h.allocate hpos hfits (by omega) hleft hm
    refine ⟨e, p, hal, ?_⟩
    unfold MemoryPool.allocate
    by_cases hnil : s.pool.freeList = []
    · have hgrow : s.pool.freeList.length + s.outstanding.card < total := by
        rw [hnil, List.length_nil]
        omega
      rw [h.mallocsNeeded_eq hpos hfits hnil hgrow] at hm
      have hmore := h.allocateMoreMemory hpos hfits hgrow hm
      generalize hn : min (total - (s.pool.freeList.length + s.outstanding.card)) pre = n at hmore
      have hinv : Inv size total pre ⟨s.pool.grown n, s.outstanding⟩ := h.grown (by omega)
      have htake : (s.pool.grown n).takeHead = some (.elem e, p) := by
        unfold ElementPool.allocate at hal
        simp only [hnil, hmore] at hal
        exact hal
      rw [if_pos (show s.pool.ideal.head = [] from hnil), h.allocateMoreMemory_ideal hpos hgrow hn]
      exact hinv.takeHead_ideal hfits htake
    · rw [if_neg (show ¬ s.pool.ideal.head = [] from hnil)]
      apply h.takeHead_ideal hfits
      unfold ElementPool.allocate at hal
      split at hal
      · rename_i hc
        exact absurd hc hnil
      · exact hal
  · right
    refine ⟨h.allocate_refused hpos hfits hleft mallocs, ?_⟩
    have hnil : s.pool.freeList = [] := List.length_eq_zero_iff.mp (by omega)
    unfold MemoryPool.allocate MemoryPool.allocateMoreMemory
    rw [if_pos (show s.pool.ideal.head = [] from hnil), if_neg (mt (h.room_ideal hpos).mp (by omega))]
    rfl

end PoolUse

/-! ## Blocks of a state -/

@[simp] theorem IOFile.setBlock_filePath (file : IOFile) (s : Nat) (b : Block) :
    (file.setBlock s b).filePath = file.filePath := rfl
@[simp] theorem IOFile.setBlock_existFlag (file : IOFile) (s : Nat) (b : Block) :
    (file.setBlock s b).existFlag = file.existFlag := rfl
@[simp] theorem IOFile.setBlock_toBeDeleted (file : IOFile) (s : Nat) (b : Block) :
    (file.setBlock s b).toBeDeleted = file.toBeDeleted := rfl

namespace IOnode

variable {n : IOnode} {k : BlockKey} {b : Block} {file : IOFile}

theorem block?_some_iff : n.block? k = some b ↔ ∃ file, n.files.find? k.1 = some file ∧ file.blocks.find? k.2 = some b :=
  Option.bind_eq_some_iff

theorem block?_of_file (hfile : n.files.find? k.1 = some file) : n.block? k = file.blocks.find? k.2 := by
  unfold block?
  rw [hfile]
  rfl

theorem files_setBlock (f : Int) :
    (n.setBlock k b).files.find? f = if f = k.1 then (n.files.find? k.1).map (fun file => file.setBlock k.2 b)
      else n.files.find? f :=
  OrdMap.find?_modify _ _ _ _

theorem block?_setBlock (hfile : n.files.find? k.1 = some file) (j : BlockKey) :
    (n.setBlock k b).block? j = if j = k then some b else n.block? j := by
  unfold block?
  rw [files_setBlock]
  by_cases hj : j.1 = k.1
  · rw [if_pos hj, hfile, hj, hfile]
    show (file.blocks.put k.2 b).find? j.2 = _
    rw [OrdMap.find?_put]
    by_cases hjk : j.2 = k.2
    · rw [if_pos hjk, if_pos (Prod.ext hj hjk)]
    · rw [if_neg hjk, if_neg (fun he => hjk (congrArg Prod.snd he))]
      rfl
  · rw [if_neg hj, if_neg (fun he => hj (congrArg Prod.fst he))]

theorem block?_setBlock_self (hfile : n.files.find? k.1 = some file) : (n.setBlock k b).block? k = some b := by
  rw [block?_setBlock hfile, if_pos rfl]

theorem setBlock_setBlock (b' : Block) : (n.setBlock k b).setBlock k b' = n.setBlock k b' := by
  have hfiles : (n.setBlock k b).files.modify k.1 (fun file => file.setBlock k.2 b')
      = n.files.modify k.1 (fun file => file.setBlock k.2 b') := by
    apply OrdMap.ext
    intro f
    rw [OrdMap.find?_modify, OrdMap.find?_modify, files_setBlock, files_setBlock, if_pos rfl]
    by_cases hf : f = k.1
    · rw [if_pos hf, if_pos hf, Option.map_map]
      congr 1
      funext file
      show ({ file with blocks := (file.blocks.put k.2 b).put k.2 b' } : IOFile) = { file with blocks := file.blocks.put k.2 b' }
      congr 1
      apply OrdMap.ext
      intro s
      rw [OrdMap.find?_put, OrdMap.find?_put, OrdMap.find?_put]
      split <;> rfl
    · rw [if_neg hf, if_neg hf, if_neg hf]
  unfold setBlock at hfiles ⊢
  rw [hfiles]

theorem setBlock_self (hb : n.block? k = some b) : n.setBlock k b = n := by
  obtain ⟨file, hfile, hblock⟩ := block?_some_iff.mp hb
  have hfiles : n.files.modify k.1 (fun file => file.setBlock k.2 b) = n.files := by
    apply OrdMap.ext
    intro f
    rw [OrdMap.find?_modify]
    split
    · rename_i hf
      rw [hf, hfile]
      show some (IOFile.mk _ _ _ (file.blocks.put k.2 b)) = some file
      have hput : file.blocks.put k.2 b = file.blocks := by
        apply OrdMap.ext
        intro s
        rw [OrdMap.find?_put]
        split
        · rename_i hs
          rw [hs, hblock]
        · rfl
      rw [hput]
    · rfl
  unfold setBlock
  rw [hfiles]

/-- The element a block owns. -/
def elemOf (n : IOnode) (k : BlockKey) : Option Nat := (n.block? k).bind Block.elem

theorem elemOf_of_block (hb : n.block? k = some b) : n.elemOf k = b.elem := by
  unfold elemOf
  rw [hb]
  rfl

/-- **One turn of `_send_data`**: the block has memory, loaded for it if need be, and the piece points there. -/
theorem sendBlock_some {n' : IOnode} {offset size : Nat} {piece : SendBuffer} (h : n.sendBlock k b offset size = some (piece, n')) :
    ∃ m e, (if b.needAllocation then n.loadForSending k else some n) = some m ∧ m.elemOf k = some e ∧
      piece = ⟨e, offset, size⟩ ∧ n' = m.updateAccessOrder k := by
  unfold IOnode.sendBlock at h
  split at h
  · cases h
  · rename_i m hm
    split at h
    · cases h
    · rename_i e he
      cases h
      exact ⟨m, e, hm, he, rfl, rfl⟩

/-- The byte at a position of a file on storage, if the file goes that far. -/
def stored (n : IOnode) (path : Str) (pos : Nat) : Option Byte :=
  (n.storage path).bind (fun F => if pos < F.size then some (F.cell pos) else none)

/-! ## The invariant -/

/-- The bytes a file should have: those written to it and those it had on storage when it was opened. -/
abbrev Ref := Int → Nat → Option Byte

/-- What the flags of a block say about the block. -/
structure BlockOk (n : IOnode) (file : IOFile) (k : BlockKey) (b : Block) : Prop where
  page : b.writebackPage = true ↔ k ∈ n.queue
  valid : b.elem ≠ none → b.valid = true
  idle : b.receivingData = false
  size_le : b.dataSize ≤ BLOCK_SIZE
  aligned : getBlockStartPoint k.2 = k.2
  exist_eq : b.existFlag = file.existFlag
  deleted_eq : b.toBeDeleted = file.toBeDeleted
  backed : file.toBeDeleted = false → b.swappedOut = true ∨ (k ∈ n.queue ∧ b.dirtyFlag = false) →
    (n.storage file.filePath).isSome

/-- Where the byte at `pos` is: in memory when the block has any, and on storage unless that is dirty. -/
structure Holds (n : IOnode) (path : Str) (b : Block) (pos : Nat) (v : Byte) : Prop where
  lt : pos - getBlockStartPoint pos < b.dataSize
  inMemory : ∀ e, b.elem = some e → n.memory e (pos - getBlockStartPoint pos) = v
  onStorage : b.elem = none ∨ b.dirtyFlag = false → n.stored path pos = some v
  reload : b.elem = none → b.swappedOut = true ∨ b.existFlag = .existing

/-- The invariant, with the blocks `pending` that own memory but have not entered the queue yet. -/
structure Inv (cap : Nat) (pending : List BlockKey) (n : IOnode) (ref : Ref) : Prop where
  pool : n.pool.Ok cap
  frames : Frames.Ok n.pool.head n.pool.created (pending ++ n.queue) n.elemOf
  blockOk : ∀ f file s b, n.files.find? f = some file → file.blocks.find? s = some b → BlockOk n file (f, s) b
  present : ∀ f file, n.files.find? f = some file → file.toBeDeleted = false → file.existFlag = .existing →
    (n.storage file.filePath).isSome
  listed : ∀ f file, n.files.find? f = some file → (file.toBeDeleted = true ↔ f ∈ n.removeFileList)
  paths : ∀ f file g file', n.files.find? f = some file → n.files.find? g = some file' →
    file.toBeDeleted = false → file'.toBeDeleted = false → file.filePath = file'.filePath → f = g
  bytes : ∀ f file pos v, n.files.find? f = some file → file.toBeDeleted = false → ref f pos = some v →
    ∃ b, file.blocks.find? (getBlockStartPoint pos) = some b ∧ Holds n file.filePath b pos v

/-! ## A step that touches one block -/

section UpdateBlock

variable {n' : IOnode}

theorem files_of_update (hfiles : n'.files = (n.setBlock k b).files) (f : Int) :
    n'.files.find? f = if f = k.1 then (n.files.find? k.1).map (fun file => file.setBlock k.2 b)
      else n.files.find? f := by
  rw [hfiles, files_setBlock]

theorem elemOf_of_update (hfiles : n'.files = (n.setBlock k b).files) (hfile : n.files.find? k.1 = some file) :
    n'.elemOf = Function.update n.elemOf k b.elem := by
  funext j
  have hj : n'.block? j = (n.setBlock k b).block? j := by
    unfold block?
    rw [hfiles]
  unfold elemOf
  rw [hj, block?_setBlock hfile]
  by_cases hjk : j = k
  · rw [if_pos hjk, hjk, Function.update_self]
    rfl
  · rw [if_neg hjk, Function.update_of_ne hjk]

/-- The file a state has under a number after the update, and the file it had before. -/
theorem file_of_update (hfiles : n'.files = (n.setBlock k b).files) (hfile : n.files.find? k.1 = some file) {f : Int}
    {file' : IOFile} (hf : n'.files.find? f = some file') :
    (f = k.1 ∧ file' = file.setBlock k.2 b) ∨ (f ≠ k.1 ∧ n.files.find? f = some file') := by
  rw [files_of_update hfiles] at hf
  by_cases hk : f = k.1
  · rw [if_pos hk, hfile] at hf
    exact Or.inl ⟨hk, (Option.some.inj hf).symm⟩
  · rw [if_neg hk] at hf
    exact Or.inr ⟨hk, hf⟩

/-- The file before the update has the path, the flags and, apart from `k`, the blocks of the one after it. -/
theorem file_before_update (hfiles : n'.files = (n.setBlock k b).files) (hfile : n.files.find? k.1 = some file) {f : Int}
    {file' : IOFile} (hf : n'.files.find? f = some file') :
    ∃ old, n.files.find? f = some old ∧ old.filePath = file'.filePath ∧ old.toBeDeleted = file'.toBeDeleted ∧
      old.existFlag = file'.existFlag ∧ (∀ s, (f, s) ≠ k → old.blocks.find? s = file'.blocks.find? s) ∧
      (f = k.1 → old = file ∧ file'.blocks.find? k.2 = some b) := by
  rcases file_of_update hfiles hfile hf with ⟨rfl, rfl⟩ | ⟨hne, hold⟩
  · refine ⟨file, hfile, rfl, rfl, rfl, ?_, fun _ => ⟨rfl, OrdMap.find?_put_self _ _ _⟩⟩
    intro s hs
    exact (OrdMap.find?_put_ne _ _ (fun he => hs (Prod.ext rfl he))).symm
  · exact ⟨file', hold, rfl, rfl, rfl, fun _ _ => rfl, fun he => absurd he hne⟩

/-- **The rule for one block.** A step that replaces the block `k`, leaves the memory of the other blocks and
    the rest of storage alone, and puts the bytes of `k` where `Holds` wants them keeps the invariant. -/
theorem Inv.updateBlock {cap : Nat} {pending pending' : List BlockKey} {ref ref' : Ref} (h : Inv cap pending n ref)
    (hfile : n.files.find? k.1 = some file) (hfiles : n'.files = (n.setBlock k b).files)
    (hlist : n'.removeFileList = n.removeFileList) (hpool : n'.pool.Ok cap)
    (hframes : Frames.Ok n'.pool.head n'.pool.created (pending' ++ n'.queue) (Function.update n.elemOf k b.elem))
    (hqueue : ∀ j, j ≠ k → (j ∈ n'.queue ↔ j ∈ n.queue))
    (hkept : ∀ j b' e, j ≠ k → n.block? j = some b' → b'.elem = some e → n'.memory e = n.memory e)
    (hpresent : ∀ path, (n.storage path).isSome → (n'.storage path).isSome)
    (hstored : ∀ path pos v, n.stored path pos = some v →
      (file.toBeDeleted = false → path = file.filePath → getBlockStartPoint pos ≠ k.2) → n'.stored path pos = some v)
    (hblock : BlockOk n' file k b)
    (href : ∀ g pos, (g = k.1 → getBlockStartPoint pos ≠ k.2) → ref' g pos = ref g pos)
    (hbytes : file.toBeDeleted = false → ∀ pos v, getBlockStartPoint pos = k.2 → ref' k.1 pos = some v →
      Holds n' file.filePath b pos v) :
    Inv cap pending' n' ref' := by
  refine ⟨hpool, elemOf_of_update hfiles hfile ▸ hframes, ?_, ?_, ?_, ?_, ?_⟩
  · intro f file' s b' hf hs
    obtain ⟨old, hold, hpath, hdel, hex, hsame, hself⟩ := file_before_update hfiles hfile hf
    by_cases hk : (f, s) = k
    · subst hk
      obtain ⟨rfl, hb⟩ := hself rfl
      rw [hs] at hb
      obtain rfl := Option.some.inj hb
      exact ⟨hblock.page, hblock.valid, hblock.idle, hblock.size_le, hblock.aligned, hex ▸ hblock.exist_eq,
        hdel ▸ hblock.deleted_eq, hpath ▸ hdel ▸ hblock.backed⟩
    · have hb := h.blockOk f old s b' hold (by rw [hsame s hk]; exact hs)
      refine ⟨hb.page.trans (hqueue _ hk).symm, hb.valid, hb.idle, hb.size_le, hb.aligned, hex ▸ hb.exist_eq,
        hdel ▸ hb.deleted_eq, ?_⟩
      intro hlive hor
      rw [hqueue _ hk] at hor
      rw [← hpath]
      exact hpresent _ (hb.backed (hdel ▸ hlive) hor)
  · intro f file' hf hlive hex
    obtain ⟨old, hold, hpath, hdel, hexist, -, -⟩ := file_before_update hfiles hfile hf
    rw [← hpath]
    exact hpresent _ (h.present f old hold (hdel ▸ hlive) (hexist ▸ hex))
  · intro f file' hf
    obtain ⟨old, hold, -, hdel, -, -, -⟩ := file_before_update hfiles hfile hf
    rw [hlist, ← hdel]
    exact h.listed f old hold
  · intro f file' g file'' hf hg hlf hlg hpath
    obtain ⟨old, hold, hp, hd, -, -, -⟩ := file_before_update hfiles hfile hf
    obtain ⟨old', hold', hp', hd', -, -, -⟩ := file_before_update hfiles hfile hg
    exact h.paths f old g old' hold hold' (hd ▸ hlf) (hd' ▸ hlg) (by rw [hp, hp', hpath])
  · intro f file' pos v hf hlive hv
    obtain ⟨old, hold, hpath, hdel, -, hsame, hself⟩ := file_before_update hfiles hfile hf
    by_cases hk : (f, getBlockStartPoint pos) = k
    · subst hk
      obtain ⟨rfl, hb⟩ := hself rfl
      refine ⟨b, hb, ?_⟩
      rw [← hpath]
      exact hbytes (hdel ▸ hlive) pos v rfl hv
    · have hapart : f = k.1 → getBlockStartPoint pos ≠ k.2 := fun he hs => hk (Prod.ext he hs)
      rw [href f pos hapart] at hv
      obtain ⟨b', hb', hholds⟩ := h.bytes f old pos v hold (hdel ▸ hlive) hv
      have hblock' : n.block? (f, getBlockStartPoint pos) = some b' := block?_some_iff.mpr ⟨old, hold, hb'⟩
      refine ⟨b', (hsame _ hk).symm.trans hb', hholds.lt, ?_, ?_, hholds.reload⟩
      · intro e he
        rw [hkept _ b' e hk hblock' he]
        exact hholds.inMemory e he
      · intro hor
        rw [← hpath]
        apply hstored _ _ _ (hholds.onStorage hor)
        intro hlive' hsamePath
        -- two live files have two paths
        exact hapart (h.paths f old k.1 file hold hfile (hdel ▸ hlive) hlive' hsamePath)

end UpdateBlock

end IOnode

end HuronFS
