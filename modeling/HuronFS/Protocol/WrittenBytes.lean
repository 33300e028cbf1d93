import HuronFS.IOnode.Requests
import HuronFS.Master.NodeMessages
import HuronFS.Protocol.Storage

/-!
# `Protocol.WrittenBytes` — the bytes written to the files of the IOnode, whatever becomes of storage

`IOnode.Inv` speaks of an IOnode that alone works on its storage. Here a file may vanish from storage at any time, so
only the bytes that were written to a file since it was opened are followed, and only of the files that are `current`;
nothing is said of a reload that fails. One lemma for each step of the IOnode, all through the rule for one block.
-/

namespace HuronFS

open Region

namespace MemoryPool

variable {p p' : MemoryPool} {owner : BlockKey → Option Nat} {e : Nat}

theorem newElems_apart : ∀ {fuel tmp : Nat} {p : MemoryPool}, Frames.Apart p.head p.created owner →
    Frames.Apart (newElems fuel tmp p).head (newElems fuel tmp p).created owner := by
  intro fuel
  induction fuel with
  | zero => exact fun h => h
  | succ fuel ih =>
      intro tmp p h
      unfold newElems
      split
      · exact ih (p := { p with head := p.created :: p.head, created := p.created + 1 }) h.grow
      · exact h

theorem takeHead_apart (h : Frames.Apart p.head p.created owner) (htake : p.takeHead = some (e, p')) :
    Frames.Apart (e :: p'.head) p'.created owner := by
  unfold takeHead at htake
  split at htake
  · cases htake
  · rename_i hhead
    cases htake
    rw [hhead] at h
    exact h

/-- What is handed out was free. -/
theorem allocate_apart (h : Frames.Apart p.head p.created owner) (halloc : p.allocate = some (e, p')) :
    Frames.Apart (e :: p'.head) p'.created owner := by
  unfold allocate at halloc
  split at halloc
  · obtain ⟨q, hmore, htake⟩ := Option.bind_eq_some_iff.mp halloc
    refine takeHead_apart ?_ htake
    unfold allocateMoreMemory at hmore
    split at hmore
    · cases hmore
      exact newElems_apart h
    · cases hmore
  · exact takeHead_apart h halloc

end MemoryPool

namespace IOnode

/-- What the flags of a block say, whatever is on storage. -/
structure BlockFlags (file : IOFile) (start : Nat) (b : Block) : Prop where
  valid : b.elem ≠ none → b.valid = true
  held : b.dirtyFlag = true → b.elem ≠ none
  idle : b.receivingData = false
  size_le : b.dataSize ≤ BLOCK_SIZE
  aligned : getBlockStartPoint start = start
  exist_eq : b.existFlag = file.existFlag
  live : file.toBeDeleted = false → b.toBeDeleted = false

theorem BlockFlags.needAllocation {file : IOFile} {start : Nat} {b : Block} (h : BlockFlags file start b) :
    b.needAllocation = b.elem.isNone := by
  unfold Block.needAllocation
  cases he : b.elem with
  | none => simp
  | some e =>
      rw [h.valid (by rw [he]; simp)]
      rfl

/-- The bytes written to a current file are in its blocks, or on storage under its path. `view` is the files of the node. -/
structure WrittenInv (view : FileView) (current : Int → Prop) (n : IOnode) (ref : Ref) : Prop where
  frames : Frames.Apart n.pool.head n.pool.created n.elemOf
  flags : ∀ f file s b, n.files.find? f = some file → file.blocks.find? s = some b → BlockFlags file s b
  listed : n.Listed
  paths : ∀ f file g file', n.files.find? f = some file → n.files.find? g = some file' → file.filePath = file'.filePath → f = g
  bytes : ∀ f file pos v, current f → n.files.find? f = some file → file.toBeDeleted = false → ref f pos = some v →
    ∃ b, file.blocks.find? (getBlockStartPoint pos) = some b ∧ Holds n file.filePath b pos v
  view_eq : n.fileView = view

/-- The bytes written to each file, once a message is received: none of them are those of a file that is opened or renamed. -/
def refReceive (n : IOnode) (ref : Ref) (message : List Field) : Ref :=
  match NodeMessage.decode message with
  | .openFile f _ _ _ => if (n.intervalProcess.files.find? f).isSome then ref else Function.update ref f (fun _ => none)
  | .rename f _ => Function.update ref f (fun _ => none)
  | _ => ref

namespace WrittenInv

variable {view : FileView} {current : Int → Prop} {n n' : IOnode} {ref ref' : Ref} {k : BlockKey} {b : Block} {file : IOFile}

theorem block (h : WrittenInv view current n ref) (hfile : n.files.find? k.1 = some file) (hb : n.block? k = some b) :
    BlockFlags file k.2 b := by
  rw [block?_of_file hfile] at hb
  exact h.flags k.1 file k.2 b hfile hb

theorem holds (h : WrittenInv view current n ref) (hfile : n.files.find? k.1 = some file) (hb : n.block? k = some b)
    (hcurrent : current k.1) (hlive : file.toBeDeleted = false) {pos : Nat} {v : Byte} (hpos : getBlockStartPoint pos = k.2)
    (hv : ref k.1 pos = some v) : Holds n file.filePath b pos v := by
  obtain ⟨b', hb', hholds⟩ := h.bytes k.1 file pos v hcurrent hfile hlive hv
  rw [hpos, ← block?_of_file hfile, hb] at hb'
  obtain rfl := Option.some.inj hb'
  exact hholds

/-- Fewer files are current. -/
theorem mono (h : WrittenInv view current n ref) {current' : Int → Prop} (hsub : ∀ f, current' f → current f) :
    WrittenInv view current' n ref :=
  ⟨h.frames, h.flags, h.listed, h.paths, fun f file pos v hf => h.bytes f file pos v (hsub f hf), h.view_eq⟩

/-- The order of the pages in the swap queue is nothing to the bytes. -/
theorem setQueue (h : WrittenInv view current n ref) (queue : List BlockKey) : WrittenInv view current { n with queue := queue } ref := by
  refine ⟨h.frames, h.flags, h.listed, h.paths, ?_, h.view_eq⟩
  intro f file pos v hf hfile hlive hv
  obtain ⟨b, hb, hholds⟩ := h.bytes f file pos v hf hfile hlive hv
  exact ⟨b, hb, hholds.lt, hholds.inMemory, hholds.onStorage, hholds.reload⟩

/-! ## A step that touches one block -/

/-- **The rule for one block.** -/
theorem updateBlock (h : WrittenInv view current n ref) (hfile : n.files.find? k.1 = some file)
    (hfiles : n'.files = (n.setBlock k b).files) (hlist : n'.removeFileList = n.removeFileList)
    (hframes : Frames.Apart n'.pool.head n'.pool.created (Function.update n.elemOf k b.elem))
    (hkept : ∀ j b' e, j ≠ k → n.block? j = some b' → b'.elem = some e → n'.memory e = n.memory e)
    (hstored : ∀ path pos v, n.stored path pos = some v → (path = file.filePath → getBlockStartPoint pos ≠ k.2) →
      n'.stored path pos = some v)
    (hflags : BlockFlags file k.2 b)
    (href : ∀ g pos, (g = k.1 → getBlockStartPoint pos ≠ k.2) → ref' g pos = ref g pos)
    (hbytes : current k.1 → file.toBeDeleted = false → ∀ pos v, getBlockStartPoint pos = k.2 → ref' k.1 pos = some v →
      Holds n' file.filePath b pos v) :
    WrittenInv view current n' ref' := by
  refine ⟨elemOf_of_update hfiles hfile ▸ hframes, ?_, ?_, ?_, ?_, ?_⟩
  · intro f file' s b' hf hs
    obtain ⟨old, hold, -, hdel, hex, hsame, hself⟩ := file_before_update hfiles hfile hf
    by_cases hk : (f, s) = k
    · subst hk
      obtain ⟨rfl, hb⟩ := hself rfl
      rw [hs] at hb
      obtain rfl := Option.some.inj hb
      exact ⟨hflags.valid, hflags.held, hflags.idle, hflags.size_le, hflags.aligned, hex ▸ hflags.exist_eq, hdel ▸ hflags.live⟩
    · have hb := h.flags f old s b' hold (by rw [hsame s hk]; exact hs)
      exact ⟨hb.valid, hb.held, hb.idle, hb.size_le, hb.aligned, hex ▸ hb.exist_eq, hdel ▸ hb.live⟩
  · intro f file' hf
    obtain ⟨old, hold, -, hdel, -, -, -⟩ := file_before_update hfiles hfile hf
    rw [hlist, ← hdel]
    exact h.listed f old hold
  · intro f file' g file'' hf hg hpath
    obtain ⟨old, hold, hp, -, -, -, -⟩ := file_before_update hfiles hfile hf
    obtain ⟨old', hold', hp', -, -, -, -⟩ := file_before_update hfiles hfile hg
    exact h.paths f old g old' hold hold' (by rw [hp, hp', hpath])
  · intro f file' pos v hcurrent hf hlive hv
    obtain ⟨old, hold, hpath, hdel, -, hsame, hself⟩ := file_before_update hfiles hfile hf
    by_cases hk : (f, getBlockStartPoint pos) = k
    · subst hk
      obtain ⟨rfl, hb⟩ := hself rfl
      refine ⟨b, hb, ?_⟩
      rw [← hpath]
      exact hbytes hcurrent (hdel ▸ hlive) pos v rfl hv
    · have hapart : f = k.1 → getBlockStartPoint pos ≠ k.2 := fun he hs => hk (Prod.ext he hs)
      rw [href f pos hapart] at hv
      obtain ⟨b', hb', hholds⟩ := h.bytes f old pos v hcurrent hold (hdel ▸ hlive) hv
      have hblock' : n.block? (f, getBlockStartPoint pos) = some b' := block?_some_iff.mpr ⟨old, hold, hb'⟩
      refine ⟨b', (hsame _ hk).symm.trans hb', hholds.lt, ?_, ?_, hholds.reload⟩
      · intro e he
        rw [hkept _ b' e hk hblock' he]
        exact hholds.inMemory e he
      · intro hor
        rw [← hpath]
        apply hstored _ _ _ (hholds.onStorage hor)
        intro hsamePath
        -- two files have two paths
        exact hapart (h.paths f old k.1 file hold hfile hsamePath)
  · rw [← h.view_eq]
    funext f
    unfold fileView
    rw [files_of_update hfiles]
    by_cases hf : f = k.1
    · rw [if_pos hf, hf, hfile]
      rfl
    · rw [if_neg hf]

/-- The block changes its flags and size alone; its bytes are where they were. -/
theorem reflag (h : WrittenInv view current n ref) (hfile : n.files.find? k.1 = some file) (hb : n.block? k = some b) {b' : Block}
    (helem : b'.elem = b.elem) (hflags : BlockFlags file k.2 b') (hsize : b.dataSize ≤ b'.dataSize)
    (hdirty : b'.elem ≠ none → b'.dirtyFlag = false → b.dirtyFlag = false)
    (hreload : b.swappedOut = true ∨ b.existFlag = .existing → b'.swappedOut = true ∨ b'.existFlag = .existing) :
    WrittenInv view current (n.setBlock k b') ref := by
  refine h.updateBlock hfile rfl rfl ?_ (fun _ _ _ _ _ _ => rfl) (fun _ _ _ hv _ => hv) hflags (fun _ _ _ => rfl) ?_
  · rw [helem, ← elemOf_of_block hb, Function.update_eq_self]
    exact h.frames
  · intro hcurrent hlive pos v hpos hv
    have hholds := h.holds hfile hb hcurrent hlive hpos hv
    refine ⟨Nat.lt_of_lt_of_le hholds.lt hsize, helem ▸ hholds.inMemory, ?_, ?_⟩
    · intro hor
      apply hholds.onStorage
      by_cases he : b'.elem = none
      · exact Or.inl (helem ▸ he)
      · exact Or.inr (hdirty he (hor.resolve_left he))
    · intro he
      exact hreload (hholds.reload (helem ▸ he))

/-! ## Writing back and evicting -/

/-- **A write-back** puts the bytes of the block on storage and leaves those of the others. -/
theorem writeback (h : WrittenInv view current n ref) (k : BlockKey) : WrittenInv view current (n.writeback k) ref := by
  by_cases hneed : n.needWriteback k = true
  · cases hb : n.block? k with
    | none =>
        unfold needWriteback at hneed
        rw [hb] at hneed
        cases hneed
    | some b =>
        obtain ⟨file, hfile, -⟩ := block?_some_iff.mp hb
        have hok := h.block hfile hb
        have hdirty : b.dirtyFlag = true := by
          unfold needWriteback at hneed
          rwa [hb] at hneed
        obtain ⟨e, he⟩ := Option.ne_none_iff_exists'.mp (hok.held hdirty)
        have heq : n.writeback k
            = { n.setBlock k { b with dirtyFlag := false } with storage := n.flushed file.filePath k b e } := by
          rw [← writeback_eq hfile hb hok.idle he, if_pos hneed]
        rw [heq]
        refine h.updateBlock hfile rfl rfl ?_ (fun _ _ _ _ _ _ => rfl) ?_ ?_ (fun _ _ _ => rfl) ?_
        · show Frames.Apart n.pool.head n.pool.created (Function.update n.elemOf k b.elem)
          rw [← elemOf_of_block hb, Function.update_eq_self]
          exact h.frames
        · intro path pos v hv hapart
          exact stored_of_flushed rfl hok.size_le hok.aligned hv (fun _ => hapart)
        · exact ⟨hok.valid, fun hc => (nomatch hc), hok.idle, hok.size_le, hok.aligned, hok.exist_eq, hok.live⟩
        · intro hcurrent hlive pos v hpos hv
          have hholds := h.holds hfile hb hcurrent hlive hpos hv
          refine ⟨hholds.lt, hholds.inMemory, ?_, hholds.reload⟩
          intro _
          rw [stored_flushed (k := k) (b := b) rfl hdirty (hok.live hlive) hpos hholds.lt, hholds.inMemory e he]
  · unfold IOnode.writeback
    rw [if_neg hneed]
    exact h

/-- After its write-back a block is clean. -/
theorem writeback_clean (h : WrittenInv view current n ref) (hb : (n.writeback k).block? k = some b) : b.dirtyFlag = false := by
  unfold IOnode.writeback at hb
  by_cases hneed : n.needWriteback k = true
  · rw [if_pos hneed] at hb
    unfold needWriteback at hneed
    cases hb0 : n.block? k with
    | none =>
        rw [hb0] at hneed
        cases hneed
    | some b0 =>
        rw [hb0] at hneed
        obtain ⟨file, hfile, -⟩ := block?_some_iff.mp hb0
        have hok := h.block hfile hb0
        obtain ⟨e, he⟩ := Option.ne_none_iff_exists'.mp (hok.held hneed)
        have heq := writeback_eq hfile hb0 hok.idle he
        unfold needWriteback IOnode.writeback needWriteback at heq
        simp only [hb0, if_pos hneed] at heq
        rw [heq] at hb
        have hself : (n.setBlock k { b0 with dirtyFlag := false }).block? k = some b := hb
        rw [block?_setBlock_self hfile] at hself
        cases hself
        rfl
  · rw [if_neg hneed] at hb
    unfold needWriteback at hneed
    rw [hb] at hneed
    simpa using hneed

/-- **A clean block gives its memory back**; its bytes are on storage. -/
theorem freeData (h : WrittenInv view current n ref) (hclean : ∀ b, n.block? k = some b → b.dirtyFlag = false) :
    WrittenInv view current (n.freeData k).2 ref := by
  cases hb : n.block? k with
  | none =>
      unfold IOnode.freeData
      rw [hb]
      exact h
  | some b =>
      obtain ⟨file, hfile, -⟩ := block?_some_iff.mp hb
      have hok := h.block hfile hb
      have hcl := hclean b hb
      cases he : b.elem with
      | none =>
          have heq : (n.freeData k).2 = n.setBlock k { b with swappedOut := true } := by
            unfold IOnode.freeData Block.freeMemory
            rw [hb]
            simp only [hcl, he, Bool.false_eq_true, if_false, ite_self]
            rfl
          rw [heq]
          refine h.reflag hfile hb rfl ?_ (Nat.le_refl _) (fun _ hc => hc) (fun _ => Or.inl rfl)
          exact ⟨hok.valid, hok.held, hok.idle, hok.size_le, hok.aligned, hok.exist_eq, hok.live⟩
      | some e =>
          have hvalid : b.valid = true := hok.valid (by rw [he]; simp)
          rw [freeData_eq hb hcl hvalid he]
          have howner : n.elemOf k = some e := by rw [elemOf_of_block hb, he]
          refine h.updateBlock hfile rfl rfl (h.frames.release howner) (fun _ _ _ _ _ _ => rfl) (fun _ _ _ hv _ => hv) ?_
            (fun _ _ _ => rfl) ?_
          · refine ⟨fun hc => absurd rfl hc, ?_, hok.idle, hok.size_le, hok.aligned, hok.exist_eq, hok.live⟩
            intro hdirty
            rw [show _ = b.dirtyFlag from rfl, hcl] at hdirty
            cases hdirty
          · intro hcurrent hlive pos v hpos hv
            have hholds := h.holds hfile hb hcurrent hlive hpos hv
            exact ⟨hholds.lt, fun e' he' => (nomatch he'), fun _ => hholds.onStorage (Or.inr hcl), fun _ => Or.inl rfl⟩

/-- **A turn of `swap_out`.** -/
theorem evictPage (h : WrittenInv view current n ref) (k : BlockKey) (rest : List BlockKey) :
    WrittenInv view current (n.evictPage k rest).2 ref := by
  have hqueue := h.setQueue rest
  have hwritten : (if { n with queue := rest }.needWriteback k then { n with queue := rest }.writeback k
      else { n with queue := rest }) = { n with queue := rest }.writeback k := by
    unfold IOnode.writeback
    split <;> rfl
  unfold IOnode.evictPage
  simp only [hwritten]
  exact (hqueue.writeback k).freeData (fun b hb => hqueue.writeback_clean hb)

/-! ## Giving memory to a block -/

/-- With memory left, `allocate_memory_for_block` takes a free element. -/
theorem allocated (h : WrittenInv view current n ref) (hleft : n.pool.hasMemoryLeft BLOCK_SIZE = true) (hb : n.block? k = some b)
    (helem : b.elem = none) (halloc : n.allocateMemoryForBlock k = some n') :
    ∃ e pool, n' = n.withMemory k b e pool ∧ Frames.Apart (e :: pool.head) pool.created n.elemOf := by
  unfold allocateMemoryForBlock Block.allocateMemory at halloc
  rw [if_pos hleft] at halloc
  simp only [hb, helem] at halloc
  obtain ⟨a, hmap, rfl⟩ := Option.map_eq_some_iff.mp halloc
  obtain ⟨⟨e, pool⟩, hpool, rfl⟩ := Option.map_eq_some_iff.mp hmap
  exact ⟨e, pool, rfl, MemoryPool.allocate_apart h.frames hpool⟩

/-- The block is read back if it has been on storage, else its memory is taken as it is. -/
inductive Reloads (n : IOnode) (path : Str) (k : BlockKey) (b : Block) : Nat → List Byte → Prop
  | read {F : ByteFile Byte} {dataSize : Nat} (hF : n.storage path = some F)
      (hsize : dataSize = (F.read k.2 b.dataSize).length ∨ dataSize = b.dataSize) : Reloads n path k b dataSize (F.read k.2 b.dataSize)
  | fresh (hfresh : ¬ (b.swappedOut = true ∨ b.existFlag = .existing)) : Reloads n path k b b.dataSize []

/-- **A load** brings the bytes of the block, where it has any. -/
theorem loaded {e dataSize : Nat} {pool : MemoryPool} {bytes : List Byte} (h : WrittenInv view current n ref)
    (hfile : n.files.find? k.1 = some file) (hb : n.block? k = some b) (helem : b.elem = none)
    (hframes : Frames.Apart (e :: pool.head) pool.created n.elemOf) (hload : Reloads n file.filePath k b dataSize bytes) :
    WrittenInv view current (n.loaded k b e pool dataSize bytes) ref := by
  have hok := h.block hfile hb
  have hsize : dataSize ≤ b.dataSize := by
    cases hload with
    | read hF hsize =>
        rcases hsize with rfl | rfl
        · rw [ByteFile.length_read]
          exact Nat.min_le_left _ _
        · exact Nat.le_refl _
    | fresh => exact Nat.le_refl _
  refine h.updateBlock hfile rfl rfl hframes.take ?_ (fun _ _ _ hv _ => hv) ?_ (fun _ _ _ => rfl) ?_
  · intro j b' x _ hb' hx
    -- the element was free, so no other block has it
    have hne : x ≠ e := by
      intro he
      have howned : n.elemOf j = some x := by rw [elemOf_of_block hb', hx]
      exact hframes.owned_not_free j x howned (he ▸ List.mem_cons_self)
    exact Function.update_of_ne hne _ _
  · refine ⟨fun _ => rfl, fun _ hc => (nomatch hc), hok.idle, Nat.le_trans hsize hok.size_le, hok.aligned, hok.exist_eq, hok.live⟩
  · intro hcurrent hlive pos v hpos hv
    have hholds := h.holds hfile hb hcurrent hlive hpos hv
    have hstored := hholds.onStorage (Or.inl helem)
    -- a block that has a byte was on storage
    obtain ⟨hlt, hget⟩ : pos - getBlockStartPoint pos < dataSize ∧ bytes[pos - getBlockStartPoint pos]? = some v := by
      cases hload with
      | read hF hsize =>
          obtain ⟨hlt, hget⟩ := read_of_stored hF hstored hpos hholds.lt
          refine ⟨?_, hget⟩
          rcases hsize with rfl | rfl
          · exact hlt
          · exact hholds.lt
      | fresh hfresh => exact absurd (hholds.reload helem) hfresh
    refine ⟨hlt, ?_, fun _ => hstored, fun hc => (nomatch hc)⟩
    intro e' he'
    obtain rfl : e = e' := Option.some.inj he'
    show Function.update n.memory e (patch (n.memory e) 0 bytes) e (pos - getBlockStartPoint pos) = v
    rw [Function.update_self]
    unfold patch
    rw [if_pos (Nat.zero_le _), Nat.sub_zero, hget]
    rfl

/-- **Loading for a write.** -/
theorem loadForWriting (h : WrittenInv view current n ref) (hleft : n.pool.hasMemoryLeft BLOCK_SIZE = true)
    (hb : n.block? k = some b) (helem : b.elem = none) (hload : n.loadForWriting k = some n') : WrittenInv view current n' ref := by
  obtain ⟨file, hfile, -⟩ := block?_some_iff.mp hb
  have hok := h.block hfile hb
  cases halloc : n.allocateMemoryForBlock k with
  | none =>
      unfold IOnode.loadForWriting at hload
      rw [halloc] at hload
      cases hload
  | some m =>
      obtain ⟨e, pool, rfl, hframes⟩ := h.allocated hleft hb helem halloc
      by_cases hreload : file.existFlag = .existing ∨ b.swappedOut = true
      · cases hF : n.storage file.filePath with
        | none =>
            -- the file is not on storage
            have hnone : (n.withMemory k b e pool).storage file.filePath = none := hF
            unfold IOnode.loadForWriting readFromStorage at hload
            rw [halloc] at hload
            simp only [withMemory_file hfile, withMemory_block hfile, IOFile.setBlock_existFlag, IOFile.setBlock_filePath,
              hreload, if_true, hnone] at hload
            cases hload
        | some F =>
            rw [loadForWriting_reload halloc hfile hF hreload] at hload
            cases hload
            exact h.loaded hfile hb helem hframes (.read hF (Or.inl rfl))
      · rw [loadForWriting_fresh halloc hfile hreload] at hload
        cases hload
        refine h.loaded hfile hb helem hframes (.fresh ?_)
        rw [hok.exist_eq]
        exact fun hc => hreload hc.symm

/-- **Loading for a read.** -/
theorem loadForSending (h : WrittenInv view current n ref) (hleft : n.pool.hasMemoryLeft BLOCK_SIZE = true)
    (hb : n.block? k = some b) (helem : b.elem = none) (hload : n.loadForSending k = some n') : WrittenInv view current n' ref := by
  obtain ⟨file, hfile, -⟩ := block?_some_iff.mp hb
  cases halloc : n.allocateMemoryForBlock k with
  | none =>
      unfold IOnode.loadForSending at hload
      rw [halloc] at hload
      cases hload
  | some m =>
      obtain ⟨e, pool, rfl, hframes⟩ := h.allocated hleft hb helem halloc
      by_cases hreload : b.existFlag = .existing ∨ b.swappedOut = true
      · cases hF : n.storage file.filePath with
        | none =>
            have hnone : (n.withMemory k b e pool).storage file.filePath = none := hF
            unfold IOnode.loadForSending readFromStorage at hload
            rw [halloc] at hload
            simp only [withMemory_file hfile, withMemory_block hfile, IOFile.setBlock_filePath, hreload, if_true, hnone] at hload
            cases hload
        | some F =>
            rw [loadForSending_reload halloc hfile hF hreload] at hload
            cases hload
            exact h.loaded hfile hb helem hframes (.read hF (Or.inr rfl))
      · have hswapped : b.swappedOut = false := by
          by_contra hc
          exact hreload (Or.inr (by simpa using hc))
        have heq : n' = n.loaded k b e pool b.dataSize [] := by
          unfold IOnode.loadForSending at hload
          rw [halloc] at hload
          simp only [withMemory_file hfile, withMemory_block hfile, hreload, if_false] at hload
          cases hload
          rw [← withMemory_setBlock, patch_nil, Function.update_eq_self, ← hswapped]
          exact (setBlock_self (withMemory_block hfile)).symm
        rw [heq]
        exact h.loaded hfile hb helem hframes (.fresh (fun hc => hreload hc.symm))

/-! ## Writing into a block and reading from one -/

/-- The block of a write is there, or is created without memory. -/
theorem blockForWriting (h : WrittenInv view current n ref) (haligned : getBlockStartPoint k.2 = k.2) {size : Nat}
    (hsize : size ≤ BLOCK_SIZE) : WrittenInv view current (n.blockForWriting k size) ref := by
  unfold IOnode.blockForWriting
  cases hfile : n.files.find? k.1 with
  | none => exact h
  | some file =>
      cases hb : file.blocks.find? k.2 with
      | some b =>
          simp only [hb, Option.isSome_some, if_true]
          exact h
      | none =>
          simp only [hb, Option.isSome_none, Bool.false_eq_true, if_false]
          have hk : n.elemOf k = none := by
            unfold elemOf
            rw [block?_of_file hfile, hb]
            rfl
          refine h.updateBlock hfile rfl rfl ?_ (fun _ _ _ _ _ _ => rfl) (fun _ _ _ hv _ => hv) ?_ (fun _ _ _ => rfl) ?_
          · show Frames.Apart n.pool.head n.pool.created (Function.update n.elemOf k none)
            rw [← hk, Function.update_eq_self]
            exact h.frames
          · exact ⟨fun hc => absurd rfl hc, fun hc => (nomatch hc), rfl, hsize, haligned, rfl, fun _ => rfl⟩
          · -- there was no block, so there was no byte
            intro hcurrent hlive pos v hpos hv
            obtain ⟨b', hb', -⟩ := h.bytes k.1 file pos v hcurrent hfile hlive hv
            rw [hpos, hb] at hb'
            cases hb'

/-- **An access** moves the page of the block and nothing else. -/
theorem updateAccessOrder (h : WrittenInv view current n ref) (k : BlockKey) : WrittenInv view current (n.updateAccessOrder k) ref := by
  unfold IOnode.updateAccessOrder
  cases hb : n.block? k with
  | none => exact h
  | some b =>
      dsimp only
      split
      · exact h.setQueue _
      · obtain ⟨file, hfile, -⟩ := block?_some_iff.mp hb
        have hok := h.block hfile hb
        have hflagged : WrittenInv view current (n.setBlock k { b with writebackPage := true }) ref := by
          refine h.reflag hfile hb rfl ?_ (Nat.le_refl _) (fun _ hc => hc) (fun hc => hc)
          exact ⟨hok.valid, hok.held, hok.idle, hok.size_le, hok.aligned, hok.exist_eq, hok.live⟩
        exact hflagged.setQueue _

/-- **A copy into a block with memory** is a write of the file. -/
theorem copied {e offset : Nat} {bytes : List Byte} (h : WrittenInv view current n ref) (hfile : n.files.find? k.1 = some file)
    (hb : n.block? k = some b) (he : b.elem = some e) (hfit : offset + bytes.length ≤ BLOCK_SIZE) :
    WrittenInv view current (n.copied k b e offset bytes) (refWrite ref k.1 (k.2 + offset) bytes) := by
  have hok := h.block hfile hb
  have howner : n.elemOf k = some e := by rw [elemOf_of_block hb, he]
  have hsize : (copiedBlock b offset bytes.length).dataSize = max b.dataSize (offset + bytes.length) := by
    unfold copiedBlock
    dsimp only
    split <;> omega
  refine h.updateBlock hfile rfl rfl ?_ ?_ (fun _ _ _ hv _ => hv) ?_ ?_ ?_
  · show Frames.Apart n.pool.head n.pool.created (Function.update n.elemOf k b.elem)
    rw [← elemOf_of_block hb, Function.update_eq_self]
    exact h.frames
  · intro j b' x hj hb' hx
    have hother : n.elemOf j = some x := by rw [elemOf_of_block hb', hx]
    refine Function.update_of_ne ?_ _ _
    rintro rfl
    exact hj (h.frames.owner_inj j k x hother howner)
  · refine ⟨hok.valid, ?_, rfl, ?_, hok.aligned, hok.exist_eq, hok.live⟩
    · intro _ hc
      exact absurd (he.symm.trans hc) (by simp)
    · rw [hsize]
      have := hok.size_le
      omega
  · intro g pos hapart
    by_cases hg : g = k.1
    · subst hg
      apply refWrite_outside
      have := outside_block hok.aligned (hapart rfl)
      omega
    · rw [refWrite_other ref _ _ hg]
  · intro hcurrent hlive pos v hpos hv
    have hsplit := (inside_block pos).1
    rw [hpos] at hsplit
    by_cases hin : k.2 + offset ≤ pos ∧ pos < k.2 + offset + bytes.length
    · -- a byte of this write
      obtain ⟨i, rfl⟩ : ∃ i, pos = k.2 + offset + i := ⟨pos - (k.2 + offset), by omega⟩
      have hi : i < bytes.length := by omega
      rw [refWrite_inside ref k.1 (k.2 + offset) hi] at hv
      refine ⟨?_, ?_, ?_, ?_⟩
      · rw [hsize, hpos]
        omega
      · intro e' he'
        obtain rfl : e = e' := Option.some.inj (he.symm.trans he')
        show Function.update n.memory e (patch (n.memory e) offset bytes) e _ = v
        rw [Function.update_self, hpos, show k.2 + offset + i - k.2 = offset + i by omega, patch_at hi]
        exact Option.some.inj hv
      · rintro (hc | hc)
        · exact absurd (he.symm.trans hc) (by simp)
        · cases hc
      · intro hc
        exact absurd (he.symm.trans hc) (by simp)
    · rw [refWrite_outside ref k.1 (by omega)] at hv
      have hholds := h.holds hfile hb hcurrent hlive hpos hv
      refine ⟨?_, ?_, ?_, ?_⟩
      · rw [hsize]
        exact Nat.lt_of_lt_of_le hholds.lt (Nat.le_max_left _ _)
      · intro e' he'
        obtain rfl : e = e' := Option.some.inj (he.symm.trans he')
        show Function.update n.memory e (patch (n.memory e) offset bytes) e _ = v
        rw [Function.update_self, patch_outside (by rw [hpos]; omega)]
        exact hholds.inMemory e he
      · rintro (hc | hc)
        · exact absurd (he.symm.trans hc) (by simp)
        · cases hc
      · intro hc
        exact absurd (he.symm.trans hc) (by simp)

theorem receiveInto {offset size count : Nat} {data : List Byte} (h : WrittenInv view current n ref)
    (hfit : offset + size ≤ BLOCK_SIZE) (hr : n.receiveInto k offset size data = some (count, n')) :
    WrittenInv view current n' (refWrite ref k.1 (k.2 + offset) (data.take size)) := by
  unfold IOnode.receiveInto at hr
  cases hb : n.block? k with
  | none =>
      rw [hb] at hr
      cases hr
  | some b =>
      obtain ⟨file, hfile, -⟩ := block?_some_iff.mp hb
      simp only [hb, if_neg (Nat.not_lt.mpr hfit)] at hr
      cases he : b.elem with
      | none =>
          simp only [he] at hr
          cases hr
      | some e =>
          simp only [he] at hr
          split at hr
          · cases hr
          · have hlength : (data.take size).length = size := by
              rw [List.length_take]
              omega
            have hcopied : WrittenInv view current (n.copied k b e offset (data.take size)) _ :=
              h.copied hfile hb he (by rw [hlength]; exact hfit)
            unfold IOnode.copied copiedBlock at hcopied
            simp only [hlength, he] at hcopied
            cases hr
            exact hcopied.updateAccessOrder k

/-- **One block of a write**, with memory at hand. -/
theorem updateBlockData {offset size count : Nat} {data : List Byte} (h : WrittenInv view current n ref)
    (haligned : getBlockStartPoint k.2 = k.2) (hfit : offset + size ≤ BLOCK_SIZE) (hk : n.lacksMemory k = false)
    (hr : n.updateBlockData k offset size data = some (count, n')) :
    WrittenInv view current n' (refWrite ref k.1 (k.2 + offset) (data.take size)) := by
  have h0 := h.blockForWriting (k := k) haligned (show size ≤ BLOCK_SIZE by omega)
  unfold IOnode.updateBlockData at hr
  cases hb : (n.blockForWriting k size).block? k with
  | none =>
      simp only [hb] at hr
      cases hr
  | some b =>
      obtain ⟨file, hfile, -⟩ := block?_some_iff.mp hb
      simp only [hb] at hr
      cases hneed : b.needAllocation with
      | true =>
          have hleft : (n.blockForWriting k size).pool.hasMemoryLeft BLOCK_SIZE = true := by
            rw [blockForWriting_pool]
            exact needAllocation_blockForWriting size hb hneed hk
          rw [(h0.block hfile hb).needAllocation, Option.isNone_iff_eq_none] at hneed
          simp only [needAllocation_of_none hneed, if_true] at hr
          obtain ⟨m, hload, hinto⟩ := Option.bind_eq_some_iff.mp hr
          exact (h0.loadForWriting hleft hb hneed hload).receiveInto hfit hinto
      | false =>
          simp only [hneed, Bool.false_eq_true, if_false] at hr
          exact h0.receiveInto hfit hr

/-- **One block of a read**, with memory at hand. -/
theorem sendBlock {offset size : Nat} {piece : SendBuffer} (h : WrittenInv view current n ref) (hb : n.block? k = some b)
    (hk : n.lacksMemory k = false) (hr : n.sendBlock k b offset size = some (piece, n')) : WrittenInv view current n' ref := by
  obtain ⟨file, hfile, -⟩ := block?_some_iff.mp hb
  obtain ⟨m, e, hm, -, -, rfl⟩ := sendBlock_some hr
  refine WrittenInv.updateAccessOrder ?_ k
  cases hneed : b.needAllocation with
  | true =>
      have hleft : n.pool.hasMemoryLeft BLOCK_SIZE = true := by
        unfold lacksMemory at hk
        rw [hb] at hk
        simpa [hneed] using hk
      rw [hneed, if_pos rfl] at hm
      rw [(h.block hfile hb).needAllocation, Option.isNone_iff_eq_none] at hneed
      exact h.loadForSending hleft hb hneed hm
  | false =>
      rw [hneed, if_neg (by decide)] at hm
      cases hm
      exact h

/-! ## Messages of the Master -/

section Delete

theorem apart_deleteBlock (h : Frames.Apart n.pool.head n.pool.created n.elemOf) (k : BlockKey) :
    Frames.Apart (n.deleteBlock k).pool.head (n.deleteBlock k).pool.created (n.deleteBlock k).elemOf := by
  rw [elemOf_deleteBlock]
  have hnone : n.elemOf k = none → Function.update n.elemOf k none = n.elemOf := by
    intro hk
    rw [← hk, Function.update_eq_self]
  unfold IOnode.deleteBlock
  cases hb : n.block? k with
  | none =>
      have hk : n.elemOf k = none := by
        unfold elemOf
        rw [hb]
        rfl
      rw [hnone hk]
      exact h
  | some b =>
      have howner := elemOf_of_block hb
      dsimp only
      unfold Block.release
      cases he : b.elem with
      | none =>
          rw [he] at howner
          rw [hnone howner]
          exact h
      | some e =>
          rw [he] at howner
          exact h.release howner

theorem apart_eraseFile (h : Frames.Apart n.pool.head n.pool.created n.elemOf) (f : Int) :
    Frames.Apart (n.eraseFile f).pool.head (n.eraseFile f).pool.created (n.eraseFile f).elemOf := by
  have hfold : ∀ (starts : List Nat) (m : IOnode), Frames.Apart m.pool.head m.pool.created m.elemOf →
      Frames.Apart (starts.foldl (fun n startPoint => n.deleteBlock (f, startPoint)) m).pool.head
        (starts.foldl (fun n startPoint => n.deleteBlock (f, startPoint)) m).pool.created
        (starts.foldl (fun n startPoint => n.deleteBlock (f, startPoint)) m).elemOf := by
    intro starts
    induction starts with
    | nil => exact fun _ hm => hm
    | cons start starts ih => exact fun m hm => ih _ (apart_deleteBlock hm (f, start))
  unfold IOnode.eraseFile
  split
  · exact h
  · refine (hfold _ n h).mono ?_
    intro j e hj
    -- a block of the file that is erased owns nothing any more
    unfold elemOf block? at hj ⊢
    dsimp only at hj
    rw [OrdMap.find?_erase] at hj
    split at hj
    · cases hj
    · exact hj

theorem apart_intervalProcess (h : Frames.Apart n.pool.head n.pool.created n.elemOf) :
    Frames.Apart n.intervalProcess.pool.head n.intervalProcess.pool.created n.intervalProcess.elemOf := by
  have hfold : ∀ (l : List Int) (m : IOnode), Frames.Apart m.pool.head m.pool.created m.elemOf →
      Frames.Apart (l.foldl eraseFile m).pool.head (l.foldl eraseFile m).pool.created (l.foldl eraseFile m).elemOf := by
    intro l
    induction l with
    | nil => exact fun _ hm => hm
    | cons f l ih => exact fun m hm => ih _ (apart_eraseFile hm f)
  exact hfold n.removeFileList n h

end Delete

/-- **`remove_files`** leaves the files that are not removed as they are. -/
theorem intervalProcess (h : WrittenInv view current n ref) : WrittenInv view current n.intervalProcess ref := by
  have hold : ∀ {f file}, n.intervalProcess.files.find? f = some file → n.files.find? f = some file := by
    intro f file hf
    rw [intervalProcess_files] at hf
    split at hf
    · cases hf
    · exact hf
  obtain ⟨hstorage, hmemory⟩ := intervalProcess_frame n
  refine ⟨apart_intervalProcess h.frames, fun f file s b hf => h.flags f file s b (hold hf), ?_,
    fun f file g file' hf hg => h.paths f file g file' (hold hf) (hold hg), ?_, h.listed.intervalProcess.1.trans h.view_eq⟩
  · intro f file hf
    rw [intervalProcess_removeFileList, h.listed.intervalProcess.2 f file hf]
    simp
  · intro f file pos v hcurrent hf hlive hv
    obtain ⟨b, hb, hholds⟩ := h.bytes f file pos v hcurrent (hold hf) hlive hv
    refine ⟨b, hb, hholds.lt, ?_, ?_, hholds.reload⟩
    · rw [hmemory]
      exact hholds.inMemory
    · unfold stored
      rw [hstorage]
      exact hholds.onStorage

/-- **A newly opened file** has no byte written to it. -/
theorem openFile {f : Int} {existFlag : ExistFlag} {path : Str} {blocks : List (Nat × Nat)} (h : WrittenInv view current n ref)
    (hlist : n.removeFileList = []) (hnew : n.files.find? f = none)
    (hfresh : ∀ g file, n.files.find? g = some file → file.filePath ≠ path)
    (haligned : ∀ e ∈ blocks, getBlockStartPoint e.1 = e.1 ∧ e.2 ≤ BLOCK_SIZE) :
    WrittenInv (n.openFile f existFlag path blocks).fileView current (n.openFile f existFlag path blocks) (Function.update ref f (fun _ => none)) := by
  have hframes : Frames.Apart n.pool.head n.pool.created (n.openFile f existFlag path blocks).elemOf := by
    rw [elemOf_openFile hnew]
    exact h.frames
  have hlisted := listed_openFile (fun g file hg => h.listed.live hlist hg) hlist f existFlag path blocks
  rw [openFile_unknown hnew] at hframes hlisted ⊢
  have hfiles : ∀ {g file}, (n.files.put f ⟨path, existFlag, false, openedBlocks existFlag blocks⟩).find? g = some file →
      (g = f ∧ file = ⟨path, existFlag, false, openedBlocks existFlag blocks⟩) ∨ (g ≠ f ∧ n.files.find? g = some file) := by
    intro g file hg
    rw [OrdMap.find?_put] at hg
    by_cases hgf : g = f
    · rw [if_pos hgf] at hg
      exact Or.inl ⟨hgf, (Option.some.inj hg).symm⟩
    · rw [if_neg hgf] at hg
      exact Or.inr ⟨hgf, hg⟩
  refine ⟨hframes, ?_, hlisted, ?_, ?_, rfl⟩
  · intro g file s b hg hs
    rcases hfiles hg with ⟨rfl, rfl⟩ | ⟨-, hg'⟩
    · obtain ⟨d, hmem, rfl⟩ := openedBlocks_mem hs
      obtain ⟨ha, hd⟩ := haligned (s, d) hmem
      exact ⟨fun hc => absurd rfl hc, fun hc => (nomatch hc), rfl, hd, ha, rfl, fun _ => rfl⟩
    · exact h.flags g file s b hg' hs
  · intro g file g' file' hg hg' hpath
    rcases hfiles hg with ⟨rfl, rfl⟩ | ⟨-, hg1⟩
    · rcases hfiles hg' with ⟨rfl, rfl⟩ | ⟨-, hg2⟩
      · rfl
      · exact absurd hpath.symm (hfresh g' file' hg2)
    · rcases hfiles hg' with ⟨rfl, rfl⟩ | ⟨-, hg2⟩
      · exact absurd hpath (hfresh g file hg1)
      · exact h.paths g file g' file' hg1 hg2 hpath
  · intro g file pos v hcurrent hg hlive hv
    rcases hfiles hg with ⟨rfl, rfl⟩ | ⟨hgf, hg'⟩
    · rw [Function.update_self] at hv
      cases hv
    · rw [Function.update_of_ne hgf] at hv
      obtain ⟨b, hb, hholds⟩ := h.bytes g file pos v hcurrent hg' hlive hv
      exact ⟨b, hb, hholds.lt, hholds.inMemory, hholds.onStorage, hholds.reload⟩

/-- **An unlink** marks the file; its bytes do not count any more, and whether it is current neither. -/
theorem removeFile {current' : Int → Prop} (h : WrittenInv view current n ref) (hlist : n.removeFileList = []) (f : Int)
    (hcurrent : ∀ g, current' g → g ≠ f → current g) : WrittenInv (n.removeFile f).fileView current' (n.removeFile f) ref := by
  have hframes : Frames.Apart n.pool.head n.pool.created (n.removeFile f).elemOf := by
    rw [elemOf_removeFile]
    exact h.frames
  have hlisted := listed_removeFile (fun g file hg => h.listed.live hlist hg) hlist f
  cases hfile : n.files.find? f with
  | none =>
      have hsame : n.removeFile f = n := by
        unfold IOnode.removeFile
        rw [hfile]
      rw [hsame]
      refine ⟨h.frames, h.flags, h.listed, h.paths, ?_, rfl⟩
      intro g file pos v hg hgfile
      refine h.bytes g file pos v (hcurrent g hg ?_) hgfile
      rintro rfl
      rw [hfile] at hgfile
      cases hgfile
  | some file =>
      rw [removeFile_marks hfile (h.listed.live hlist hfile)] at hframes hlisted ⊢
      have hfiles : ∀ {g file'}, (n.files.put f (markedFile file)).find? g = some file' →
          (g = f ∧ file' = markedFile file) ∨ (g ≠ f ∧ n.files.find? g = some file') := by
        intro g file' hg
        rw [OrdMap.find?_put] at hg
        by_cases hgf : g = f
        · rw [if_pos hgf] at hg
          exact Or.inl ⟨hgf, (Option.some.inj hg).symm⟩
        · rw [if_neg hgf] at hg
          exact Or.inr ⟨hgf, hg⟩
      -- the file under a number had its path before
      have hbefore : ∀ {g file'}, (n.files.put f (markedFile file)).find? g = some file' →
          ∃ old, n.files.find? g = some old ∧ old.filePath = file'.filePath := by
        intro g file' hg
        rcases hfiles hg with ⟨rfl, rfl⟩ | ⟨-, hg'⟩
        · exact ⟨file, hfile, rfl⟩
        · exact ⟨file', hg', rfl⟩
      refine ⟨hframes, ?_, hlisted, ?_, ?_, rfl⟩
      · intro g file' s b hg hs
        rcases hfiles hg with ⟨rfl, rfl⟩ | ⟨-, hg'⟩
        · unfold markedFile at hs
          dsimp only at hs
          rw [OrdMap.find?_mapValues] at hs
          obtain ⟨b', hb', rfl⟩ := Option.map_eq_some_iff.mp hs
          have hok := h.flags g file s b' hfile hb'
          exact ⟨hok.valid, hok.held, hok.idle, hok.size_le, hok.aligned, hok.exist_eq, fun hc => (nomatch hc)⟩
        · exact h.flags g file' s b hg' hs
      · intro g file' g' file'' hg hg' hpath
        obtain ⟨old, hold, hp⟩ := hbefore hg
        obtain ⟨old', hold', hp'⟩ := hbefore hg'
        exact h.paths g old g' old' hold hold' (by rw [hp, hp', hpath])
      · intro g file' pos v hg hgfile hlive hv
        rcases hfiles hgfile with ⟨rfl, rfl⟩ | ⟨hgf, hg'⟩
        · cases hlive
        · obtain ⟨b, hb, hholds⟩ := h.bytes g file' pos v (hcurrent g hg hgf) hg' hlive hv
          exact ⟨b, hb, hholds.lt, hholds.inMemory, hholds.onStorage, hholds.reload⟩

/-- **A renamed file** starts anew under its path: what was written to storage is under the old one. -/
theorem rename {f : Int} {path : Str} (h : WrittenInv view current n ref) (hlist : n.removeFileList = [])
    (hpaths : ∀ g file g' file', (n.rename f path).files.find? g = some file → (n.rename f path).files.find? g' = some file' →
      file.filePath = file'.filePath → g = g') :
    WrittenInv (n.rename f path).fileView current (n.rename f path) (Function.update ref f (fun _ => none)) := by
  have hfiles : ∀ {g file}, (n.rename f path).files.find? g = some file →
      ∃ old, n.files.find? g = some old ∧ file = { old with filePath := file.filePath } ∧ (g ≠ f → file = old) := by
    intro g file hg
    unfold IOnode.rename at hg
    rw [OrdMap.find?_modify] at hg
    by_cases hgf : g = f
    · rw [if_pos hgf] at hg
      obtain ⟨old, hold, rfl⟩ := Option.map_eq_some_iff.mp hg
      exact ⟨old, by rw [hgf]; exact hold, rfl, fun hc => absurd hgf hc⟩
    · rw [if_neg hgf] at hg
      exact ⟨file, hg, rfl, fun _ => rfl⟩
  refine ⟨?_, ?_, listed_rename (fun g file hg => h.listed.live hlist hg) hlist f path, hpaths, ?_, rfl⟩
  · refine h.frames.mono ?_
    intro j e hj
    obtain ⟨b, hb, he⟩ := Option.bind_eq_some_iff.mp hj
    obtain ⟨file, hfile, hs⟩ := block?_some_iff.mp hb
    obtain ⟨old, hold, heq, -⟩ := hfiles hfile
    rw [heq] at hs
    have hb' : n.block? j = some b := block?_some_iff.mpr ⟨old, hold, hs⟩
    rw [elemOf_of_block hb']
    exact he
  · intro g file s b hg hs
    obtain ⟨old, hold, heq, -⟩ := hfiles hg
    rw [heq] at hs ⊢
    have hok := h.flags g old s b hold hs
    exact ⟨hok.valid, hok.held, hok.idle, hok.size_le, hok.aligned, hok.exist_eq, hok.live⟩
  · intro g file pos v hcurrent hg hlive hv
    by_cases hgf : g = f
    · rw [hgf, Function.update_self] at hv
      cases hv
    · rw [Function.update_of_ne hgf] at hv
      obtain ⟨old, hold, -, hsame⟩ := hfiles hg
      obtain rfl := hsame hgf
      obtain ⟨b, hb, hholds⟩ := h.bytes g file pos v hcurrent hold hlive hv
      exact ⟨b, hb, hholds.lt, hholds.inMemory, hholds.onStorage, hholds.reload⟩

/-- A view without two files of one path, when every file is in it. -/
theorem paths_of_view (hlive : ∀ f file, n.files.find? f = some file → file.toBeDeleted = false) (hview : n.fileView.Distinct) :
    ∀ f file g file', n.files.find? f = some file → n.files.find? g = some file' → file.filePath = file'.filePath → f = g := by
  intro f file g file' hf hg hpath
  refine hview f g file.filePath ?_ ?_
  · rw [fileView_of_live hlive, hf]
    rfl
  · rw [fileView_of_live hlive, hg, hpath]
    rfl

/-- **A message of the Master**, which opens a file with blocks in their places and leaves no two files on one path. -/
theorem receive {current' : Int → Prop} {message : List Field} (h : WrittenInv view current n ref)
    (hview : (n.receive message).fileView.Distinct) (haligned : (NodeMessage.decode message).BlocksAligned)
    (hcurrent : ∀ f, current' f → NodeMessage.decode message ≠ .unlink f → current f) :
    WrittenInv (n.receive message).fileView current' (n.receive message) (n.refReceive ref message) := by
  have h1 := h.intervalProcess
  have hlist := intervalProcess_removeFileList n
  have hlive : ∀ g file, n.intervalProcess.files.find? g = some file → file.toBeDeleted = false :=
    fun g file hg => h1.listed.live hlist hg
  unfold IOnode.receive at hview ⊢
  unfold refReceive
  cases hmsg : NodeMessage.decode message with
  | openFile f existFlag path blocks =>
      simp only [hmsg] at hview haligned hcurrent ⊢
      cases hf : n.intervalProcess.files.find? f with
      | some file =>
          have hsame : n.intervalProcess.openFile f existFlag path blocks = n.intervalProcess := by
            unfold IOnode.openFile
            rw [hf]
            rfl
          rw [hsame]
          simp only [Option.isSome_some, if_true]
          rw [h1.view_eq]
          exact h1.mono (fun g hg => hcurrent g hg (fun hc => (nomatch hc)))
      | none =>
          simp only [Option.isSome_none, Bool.false_eq_true, if_false]
          refine (h1.openFile hlist hf ?_ haligned).mono (fun g hg => hcurrent g hg (fun hc => (nomatch hc)))
          intro g file hg hpath
          have hgf : g ≠ f := by
            rintro rfl
            rw [hf] at hg
            cases hg
          have hlisted := listed_openFile hlive hlist f existFlag path blocks
          rw [openFile_unknown hf] at hview hlisted
          refine hgf (paths_of_view (fun g file hg => hlisted.live hlist hg) hview g file f _ ?_ (OrdMap.find?_put_self _ _ _) hpath)
          exact (OrdMap.find?_put_ne _ _ hgf).trans hg
  | unlink f =>
      simp only [hmsg] at hcurrent ⊢
      refine h1.removeFile hlist f (fun g hg hgf => hcurrent g hg ?_)
      intro hc
      exact hgf (NodeMessage.unlink.inj hc).symm
  | rename f path =>
      simp only [hmsg] at hview hcurrent ⊢
      have hlisted := listed_rename hlive hlist f path
      have hpaths := paths_of_view (fun g file hg => hlisted.live hlist hg) hview
      exact (h1.rename hlist hpaths).mono (fun g hg => hcurrent g hg (fun hc => (nomatch hc)))
  | other =>
      simp only [hmsg] at hcurrent ⊢
      rw [h1.view_eq]
      exact h1.mono (fun g hg => hcurrent g hg (fun hc => (nomatch hc)))

/-! ## Storage -/

/-- **Storage changes under the IOnode**, where no byte of a current file is needed. -/
theorem setStorage (h : WrittenInv view current n ref) (storage : Str → Option (ByteFile Byte))
    (hneeded : ∀ f file pos v, current f → n.files.find? f = some file → file.toBeDeleted = false → ref f pos = some v →
      storage file.filePath = n.storage file.filePath ∨
        ∃ b, file.blocks.find? (getBlockStartPoint pos) = some b ∧ b.dirtyFlag = true) :
    WrittenInv view current { n with storage := storage } ref := by
  refine ⟨h.frames, h.flags, h.listed, h.paths, ?_, h.view_eq⟩
  intro f file pos v hcurrent hfile hlive hv
  obtain ⟨b, hb, hholds⟩ := h.bytes f file pos v hcurrent hfile hlive hv
  refine ⟨b, hb, hholds.lt, hholds.inMemory, ?_, hholds.reload⟩
  rcases hneeded f file pos v hcurrent hfile hlive hv with hsame | ⟨b', hb', hdirty⟩
  · intro hor
    have hstored := hholds.onStorage hor
    unfold stored at hstored ⊢
    show (storage file.filePath).bind _ = _
    rw [hsame]
    exact hstored
  · -- a dirty block has its bytes in memory
    obtain rfl := Option.some.inj (hb.symm.trans hb')
    rintro (hc | hc)
    · exact absurd hc ((h.flags f file _ b hfile hb).held hdirty)
    · rw [hdirty] at hc
      cases hc

/-! ## Reading the invariant -/

/-- Where the bytes of a current file are found. -/
theorem logical (h : WrittenInv view current n ref) {f : Int} {pos : Nat} {v : Byte} (hcurrent : current f)
    (hfile : n.files.find? f = some file) (hlive : file.toBeDeleted = false) (hv : ref f pos = some v) :
    n.logical file pos = some v ∧ ∃ b, file.blocks.find? (getBlockStartPoint pos) = some b ∧
      (b.elem = none → b.swappedOut = true ∨ b.existFlag = .existing) ∧
      (b.dirtyFlag = false → n.stored file.filePath pos = some v) := by
  obtain ⟨b, hb, hholds⟩ := h.bytes f file pos v hcurrent hfile hlive hv
  refine ⟨?_, b, hb, hholds.reload, fun hclean => hholds.onStorage (Or.inr hclean)⟩
  unfold IOnode.logical
  rw [hb, Option.bind_some]
  cases he : b.elem with
  | none => exact hholds.onStorage (Or.inl he)
  | some e => exact congrArg some (hholds.inMemory e he)

theorem start (count : Nat) (memory : Nat → Nat → Byte) (storage : Str → Option (ByteFile Byte)) (current : Int → Prop)
    (ref : Ref) : WrittenInv (fun _ => none) current (IOnode.start count memory storage) ref := by
  have hframes : Frames.Apart [] 0 (fun _ : BlockKey => none) := Frames.Ok.start.apart
  refine ⟨?_, ?_, ?_, ?_, ?_, rfl⟩
  · unfold IOnode.start MemoryPool.setup
    exact hframes
  · intro f file s b hf
    cases hf
  · intro f file hf
    cases hf
  · intro f file g file' hf
    cases hf
  · intro f file pos v _ hf
    cases hf

end WrittenInv

end IOnode

end HuronFS
