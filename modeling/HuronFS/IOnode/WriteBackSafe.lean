import HuronFS.IOnode.WriteBack

/-!
# `IOnode.WriteBackSafe` — the background write-back touches only live blocks

`Core` is what every step keeps: the pages and the blocks name each other (`AccessQueue.Ok`), and a block in
the ring has memory, so that taking its page out of the ring always takes its memory. On top of it `Inv` says
that the write-back queue and the passes hold live blocks. Most steps delete nothing and schedule nothing
(`Keeps`), and `Inv` follows from `Core`; the three that do are the ones with a condition.
-/

namespace HuronFS

namespace AsyncNode

/-- The ring, the dirty list and the heap. -/
structure Core (n : AsyncNode) : Prop where
  queue : n.queue.Ok n.Live n.page
  memory : ∀ a b, n.heap.find? a = some b → b.writebackPage.isSome → b.valid = true ∧ b.elem.isSome
  fresh : ∀ a, n.Live a → a < n.created

/-- Nothing was deleted and nothing was scheduled. -/
structure Keeps (n n' : AsyncNode) : Prop where
  live : ∀ a, n.Live a → n'.Live a
  writebackQueue : n'.writebackQueue = n.writebackQueue
  passes : n'.passes = n.passes

/-- The invariant of the two threads. -/
structure Inv (n : AsyncNode) : Prop extends Core n where
  writebackQueue_live : ∀ a ∈ n.writebackQueue, n.Live a
  passes_live : ∀ pass ∈ n.passes, ∀ a ∈ pass, n.Live a
  passes_disjoint : n.passes.Pairwise List.Disjoint

namespace Keeps

theorem refl (n : AsyncNode) : Keeps n n := ⟨fun _ h => h, rfl, rfl⟩

theorem trans {n n' n'' : AsyncNode} (h : Keeps n n') (h' : Keeps n' n'') : Keeps n n'' :=
  ⟨fun a ha => h'.live a (h.live a ha), h'.writebackQueue.trans h.writebackQueue, h'.passes.trans h.passes⟩

end Keeps

theorem Inv.of_keeps {n n' : AsyncNode} (h : Inv n) (hcore : Core n') (hk : Keeps n n') : Inv n' := by
  refine ⟨hcore, ?_, ?_, ?_⟩
  · intro a ha
    rw [hk.writebackQueue] at ha
    exact hk.live a (h.writebackQueue_live a ha)
  · intro pass hpass a ha
    rw [hk.passes] at hpass
    exact hk.live a (h.passes_live pass hpass a ha)
  · rw [hk.passes]
    exact h.passes_disjoint

theorem Inv.safe {n : AsyncNode} (h : Inv n) : n.Safe := by
  refine ⟨h.writebackQueue_live, ?_, ?_, h.passes_live, h.passes_disjoint⟩
  · intro p hp
    obtain ⟨a, ha, hlive⟩ := h.queue.live_of_dirty p hp
    exact ⟨a, ha, hlive⟩
  · intro p hp
    obtain ⟨a, ha, hlive⟩ := h.queue.live_of_tracked hp
    exact ⟨a, ha, hlive⟩

theorem start_inv (count : Nat) : Inv (start count) := by
  have hcore : Core (start count) := by
    refine ⟨AccessQueue.Ok.start.mono (fun a ha => ha.elim), ?_, ?_⟩
    · intro a b hb
      cases hb
    · intro a ha
      cases ha
  refine ⟨hcore, ?_, ?_, List.Pairwise.nil⟩
  · intro a ha
    cases ha
  · intro pass hpass
    cases hpass

theorem live_of_find {n : AsyncNode} {a : Nat} {b : PagedBlock} (h : n.heap.find? a = some b) : n.Live a := by
  unfold Live
  rw [h]
  rfl

theorem page_of_find {n : AsyncNode} {a : Nat} {b : PagedBlock} (h : n.heap.find? a = some b) :
    n.page a = b.writebackPage := by
  unfold page
  rw [h]
  rfl

/-! ## Changing one block -/

/-- The general step: a live block changes, with the ring, the pool and the files. -/
theorem Core.setBlock {n : AsyncNode} (h : Core n) {a : Nat} {b : PagedBlock} {queue : AccessQueue Nat}
    (hb : n.heap.find? a = some b) (b' : PagedBlock) (hqueue : queue.Ok n.Live (Function.update n.page a b'.writebackPage))
    (hmem : b'.writebackPage.isSome → b'.valid = true ∧ b'.elem.isSome) (pool : MemoryPool) :
    Core { n.setBlock a b' with queue := queue, pool := pool } ∧
      Keeps n { n.setBlock a b' with queue := queue, pool := pool } := by
  have hlive : ∀ x, n.Live x → ((n.heap.put a b').find? x).isSome := by
    intro x hx
    rw [OrdMap.find?_put]
    split
    · rfl
    · exact hx
  have hlive' : ∀ x, ((n.heap.put a b').find? x).isSome → n.Live x := by
    intro x hx
    rw [OrdMap.find?_put] at hx
    split at hx
    · rename_i hxa
      rw [hxa]
      exact live_of_find hb
    · exact hx
  have hpage : Function.update n.page a b'.writebackPage =
      fun x => ((n.heap.put a b').find? x).bind PagedBlock.writebackPage := by
    funext x
    rw [OrdMap.find?_put]
    by_cases hxa : x = a
    · rw [hxa, Function.update_self, if_pos rfl]
      rfl
    · rw [Function.update_of_ne hxa, if_neg hxa]
      rfl
  refine ⟨⟨?_, ?_, fun x hx => h.fresh x (hlive' x hx)⟩, ⟨hlive, rfl, rfl⟩⟩
  · rw [hpage] at hqueue
    exact hqueue.mono hlive
  · intro x c hc hcp
    have hc' : (n.heap.put a b').find? x = some c := hc
    rw [OrdMap.find?_put] at hc'
    split at hc'
    · cases hc'
      exact hmem hcp
    · exact h.memory x c hc' hcp

/-- A block changes and keeps its page. -/
theorem Core.setFlags {n : AsyncNode} (h : Core n) {a : Nat} {b : PagedBlock} (hb : n.heap.find? a = some b)
    (b' : PagedBlock) (hpage : b'.writebackPage = b.writebackPage) (hmem : b'.writebackPage.isSome → b'.valid = true ∧ b'.elem.isSome)
    (pool : MemoryPool) :
    Core { n.setBlock a b' with pool := pool } ∧ Keeps n { n.setBlock a b' with pool := pool } := by
  refine h.setBlock hb b' ?_ hmem pool
  rw [hpage, ← page_of_find hb, Function.update_eq_self]
  exact h.queue

/-! ## Eviction -/

/-- A popped page takes the memory of its block with it. -/
theorem Core.evict {n : AsyncNode} (h : Core n) {p a : Nat} {b : PagedBlock} {queue : AccessQueue Nat}
    (hpop : n.queue.pop = some (p, queue)) (hblock : n.pageBlock p = some (a, b)) :
    Core ({ n with queue := queue }.evict p a b).2 ∧ Keeps n ({ n with queue := queue }.evict p a b).2 := by
  obtain ⟨a', hdata, hpage, hok⟩ := h.queue.pop hpop
  obtain ⟨hfind, haa⟩ : n.heap.find? a = some b ∧ a' = a := by
    unfold pageBlock at hblock
    rw [hdata, Option.bind_some, Option.map_eq_some_iff] at hblock
    obtain ⟨c, hc, heq⟩ := hblock
    cases heq
    exact ⟨hc, rfl⟩
  subst haa
  obtain ⟨hvalid, helem⟩ := h.memory a' b hfind (by rw [← page_of_find hfind, hpage]; rfl)
  obtain ⟨e, he⟩ := Option.isSome_iff_exists.mp helem
  have hfreed : ({ b with dirtyFlag := false } : PagedBlock).freeMemory n.pool =
      (BLOCK_SIZE, { b with dirtyFlag := false, elem := none, writebackPage := none }, n.pool.free e) := by
    simp [PagedBlock.freeMemory, hvalid, he]
  unfold AsyncNode.evict
  simp only [hfreed]
  refine h.setBlock hfind _ ?_ (by simp) _
  split
  · exact hok.delDirtyPage p
  · exact hok

theorem Core.swapOutLoop {fuel size : Nat} {n n' : AsyncNode} (h : Core n)
    (hr : swapOutLoop fuel size n = some n') : Core n' ∧ Keeps n n' := by
  induction fuel generalizing size n with
  | zero =>
      cases hr
      exact ⟨h, Keeps.refl _⟩
  | succ fuel ih =>
      simp only [AsyncNode.swapOutLoop] at hr
      split at hr
      · cases hr
        exact ⟨h, Keeps.refl _⟩
      · split at hr
        · cases hr
          exact ⟨h, Keeps.refl _⟩
        · rename_i p queue hpop
          split at hr
          · cases hr
          · rename_i a b hblock
            obtain ⟨hcore, hkeeps⟩ := h.evict hpop hblock
            obtain ⟨hcore', hkeeps'⟩ := ih hcore hr
            exact ⟨hcore', hkeeps.trans hkeeps'⟩

theorem Core.allocateMemoryForBlock {n n' : AsyncNode} {a : Nat} (h : Core n)
    (hr : n.allocateMemoryForBlock a = some n') :
    Core n' ∧ Keeps n n' ∧ ∃ b, n'.heap.find? a = some b ∧ b.valid = true ∧ b.elem.isSome := by
  unfold AsyncNode.allocateMemoryForBlock at hr
  split at hr
  · cases hr
  · rename_i m hm
    have hroom : Core m ∧ Keeps n m := by
      split at hm
      · cases hm
        exact ⟨h, Keeps.refl _⟩
      · exact h.swapOutLoop hm
    split at hr
    · cases hr
    · rename_i b hb
      obtain ⟨⟨b', pool⟩, halloc, rfl⟩ := Option.map_eq_some_iff.mp hr
      unfold PagedBlock.allocateMemory at halloc
      obtain ⟨⟨e, pool'⟩, -, heq⟩ := Option.map_eq_some_iff.mp halloc
      obtain ⟨rfl, rfl⟩ := Prod.mk.inj heq
      obtain ⟨hcore, hkeeps⟩ := hroom.1.setFlags hb { b with elem := some e, valid := true } rfl (fun _ => ⟨rfl, rfl⟩) pool'
      exact ⟨hcore, hroom.2.trans hkeeps, _, OrdMap.find?_put_self .., rfl, rfl⟩

theorem Core.load {n n' : AsyncNode} {a : Nat} (h : Core n) (hr : n.load a = some n') :
    Core n' ∧ Keeps n n' ∧ ∃ b, n'.heap.find? a = some b ∧ b.valid = true ∧ b.elem.isSome := by
  unfold AsyncNode.load at hr
  split at hr
  · cases hr
  · rename_i b hb
    split at hr
    · exact h.allocateMemoryForBlock hr
    · rename_i hneed
      cases hr
      refine ⟨h, Keeps.refl _, b, hb, ?_⟩
      simpa [PagedBlock.needAllocation, Option.isSome_iff_ne_none] using hneed

/-! ## Access order -/

theorem Core.updateAccessOrder {n n' : AsyncNode} {a : Nat} {dirty : Bool} (h : Core n)
    (hloaded : ∃ b, n.heap.find? a = some b ∧ b.valid = true ∧ b.elem.isSome)
    (hr : n.updateAccessOrder a dirty = some n') : Core n' ∧ Keeps n n' := by
  obtain ⟨b, hb, hmem⟩ := hloaded
  unfold AsyncNode.updateAccessOrder at hr
  simp only [hb] at hr
  split at hr
  · rename_i p hp
    cases hr
    have hok : (n.queue.touch p dirty).Ok n.Live n.page := h.queue.touch ((page_of_find hb).trans hp) dirty
    exact ⟨⟨hok, h.memory, h.fresh⟩, ⟨fun _ hx => hx, rfl, rfl⟩⟩
  · rename_i hp
    cases hr
    refine h.setBlock hb { b with writebackPage := some (n.queue.push a dirty).1 } ?_ (fun _ => hmem) n.pool
    exact h.queue.push (live_of_find hb) ((page_of_find hb).trans hp) dirty

theorem Core.markDirty {n n' : AsyncNode} {a : Nat} (h : Core n)
    (hloaded : ∃ b, n.heap.find? a = some b ∧ b.valid = true ∧ b.elem.isSome) (hr : n.markDirty a = some n') :
    Core n' ∧ Keeps n n' := by
  obtain ⟨b, hb, hmem⟩ := hloaded
  unfold AsyncNode.markDirty at hr
  simp only [hb] at hr
  obtain ⟨hcore, hkeeps⟩ := h.setFlags hb { b with dirtyFlag := true } rfl (fun _ => hmem) n.pool
  obtain ⟨hcore', hkeeps'⟩ := hcore.updateAccessOrder ⟨_, OrdMap.find?_put_self .., hmem⟩ hr
  exact ⟨hcore', hkeeps.trans hkeeps'⟩

/-! ## Requests that delete nothing -/

theorem Core.setFiles {n : AsyncNode} (h : Core n) (files : OrdMap Int PagedFile) (removeFileList : List Int) :
    Core { n with files := files, removeFileList := removeFileList } ∧
      Keeps n { n with files := files, removeFileList := removeFileList } :=
  ⟨⟨h.queue, h.memory, h.fresh⟩, ⟨fun _ hx => hx, rfl, rfl⟩⟩

theorem Core.createNewBlock {n : AsyncNode} (h : Core n) (fileNo : Int) (startPoint : Nat) :
    Core (n.createNewBlock fileNo startPoint) ∧ Keeps n (n.createNewBlock fileNo startPoint) := by
  have hnone : n.heap.find? n.created = none := by
    cases hc : n.heap.find? n.created with
    | none => rfl
    | some b => exact absurd (h.fresh _ (live_of_find hc)) (Nat.lt_irrefl _)
  have hpage : (n.createNewBlock fileNo startPoint).page = n.page := by
    funext x
    unfold page AsyncNode.createNewBlock
    simp only
    by_cases hx : x = n.created
    · rw [hx, OrdMap.find?_put_self, hnone]
      rfl
    · rw [OrdMap.find?_put_ne _ _ hx]
  have hlive : ∀ x, n.Live x → (n.createNewBlock fileNo startPoint).Live x := by
    intro x hx
    show ((n.heap.put n.created PagedBlock.create).find? x).isSome
    rw [OrdMap.find?_put_ne _ _ (Nat.ne_of_lt (h.fresh x hx))]
    exact hx
  refine ⟨⟨?_, ?_, ?_⟩, hlive, rfl, rfl⟩
  · rw [hpage]
    exact h.queue.mono hlive
  · intro x b hb hp
    have hb' : (n.heap.put n.created PagedBlock.create).find? x = some b := hb
    rw [OrdMap.find?_put] at hb'
    split at hb'
    · cases hb'
      cases hp
    · exact h.memory x b hb' hp
  · intro x hx
    have hx' : ((n.heap.put n.created PagedBlock.create).find? x).isSome := hx
    rw [OrdMap.find?_put] at hx'
    split at hx'
    · rename_i heq
      rw [heq]
      exact Nat.lt_succ_self _
    · exact Nat.lt_succ_of_lt (h.fresh x hx')

theorem Core.openFile {n : AsyncNode} (h : Core n) (fileNo : Int) (startPoints : List Nat) :
    Core (n.openFile fileNo startPoints) ∧ Keeps n (n.openFile fileNo startPoints) := by
  unfold AsyncNode.openFile
  split
  · exact ⟨h, Keeps.refl n⟩
  · obtain ⟨hcore, hkeeps⟩ := h.setFiles (n.files.put fileNo ⟨false, OrdMap.empty⟩) n.removeFileList
    have hfold : ∀ (l : List Nat) (m : AsyncNode), Core m → Keeps n m →
        Core (l.foldl (fun n startPoint => n.createNewBlock fileNo startPoint) m) ∧
          Keeps n (l.foldl (fun n startPoint => n.createNewBlock fileNo startPoint) m) := by
      intro l
      induction l with
      | nil => exact fun m hm hk => ⟨hm, hk⟩
      | cons startPoint l ih =>
          intro m hm hk
          obtain ⟨hm', hk'⟩ := hm.createNewBlock fileNo startPoint
          exact ih _ hm' (hk.trans hk')
    exact hfold startPoints _ hcore hkeeps

theorem Core.updateBlockData {n n' : AsyncNode} {fileNo : Int} {startPoint : Nat} (h : Core n)
    (hr : n.updateBlockData fileNo startPoint = some n') : Core n' ∧ Keeps n n' := by
  unfold AsyncNode.updateBlockData at hr
  split at hr
  · cases hr
    exact ⟨h, Keeps.refl _⟩
  · simp only at hr
    split at hr
    · cases hr
    · rename_i a _
      obtain ⟨m, hload, hmark⟩ := Option.bind_eq_some_iff.mp hr
      have hcreated : ∀ m', m' = (if (n.address fileNo startPoint).isSome then n else n.createNewBlock fileNo startPoint) →
          Core m' ∧ Keeps n m' := by
        rintro m' rfl
        split
        · exact ⟨h, Keeps.refl _⟩
        · exact h.createNewBlock fileNo startPoint
      obtain ⟨hcore, hkeeps⟩ := hcreated _ rfl
      obtain ⟨hcore', hkeeps', hloaded⟩ := hcore.load hload
      obtain ⟨hcore'', hkeeps''⟩ := hcore'.markDirty hloaded hmark
      exact ⟨hcore'', (hkeeps.trans hkeeps').trans hkeeps''⟩

theorem Core.sendBlock {n n' : AsyncNode} {fileNo : Int} {startPoint : Nat} (h : Core n)
    (hr : n.sendBlock fileNo startPoint = some n') : Core n' ∧ Keeps n n' := by
  unfold AsyncNode.sendBlock at hr
  split at hr
  · cases hr
    exact ⟨h, Keeps.refl _⟩
  · obtain ⟨m, hload, horder⟩ := Option.bind_eq_some_iff.mp hr
    obtain ⟨hcore, hkeeps, hloaded⟩ := h.load hload
    obtain ⟨hcore', hkeeps'⟩ := hcore.updateAccessOrder hloaded horder
    exact ⟨hcore', hkeeps.trans hkeeps'⟩

theorem Core.removeFile {n : AsyncNode} (h : Core n) (fileNo : Int) :
    Core (n.removeFile fileNo) ∧ Keeps n (n.removeFile fileNo) := by
  unfold AsyncNode.removeFile
  split
  · exact ⟨h, Keeps.refl n⟩
  · split
    · exact ⟨h, Keeps.refl n⟩
    · exact h.setFiles _ _

/-! ## Deleting blocks -/

theorem Inv.deleteBlock {n : AsyncNode} (h : Inv n) {a : Nat} (hdel : n.Deletable a) : Inv (n.deleteBlock a) := by
  obtain ⟨hqueue, hpasses, hdirty⟩ := hdel
  unfold AsyncNode.deleteBlock
  split
  · exact h
  · rename_i b hb
    have hlive : ∀ x, (((n.heap.erase a).find? x).isSome = true) = (n.Live x ∧ x ≠ a) := by
      intro x
      rw [OrdMap.find?_erase]
      by_cases hx : x = a <;> simp [hx, Live]
    have hpage : (fun x => ((n.heap.erase a).find? x).bind PagedBlock.writebackPage) = Function.update n.page a none := by
      funext x
      rw [OrdMap.find?_erase]
      by_cases hx : x = a
      · rw [hx, Function.update_self, if_pos rfl]
        rfl
      · rw [Function.update_of_ne hx, if_neg hx]
        rfl
    refine ⟨⟨?_, ?_, ?_⟩, ?_, ?_, h.passes_disjoint⟩
    · show AccessQueue.Ok _ (fun x => ((n.heap.erase a).find? x).isSome = true)
        (fun x => ((n.heap.erase a).find? x).bind PagedBlock.writebackPage)
      simp only [hlive, hpage]
      have hpa : n.page a = b.writebackPage := page_of_find hb
      cases hp : b.writebackPage with
      | some p =>
          refine h.queue.erase (hpa.trans hp) ?_
          intro r hr hd
          have := hdirty r hr hd
          rw [hpa, hp] at this
          exact (Option.some.inj this).symm
      | none =>
          have hnone : n.page a = none := hpa.trans hp
          rw [Function.update_eq_iff.mpr ⟨hnone.symm, fun _ _ => rfl⟩]
          refine h.queue.forget hnone ?_
          intro r hr hd
          rw [hdirty r hr hd] at hnone
          cases hnone
    · intro x c hc
      have hc' : (n.heap.erase a).find? x = some c := hc
      rw [OrdMap.find?_erase] at hc'
      split at hc'
      · cases hc'
      · exact h.memory x c hc'
    · intro x hx
      exact h.fresh x ((hlive x).mp hx).1
    · intro x hx
      exact (hlive x).mpr ⟨h.writebackQueue_live x hx, ne_of_mem_of_not_mem hx hqueue⟩
    · intro pass hpass x hx
      exact (hlive x).mpr ⟨h.passes_live pass hpass x hx, ne_of_mem_of_not_mem hx (hpasses pass hpass)⟩

/-- A deletion leaves the others, and itself, deletable. -/
theorem Inv.deletable_deleteBlock {n : AsyncNode} (h : Inv n) {a x : Nat} (ha : n.Deletable a) (hx : n.Deletable x) :
    (n.deleteBlock a).Deletable x := by
  unfold AsyncNode.deleteBlock
  split
  · exact hx
  · rename_i b hb
    refine ⟨hx.1, hx.2.1, ?_⟩
    intro p hp hd
    by_cases hxa : x = a
    · -- the dirty list has no page of a deleted block any more
      subst hxa
      exfalso
      cases hpage : b.writebackPage with
      | none =>
          simp only [hpage] at hp hd
          have := hx.2.2 p hp hd
          rw [page_of_find hb, hpage] at this
          cases this
      | some r =>
          simp only [hpage] at hp hd
          have hmem := h.queue.dirty_nodup.mem_erase_iff.mp hp
          have := hx.2.2 p hmem.2 hd
          rw [page_of_find hb, hpage] at this
          exact hmem.1 (Option.some.inj this).symm
    · have hpage : ((n.heap.erase a).find? x).bind PagedBlock.writebackPage = n.page x := by
        rw [OrdMap.find?_erase_ne _ hxa]
        rfl
      refine hpage.trans ?_
      cases hown : b.writebackPage with
      | none =>
          simp only [hown] at hp hd
          exact hx.2.2 p hp hd
      | some r =>
          simp only [hown] at hp hd
          exact hx.2.2 p (List.mem_of_mem_erase hp) hd

theorem deleteBlock_files (n : AsyncNode) (a : Nat) : (n.deleteBlock a).files = n.files := by
  unfold deleteBlock
  split <;> rfl

/-- What holds after a list of deletions. -/
theorem Inv.deleteBlocks {n : AsyncNode} (h : Inv n) {l : List Nat} (hl : ∀ a ∈ l, n.Deletable a) :
    Inv (l.foldl AsyncNode.deleteBlock n) ∧ (l.foldl AsyncNode.deleteBlock n).files = n.files ∧
      ∀ x, n.Deletable x → (l.foldl AsyncNode.deleteBlock n).Deletable x := by
  induction l generalizing n with
  | nil => exact ⟨h, rfl, fun _ hx => hx⟩
  | cons a l ih =>
      have ha := hl a List.mem_cons_self
      obtain ⟨hinv, hfiles, hdel⟩ := ih (h.deleteBlock ha)
        (fun x hx => h.deletable_deleteBlock ha (hl x (List.mem_cons_of_mem _ hx)))
      exact ⟨hinv, hfiles.trans (deleteBlock_files n a), fun x hx => hdel x (h.deletable_deleteBlock ha hx)⟩

theorem Inv.setFiles {n : AsyncNode} (h : Inv n) (files : OrdMap Int PagedFile) (removeFileList : List Int) :
    Inv { n with files := files, removeFileList := removeFileList } :=
  h.of_keeps (h.toCore.setFiles files removeFileList).1 (h.toCore.setFiles files removeFileList).2

theorem Inv.truncateFile {n n' : AsyncNode} {fileNo : Int} {startPoint : Nat} (h : Inv n)
    (hg : n.Permitted (.truncate fileNo startPoint)) (hr : n.truncateFile fileNo startPoint = some n') : Inv n' := by
  unfold AsyncNode.truncateFile at hr
  split at hr
  · cases hr
  · rename_i file hfile
    split at hr
    · cases hr
    · cases hr
      refine Inv.setFiles (h.deleteBlocks ?_).1 _ _
      intro a ha
      obtain ⟨e, he, rfl⟩ := List.mem_map.mp ha
      exact hg file hfile e he

theorem Inv.removeFiles {n : AsyncNode} (h : Inv n) (hg : n.Permitted .removeFiles) : Inv n.removeFiles := by
  unfold AsyncNode.removeFiles
  split
  · rename_i hidle
    have hfold : ∀ (l : List Int) (m : AsyncNode), Inv m →
        (∀ fileNo ∈ l, ∀ file ∈ m.files.find? fileNo, ∀ e ∈ file.blocks.entries, m.Deletable e.2) →
        Inv (l.foldl eraseFile m) := by
      intro l
      induction l with
      | nil => exact fun m hm _ => hm
      | cons fileNo l ih =>
          intro m hm hdel
          rw [List.foldl_cons]
          unfold eraseFile
          split
          · exact ih m hm (fun f hf => hdel f (List.mem_cons_of_mem _ hf))
          · rename_i file hfile
            obtain ⟨hinv, hfiles, hrest⟩ := hm.deleteBlocks (l := file.blocks.entries.map Prod.snd) (by
              intro a ha
              obtain ⟨e, he, rfl⟩ := List.mem_map.mp ha
              exact hdel fileNo List.mem_cons_self file hfile e he)
            refine ih _ (hinv.setFiles _ _) ?_
            -- a file that is still listed is as it was before
            intro f hf other hother e he
            simp only [hfiles, OrdMap.find?_erase] at hother
            split at hother
            · cases hother
            · exact hrest _ (hdel f (List.mem_cons_of_mem _ hf) other hother e he)
    exact Inv.setFiles (hfold n.removeFileList n h (hg hidle)) _ _
  · exact h

/-! ## Scheduling -/

theorem dirtyBlocks_delDirtyPage {n : AsyncNode} (h : Core n) {a p : Nat} {b : PagedBlock}
    (hb : n.heap.find? a = some b) (hclean : b.dirtyFlag = false) (hp : b.writebackPage = some p) :
    ({ n with queue := n.queue.delDirtyPage p } : AsyncNode).dirtyBlocks = n.dirtyBlocks := by
  have hnone : n.dirtyBlock? p = none := by
    have hdata := (h.queue.tracked_of_page a p ((page_of_find hb).trans hp)).2
    simp [dirtyBlock?, pageBlock, hdata, hb, hclean]
  show (n.queue.dirty.erase p).filterMap n.dirtyBlock? = n.queue.dirty.filterMap n.dirtyBlock?
  by_cases hmem : p ∈ n.queue.dirty
  · obtain ⟨l₁, l₂, -, hl, hl'⟩ := List.exists_erase_eq hmem
    rw [hl', hl, List.filterMap_append, List.filterMap_append, List.filterMap_cons_none hnone]
  · rw [List.erase_of_not_mem hmem]

/-- `check_writeback_page` takes pages out of the dirty list that `prepare_writeback_page` passes over. -/
theorem Core.checkWritebackPage {l : List Nat} {n n' : AsyncNode} (h : Core n)
    (hr : checkWritebackPage l n = some n') : Core n' ∧ Keeps n n' ∧ n'.dirtyBlocks = n.dirtyBlocks := by
  induction l generalizing n with
  | nil =>
      cases hr
      exact ⟨h, Keeps.refl _, rfl⟩
  | cons a l ih =>
      simp only [AsyncNode.checkWritebackPage] at hr
      split at hr
      · cases hr
      · rename_i b hb
        split at hr
        · rename_i p hclean hp
          have hcore : Core { n with queue := n.queue.delDirtyPage p } :=
            ⟨h.queue.delDirtyPage p, h.memory, h.fresh⟩
          obtain ⟨hcore', hkeeps, hdirty⟩ := ih hcore hr
          refine ⟨hcore', ?_, hdirty.trans (dirtyBlocks_delDirtyPage h hb hclean hp)⟩
          exact ⟨hkeeps.live, hkeeps.writebackQueue, hkeeps.passes⟩
        · exact ih h hr

/-- `prepare_writeback_page` takes the first dirty blocks. -/
theorem prepareWritebackPage_eq {n : AsyncNode} {count : Nat} {pages blocks : List Nat}
    (hr : n.prepareWritebackPage count pages = some blocks) :
    blocks = (pages.filterMap n.dirtyBlock?).take count := by
  induction pages generalizing count blocks with
  | nil => cases count <;> · cases hr; rfl
  | cons p rest ih =>
      cases count with
      | zero =>
          cases hr
          rfl
      | succ count =>
          simp only [prepareWritebackPage] at hr
          split at hr
          · cases hr
          · rename_i a b hblock
            split at hr
            · rename_i hdirty
              obtain ⟨l, hl, rfl⟩ := Option.map_eq_some_iff.mp hr
              rw [List.filterMap_cons_some (b := a) (by simp [dirtyBlock?, hblock, hdirty]), List.take_succ_cons, ih hl]
            · rename_i hclean
              rw [List.filterMap_cons_none (by simp [dirtyBlock?, hblock, hclean])]
              exact ih hr

theorem Core.live_of_dirtyBlocks {n : AsyncNode} {a : Nat} (ha : a ∈ n.dirtyBlocks) : n.Live a := by
  obtain ⟨p, -, hp⟩ := List.mem_filterMap.mp ha
  obtain ⟨⟨a', b⟩, hblock, hdirty⟩ := Option.bind_eq_some_iff.mp hp
  obtain ⟨x, -, hx⟩ := Option.bind_eq_some_iff.mp hblock
  obtain ⟨b', hb', heq⟩ := Option.map_eq_some_iff.mp hx
  simp only at hdirty
  split at hdirty
  · cases hdirty
    cases heq
    exact live_of_find hb'
  · cases hdirty

theorem Inv.addWriteBack {n n' : AsyncNode} (h : Inv n) (hg : n.Permitted .addWriteBack)
    (hr : n.addWriteBack = some n') : Inv n' := by
  unfold AsyncNode.addWriteBack at hr
  split at hr
  · rename_i hidle
    split at hr
    · cases hr
    · rename_i m hcheck
      split at hr
      · cases hr
      · rename_i blocks hprepare
        cases hr
        obtain ⟨hcore, hkeeps, hdirty⟩ := h.toCore.checkWritebackPage hcheck
        have hm : Inv m := h.of_keeps hcore hkeeps
        have hblocks : blocks = m.dirtyBlocks.take WRITEBACK_COUNTS := prepareWritebackPage_eq hprepare
        have hlive : ∀ a ∈ blocks, m.Live a := by
          intro a ha
          rw [hblocks] at ha
          exact Core.live_of_dirtyBlocks (List.mem_of_mem_take ha)
        refine ⟨⟨hcore.queue, hcore.memory, hcore.fresh⟩, hlive, ?_, ?_⟩
        · intro pass hpass a ha
          simp only at hpass
          split at hpass
          · exact hm.passes_live pass hpass a ha
          · rcases List.mem_append.mp hpass with hold | hnew
            · exact hm.passes_live pass hold a ha
            · rw [List.mem_singleton.mp hnew] at ha
              exact hlive a ha
        · simp only
          split
          · exact hm.passes_disjoint
          · refine List.pairwise_append.mpr ⟨hm.passes_disjoint, List.pairwise_singleton _ _, ?_⟩
            intro pass hpass new hnew a ha ha'
            rw [List.mem_singleton.mp hnew, hblocks, hdirty] at ha'
            rw [hkeeps.passes] at hpass
            exact hg hidle a ha' pass hpass ha
  · cases hr
    exact h

/-! ## The background pass -/

theorem Inv.setStatus {n : AsyncNode} (h : Inv n) (status : WritebackStatus) : Inv { n with status := status } :=
  ⟨⟨h.queue, h.memory, h.fresh⟩, h.writebackQueue_live, h.passes_live, h.passes_disjoint⟩

theorem Inv.writeNext {n n' : AsyncNode} {receiving : Bool} (h : Inv n) (hr : n.writeNext receiving = some n') :
    Inv n' := by
  unfold AsyncNode.writeNext at hr
  split at hr
  · cases hr
  · split at hr
    · cases hr
    · rename_i a _
      split at hr
      · cases hr
      · rename_i b hb
        cases hr
        refine Inv.setStatus ?_ _
        split
        · obtain ⟨hcore, hkeeps⟩ := h.toCore.setFlags hb { b with dirtyFlag := false } rfl (h.memory a b hb) n.pool
          exact h.of_keeps hcore hkeeps
        · exact h

theorem Inv.endPass {n n' : AsyncNode} (h : Inv n) (hr : n.endPass = some n') : Inv n' := by
  unfold AsyncNode.endPass at hr
  split at hr
  · cases hr
  · split at hr
    · cases hr
    · cases hr
      refine ⟨⟨h.queue, h.memory, h.fresh⟩, h.writebackQueue_live, ?_, h.passes_disjoint.tail⟩
      intro pass hpass
      exact h.passes_live pass (List.mem_of_mem_tail hpass)

/-! ## Runs -/

theorem Inv.step {n n' : AsyncNode} {e : Event} (h : Inv n) (hg : n.Permitted e) (hr : n.step e = some n') : Inv n' := by
  cases e with
  | removeFiles =>
      cases hr
      exact h.removeFiles hg
  | addWriteBack => exact h.addWriteBack hg hr
  | openFile fileNo startPoints =>
      cases hr
      obtain ⟨hcore, hkeeps⟩ := h.toCore.openFile fileNo startPoints
      exact h.of_keeps hcore hkeeps
  | writeBlock fileNo startPoint =>
      obtain ⟨hcore, hkeeps⟩ := h.toCore.updateBlockData hr
      exact h.of_keeps hcore hkeeps
  | readBlock fileNo startPoint =>
      obtain ⟨hcore, hkeeps⟩ := h.toCore.sendBlock hr
      exact h.of_keeps hcore hkeeps
  | truncate fileNo startPoint => exact h.truncateFile hg hr
  | unlink fileNo =>
      cases hr
      obtain ⟨hcore, hkeeps⟩ := h.toCore.removeFile fileNo
      exact h.of_keeps hcore hkeeps
  | startPass =>
      simp only [AsyncNode.step, AsyncNode.startPass] at hr
      split at hr
      · cases hr
        exact h.setStatus _
      · cases hr
  | writeNext receiving => exact h.writeNext hr
  | endPass => exact h.endPass hr

/-- **The background write-back touches only live blocks**, in every order of the two threads' steps in which no
    block is deleted, or scheduled again, that the write-back still leads to. -/
theorem writeback_touches_live_blocks (count : Nat) {events : List Event} {n : AsyncNode}
    (hg : Run.Guarded step Permitted (start count) events) (hr : Run.run step (start count) events = some n) : n.Safe := by
  have hstep : ∀ (m : AsyncNode) e m', Inv m → m.Permitted e → m.step e = some m' → Inv m' :=
    fun m e m' hm he hs => hm.step he hs
  exact (Run.run_invariant hstep (start_inv count) hg hr).safe

/-- A file is written and written back in the background, one block again while the pass is on its way; then it
    is truncated, unlinked and removed, each time after the pass that had its blocks. -/
def patientRun : List Event :=
  [.openFile 1 [], .writeBlock 1 0, .writeBlock 1 BLOCK_SIZE, .removeFiles, .addWriteBack, .startPass, .writeNext false,
    .writeBlock 1 0, .writeNext false, .endPass, .removeFiles, .addWriteBack, .startPass, .writeNext false, .endPass,
    .removeFiles, .addWriteBack, .truncate 1 0, .unlink 1, .removeFiles, .addWriteBack]

theorem writeback_touches_live_blocks_patient :
    Run.Guarded step Permitted (start 4) patientRun ∧ (Run.run step (start 4) patientRun).isSome ∧
      ∀ n, Run.run step (start 4) patientRun = some n → n.Safe := by
  have hg : Run.Guarded step Permitted (start 4) patientRun := by decide +kernel
  exact ⟨hg, by decide +kernel, fun n hr => writeback_touches_live_blocks 4 hg hr⟩

/-- The block of a file is scheduled before the `UNLINK` of the file is handled, and deleted before the request
    after it: the pass has not even started. -/
def hastyRun : List Event :=
  [.removeFiles, .addWriteBack, .openFile 1 [], .removeFiles, .addWriteBack, .writeBlock 1 0, .removeFiles,
    .addWriteBack, .unlink 1, .removeFiles]

theorem writeback_leads_to_deleted_block :
    ¬ ∀ (count : Nat) (events : List Event) (n : AsyncNode), Run.run step (start count) events = some n → n.Safe := by
  intro hsafe
  have hrun : ((Run.run step (start 4) hastyRun).map (fun n => decide (∀ a ∈ n.writebackQueue, n.Live a))) = some false := by
    decide +kernel
  obtain ⟨n, hn, hdead⟩ := Option.map_eq_some_iff.mp hrun
  exact of_decide_eq_false hdead (hsafe 4 hastyRun n hn).writebackQueue

end AsyncNode

end HuronFS
