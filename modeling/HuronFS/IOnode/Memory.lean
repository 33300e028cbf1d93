import HuronFS.IOnode.Invariant
import HuronFS.IOnode.WriteBackSafe

/-!
# `IOnode.Memory` — every request finds its blocks, and memory for them

What the memory of an IOnode comes to over the runs of both threads, deletions among them. Every element of the pool is free or in
one block; a block with memory has a page in the ring, so there is always one that can give its memory up; and what a file's map
leads to has not been deleted, since no two places lead to one block.

The dirty list may hold a page whose block was deleted. Nothing here goes by it, and none of this depends on when blocks are deleted.
-/

namespace HuronFS

/-- `erase`, whatever the dirty list leads to. -/
theorem AccessQueue.Ok.erase_any {α : Type*} [DecidableEq α] {q : AccessQueue α} {page : α → Option Nat} (h : q.Ok (fun _ => True) page) {a : α}
    {p : Nat} (ha : page a = some p) : (q.erase p).Ok (fun _ => True) (Function.update page a none) := by
  -- as if the dirty list were empty
  have hempty : ({ q with dirty := [] } : AccessQueue α).Ok (fun _ => True) page :=
    { h with dirty_nodup := List.nodup_nil, live_of_dirty := fun _ hp => nomatch hp }
  have herased := hempty.erase ha (fun _ hr => nomatch hr)
  exact ⟨herased.nodup, herased.lt, h.dirty_nodup.erase p, herased.tracked_of_page, herased.page_of_tracked, fun _ _ _ => trivial,
    fun r hr => h.live_of_dirty r (List.mem_of_mem_erase hr)⟩

namespace AsyncNode

/-- The element of memory a block has. -/
def elemOf (n : AsyncNode) (a : Nat) : Option Nat := (n.heap.find? a).bind PagedBlock.elem

/-- **The memory of the IOnode.** The block `but` has got its memory and not yet its page. -/
structure Furnished (cap : Nat) (but : Option Nat) (n : AsyncNode) : Prop where
  ring : n.queue.Ok (fun _ => True) n.page
  pool : n.pool.Ok cap
  frames : ∃ held, Frames.Ok n.pool.head n.pool.created held n.elemOf
  memory : ∀ a, (n.page a).isSome → (n.elemOf a).isSome
  paged : ∀ a, (n.elemOf a).isSome → but ≠ some a → (n.page a).isSome
  valid : ∀ a b, n.heap.find? a = some b → b.elem.isSome → b.valid = true
  fresh : ∀ a, n.Live a → a < n.created

/-- What the maps of the files lead to is there, each by one way. -/
structure Filed (n : AsyncNode) : Prop where
  live : ∀ f s a, n.address f s = some a → n.Live a
  apart : ∀ f s f' s' a, n.address f s = some a → n.address f' s' = some a → f = f' ∧ s = s'

/-- The blocks are the same, and in the same files. -/
structure Same (n n' : AsyncNode) : Prop where
  files : n'.files = n.files
  created : n'.created = n.created
  live : ∀ a, n'.Live a ↔ n.Live a

theorem Same.refl (n : AsyncNode) : Same n n := ⟨rfl, rfl, fun _ => Iff.rfl⟩

theorem Same.trans {n n' n'' : AsyncNode} (h : Same n n') (h' : Same n' n'') : Same n n'' :=
  ⟨h'.files.trans h.files, h'.created.trans h.created, fun a => (h'.live a).trans (h.live a)⟩

theorem Same.filed {n n' : AsyncNode} (h : Same n n') (hn : Filed n) : Filed n' := by
  have haddress : ∀ f s, n'.address f s = n.address f s := by
    intro f s
    unfold address
    rw [h.files]
  refine ⟨fun f s a ha => ?_, fun f s f' s' a ha ha' => ?_⟩
  · rw [haddress] at ha
    exact (h.live a).mpr (hn.live f s a ha)
  · rw [haddress] at ha ha'
    exact hn.apart f s f' s' a ha ha'

theorem elemOf_of_find {n : AsyncNode} {a : Nat} {b : PagedBlock} (h : n.heap.find? a = some b) : n.elemOf a = b.elem := by
  unfold elemOf
  rw [h]
  rfl

variable {cap : Nat} {but : Option Nat} {n : AsyncNode}

theorem start_furnished {count : Nat} (hcount : 0 < count) : Furnished count none (start count) := by
  refine ⟨AccessQueue.Ok.start.mono fun _ _ => trivial, MemoryPool.setup_ok hcount (by decide), ⟨[], Frames.Ok.start⟩, ?_, ?_, ?_, ?_⟩
  · intro a ha
    cases ha
  · intro a ha
    cases ha
  · intro a b hb
    cases hb
  · intro a ha
    cases ha

theorem start_filed (count : Nat) : Filed (start count) := by
  refine ⟨fun f s a ha => ?_, fun f s f' s' a ha => ?_⟩ <;> cases ha

/-! ## One block changes -/

theorem page_put {n n' : AsyncNode} {a : Nat} {b : PagedBlock} (hheap : n'.heap = n.heap.put a b) :
    n'.page = Function.update n.page a b.writebackPage := by
  funext x
  unfold page
  rw [hheap, OrdMap.find?_put]
  by_cases hx : x = a
  · rw [if_pos hx, hx, Function.update_self]
    rfl
  · rw [if_neg hx, Function.update_of_ne hx]

theorem elemOf_put {n n' : AsyncNode} {a : Nat} {b : PagedBlock} (hheap : n'.heap = n.heap.put a b) :
    n'.elemOf = Function.update n.elemOf a b.elem := by
  funext x
  unfold elemOf
  rw [hheap, OrdMap.find?_put]
  by_cases hx : x = a
  · rw [if_pos hx, hx, Function.update_self]
    rfl
  · rw [if_neg hx, Function.update_of_ne hx]

theorem same_put {n' : AsyncNode} {a : Nat} {b b' : PagedBlock} (hb : n.heap.find? a = some b) (hheap : n'.heap = n.heap.put a b')
    (hfiles : n'.files = n.files) (hcreated : n'.created = n.created) : Same n n' := by
  refine ⟨hfiles, hcreated, fun x => ?_⟩
  unfold Live
  rw [hheap, OrdMap.find?_put]
  split
  · rename_i hx
    rw [hx, hb]
    exact Iff.rfl
  · exact Iff.rfl

namespace Furnished

/-- A block changes, with the ring and the pool; it may be the one that waits for its page, before or after. -/
theorem change (h : Furnished cap but n) {but' : Option Nat} {n' : AsyncNode} {a : Nat} {b b' : PagedBlock}
    (hb : n.heap.find? a = some b) (hheap : n'.heap = n.heap.put a b') (hcreated : n'.created = n.created)
    (hring : n'.queue.Ok (fun _ => True) (Function.update n.page a b'.writebackPage)) (hpool : n'.pool.Ok cap)
    (hframes : ∃ held, Frames.Ok n'.pool.head n'.pool.created held (Function.update n.elemOf a b'.elem))
    (hmemory : b'.writebackPage.isSome → b'.elem.isSome) (hpaged : b'.elem.isSome → but' ≠ some a → b'.writebackPage.isSome)
    (hvalid : b'.elem.isSome → b'.valid = true) (hbut : ∀ x, x ≠ a → but' ≠ some x → but ≠ some x) : Furnished cap but' n' := by
  have hpage := page_put hheap
  have helem := elemOf_put hheap
  refine ⟨by rw [hpage]; exact hring, hpool, by rw [helem]; exact hframes, ?_, ?_, ?_, ?_⟩
  · intro x hx
    rw [helem]
    rw [hpage] at hx
    by_cases hxa : x = a
    · rw [hxa, Function.update_self] at hx ⊢
      exact hmemory hx
    · rw [Function.update_of_ne hxa] at hx ⊢
      exact h.memory x hx
  · intro x hx hne
    rw [hpage]
    rw [helem] at hx
    by_cases hxa : x = a
    · rw [hxa, Function.update_self] at hx ⊢
      exact hpaged hx (hxa ▸ hne)
    · rw [Function.update_of_ne hxa] at hx ⊢
      exact h.paged x hx (hbut x hxa hne)
  · intro x c hc hcelem
    rw [hheap, OrdMap.find?_put] at hc
    split at hc
    · cases hc
      exact hvalid hcelem
    · exact h.valid x c hc hcelem
  · intro x hx
    unfold Live at hx
    rw [hheap, OrdMap.find?_put] at hx
    rw [hcreated]
    split at hx
    · rename_i hxa
      exact hxa ▸ h.fresh a (live_of_find hb)
    · exact h.fresh x hx

/-- A block changes and keeps its page and its memory. -/
theorem flags (h : Furnished cap but n) {n' : AsyncNode} {a : Nat} {b b' : PagedBlock} (hb : n.heap.find? a = some b)
    (hheap : n'.heap = n.heap.put a b') (hcreated : n'.created = n.created) (hqueue : n'.queue = n.queue) (hpool : n'.pool = n.pool)
    (hpage : b'.writebackPage = b.writebackPage) (helem : b'.elem = b.elem) (hvalid : b'.valid = b.valid) : Furnished cap but n' := by
  have hsamePage : Function.update n.page a b'.writebackPage = n.page := by
    rw [hpage, ← page_of_find hb, Function.update_eq_self]
  have hsameElem : Function.update n.elemOf a b'.elem = n.elemOf := by
    rw [helem, ← elemOf_of_find hb, Function.update_eq_self]
  refine h.change hb hheap hcreated (by rw [hsamePage, hqueue]; exact h.ring) (hpool ▸ h.pool)
    (by rw [hsameElem, hpool]; exact h.frames) ?_ ?_ ?_ fun _ _ hne => hne
  · rw [hpage, helem, ← page_of_find hb, ← elemOf_of_find hb]
    exact h.memory a
  · rw [hpage, helem, ← page_of_find hb, ← elemOf_of_find hb]
    exact h.paged a
  · rw [helem, hvalid]
    exact h.valid a b hb

/-- Nothing changes that matters here. -/
theorem congr (h : Furnished cap but n) {n' : AsyncNode} (hheap : n'.heap = n.heap) (hcreated : n'.created = n.created)
    (hqueue : n'.queue = n.queue) (hpool : n'.pool = n.pool) : Furnished cap but n' := by
  have hpage : n'.page = n.page := by
    funext x
    unfold page
    rw [hheap]
  have helem : n'.elemOf = n.elemOf := by
    funext x
    unfold elemOf
    rw [hheap]
  refine ⟨by rw [hqueue, hpage]; exact h.ring, hpool ▸ h.pool, by rw [helem, hpool]; exact h.frames, ?_, ?_, ?_, ?_⟩
  · rw [hpage, helem]
    exact h.memory
  · rw [hpage, helem]
    exact h.paged
  · rw [hheap]
    exact h.valid
  · unfold Live
    rw [hheap, hcreated]
    exact h.fresh

/-- A block that has its page, or nothing, does not wait for it. -/
theorem settle (h : Furnished cap but n) (hpaged : ∀ a, but = some a → (n.elemOf a).isSome → (n.page a).isSome) : Furnished cap none n := by
  refine { h with paged := fun a ha _ => ?_ }
  by_cases hbut : but = some a
  · exact hpaged a hbut ha
  · exact h.paged a ha hbut

end Furnished

/-! ## Making room -/

/-- A popped page takes the memory of its block with it, which is enough. -/
theorem Furnished.evict (h : Furnished cap none n) {p a : Nat} {b : PagedBlock} {queue : AccessQueue Nat}
    (hpop : n.queue.pop = some (p, queue)) (hblock : n.pageBlock p = some (a, b)) :
    ∃ n', { n with queue := queue }.evict p a b = (BLOCK_SIZE, n') ∧ Furnished cap none n' ∧ Same n n' ∧ n'.pool.head ≠ [] ∧
      ∀ x, n.elemOf x = none → n'.elemOf x = none := by
  obtain ⟨a', hdata, hpage, hok⟩ := h.ring.pop hpop
  obtain ⟨hfind, rfl⟩ : n.heap.find? a = some b ∧ a' = a := by
    unfold pageBlock at hblock
    rw [hdata, Option.bind_some, Option.map_eq_some_iff] at hblock
    obtain ⟨c, hc, heq⟩ := hblock
    cases heq
    exact ⟨hc, rfl⟩
  have helem : (n.elemOf a').isSome := h.memory a' (by rw [hpage]; rfl)
  rw [elemOf_of_find hfind] at helem
  have hvalid := h.valid a' b hfind helem
  obtain ⟨e, he⟩ := Option.isSome_iff_exists.mp helem
  have hfreed : ({ b with dirtyFlag := false } : PagedBlock).freeMemory n.pool =
      (BLOCK_SIZE, { b with dirtyFlag := false, elem := none, writebackPage := none }, n.pool.free e) := by
    simp [PagedBlock.freeMemory, hvalid, he]
  have howner : n.elemOf a' = some e := (elemOf_of_find hfind).trans he
  obtain ⟨held, hframes⟩ := h.frames
  have hrelease := hframes.release howner (List.perm_cons_erase ((hframes.mem_held a').mpr ⟨e, howner⟩))
  refine ⟨{ n.setBlock a' { b with dirtyFlag := false, elem := none, writebackPage := none } with
      queue := if b.dirtyFlag then queue.delDirtyPage p else queue, pool := n.pool.free e }, ?_, ?_, same_put hfind rfl rfl rfl, ?_, ?_⟩
  · unfold AsyncNode.evict
    simp only [hfreed]
    rfl
  · refine h.change hfind rfl rfl ?_ (h.pool.free e) ⟨_, hrelease⟩ (by simp) (by simp) (by simp) fun _ _ hne => hne
    show AccessQueue.Ok (if b.dirtyFlag then _ else _) _ _
    split
    · exact hok.delDirtyPage p
    · exact hok
  · exact List.cons_ne_nil _ _
  · intro x hx
    rw [elemOf_put (n := n) (a := a') rfl]
    by_cases hxa : x = a'
    · rw [hxa, Function.update_self]
    · rw [Function.update_of_ne hxa]
      exact hx

/-- **There is always a block that can give up its memory.** -/
theorem Furnished.swapOut (h : Furnished cap none n) (hcap : 0 < cap) (hnone : n.pool.hasMemoryLeft BLOCK_SIZE = false) :
    ∃ n', n.swapOut BLOCK_SIZE = some n' ∧ Furnished cap none n' ∧ Same n n' ∧ n'.pool.head ≠ [] ∧
      ∀ x, n.elemOf x = none → n'.elemOf x = none := by
  -- all elements are in blocks, and there is one at least
  obtain ⟨held, hframes⟩ := h.frames
  have hleft : n.pool.head = [] ∧ ¬ n.pool.created < cap := by
    have hno : ¬ (n.pool.head ≠ [] ∨ n.pool.created < cap) := by
      rw [← h.pool.hasMemoryLeft_iff, hnone]
      exact Bool.false_ne_true
    rw [not_or, not_not] at hno
    exact hno
  have hlength : held.length = n.pool.created := by
    rw [hleft.1] at hframes
    exact hframes.held_length
  obtain ⟨k, hk⟩ : ∃ k, k ∈ held := List.exists_mem_of_length_pos (by omega)
  obtain ⟨e, he⟩ := (hframes.mem_held k).mp hk
  have hpage : (n.page k).isSome := h.paged k (by rw [he]; rfl) (fun hc => nomatch hc)
  obtain ⟨r, hr⟩ := Option.isSome_iff_exists.mp hpage
  have htracked : r ∈ n.queue.tracked := (h.ring.tracked_of_page k r hr).1
  -- the oldest page leads to a block
  obtain ⟨p, rest, hqueue⟩ : ∃ p rest, n.queue.tracked = p :: rest := List.exists_cons_of_ne_nil (List.ne_nil_of_mem htracked)
  obtain ⟨queue, hpop⟩ : ∃ queue, n.queue.pop = some (p, queue) := by
    unfold AccessQueue.pop
    rw [hqueue]
    exact ⟨_, rfl⟩
  obtain ⟨a, hdata, hpa⟩ := h.ring.page_of_tracked p (hqueue ▸ List.mem_cons_self)
  obtain ⟨b, hb, -⟩ := Option.bind_eq_some_iff.mp hpa
  have hblock : n.pageBlock p = some (a, b) := by
    unfold pageBlock
    rw [hdata, Option.bind_some, hb]
    rfl
  obtain ⟨n', hevict, hfurnished, hsame, hroom, helem⟩ := h.evict hpop hblock
  refine ⟨n', ?_, hfurnished, hsame, hroom, helem⟩
  unfold AsyncNode.swapOut
  rw [hqueue, List.length_cons]
  simp only [swapOutLoop, hpop, hblock, hevict, Nat.sub_self]
  rw [if_neg (by decide)]
  -- enough is free
  cases rest with
  | nil => rfl
  | cons r rest => exact if_pos rfl

/-- The memory of a block that has none. -/
theorem Furnished.allocateMemoryForBlock (h : Furnished cap none n) (hcap : 0 < cap) {a : Nat} {b : PagedBlock}
    (hb : n.heap.find? a = some b) (hnone : b.elem = none) :
    ∃ n', n.allocateMemoryForBlock a = some n' ∧ Furnished cap (some a) n' ∧ Same n n' ∧ (n'.elemOf a).isSome := by
  -- after the room is made, the block is as it was, and there is memory left
  have hroom : ∃ m, (if n.pool.hasMemoryLeft BLOCK_SIZE then some n else n.swapOut BLOCK_SIZE) = some m ∧ Furnished cap none m ∧
      Same n m ∧ (m.pool.head ≠ [] ∨ m.pool.created < cap) ∧ m.elemOf a = none := by
    have helem : n.elemOf a = none := (elemOf_of_find hb).trans hnone
    by_cases hleft : n.pool.hasMemoryLeft BLOCK_SIZE = true
    · exact ⟨n, if_pos hleft, h, Same.refl n, h.pool.hasMemoryLeft_iff.mp hleft, helem⟩
    · obtain ⟨m, hswap, hm, hsame, hhead, helems⟩ := h.swapOut hcap (Bool.eq_false_iff.mpr hleft)
      exact ⟨m, (if_neg hleft).trans hswap, hm, hsame, .inl hhead, helems a helem⟩
  obtain ⟨m, hm, hfurnished, hsame, hleft, hmelem⟩ := hroom
  obtain ⟨c, hc⟩ := Option.isSome_iff_exists.mp ((hsame.live a).mpr (live_of_find hb))
  have hcelem : c.elem = none := (elemOf_of_find hc).symm.trans hmelem
  obtain ⟨held, hframes⟩ := hfurnished.frames
  obtain ⟨e, pool, hallocate, hpool, hframes'⟩ := hfurnished.pool.allocate hframes hleft
  have hmemory : c.allocateMemory m.pool = some ({ c with elem := some e, valid := true }, pool) := by
    unfold PagedBlock.allocateMemory PagedBlock.release
    rw [hcelem]
    dsimp only
    rw [hallocate]
    rfl
  have hnopage : m.page a = none := by
    cases hpage : m.page a with
    | none => rfl
    | some p =>
        have := hfurnished.memory a (by rw [hpage]; rfl)
        rw [hmelem] at this
        cases this
  have hcpage : c.writebackPage = none := (page_of_find hc).symm.trans hnopage
  refine ⟨{ m.setBlock a { c with elem := some e, valid := true } with pool := pool }, ?_, ?_, ?_, ?_⟩
  · unfold AsyncNode.allocateMemoryForBlock
    rw [hm]
    dsimp only
    rw [hc]
    dsimp only
    rw [hmemory]
    rfl
  · refine hfurnished.change hc rfl rfl ?_ hpool ⟨_, hframes'.take hmelem⟩ (fun _ => rfl) (fun _ hne => absurd rfl hne) (fun _ => rfl)
      fun x hx _ => (fun hcontra => nomatch hcontra)
    show AccessQueue.Ok m.queue _ (Function.update m.page a c.writebackPage)
    rw [← page_of_find hc, Function.update_eq_self]
    exact hfurnished.ring
  · exact hsame.trans (same_put hc rfl rfl rfl)
  · rw [elemOf_put (n := m) (a := a) rfl, Function.update_self]
    rfl

/-- A block that is read or written has memory. -/
theorem Furnished.load (h : Furnished cap none n) (hcap : 0 < cap) {a : Nat} (hlive : n.Live a) :
    ∃ n', n.load a = some n' ∧ Furnished cap (some a) n' ∧ Same n n' ∧ (n'.elemOf a).isSome := by
  obtain ⟨b, hb⟩ := Option.isSome_iff_exists.mp hlive
  unfold AsyncNode.load
  rw [hb]
  dsimp only
  cases helem : b.elem with
  | none =>
      have hneed : b.needAllocation = true := by
        unfold PagedBlock.needAllocation
        rw [helem, Option.isNone_none, Bool.or_true]
      rw [if_pos hneed]
      exact h.allocateMemoryForBlock hcap hb helem
  | some e =>
      have hneed : b.needAllocation = false := by
        unfold PagedBlock.needAllocation
        rw [h.valid a b hb (by rw [helem]; rfl), helem]
        rfl
      refine ⟨n, ?_, { h with paged := fun x hx _ => h.paged x hx (fun hc => nomatch hc) }, Same.refl n, ?_⟩
      · rw [hneed]
        exact if_neg Bool.false_ne_true
      · rw [elemOf_of_find hb, helem]
        rfl

/-! ## A block and its page -/

theorem Furnished.updateAccessOrder {a : Nat} (h : Furnished cap (some a) n) (hlive : n.Live a) (helem : (n.elemOf a).isSome)
    (dirty : Bool) : ∃ n', n.updateAccessOrder a dirty = some n' ∧ Furnished cap none n' ∧ Same n n' := by
  obtain ⟨b, hb⟩ := Option.isSome_iff_exists.mp hlive
  unfold AsyncNode.updateAccessOrder
  rw [hb]
  dsimp only
  cases hpage : b.writebackPage with
  | some p =>
      have hpa : n.page a = some p := (page_of_find hb).trans hpage
      have hsettled : Furnished cap none n := h.settle (by
        rintro x hx -
        obtain rfl := Option.some.inj hx
        rw [hpa]
        rfl)
      exact ⟨_, rfl, { hsettled with ring := hsettled.ring.touch hpa dirty }, ⟨rfl, rfl, fun _ => Iff.rfl⟩⟩
  | none =>
      have hpa : n.page a = none := (page_of_find hb).trans hpage
      rw [elemOf_of_find hb] at helem
      refine ⟨_, rfl, ?_, same_put hb rfl rfl rfl⟩
      refine h.change hb rfl rfl (h.ring.push trivial hpa dirty) h.pool ?_ (fun _ => helem) (fun _ _ => rfl) (h.valid a b hb) ?_
      · show ∃ held, Frames.Ok _ _ held (Function.update n.elemOf a b.elem)
        rw [← elemOf_of_find hb, Function.update_eq_self]
        exact h.frames
      · intro x hx _ hcontra
        exact hx (Option.some.inj hcontra).symm

theorem Furnished.markDirty {a : Nat} (h : Furnished cap (some a) n) (hlive : n.Live a) (helem : (n.elemOf a).isSome) :
    ∃ n', n.markDirty a = some n' ∧ Furnished cap none n' ∧ Same n n' := by
  obtain ⟨b, hb⟩ := Option.isSome_iff_exists.mp hlive
  have hmarked : Furnished cap (some a) (n.setBlock a { b with dirtyFlag := true }) := h.flags hb rfl rfl rfl rfl rfl rfl rfl
  have hsame : Same n (n.setBlock a { b with dirtyFlag := true }) := same_put hb rfl rfl rfl
  have helem' : ((n.setBlock a { b with dirtyFlag := true }).elemOf a).isSome := by
    rw [elemOf_put (n := n) (a := a) rfl, Function.update_self, ← elemOf_of_find hb]
    exact helem
  obtain ⟨n', horder, hfurnished, hsame'⟩ := hmarked.updateAccessOrder ((hsame.live a).mpr hlive) helem' true
  refine ⟨n', ?_, hfurnished, hsame.trans hsame'⟩
  unfold AsyncNode.markDirty
  rw [hb]
  exact horder

/-! ## Requests -/

/-- What a request leaves: the memory is in order, and the files are. -/
structure Served (cap : Nat) (n : AsyncNode) : Prop where
  furnished : Furnished cap none n
  filed : Filed n

theorem Furnished.find?_created (h : Furnished cap but n) : n.heap.find? n.created = none := by
  cases hc : n.heap.find? n.created with
  | none => rfl
  | some b => exact absurd (h.fresh _ (live_of_find hc)) (Nat.lt_irrefl _)

theorem Furnished.createNewBlock (h : Furnished cap none n) (fileNo : Int) (startPoint : Nat) :
    Furnished cap none (n.createNewBlock fileNo startPoint) := by
  have hnone := h.find?_created
  have hpage : (n.createNewBlock fileNo startPoint).page = n.page := by
    have hold : n.page n.created = none := by
      unfold page
      rw [hnone]
      rfl
    rw [page_put (n := n) (a := n.created) (b := PagedBlock.create) rfl]
    exact Function.update_eq_iff.mpr ⟨hold.symm, fun _ _ => rfl⟩
  have helem : (n.createNewBlock fileNo startPoint).elemOf = n.elemOf := by
    have hold : n.elemOf n.created = none := by
      unfold elemOf
      rw [hnone]
      rfl
    rw [elemOf_put (n := n) (a := n.created) (b := PagedBlock.create) rfl]
    exact Function.update_eq_iff.mpr ⟨hold.symm, fun _ _ => rfl⟩
  refine ⟨by rw [hpage]; exact h.ring, h.pool, by rw [helem]; exact h.frames, ?_, ?_, ?_, ?_⟩
  · rw [hpage, helem]
    exact h.memory
  · rw [hpage, helem]
    exact h.paged
  · intro a b hb hbelem
    have hb' : (n.heap.put n.created PagedBlock.create).find? a = some b := hb
    rw [OrdMap.find?_put] at hb'
    split at hb'
    · cases hb'
      cases hbelem
    · exact h.valid a b hb' hbelem
  · intro a ha
    have ha' : ((n.heap.put n.created PagedBlock.create).find? a).isSome := ha
    rw [OrdMap.find?_put] at ha'
    split at ha'
    · rename_i heq
      rw [heq]
      exact Nat.lt_succ_self _
    · exact Nat.lt_succ_of_lt (h.fresh a ha')

/-- A new block goes where there is none, and an old one stays. -/
theorem address_createNewBlock (n : AsyncNode) (fileNo : Int) (startPoint : Nat) (f : Int) (s : Nat) :
    (n.createNewBlock fileNo startPoint).address f s =
      if f = fileNo ∧ s = startPoint then (n.files.find? fileNo).map fun file => (file.blocks.find? startPoint).getD n.created
      else n.address f s := by
  unfold address AsyncNode.createNewBlock
  dsimp only
  rw [OrdMap.find?_modify]
  by_cases hf : f = fileNo
  · rw [if_pos hf, hf]
    cases hfile : n.files.find? fileNo with
    | none =>
        rw [Option.map_none, Option.map_none, Option.bind_none]
        split <;> rfl
    | some file =>
        rw [Option.map_some, Option.map_some, Option.bind_some, Option.bind_some]
        dsimp only
        rw [OrdMap.find?_insert]
        by_cases hs : s = startPoint
        · rw [if_pos hs, if_pos ⟨rfl, hs⟩]
        · rw [if_neg hs, if_neg (fun hc => hs hc.2)]
  · rw [if_neg hf, if_neg (fun hc => hf hc.1)]

theorem Served.createNewBlock (h : Served cap n) (fileNo : Int) (startPoint : Nat) : Served cap (n.createNewBlock fileNo startPoint) := by
  refine ⟨h.furnished.createNewBlock fileNo startPoint, ?_⟩
  have hlive : ∀ a, n.Live a → (n.createNewBlock fileNo startPoint).Live a := by
    intro a ha
    show ((n.heap.put n.created PagedBlock.create).find? a).isSome
    rw [OrdMap.find?_put_ne _ _ (Nat.ne_of_lt (h.furnished.fresh a ha))]
    exact ha
  have hcreated : (n.createNewBlock fileNo startPoint).Live n.created := by
    show ((n.heap.put n.created PagedBlock.create).find? n.created).isSome
    rw [OrdMap.find?_put_self]
    rfl
  -- an address is an old one, or the new block's
  have hcases : ∀ f s a, (n.createNewBlock fileNo startPoint).address f s = some a →
      n.address f s = some a ∨ (a = n.created ∧ f = fileNo ∧ s = startPoint) := by
    intro f s a ha
    rw [address_createNewBlock] at ha
    split at ha
    · rename_i hfs
      obtain ⟨file, hfile, hget⟩ := Option.map_eq_some_iff.mp ha
      rw [hfs.1, hfs.2]
      unfold address
      rw [hfile, Option.bind_some]
      cases hblock : file.blocks.find? startPoint with
      | none =>
          rw [hblock, Option.getD_none] at hget
          exact .inr ⟨hget.symm, rfl, rfl⟩
      | some b =>
          rw [hblock, Option.getD_some] at hget
          exact .inl (congrArg some hget)
    · exact .inl ha
  have hold : ∀ f s a, n.address f s = some a → a ≠ n.created := fun f s a ha =>
    Nat.ne_of_lt (h.furnished.fresh a (h.filed.live f s a ha))
  refine ⟨fun f s a ha => ?_, fun f s f' s' a ha ha' => ?_⟩
  · obtain hin | ⟨rfl, -, -⟩ := hcases f s a ha
    · exact hlive a (h.filed.live f s a hin)
    · exact hcreated
  · obtain hin | ⟨hnew, rfl, rfl⟩ := hcases f s a ha
    · obtain hin' | ⟨hnew', -, -⟩ := hcases f' s' a ha'
      · exact h.filed.apart f s f' s' a hin hin'
      · exact absurd hnew' (hold f s a hin)
    · obtain hin' | ⟨-, rfl, rfl⟩ := hcases f' s' a ha'
      · exact absurd hnew (hold f' s' a hin')
      · exact ⟨rfl, rfl⟩

/-- The same blocks with fewer ways to them. -/
theorem Served.setFiles (h : Served cap n) {n' : AsyncNode} (hheap : n'.heap = n.heap) (hcreated : n'.created = n.created)
    (hqueue : n'.queue = n.queue) (hpool : n'.pool = n.pool) (haddress : ∀ f s a, n'.address f s = some a → n.address f s = some a) :
    Served cap n' := by
  refine ⟨h.furnished.congr hheap hcreated hqueue hpool, fun f s a ha => ?_, fun f s f' s' a ha ha' => ?_⟩
  · unfold Live
    rw [hheap]
    exact h.filed.live f s a (haddress f s a ha)
  · exact h.filed.apart f s f' s' a (haddress f s a ha) (haddress f' s' a ha')

theorem Served.openFile (h : Served cap n) (fileNo : Int) (startPoints : List Nat) : Served cap (n.openFile fileNo startPoints) := by
  unfold AsyncNode.openFile
  split
  · exact h
  · rename_i hnew
    have hopened : Served cap { n with files := n.files.put fileNo ⟨false, OrdMap.empty⟩ } := by
      refine h.setFiles rfl rfl rfl rfl fun f s a ha => ?_
      unfold address at ha ⊢
      dsimp only at ha
      rw [OrdMap.find?_put] at ha
      split at ha
      · cases ha
      · exact ha
    generalize ({ n with files := n.files.put fileNo ⟨false, OrdMap.empty⟩ } : AsyncNode) = m at hopened
    induction startPoints generalizing m with
    | nil => exact hopened
    | cons startPoint rest ih => exact ih _ (hopened.createNewBlock fileNo startPoint)

/-- One block of a `WRITE`: it is there, and there is memory for it. -/
theorem Served.updateBlockData (h : Served cap n) (hcap : 0 < cap) (fileNo : Int) (startPoint : Nat) :
    ∃ n', n.updateBlockData fileNo startPoint = some n' ∧ Served cap n' := by
  unfold AsyncNode.updateBlockData
  by_cases hfile : (n.files.find? fileNo).isNone = true
  · exact ⟨n, if_pos hfile, h⟩
  · rw [if_neg hfile]
    dsimp only
    have hthere : ∃ m a, (if (n.address fileNo startPoint).isSome then n else n.createNewBlock fileNo startPoint) = m ∧
        Served cap m ∧ m.address fileNo startPoint = some a := by
      by_cases hsome : (n.address fileNo startPoint).isSome = true
      · obtain ⟨a, ha⟩ := Option.isSome_iff_exists.mp hsome
        exact ⟨n, a, if_pos hsome, h, ha⟩
      · obtain ⟨file, hfind⟩ : ∃ file, n.files.find? fileNo = some file := by
          cases hfind : n.files.find? fileNo with
          | none =>
              rw [hfind] at hfile
              exact absurd rfl hfile
          | some file => exact ⟨file, rfl⟩
        refine ⟨_, (file.blocks.find? startPoint).getD n.created, if_neg hsome, h.createNewBlock fileNo startPoint, ?_⟩
        rw [address_createNewBlock, if_pos ⟨rfl, rfl⟩, hfind]
        rfl
    obtain ⟨m, a, hm, hserved, haddress⟩ := hthere
    rw [hm, haddress]
    dsimp only
    have hlive := hserved.filed.live fileNo startPoint a haddress
    obtain ⟨m', hload, hloaded, hsame, helem⟩ := hserved.furnished.load hcap hlive
    obtain ⟨n', hmark, hfurnished, hsame'⟩ := hloaded.markDirty ((hsame.live a).mpr hlive) helem
    refine ⟨n', ?_, hfurnished, (hsame.trans hsame').filed hserved.filed⟩
    rw [hload]
    exact hmark

/-- One block of a `READ`. -/
theorem Served.sendBlock (h : Served cap n) (hcap : 0 < cap) (fileNo : Int) (startPoint : Nat) :
    ∃ n', n.sendBlock fileNo startPoint = some n' ∧ Served cap n' := by
  unfold AsyncNode.sendBlock
  cases haddress : n.address fileNo startPoint with
  | none => exact ⟨n, rfl, h⟩
  | some a =>
      have hlive := h.filed.live fileNo startPoint a haddress
      obtain ⟨m, hload, hloaded, hsame, helem⟩ := h.furnished.load hcap hlive
      obtain ⟨n', horder, hfurnished, hsame'⟩ := hloaded.updateAccessOrder ((hsame.live a).mpr hlive) helem false
      refine ⟨n', ?_, hfurnished, (hsame.trans hsame').filed h.filed⟩
      dsimp only
      rw [hload]
      exact horder

theorem Served.removeFile (h : Served cap n) (fileNo : Int) : Served cap (n.removeFile fileNo) := by
  unfold AsyncNode.removeFile
  cases hfile : n.files.find? fileNo with
  | none => exact h
  | some file =>
      dsimp only
      split
      · exact h
      · refine h.setFiles rfl rfl rfl rfl fun f s a ha => ?_
        unfold address at ha ⊢
        dsimp only at ha
        rw [OrdMap.find?_put] at ha
        split at ha
        · rename_i hf
          rw [hf, hfile]
          exact ha
        · exact ha

/-! ## Deleting blocks -/

theorem Furnished.deleteBlock (h : Furnished cap none n) (a : Nat) : Furnished cap none (n.deleteBlock a) := by
  unfold AsyncNode.deleteBlock
  cases hb : n.heap.find? a with
  | none => exact h
  | some b =>
      dsimp only
      have hpage : (fun x => ((n.heap.erase a).find? x).bind PagedBlock.writebackPage) = Function.update n.page a none := by
        funext x
        rw [OrdMap.find?_erase]
        by_cases hx : x = a
        · rw [hx, Function.update_self, if_pos rfl]
          rfl
        · rw [Function.update_of_ne hx, if_neg hx]
          rfl
      have helem : (fun x => ((n.heap.erase a).find? x).bind PagedBlock.elem) = Function.update n.elemOf a none := by
        funext x
        rw [OrdMap.find?_erase]
        by_cases hx : x = a
        · rw [hx, Function.update_self, if_pos rfl]
          rfl
        · rw [Function.update_of_ne hx, if_neg hx]
          rfl
      obtain ⟨held, hframes⟩ := h.frames
      refine ⟨?_, ?_, ?_, ?_, ?_, ?_, ?_⟩
      · show AccessQueue.Ok _ _ (fun x => ((n.heap.erase a).find? x).bind PagedBlock.writebackPage)
        rw [hpage]
        cases hp : b.writebackPage with
        | some p => exact h.ring.erase_any ((page_of_find hb).trans hp)
        | none =>
            rw [Function.update_eq_iff.mpr ⟨((page_of_find hb).trans hp).symm, fun _ _ => rfl⟩]
            exact h.ring
      · show (b.release n.pool).Ok cap
        unfold PagedBlock.release
        split
        · exact h.pool.free _
        · exact h.pool
      · show ∃ held, Frames.Ok (b.release n.pool).head (b.release n.pool).created held
          (fun x => ((n.heap.erase a).find? x).bind PagedBlock.elem)
        rw [helem]
        unfold PagedBlock.release
        cases he : b.elem with
        | some e =>
            have howner : n.elemOf a = some e := (elemOf_of_find hb).trans he
            exact ⟨_, hframes.release howner (List.perm_cons_erase ((hframes.mem_held a).mpr ⟨e, howner⟩))⟩
        | none =>
            refine ⟨held, ?_⟩
            rw [Function.update_eq_iff.mpr ⟨((elemOf_of_find hb).trans he).symm, fun _ _ => rfl⟩]
            exact hframes
      · intro x hx
        have hx' : (Function.update n.page a none x).isSome := by rw [← hpage]; exact hx
        show (((n.heap.erase a).find? x).bind PagedBlock.elem).isSome
        rw [congrFun helem x]
        by_cases hxa : x = a
        · rw [hxa, Function.update_self] at hx'
          cases hx'
        · rw [Function.update_of_ne hxa] at hx' ⊢
          exact h.memory x hx'
      · intro x hx hne
        have hx' : (Function.update n.elemOf a none x).isSome := by rw [← helem]; exact hx
        show (((n.heap.erase a).find? x).bind PagedBlock.writebackPage).isSome
        rw [congrFun hpage x]
        by_cases hxa : x = a
        · rw [hxa, Function.update_self] at hx'
          cases hx'
        · rw [Function.update_of_ne hxa] at hx' ⊢
          exact h.paged x hx' hne
      · intro x c hc hcelem
        have hc' : (n.heap.erase a).find? x = some c := hc
        rw [OrdMap.find?_erase] at hc'
        split at hc'
        · cases hc'
        · exact h.valid x c hc' hcelem
      · intro x hx
        have hx' : ((n.heap.erase a).find? x).isSome := hx
        rw [OrdMap.find?_erase] at hx'
        split at hx'
        · cases hx'
        · exact h.fresh x hx'

theorem live_deleteBlock (n : AsyncNode) (a x : Nat) : (n.deleteBlock a).Live x ↔ n.Live x ∧ x ≠ a := by
  unfold AsyncNode.deleteBlock Live
  cases hb : n.heap.find? a with
  | none =>
      refine ⟨fun hx => ⟨hx, ?_⟩, fun hx => hx.1⟩
      rintro rfl
      rw [hb] at hx
      cases hx
  | some b =>
      dsimp only
      rw [OrdMap.find?_erase]
      by_cases hx : x = a
      · simp [hx]
      · simp [hx]

/-- A list of deletions. -/
theorem Furnished.deleteBlocks {l : List Nat} (h : Furnished cap none n) :
    Furnished cap none (l.foldl AsyncNode.deleteBlock n) ∧ (l.foldl AsyncNode.deleteBlock n).files = n.files ∧
      ∀ x, (l.foldl AsyncNode.deleteBlock n).Live x ↔ n.Live x ∧ x ∉ l := by
  induction l generalizing n with
  | nil => exact ⟨h, rfl, fun x => by simp⟩
  | cons a l ih =>
      obtain ⟨hfurnished, hfiles, hlive⟩ := ih (h.deleteBlock a)
      refine ⟨hfurnished, hfiles.trans (deleteBlock_files n a), fun x => ?_⟩
      rw [List.foldl_cons, hlive, live_deleteBlock, List.mem_cons, not_or, and_assoc]

/-- Blocks are deleted, and with them the ways to them. -/
theorem Served.deleteBlocks (h : Served cap n) {l : List Nat} {n' : AsyncNode} (hheap : n'.heap = (l.foldl AsyncNode.deleteBlock n).heap)
    (hcreated : n'.created = (l.foldl AsyncNode.deleteBlock n).created) (hqueue : n'.queue = (l.foldl AsyncNode.deleteBlock n).queue)
    (hpool : n'.pool = (l.foldl AsyncNode.deleteBlock n).pool)
    (haddress : ∀ f s a, n'.address f s = some a → n.address f s = some a ∧ a ∉ l) : Served cap n' := by
  obtain ⟨hfurnished, -, hlive⟩ := h.furnished.deleteBlocks (l := l)
  refine ⟨hfurnished.congr hheap hcreated hqueue hpool, fun f s a ha => ?_, fun f s f' s' a ha ha' => ?_⟩
  · obtain ⟨hold, hnot⟩ := haddress f s a ha
    have hstill := (hlive a).mpr ⟨h.filed.live f s a hold, hnot⟩
    unfold Live at hstill ⊢
    rw [hheap]
    exact hstill
  · exact h.filed.apart f s f' s' a (haddress f s a ha).1 (haddress f' s' a ha').1

theorem find?_foldl_erase (l : List (Nat × Nat)) (m : OrdMap Nat Nat) (s : Nat) :
    (l.foldl (fun m e => m.erase e.1) m).find? s = if s ∈ l.map Prod.fst then none else m.find? s := by
  induction l generalizing m with
  | nil => simp
  | cons e l ih =>
      rw [List.foldl_cons, ih, OrdMap.find?_erase, List.map_cons]
      by_cases hs : s = e.1
      · simp [hs]
      · rw [if_neg hs]
        simp only [List.mem_cons, hs, false_or]

theorem Served.truncateFile (h : Served cap n) {fileNo : Int} {startPoint : Nat} {n' : AsyncNode}
    (hr : n.truncateFile fileNo startPoint = some n') : Served cap n' := by
  unfold AsyncNode.truncateFile at hr
  cases hfile : n.files.find? fileNo with
  | none =>
      rw [hfile] at hr
      cases hr
  | some file =>
      rw [hfile] at hr
      dsimp only at hr
      split at hr
      · cases hr
      · obtain rfl := Option.some.inj hr
        refine h.deleteBlocks (l := (laterBlocks file startPoint).map Prod.snd) rfl rfl rfl rfl fun f s a ha => ?_
        obtain ⟨-, hfiles, -⟩ := h.furnished.deleteBlocks (l := (laterBlocks file startPoint).map Prod.snd)
        have hat : ∀ e ∈ laterBlocks file startPoint, n.address fileNo e.1 = some e.2 := by
          intro e he
          unfold address
          rw [hfile, Option.bind_some]
          exact OrdMap.mem_entries.mp (List.mem_filter.mp he).1
        unfold address at ha
        dsimp only at ha
        rw [hfiles, OrdMap.find?_put] at ha
        split at ha
        · rename_i hf
          rw [Option.bind_some, find?_foldl_erase] at ha
          split at ha
          · cases ha
          · rename_i hs
            have hold : n.address f s = some a := by
              unfold address
              rw [hf, hfile]
              exact ha
            refine ⟨hold, fun hmem => hs ?_⟩
            obtain ⟨e, he, rfl⟩ := List.mem_map.mp hmem
            rw [hf] at hold
            rw [(h.filed.apart _ _ _ _ _ hold (hat e he)).2]
            exact List.mem_map_of_mem he
        · rename_i hf
          refine ⟨ha, fun hmem => hf ?_⟩
          obtain ⟨e, he, rfl⟩ := List.mem_map.mp hmem
          exact (h.filed.apart f s fileNo e.1 _ ha (hat e he)).1

theorem Served.eraseFile (h : Served cap n) (fileNo : Int) : Served cap (n.eraseFile fileNo) := by
  unfold AsyncNode.eraseFile
  cases hfile : n.files.find? fileNo with
  | none => exact h
  | some file =>
      dsimp only
      refine h.deleteBlocks (l := file.blocks.entries.map Prod.snd) rfl rfl rfl rfl fun f s a ha => ?_
      obtain ⟨-, hfiles, -⟩ := h.furnished.deleteBlocks (l := file.blocks.entries.map Prod.snd)
      unfold address at ha
      dsimp only at ha
      rw [hfiles, OrdMap.find?_erase] at ha
      split at ha
      · cases ha
      · rename_i hf
        refine ⟨ha, fun hmem => hf ?_⟩
        obtain ⟨e, he, rfl⟩ := List.mem_map.mp hmem
        have hat : n.address fileNo e.1 = some e.2 := by
          unfold address
          rw [hfile, Option.bind_some]
          exact OrdMap.mem_entries.mp he
        exact (h.filed.apart f s fileNo e.1 _ ha hat).1

theorem Served.removeFiles (h : Served cap n) : Served cap n.removeFiles := by
  unfold AsyncNode.removeFiles
  split
  · have hfold : ∀ (l : List Int) (m : AsyncNode), Served cap m → Served cap (l.foldl AsyncNode.eraseFile m) := by
      intro l
      induction l with
      | nil => exact fun m hm => hm
      | cons fileNo l ih => exact fun m hm => ih _ (hm.eraseFile fileNo)
    exact (hfold n.removeFileList n h).setFiles rfl rfl rfl rfl fun _ _ _ ha => ha
  · exact h

/-! ## The write-back -/

/-- The ring changes, and its pages stay. -/
theorem Served.setQueue (h : Served cap n) {queue : AccessQueue Nat} (hqueue : queue.Ok (fun _ => True) n.page) :
    Served cap { n with queue := queue } :=
  ⟨{ h.furnished with ring := hqueue }, ⟨h.filed.live, h.filed.apart⟩⟩

theorem Served.checkWritebackPage {l : List Nat} {n' : AsyncNode} (h : Served cap n) (hr : AsyncNode.checkWritebackPage l n = some n') :
    Served cap n' := by
  induction l generalizing n with
  | nil =>
      obtain rfl := Option.some.inj hr
      exact h
  | cons a rest ih =>
      simp only [AsyncNode.checkWritebackPage] at hr
      split at hr
      · cases hr
      · split at hr
        · exact ih (h.setQueue (h.furnished.ring.delDirtyPage _)) hr
        · exact ih h hr

theorem Served.addWriteBack {n' : AsyncNode} (h : Served cap n) (hr : n.addWriteBack = some n') : Served cap n' := by
  unfold AsyncNode.addWriteBack at hr
  split at hr
  · split at hr
    · cases hr
    · rename_i m hm
      have hchecked := h.checkWritebackPage hm
      split at hr
      · cases hr
      · obtain rfl := Option.some.inj hr
        exact hchecked.setFiles rfl rfl rfl rfl fun _ _ _ ha => ha
  · obtain rfl := Option.some.inj hr
    exact h

theorem Served.writeNext {receiving : Bool} {n' : AsyncNode} (h : Served cap n) (hr : n.writeNext receiving = some n') : Served cap n' := by
  unfold AsyncNode.writeNext at hr
  split at hr
  · cases hr
  · split at hr
    · cases hr
    · split at hr
      · cases hr
      · rename_i a _ b hb
        obtain rfl := Option.some.inj hr
        split
        · refine ⟨h.furnished.flags hb rfl rfl rfl rfl rfl rfl rfl, Same.filed ?_ h.filed⟩
          exact same_put hb rfl rfl rfl
        · exact h.setFiles rfl rfl rfl rfl fun _ _ _ ha => ha

/-- **One step**, whichever thread takes it. -/
theorem Served.step {e : Event} {n' : AsyncNode} (h : Served cap n) (hcap : 0 < cap) (hr : n.step e = some n') : Served cap n' := by
  cases e with
  | removeFiles =>
      obtain rfl := Option.some.inj hr
      exact h.removeFiles
  | addWriteBack => exact h.addWriteBack hr
  | openFile fileNo startPoints =>
      obtain rfl := Option.some.inj hr
      exact h.openFile fileNo startPoints
  | writeBlock fileNo startPoint =>
      obtain ⟨m, hm, hserved⟩ := h.updateBlockData hcap fileNo startPoint
      obtain rfl := Option.some.inj (hm.symm.trans hr)
      exact hserved
  | readBlock fileNo startPoint =>
      obtain ⟨m, hm, hserved⟩ := h.sendBlock hcap fileNo startPoint
      obtain rfl := Option.some.inj (hm.symm.trans hr)
      exact hserved
  | truncate fileNo startPoint => exact h.truncateFile hr
  | unlink fileNo =>
      obtain rfl := Option.some.inj hr
      exact h.removeFile fileNo
  | startPass =>
      simp only [AsyncNode.step, AsyncNode.startPass] at hr
      split at hr
      · obtain rfl := Option.some.inj hr
        exact h.setFiles rfl rfl rfl rfl fun _ _ _ ha => ha
      · cases hr
  | writeNext receiving => exact h.writeNext hr
  | endPass =>
      simp only [AsyncNode.step, AsyncNode.endPass] at hr
      split at hr
      · cases hr
      · split at hr
        · cases hr
        · obtain rfl := Option.some.inj hr
          exact h.setFiles rfl rfl rfl rfl fun _ _ _ ha => ha

/-- What is to hold of the memory of an IOnode that may have `count` elements. -/
structure MemoryFound (count : Nat) (n : AsyncNode) : Prop where
  /-- every element that was made is in one block or free, and there are no more than allowed -/
  accounted : ∃ held : List Nat, held.Nodup ∧ (∀ a, a ∈ held ↔ (n.elemOf a).isSome) ∧ n.pool.head.Nodup ∧
    n.pool.head.length + held.length = n.pool.created ∧ n.pool.created ≤ count
  /-- no two blocks have one element -/
  apart : ∀ a a' e, n.elemOf a = some e → n.elemOf a' = some e → a = a'
  notFree : ∀ a e, n.elemOf a = some e → e ∉ n.pool.head
  /-- what a file's map leads to has not been deleted -/
  live : ∀ f s a, n.address f s = some a → n.Live a
  /-- whatever block is written or read next, the request comes to its end -/
  served : ∀ f s, (n.updateBlockData f s).isSome ∧ (n.sendBlock f s).isSome

theorem Served.memoryFound (h : Served cap n) (hcap : 0 < cap) : MemoryFound cap n := by
  obtain ⟨held, hframes⟩ := h.furnished.frames
  refine ⟨⟨held, hframes.held_nodup, fun a => ?_, hframes.free_nodup, hframes.count, h.furnished.pool.created_le⟩,
    hframes.owner_inj, hframes.owned_not_free, h.filed.live, fun f s => ⟨?_, ?_⟩⟩
  · rw [hframes.mem_held a, Option.isSome_iff_exists]
  · obtain ⟨n', hn', -⟩ := h.updateBlockData hcap f s
    rw [hn']
    rfl
  · obtain ⟨n', hn', -⟩ := h.sendBlock hcap f s
    rw [hn']
    rfl

/-- **Memory is always found**, in every run of the two threads, deletions among their steps. -/
theorem memory_always_found {count : Nat} (hcount : 0 < count) {events : List Event} {n : AsyncNode}
    (hr : Run.run step (start count) events = some n) : MemoryFound count n := by
  have hstep : ∀ (m : AsyncNode) e m', Served count m → True → m.step e = some m' → Served count m' :=
    fun m e m' hm _ hs => hm.step hcount hs
  have hstart : Served count (start count) := ⟨start_furnished hcount, start_filed count⟩
  exact (Run.run_invariant hstep hstart (Run.Guarded.of_forall fun _ _ => trivial) hr).memoryFound hcount

/-- Memory for two blocks: a third is written while the first is in the queue of a pass, and two are cut off before the pass is over. -/
def crowdedRun : List Event :=
  [.openFile 1 [], .writeBlock 1 0, .writeBlock 1 BLOCK_SIZE, .addWriteBack, .startPass, .writeBlock 1 (2 * BLOCK_SIZE), .truncate 1 0,
    .openFile 2 [0, 0], .writeBlock 2 0, .readBlock 1 0, .writeNext false, .unlink 1, .removeFiles]

theorem memory_always_found_crowded : (Run.run step (start 2) crowdedRun).isSome ∧
    ∀ n, Run.run step (start 2) crowdedRun = some n → MemoryFound 2 n := by
  refine ⟨by decide +kernel, ?_⟩
  intro n hr
  exact memory_always_found (by decide) hr

end AsyncNode

end HuronFS
