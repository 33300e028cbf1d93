import HuronFS.Common.PageRing
import HuronFS.IOnode.WriteBack

/-!
# `IOnode.SwapRefused` — `swap_out` and the blocks that receive data

The IOnode as built with CCI. A block that is written keeps `receiving_data` set, and its data lock taken, until the
receiver thread hears that the transfer has ended (`after_large_transfer`), and `_write_to_storage` refuses to write such a
block. The ring is here with its pointers, since what `swap_out` does to it need not be what the lists of `AccessQueue`
stand for.

`swap_out` runs in the handler. Two threads may come in between: the receiver, which ends transfers, and the remote task
thread, which writes blocks back. What they do in one turn of the loop is given, for each place where they can: before the
page's block is looked at, before its write-back, and while `free_data` waits for the data lock, which it gets when the
block's own transfer has ended.
-/

namespace HuronFS

/-- `block`, with `swapout_flag == SWAPPED_OUT` and `receiving_data == SET`. -/
structure CciBlock extends PagedBlock where
  swappedOut : Bool
  receivingData : Bool
deriving DecidableEq, Repr

/-- The blocks, by their addresses, the pages and the memory. -/
structure CciNode where
  heap : OrdMap Nat CciBlock
  queue : PageRing Nat
  pool : MemoryPool

/-- What another thread does to a block. -/
inductive OtherThread
  | finishTransfer (a : Nat)
  | writeback (a : Nat)

/-- The other threads in one turn of the loop. -/
structure Meanwhile where
  before : List OtherThread
  between : List OtherThread
  waiting : List OtherThread

namespace CciNode

def setBlock (n : CciNode) (a : Nat) (b : CciBlock) : CciNode := { n with heap := n.heap.put a b }

/-- `finish_transfer`. -/
def finishTransfer (n : CciNode) (a : Nat) : CciNode :=
  { n with heap := n.heap.modify a (fun b => { b with receivingData := false }) }

/-- `writeback`, with `_write_to_storage`: whether it was refused. -/
def writeback (n : CciNode) (a : Nat) : Bool × CciNode :=
  match n.heap.find? a with
  | none => (false, n)
  | some b =>
      if b.dirtyFlag then
        if b.receivingData then (true, n) else (false, n.setBlock a { b with dirtyFlag := false })
      else (false, n)

def other (n : CciNode) : OtherThread → CciNode
  | .finishTransfer a => n.finishTransfer a
  | .writeback a => (n.writeback a).2

def others (n : CciNode) (l : List OtherThread) : CciNode := l.foldl other n

/-- `free_data`: the bytes freed. A block that is dirty, or has no memory, is left as it is but for the flag. -/
def freeData (n : CciNode) (waiting : List OtherThread) (a : Nat) : Option (Nat × CciNode) :=
  let n := (n.finishTransfer a).others waiting
  match n.heap.find? a with
  | none => none
  | some b =>
      let (freed, freedBlock, pool) := b.toPagedBlock.freeMemory n.pool
      some (freed, { n.setBlock a { b with toPagedBlock := freedBlock, swappedOut := true } with pool := pool })

/-- The body of the loop of `swap_out`, for a page that was popped: whether its write-back was refused, and the bytes
    freed. -/
def swapOutPage (n : CciNode) (t : Meanwhile) (p a : Nat) : Option (Bool × Nat × CciNode) :=
  let n := n.others t.before
  match n.heap.find? a with
  | none => none
  | some b =>
      if b.dirtyFlag then
        let (refused, n) := (n.others t.between).writeback a
        (n.queue.delDirtyPage p).bind (fun queue =>
          ({ n with queue := queue }.freeData t.waiting a).map (fun (freed, n) => (refused, freed, n)))
      else (n.freeData t.waiting a).map (fun (freed, n) => (false, freed, n))

/-- The `while` loop of `swap_out`: the blocks whose write-back was refused, what is left of `size`, and the node. Each turn
    takes a page out of the ring, which gives the fuel; `env` has the other threads, for each page. -/
def swapOutLoop (env : Nat → Meanwhile) : (fuel : Nat) → (size : Int) → CciNode → Option (List Nat × Int × CciNode)
  | 0, size, n => some ([], size, n)
  | fuel + 1, size, n =>
      if 0 < size then
        match n.queue.pop with
        | none => none
        | some (none, queue) => some ([], size, { n with queue := queue })
        | some (some p, queue) =>
            match queue.data p with
            | none => none
            | some a =>
                match { n with queue := queue }.swapOutPage (env p) p a with
                | none => none
                | some (refused, freed, n) =>
                    (swapOutLoop env fuel (size - freed) n).map (fun (l, left, n) => (if refused then a :: l else l, left, n))
      else some ([], size, n)

/-- `swap_out`: the blocks whose write-back was refused, and the bytes freed. -/
def swapOut (n : CciNode) (env : Nat → Meanwhile) (size : Int) : Option (List Nat × Int × CciNode) :=
  (swapOutLoop env n.queue.created size n).map (fun (refused, left, n) => (refused, size - left, n))

/-- `update_access_order`. -/
def updateAccessOrder (n : CciNode) (a : Nat) (dirty : Bool) : Option CciNode :=
  match n.heap.find? a with
  | none => none
  | some b =>
      match b.writebackPage with
      | some p => (n.queue.touch p dirty).map (fun queue => { n with queue := queue })
      | none =>
          (n.queue.push a dirty).map (fun (p, queue) =>
            { n.setBlock a { b with writebackPage := some p } with queue := queue })

/-! ## What a refused block should find -/

/-- The block is where it was: it has its memory and its flag, its page is in use and in the dirty list, and when it is
    accessed its page becomes the youngest one and no other page is lost. -/
def Spared (n n' : CciNode) (a : Nat) : Prop :=
  ∃ b b' p l, n.heap.find? a = some b ∧ n'.heap.find? a = some b' ∧ b'.elem = b.elem ∧ b'.swappedOut = b.swappedOut ∧
    b'.writebackPage = some p ∧ n'.queue.inUse = some l ∧ p ∈ l ∧ n'.queue.isInDirtyQueue p = true ∧
    ∀ dirty, ∃ n'', n'.updateAccessOrder a dirty = some n'' ∧ n''.queue.inUse = some (l.erase p ++ [p])

/-- The ring is well formed: the pointers hang as the lists of `q` say, and each page in use points to a block that has
    memory and names the page. -/
structure Lru (n : CciNode) (q : AccessQueue Nat) : Prop where
  rep : n.queue.Rep q
  block : ∀ p ∈ q.tracked, ∃ a b, q.data p = some a ∧ n.heap.find? a = some b ∧ b.writebackPage = some p ∧
    b.valid = true ∧ b.elem.isSome = true

/-- `swap_out` has its `size` bytes before it comes to a block that is dirty and receives data: the pages older than that
    one are enough. -/
def EnoughBefore (n : CciNode) (q : AccessQueue Nat) (size : Int) : Prop :=
  ∀ (i : Nat) p a b, q.tracked[i]? = some p → q.data p = some a → n.heap.find? a = some b → b.dirtyFlag = true →
    b.receivingData = true → size ≤ i * BLOCK_SIZE

/-! ## The other threads -/

/-- What the other threads leave of a block: flags are cleared, and nothing else. -/
structure Fades (b b' : CciBlock) : Prop where
  page : b'.writebackPage = b.writebackPage
  elem : b'.elem = b.elem
  valid : b'.valid = b.valid
  dirty : b'.dirtyFlag = true → b.dirtyFlag = true
  receiving : b'.receivingData = true → b.receivingData = true

theorem Fades.refl (b : CciBlock) : Fades b b := ⟨rfl, rfl, rfl, id, id⟩

theorem Fades.trans {b b' b'' : CciBlock} (h : Fades b b') (h' : Fades b' b'') : Fades b b'' :=
  ⟨h'.page.trans h.page, h'.elem.trans h.elem, h'.valid.trans h.valid, h.dirty ∘ h'.dirty, h.receiving ∘ h'.receiving⟩

/-- The blocks fade, and the ring is left alone. -/
structure Faded (n n' : CciNode) : Prop where
  queue : n'.queue = n.queue
  block : ∀ a b, n.heap.find? a = some b → ∃ b', n'.heap.find? a = some b' ∧ Fades b b'

theorem Faded.refl (n : CciNode) : Faded n n := ⟨rfl, fun _ b hb => ⟨b, hb, Fades.refl b⟩⟩

theorem Faded.trans {n n' n'' : CciNode} (h : Faded n n') (h' : Faded n' n'') : Faded n n'' := by
  refine ⟨h'.queue.trans h.queue, ?_⟩
  intro a b hb
  obtain ⟨b', hb', hfades⟩ := h.block a b hb
  obtain ⟨b'', hb'', hfades'⟩ := h'.block a b' hb'
  exact ⟨b'', hb'', hfades.trans hfades'⟩

theorem faded_setBlock {n : CciNode} {a : Nat} {b b' : CciBlock} (hb : n.heap.find? a = some b) (h : Fades b b') :
    Faded n (n.setBlock a b') := by
  refine ⟨rfl, ?_⟩
  intro x c hc
  show ∃ c', (n.heap.put a b').find? x = some c' ∧ Fades c c'
  by_cases hx : x = a
  · subst hx
    rw [hb] at hc
    cases hc
    exact ⟨b', OrdMap.find?_put_self .., h⟩
  · rw [OrdMap.find?_put_ne _ _ hx]
    exact ⟨c, hc, Fades.refl c⟩

theorem faded_finishTransfer (n : CciNode) (a : Nat) : Faded n (n.finishTransfer a) := by
  refine ⟨rfl, ?_⟩
  intro x b hb
  unfold finishTransfer
  rw [OrdMap.find?_modify]
  by_cases hx : x = a
  · subst hx
    rw [if_pos rfl, hb]
    exact ⟨_, rfl, rfl, rfl, rfl, id, fun h => absurd h Bool.false_ne_true⟩
  · rw [if_neg hx]
    exact ⟨b, hb, Fades.refl b⟩

theorem faded_writeback (n : CciNode) (a : Nat) : Faded n (n.writeback a).2 := by
  unfold writeback
  cases hb : n.heap.find? a with
  | none => exact Faded.refl n
  | some b =>
      simp only
      split
      · split
        · exact Faded.refl n
        · exact faded_setBlock hb ⟨rfl, rfl, rfl, fun h => absurd h Bool.false_ne_true, id⟩
      · exact Faded.refl n

theorem faded_others : ∀ (l : List OtherThread) (n : CciNode), Faded n (n.others l)
  | [], n => Faded.refl n
  | t :: l, n => by
      have hhead : Faded n (n.other t) := by
        cases t with
        | finishTransfer a => exact faded_finishTransfer n a
        | writeback a => exact faded_writeback n a
      exact hhead.trans (faded_others l (n.other t))

/-! ## One page -/

/-- `free_memory` of a block that has memory. -/
theorem freeMemory_spec {b : PagedBlock} (hvalid : b.valid = true) (helem : b.elem.isSome = true) (pool : MemoryPool) :
    ∃ freed b' pool', b.freeMemory pool = (freed, b', pool') ∧
      (b'.writebackPage = b.writebackPage ∨ b'.writebackPage = none) ∧ (b.dirtyFlag = false → freed = BLOCK_SIZE) := by
  obtain ⟨e, he⟩ := Option.isSome_iff_exists.mp helem
  unfold PagedBlock.freeMemory
  rw [hvalid, he]
  cases hdirty : b.dirtyFlag with
  | true => exact ⟨_, _, _, rfl, Or.inl rfl, fun h => absurd h (Bool.false_ne_true ∘ Eq.symm)⟩
  | false => exact ⟨_, _, _, rfl, Or.inr rfl, fun _ => rfl⟩

/-- What the loop leaves of the block `b` at `a`, and of the others. -/
structure Visited (n n' : CciNode) (a : Nat) (b : CciBlock) : Prop where
  swapped : ∃ b', n'.heap.find? a = some b' ∧ b'.swappedOut = true ∧
    (b'.writebackPage = b.writebackPage ∨ b'.writebackPage = none)
  rest : ∀ x c, x ≠ a → n.heap.find? x = some c → ∃ c', n'.heap.find? x = some c' ∧ Fades c c'

theorem freeData_spec {n : CciNode} {a : Nat} {b : CciBlock} (hb : n.heap.find? a = some b) (hvalid : b.valid = true)
    (helem : b.elem.isSome = true) (waiting : List OtherThread) :
    ∃ freed n', n.freeData waiting a = some (freed, n') ∧ n'.queue = n.queue ∧ Visited n n' a b ∧
      (b.dirtyFlag = false → freed = BLOCK_SIZE) := by
  have hfaded : Faded n ((n.finishTransfer a).others waiting) := (faded_finishTransfer n a).trans (faded_others waiting _)
  obtain ⟨c, hc, hfades⟩ := hfaded.block a b hb
  have hvalid' : c.valid = true := hfades.valid.trans hvalid
  have helem' : c.elem.isSome = true := by
    rw [hfades.elem]
    exact helem
  obtain ⟨freed, c', pool, hfree, hpage, hfreed⟩ :=
    freeMemory_spec hvalid' helem' ((n.finishTransfer a).others waiting).pool
  unfold freeData
  simp only [hc, hfree]
  refine ⟨freed, _, rfl, hfaded.queue, ⟨⟨_, OrdMap.find?_put_self .., rfl, ?_⟩, ?_⟩, ?_⟩
  · show c'.writebackPage = b.writebackPage ∨ c'.writebackPage = none
    rw [← hfades.page]
    exact hpage
  · intro x d hx hd
    obtain ⟨d', hd', hfades'⟩ := hfaded.block x d hd
    exact ⟨d', (OrdMap.find?_put_ne _ _ hx).trans hd', hfades'⟩
  · intro hclean
    apply hfreed
    cases hdirty : c.dirtyFlag with
    | false => rfl
    | true => exact absurd (hfades.dirty hdirty) (by rw [hclean]; exact Bool.false_ne_true)

theorem Visited.faded {n n' n'' : CciNode} {a : Nat} {b b' : CciBlock} (h : Visited n' n'' a b')
    (hfaded : ∀ x c, n.heap.find? x = some c → ∃ c', n'.heap.find? x = some c' ∧ Fades c c') (hpage : b'.writebackPage = b.writebackPage) :
    Visited n n'' a b := by
  refine ⟨?_, ?_⟩
  · rw [← hpage]
    exact h.swapped
  · intro x c hx hc
    obtain ⟨c', hc', hfades⟩ := hfaded x c hc
    obtain ⟨c'', hc'', hfades'⟩ := h.rest x c' hx hc'
    exact ⟨c'', hc'', hfades.trans hfades'⟩

theorem writeback_eq {n : CciNode} {a : Nat} {b : CciBlock} (hb : n.heap.find? a = some b) :
    n.writeback a = if b.dirtyFlag then
      if b.receivingData then (true, n) else (false, n.setBlock a { b with dirtyFlag := false })
    else (false, n) := by
  unfold writeback
  rw [hb]

/-- What `writeback` does with the block, as it finds it. -/
theorem writeback_spec {n : CciNode} {a : Nat} {b : CciBlock} (hb : n.heap.find? a = some b) :
    ∃ b', (n.writeback a).2.heap.find? a = some b' ∧
      ((n.writeback a).1 = true → b.dirtyFlag = true ∧ b.receivingData = true) ∧
      ((n.writeback a).1 = false → b'.dirtyFlag = false) := by
  have heq := writeback_eq hb
  cases hdirty : b.dirtyFlag with
  | false =>
      rw [heq, hdirty, if_neg Bool.false_ne_true]
      exact ⟨b, hb, fun h => absurd h Bool.false_ne_true, fun _ => hdirty⟩
  | true =>
      cases hreceiving : b.receivingData with
      | true =>
          rw [heq, hdirty, if_pos rfl, hreceiving, if_pos rfl]
          exact ⟨b, hb, fun _ => ⟨rfl, rfl⟩, fun h => absurd h.symm Bool.false_ne_true⟩
      | false =>
          rw [heq, hdirty, if_pos rfl, hreceiving, if_neg Bool.false_ne_true]
          exact ⟨_, OrdMap.find?_put_self .., fun h => absurd h Bool.false_ne_true, fun _ => rfl⟩

/-- One turn of the loop: a block that is not refused gives its memory, and only a block that is dirty and receives data is
    refused. -/
theorem swapOutPage_spec {n : CciNode} {q : AccessQueue Nat} (hrep : n.queue.Rep q) {a : Nat} {b : CciBlock}
    (hb : n.heap.find? a = some b) (hvalid : b.valid = true) (helem : b.elem.isSome = true) (t : Meanwhile) (p : Nat) :
    ∃ refused freed n' q', n.swapOutPage t p a = some (refused, freed, n') ∧ n'.queue.Rep q' ∧ q'.tracked = q.tracked ∧
      q'.data = q.data ∧ Visited n n' a b ∧ (refused = true → b.dirtyFlag = true ∧ b.receivingData = true) ∧
      (refused = false → freed = BLOCK_SIZE) := by
  have hbefore : Faded n (n.others t.before) := faded_others t.before n
  obtain ⟨b1, hb1, hfades1⟩ := hbefore.block a b hb
  unfold swapOutPage
  simp only [hb1]
  cases hdirty : b1.dirtyFlag with
  | false =>
      obtain ⟨freed, n', hfree, hqueue, hvisited, hfreed⟩ := freeData_spec hb1 (hfades1.valid.trans hvalid)
        (by rw [hfades1.elem]; exact helem) t.waiting
      rw [if_neg Bool.false_ne_true, hfree, Option.map_some]
      refine ⟨false, freed, n', q, rfl, ?_, rfl, rfl, hvisited.faded hbefore.block hfades1.page, ?_, fun _ => hfreed hdirty⟩
      · rw [hqueue, hbefore.queue]
        exact hrep
      · exact fun h => absurd h Bool.false_ne_true
  | true =>
      have hbetween : Faded n ((n.others t.before).others t.between) := hbefore.trans (faded_others t.between _)
      obtain ⟨b2, hb2, hfades2⟩ := hbetween.block a b hb
      have hwriteback := hbetween.trans (faded_writeback _ a)
      obtain ⟨b3, hb3, hrefused, hclean⟩ := writeback_spec hb2
      obtain ⟨b3', hb3', hfades3⟩ := hwriteback.block a b hb
      rw [hb3] at hb3'
      cases hb3'
      -- the page leaves the dirty list, refused or not
      have hrep3 : (((n.others t.before).others t.between).writeback a).2.queue.Rep q := by
        rw [hwriteback.queue]
        exact hrep
      obtain ⟨d, hd, hrepd⟩ := hrep3.delDirtyPage p
      obtain ⟨freed, n', hfree, hqueue, hvisited, hfreed⟩ := freeData_spec
        (n := { (((n.others t.before).others t.between).writeback a).2 with
          queue := { (((n.others t.before).others t.between).writeback a).2.queue with dirtyRing := d } })
        hb3 (hfades3.valid.trans hvalid) (by rw [hfades3.elem]; exact helem) t.waiting
      rw [if_pos rfl, hd, Option.bind_some, hfree, Option.map_some]
      refine ⟨_, freed, n', q.delDirtyPage p, rfl, ?_, rfl, rfl, hvisited.faded hwriteback.block hfades3.page, ?_,
        fun h => hfreed (hclean h)⟩
      · rw [hqueue]
        exact hrepd
      · intro h
        obtain ⟨h1, h2⟩ := hrefused h
        exact ⟨hfades2.dirty h1, hfades2.receiving h2⟩

/-- No other thread comes in. -/
def alone : Nat → Meanwhile := fun _ => ⟨[], [], []⟩

theorem freeData_alone {n n' : CciNode} {a freed : Nat} (h : n.freeData [] a = some (freed, n')) :
    ∀ x ≠ a, n'.heap.find? x = n.heap.find? x := by
  intro x hx
  unfold freeData at h
  simp only [others, List.foldl_nil] at h
  split at h
  · cases h
  · cases h
    calc ((n.finishTransfer a).heap.put a _).find? x
        = (n.finishTransfer a).heap.find? x := OrdMap.find?_put_ne _ _ hx
      _ = n.heap.find? x := by
        unfold finishTransfer
        rw [OrdMap.find?_modify, if_neg hx]

/-- Then a block that is dirty and receives data is refused, and the other blocks are as they were. -/
theorem swapOutPage_alone {n n' : CciNode} {p a freed : Nat} {b : CciBlock} {refused : Bool} (hb : n.heap.find? a = some b)
    (h : n.swapOutPage (alone p) p a = some (refused, freed, n')) :
    (b.dirtyFlag = true → b.receivingData = true → refused = true) ∧ ∀ x ≠ a, n'.heap.find? x = n.heap.find? x := by
  unfold swapOutPage alone at h
  simp only [others, List.foldl_nil, hb, writeback_eq hb] at h
  cases hdirty : b.dirtyFlag with
  | false =>
      rw [hdirty, if_neg Bool.false_ne_true] at h
      obtain ⟨⟨f, m⟩, hfree, heq⟩ := Option.map_eq_some_iff.mp h
      cases heq
      exact ⟨fun hd => absurd hd Bool.false_ne_true, freeData_alone hfree⟩
  | true =>
      rw [hdirty, if_pos rfl] at h
      obtain ⟨queue, -, h⟩ := Option.bind_eq_some_iff.mp h
      obtain ⟨⟨f, m⟩, hfree, heq⟩ := Option.map_eq_some_iff.mp h
      cases hreceiving : b.receivingData with
      | true =>
          rw [hreceiving] at hfree heq
          cases heq
          refine ⟨fun _ _ => rfl, ?_⟩
          intro x hx
          rw [freeData_alone hfree x hx]
          rfl
      | false =>
          rw [hreceiving] at hfree heq
          cases heq
          refine ⟨fun _ hr => absurd hr Bool.false_ne_true, ?_⟩
          intro x hx
          rw [freeData_alone hfree x hx]
          exact OrdMap.find?_put_ne _ _ hx

/-! ## The loop -/

/-- No page in use is the one the block names. -/
def Gone (n : CciNode) (q : AccessQueue Nat) (a : Nat) : Prop :=
  ∃ b, n.heap.find? a = some b ∧ ∀ p, b.writebackPage = some p → p ∉ q.tracked

namespace Lru

variable {n : CciNode} {q : AccessQueue Nat}

/-- The block of a page, where there is one to look at. -/
theorem block_of_data (h : Lru n q) {p a : Nat} (hp : p ∈ q.tracked) (ha : q.data p = some a) :
    ∃ b, n.heap.find? a = some b ∧ b.writebackPage = some p ∧ b.valid = true ∧ b.elem.isSome = true := by
  obtain ⟨a', b, ha', hb⟩ := h.block p hp
  rw [ha'] at ha
  cases ha
  exact ⟨b, hb⟩

/-- A turn of the loop. The ring stays well formed without the oldest page, and the block of that page names no page in
    use any more. -/
theorem turn (h : Lru n q) {p : Nat} {rest : List Nat} (htracked : q.tracked = p :: rest) (env : Nat → Meanwhile) :
    ∃ queue a b refused freed n' q', n.queue.pop = some (some p, queue) ∧ queue.data p = some a ∧ q.data p = some a ∧
      n.heap.find? a = some b ∧ { n with queue := queue }.swapOutPage (env p) p a = some (refused, freed, n') ∧ Lru n' q' ∧
      q'.tracked = rest ∧ q'.data = q.data ∧ Visited n n' a b ∧ Gone n' q' a ∧ (∀ x, Gone n q x → Gone n' q' x) ∧
      (refused = true → b.dirtyFlag = true ∧ b.receivingData = true) ∧ (refused = false → freed = BLOCK_SIZE) := by
  obtain ⟨a, b, ha, hb, hpage, hvalid, helem⟩ := h.block p (by rw [htracked]; exact List.mem_cons_self)
  obtain ⟨queue, hpop, hrep⟩ := h.rep.pop
  have hq : q.pop = some (p, { q with tracked := rest, free := q.free ++ [p] }) := by
    unfold AccessQueue.pop
    rw [htracked]
  rw [hq] at hrep
  rw [htracked] at hpop
  have hnodup : (p :: rest).Nodup := by
    rw [← htracked]
    exact (List.nodup_append.mp h.rep.ring.nodup).1
  have hp : p ∉ rest := (List.nodup_cons.mp hnodup).1
  obtain ⟨refused, freed, n', q', hswap, hrep', htracked', hdata', hvisited, hrefused, hfreed⟩ :=
    swapOutPage_spec (n := { n with queue := queue }) hrep hb hvalid helem (env p) p
  have hdata : q'.data = q.data := hdata'
  have htracked'' : q'.tracked = rest := htracked'
  have hvisited' : Visited n n' a b := ⟨hvisited.swapped, hvisited.rest⟩
  have hgone : Gone n' q' a := by
    obtain ⟨c, hc, -, hpage'⟩ := hvisited.swapped
    refine ⟨c, hc, ?_⟩
    intro r hr
    rw [htracked'']
    rcases hpage' with hpage' | hpage'
    · rw [hpage', hpage] at hr
      cases hr
      exact hp
    · rw [hpage'] at hr
      cases hr
  -- the block of another page is another block
  have hother : ∀ r ∈ rest, ∀ x c, n.heap.find? x = some c → c.writebackPage = some r → x ≠ a := by
    rintro r hr x c hc hcr rfl
    rw [hb] at hc
    cases hc
    rw [hpage] at hcr
    cases hcr
    exact hp hr
  refine ⟨queue, a, b, refused, freed, n', q', hpop, ?_, ha, hb, hswap, ⟨hrep', ?_⟩, htracked'', hdata, hvisited', hgone, ?_,
    hrefused, hfreed⟩
  · rw [hrep.data]
    exact ha
  · intro r hr
    rw [htracked''] at hr
    obtain ⟨x, c, hx, hc, hcr, hcv, hce⟩ := h.block r (by rw [htracked]; exact List.mem_cons_of_mem p hr)
    obtain ⟨c', hc', hfades⟩ := hvisited'.rest x c (hother r hr x c hc hcr) hc
    refine ⟨x, c', ?_, hc', hfades.page.trans hcr, hfades.valid.trans hcv, ?_⟩
    · rw [hdata]
      exact hx
    · rw [hfades.elem]
      exact hce
  · rintro x ⟨c, hc, hgone⟩
    have hne : x ≠ a := by
      rintro rfl
      rw [hb] at hc
      cases hc
      exact hgone p hpage (by rw [htracked]; exact List.mem_cons_self)
    obtain ⟨c', hc', hfades⟩ := hvisited'.rest x c hne hc
    refine ⟨c', hc', ?_⟩
    intro r hr hin
    rw [htracked''] at hin
    rw [hfades.page] at hr
    exact hgone r hr (by rw [htracked]; exact List.mem_cons_of_mem p hin)

/-- The loop, to its end. Whatever was refused on the way is gone from the ring. -/
theorem swapOutLoop_gone (env : Nat → Meanwhile) : ∀ {fuel : Nat} {n : CciNode} {q : AccessQueue Nat} (size : Int), Lru n q →
    q.tracked.length < fuel → ∃ refused left n' q', swapOutLoop env fuel size n = some (refused, left, n') ∧ Lru n' q' ∧
      (∀ x, Gone n q x → Gone n' q' x) ∧ ∀ a ∈ refused, Gone n' q' a
  | 0, _, _, _, _, hfuel => absurd hfuel (Nat.not_lt_zero _)
  | fuel + 1, n, q, size, h, hfuel => by
      unfold swapOutLoop
      by_cases hsize : 0 < size
      · rw [if_pos hsize]
        cases htracked : q.tracked with
        | nil =>
            -- `pop` gives null
            obtain ⟨queue, hpop, hrep⟩ := h.rep.pop
            have hq : q.pop = none := by
              unfold AccessQueue.pop
              rw [htracked]
            rw [hq] at hrep
            rw [htracked] at hpop
            simp only [hpop, List.head?_nil]
            exact ⟨[], size, _, q, rfl, ⟨hrep, h.block⟩, fun x hx => hx, fun a ha => absurd ha List.not_mem_nil⟩
        | cons p rest =>
            obtain ⟨queue, a, b, refused, freed, n1, q1, hpop, hdata, -, -, hswap, hlru, htracked1, -, -, hgone, hkeeps, -, -⟩ :=
              h.turn htracked env
            have hfuel1 : q1.tracked.length < fuel := by
              rw [htracked1]
              rw [htracked, List.length_cons] at hfuel
              omega
            obtain ⟨l, left, n', q', hloop, hlru', hkeeps', hgone'⟩ := swapOutLoop_gone env (size - freed) hlru hfuel1
            simp only [hpop, hdata, hswap, hloop, Option.map_some]
            refine ⟨_, left, n', q', rfl, hlru', fun x hx => hkeeps' x (hkeeps x hx), ?_⟩
            intro x hx
            cases refused with
            | false => exact hgone' x hx
            | true =>
                rcases List.mem_cons.mp hx with rfl | hx
                · exact hkeeps' x hgone
                · exact hgone' x hx
      · rw [if_neg hsize]
        exact ⟨[], size, n, q, rfl, h, fun x hx => hx, fun a ha => absurd ha List.not_mem_nil⟩

/-! ## When a block is refused -/

theorem succ_blocks (i : Nat) : ((i + 1 : Nat) : Int) * BLOCK_SIZE = i * BLOCK_SIZE + BLOCK_SIZE := by
  rw [Int.natCast_add, Int.add_mul]
  simp

/-- A page in use is not the page of a block that is gone. -/
theorem ne_of_gone (h : Lru n q) {a x r : Nat} (hgone : Gone n q a) (hr : r ∈ q.tracked) (hx : q.data r = some x) : x ≠ a := by
  rintro rfl
  obtain ⟨c, hc, hcr, -⟩ := h.block_of_data hr hx
  obtain ⟨c', hc', hnot⟩ := hgone
  rw [hc] at hc'
  cases hc'
  exact hnot r hcr hr

/-- The pages older than a block that would be refused are still enough after a turn that was not refused. -/
theorem enoughBefore_turn {n' : CciNode} {q' : AccessQueue Nat} {p a : Nat} {b : CciBlock} {size : Int} (h : Lru n q) (h' : Lru n' q')
    (htracked : q.tracked = p :: q'.tracked) (hdata : q'.data = q.data) (hvisited : Visited n n' a b) (hgone : Gone n' q' a)
    (henough : EnoughBefore n q size) : EnoughBefore n' q' (size - BLOCK_SIZE) := by
  intro i r x c' hr hx hc' hdirty hreceiving
  have hmem : r ∈ q'.tracked := List.mem_of_getElem? hr
  have hne : x ≠ a := h'.ne_of_gone hgone hmem hx
  rw [hdata] at hx
  obtain ⟨c, hc, -⟩ := h.block_of_data (by rw [htracked]; exact List.mem_cons_of_mem p hmem) hx
  obtain ⟨c'', hc'', hfades⟩ := hvisited.rest x c hne hc
  rw [hc'] at hc''
  cases hc''
  have hle := henough (i + 1) r x c (by rw [htracked, List.getElem?_cons_succ]; exact hr) hx hc (hfades.dirty hdirty)
    (hfades.receiving hreceiving)
  rw [succ_blocks] at hle
  omega

/-- The bytes are freed before any such block is met. -/
theorem swapOutLoop_none (env : Nat → Meanwhile) : ∀ {fuel : Nat} {n : CciNode} {q : AccessQueue Nat} {size : Int}, Lru n q →
    EnoughBefore n q size → ∀ {refused : List Nat} {left : Int} {n' : CciNode},
    swapOutLoop env fuel size n = some (refused, left, n') → refused = []
  | 0, _, _, _, _, _, _, _, _, hloop => by
      cases hloop
      rfl
  | fuel + 1, n, q, size, h, henough, refused, left, n', hloop => by
      unfold swapOutLoop at hloop
      by_cases hsize : 0 < size
      · rw [if_pos hsize] at hloop
        cases htracked : q.tracked with
        | nil =>
            obtain ⟨queue, hpop, -⟩ := h.rep.pop
            rw [htracked] at hpop
            simp only [hpop, List.head?_nil] at hloop
            cases hloop
            rfl
        | cons p rest =>
            obtain ⟨queue, a, b, ref, freed, n1, q1, hpop, hdata, ha, hb, hswap, hlru, htracked1, hdata1, hvisited, hgone, -,
              hrefused, hfreed⟩ := h.turn htracked env
            simp only [hpop, hdata, hswap] at hloop
            obtain ⟨⟨l, left1, n1'⟩, hrest, heq⟩ := Option.map_eq_some_iff.mp hloop
            cases ref with
            | true =>
                -- the oldest page has no older one
                obtain ⟨hdirty, hreceiving⟩ := hrefused rfl
                have hle := henough 0 p a b (by rw [htracked]; rfl) ha hb hdirty hreceiving
                rw [show ((0 : Nat) : Int) * BLOCK_SIZE = 0 from Int.zero_mul _] at hle
                omega
            | false =>
                rw [hfreed rfl] at hrest
                rw [← htracked1] at htracked
                have hnone := swapOutLoop_none env hlru (enoughBefore_turn h hlru htracked hdata1 hvisited hgone henough) hrest
                cases heq
                exact hnone
      · rw [if_neg hsize] at hloop
        cases hloop
        rfl

/-- A block that the older pages do not keep `swap_out` from is met. -/
theorem swapOutLoop_refuses {fuel : Nat} {size : Int} {i p a : Nat} {b : CciBlock} {refused : List Nat} {left : Int} {n' : CciNode}
    (h : Lru n q) (hfuel : q.tracked.length < fuel) (hp : q.tracked[i]? = some p) (ha : q.data p = some a)
    (hb : n.heap.find? a = some b) (hdirty : b.dirtyFlag = true) (hreceiving : b.receivingData = true)
    (hlt : (i : Int) * BLOCK_SIZE < size) (hloop : swapOutLoop alone fuel size n = some (refused, left, n')) : refused ≠ [] := by
  induction fuel generalizing n q size i refused with
  | zero => exact absurd hfuel (Nat.not_lt_zero _)
  | succ fuel ih =>
      have hsize : 0 < size := lt_of_le_of_lt (Int.mul_nonneg (Int.natCast_nonneg i) (Int.natCast_nonneg BLOCK_SIZE)) hlt
      unfold swapOutLoop at hloop
      rw [if_pos hsize] at hloop
      cases htracked : q.tracked with
      | nil =>
          rw [htracked] at hp
          cases hp
      | cons r rest =>
          obtain ⟨queue, x, c, ref, freed, n1, q1, hpop, hdata, hx, hc, hswap, hlru, htracked1, hdata1, -, hgone, -, -, hfreed⟩ :=
            h.turn htracked alone
          obtain ⟨hmeets, hsame⟩ := swapOutPage_alone (n := { n with queue := queue }) hc hswap
          simp only [hpop, hdata, hswap] at hloop
          obtain ⟨⟨l, left1, m⟩, hrest, heq⟩ := Option.map_eq_some_iff.mp hloop
          cases href : ref with
          | true =>
              rw [href] at heq
              cases heq
              exact List.cons_ne_nil x l
          | false =>
              rw [href] at heq
              cases heq
              cases i with
              | zero =>
                  -- this page is the one
                  rw [htracked, List.getElem?_cons_zero] at hp
                  cases hp
                  rw [hx] at ha
                  cases ha
                  rw [hc] at hb
                  cases hb
                  rw [hmeets hdirty hreceiving] at href
                  cases href
              | succ i =>
                  rw [htracked, List.getElem?_cons_succ, ← htracked1] at hp
                  rw [hfreed href] at hrest
                  have hmem : p ∈ q1.tracked := List.mem_of_getElem? hp
                  have ha1 : q1.data p = some a := by
                    rw [hdata1]
                    exact ha
                  have hfuel1 : q1.tracked.length < fuel := by
                    rw [htracked1]
                    rw [htracked, List.length_cons] at hfuel
                    omega
                  have hlt1 : (i : Int) * BLOCK_SIZE < size - BLOCK_SIZE := by
                    rw [succ_blocks] at hlt
                    omega
                  exact ih hlru hfuel1 hp ha1 ((hsame a (hlru.ne_of_gone hgone hmem ha1)).trans hb) hlt1 hrest

end Lru

/-! ## `swap_out` -/

theorem Gone.not_spared {n n' : CciNode} {q' : AccessQueue Nat} {a : Nat} (h : Gone n' q' a) (hrep : n'.queue.Rep q') : ¬ Spared n n' a := by
  rintro ⟨b, b', p, l, -, hb', -, -, hpage, hl, hp, -⟩
  obtain ⟨c, hc, hnot⟩ := h
  rw [hb'] at hc
  cases hc
  rw [hrep.inUse] at hl
  cases hl
  exact hnot p hpage hp

/-- **A block that receives data when `swap_out` comes to it loses its page.** Whatever the other threads do, `swap_out` ends,
    and no block whose write-back it saw refused is where it was. So all refused blocks are spared exactly if there are none,
    that is if the pages older than the first dirty block that receives data hold the bytes asked for. -/
theorem refused_exact {n : CciNode} {q : AccessQueue Nat} (h : Lru n q) (size : Int) :
    (∀ env, ∃ refused freed n', n.swapOut env size = some (refused, freed, n') ∧ ∀ a ∈ refused, ¬ Spared n n' a) ∧
      ((∀ env refused freed n', n.swapOut env size = some (refused, freed, n') → ∀ a ∈ refused, Spared n n' a) ↔
        EnoughBefore n q size) := by
  have hruns : ∀ env, ∃ refused left n', swapOutLoop env n.queue.created size n = some (refused, left, n') ∧
      ∀ a ∈ refused, ¬ Spared n n' a := by
    intro env
    obtain ⟨refused, left, n', q', hloop, hlru, -, hgone⟩ := Lru.swapOutLoop_gone env size h h.rep.length_lt
    exact ⟨refused, left, n', hloop, fun a ha => (hgone a ha).not_spared hlru.rep⟩
  refine ⟨?_, ?_, ?_⟩
  · intro env
    obtain ⟨refused, left, n', hloop, hnot⟩ := hruns env
    refine ⟨refused, size - left, n', ?_, hnot⟩
    unfold swapOut
    rw [hloop, Option.map_some]
  · -- the handler alone meets the first such block
    intro hspared i p a b hp ha hb hdirty hreceiving
    by_contra hlt
    obtain ⟨refused, left, n', hloop, hnot⟩ := hruns alone
    apply Lru.swapOutLoop_refuses h h.rep.length_lt hp ha hb hdirty hreceiving (Int.not_le.mp hlt) hloop
    apply List.eq_nil_iff_forall_not_mem.mpr
    intro x hx
    refine hnot x hx (hspared alone refused (size - left) n' ?_ x hx)
    unfold swapOut
    rw [hloop, Option.map_some]
  · intro henough env refused freed n' hswap a ha
    obtain ⟨⟨l, left, m⟩, hloop, heq⟩ := Option.map_eq_some_iff.mp hswap
    cases heq
    rw [Lru.swapOutLoop_none env h henough hloop] at ha
    cases ha

/-- A refused block that was the last page to be looked at names the page `tail` stands on. When it is accessed again, all
    pages that came into use since are lost. -/
theorem updateAccessOrder_tail {n : CciNode} {q : AccessQueue Nat} (hrep : n.queue.Rep q) {a : Nat} {b : CciBlock}
    (hb : n.heap.find? a = some b) (hpage : b.writebackPage = some n.queue.tail) (dirty : Bool) :
    ∃ n', n.updateAccessOrder a dirty = some n' ∧ n'.queue.inUse = some [] := by
  obtain ⟨queue, htouch, hempty⟩ := hrep.touch_tail dirty
  refine ⟨{ n with queue := queue }, ?_, hempty⟩
  unfold updateAccessOrder
  simp only [hb, hpage, htouch, Option.map_some]

/-- A dirty block that receives data, and a clean one that came after it. -/
def receivingFirst : CciNode :=
  let b : CciBlock := { dirtyFlag := true, valid := true, writebackPage := none, elem := some 0, swappedOut := false, receivingData := true }
  let c : CciBlock := { dirtyFlag := false, valid := true, writebackPage := none, elem := some 1, swappedOut := false, receivingData := false }
  let n : CciNode := { heap := (OrdMap.empty.put 0 b).put 1 c, queue := PageRing.start, pool := .setup BLOCK_SIZE 2 2 }
  ((n.updateAccessOrder 0 true).bind (fun n => n.updateAccessOrder 1 false)).getD n

/-- Its pages, as they are pushed. -/
def receivingFirstPages : AccessQueue Nat := ((AccessQueue.start.push 0 true).2.push 1 false).2

theorem receivingFirst_lru : Lru receivingFirst receivingFirstPages := by
  have hqueue : ((PageRing.start.push 0 true).bind (fun r => r.2.push 1 false)).map Prod.snd = some receivingFirst.queue := rfl
  obtain ⟨r1, hfirst, hrep1⟩ := (PageRing.Rep.start (α := Nat)).push 0 true
  obtain ⟨r2, hsecond, hrep2⟩ := hrep1.push 1 false
  rw [hfirst, Option.bind_some, hsecond, Option.map_some] at hqueue
  cases hqueue
  refine ⟨hrep2, ?_⟩
  intro p hp
  have hp' : p ∈ [2, 3] := hp
  rcases List.mem_cons.mp hp' with rfl | hp'
  · exact ⟨0, _, rfl, rfl, rfl, rfl, rfl⟩
  · rw [List.mem_singleton.mp hp']
    exact ⟨1, _, rfl, rfl, rfl, rfl, rfl⟩

/-- The receiving block is the oldest, and one block of memory is asked for. -/
theorem refused_block_leaves : Lru receivingFirst receivingFirstPages ∧ ∃ refused freed n',
    receivingFirst.swapOut alone BLOCK_SIZE = some (refused, freed, n') ∧ 0 ∈ refused ∧
    (n'.heap.find? 0).map (fun b => (b.swappedOut, b.elem, b.writebackPage)) = some (true, some 0, some 2) ∧
    n'.queue.isInDirtyQueue 2 = false ∧ n'.queue.inUse = some [] ∧ ¬ Spared receivingFirst n' 0 := by
  refine ⟨receivingFirst_lru, _, _, _, rfl, by decide, by decide, by decide, by decide, ?_⟩
  rintro ⟨b, b', p, l, -, -, -, -, -, hl, hp, -⟩
  have hl' : some [] = some l := hl
  cases hl'
  cases hp

theorem refused_exact_receivingFirst :
    (∀ env, ∃ refused freed n', receivingFirst.swapOut env BLOCK_SIZE = some (refused, freed, n') ∧
      ∀ a ∈ refused, ¬ Spared receivingFirst n' a) ∧
    ((∀ env refused freed n', receivingFirst.swapOut env BLOCK_SIZE = some (refused, freed, n') →
      ∀ a ∈ refused, Spared receivingFirst n' a) ↔ EnoughBefore receivingFirst receivingFirstPages BLOCK_SIZE) :=
  refused_exact receivingFirst_lru BLOCK_SIZE

end CciNode

end HuronFS
