import HuronFS.IOnode.WriteBackSafe

/-!
# `IOnode.DirtyKept` — no dirty block is forgotten

`READ`, `WRITE` and `interval_process` of the handler, cut at every place where it has no lock on the block it looks at, so
that the remote task thread can write a block back in between. While a page is taken out of the ring by `swap_out`, its block
is the victim, and for it alone nothing is said; every other dirty block keeps a page in the ring that points to it and is in
the dirty list.

With TCP a block has received its data when `update_block_data` returns, so `swap_out` never meets one that receives.
-/

namespace HuronFS

/-- Where the handler is. `a` is the block it has locked, for a `WRITE` or not; `size` and `p` are those of `swap_out`. -/
inductive Place
  | idle
  | locked (a : Nat) (write : Bool)
  | evicting (a : Nat) (write : Bool) (size : Nat)
  | popped (a : Nat) (write : Bool) (size p : Nat)
  | writing (a : Nat) (write : Bool) (size p : Nat)
  | freeing (a : Nat) (write : Bool) (size p : Nat)
  | touching (a : Nat) (write : Bool)
  | checking (items : List Nat)
  | preparing (count : Nat) (pages : List Nat)
deriving DecidableEq, Repr

/-- The block whose `metalock` the handler holds. -/
def Place.lock : Place → Option Nat
  | .idle | .checking _ | .preparing _ _ => none
  | .locked a _ | .evicting a _ _ | .popped a _ _ _ | .writing a _ _ _ | .freeing a _ _ _ | .touching a _ => some a

/-- The page `swap_out` has taken out of the ring. -/
def Place.page : Place → Option Nat
  | .popped _ _ _ p | .writing _ _ _ p | .freeing _ _ _ p => some p
  | _ => none

/-- The IOnode, with the place of its handler. -/
structure SplitNode where
  node : AsyncNode
  place : Place

namespace SplitNode

open AsyncNode

def start (count : Nat) : SplitNode := { node := AsyncNode.start count, place := .idle }

/-- `allocate_memory` for the locked block. -/
def allocate (n : AsyncNode) (a : Nat) : Option AsyncNode :=
  match n.heap.find? a with
  | none => none
  | some b => (b.allocateMemory n.pool).map (fun (b, pool) => { n.setBlock a b with pool := pool })

/-- The handler's next piece of work. -/
def advance (n : AsyncNode) : Place → Option SplitNode
  | .idle => none
  | .locked a write =>
      match n.heap.find? a with
      | none => none
      | some b =>
          if b.needAllocation then some ⟨n, .evicting a write (if n.pool.hasMemoryLeft BLOCK_SIZE then 0 else BLOCK_SIZE)⟩
          else some ⟨n, .touching a write⟩
  | .evicting a write size =>
      match if size = 0 then none else n.queue.pop with
      | none => (allocate n a).map (fun n => ⟨n, .touching a write⟩)
      | some (p, queue) => some ⟨{ n with queue := queue }, .popped a write size p⟩
  | .popped a write size p =>
      match n.pageBlock p with
      | none => none
      | some (_, b) => some ⟨n, if b.dirtyFlag then .writing a write size p else .freeing a write size p⟩
  | .writing a write size p =>
      match n.pageBlock p with
      | none => none
      | some (v, b) =>
          some ⟨{ n.setBlock v { b with dirtyFlag := false } with queue := n.queue.delDirtyPage p }, .freeing a write size p⟩
  | .freeing a write size p =>
      match n.pageBlock p with
      | none => none
      | some (v, b) =>
          let (freed, b, pool) := b.freeMemory n.pool
          some ⟨{ n.setBlock v b with pool := pool }, .evicting a write (size - freed)⟩
  | .touching a write => (if write then n.markDirty a else n.updateAccessOrder a false).map (fun n => ⟨n, .idle⟩)
  | .checking [] => some ⟨{ n with writebackQueue := [] }, .preparing WRITEBACK_COUNTS n.queue.dirty⟩
  | .checking (a :: rest) =>
      match n.heap.find? a with
      | none => none
      | some b =>
          match b.dirtyFlag, b.writebackPage with
          | false, some p => some ⟨{ n with queue := n.queue.delDirtyPage p }, .checking rest⟩
          | _, _ => some ⟨n, .checking rest⟩
  | .preparing (count + 1) (p :: rest) =>
      match n.pageBlock p with
      | none => none
      | some (a, b) =>
          if b.dirtyFlag then some ⟨{ n with writebackQueue := n.writebackQueue ++ [a] }, .preparing count rest⟩
          else some ⟨n, .preparing (count + 1) rest⟩
  | .preparing _ _ => some ⟨{ n with passes := if n.writebackQueue = [] then n.passes else n.passes ++ [n.writebackQueue] }, .idle⟩

inductive Event
  | openFile (fileNo : Int) (startPoints : List Nat)
  | writeBlock (fileNo : Int) (startPoint : Nat)
  | readBlock (fileNo : Int) (startPoint : Nat)
  | interval
  | advance
  | startPass
  | writeNext (receiving : Bool)
  | endPass
deriving DecidableEq, Repr

/-- The block the pass writes back next. -/
def nextBlock (n : AsyncNode) : Option Nat :=
  match n.status with
  | .idle => none
  | .onGoing next => n.writebackQueue[next]?

def step (s : SplitNode) : Event → Option SplitNode
  | .openFile fileNo startPoints => if s.place = .idle then some { s with node := s.node.openFile fileNo startPoints } else none
  | .writeBlock fileNo startPoint =>
      if s.place ≠ .idle then none
      else if (s.node.files.find? fileNo).isNone then some s
      else
        let n := if (s.node.address fileNo startPoint).isSome then s.node else s.node.createNewBlock fileNo startPoint
        (n.address fileNo startPoint).map (fun a => ⟨n, .locked a true⟩)
  | .readBlock fileNo startPoint =>
      if s.place ≠ .idle then none
      else
        match s.node.address fileNo startPoint with
        | none => some s
        | some a => some { s with place := .locked a false }
  | .interval =>
      if s.place ≠ .idle then none
      else
        let n := s.node.removeFiles
        some ⟨n, if n.status = .idle then .checking n.writebackQueue else .idle⟩
  | .advance => advance s.node s.place
  | .startPass => s.node.startPass.map (fun n => { s with node := n })
  | .writeNext receiving =>
      -- the metalock of a block the handler has locked is not to be had
      if (nextBlock s.node).isSome ∧ nextBlock s.node = s.place.lock then none
      else (s.node.writeNext receiving).map (fun n => { s with node := n })
  | .endPass => s.node.endPass.map (fun n => { s with node := n })

/-- The block that `swap_out` is at. -/
def victim (s : SplitNode) : Option Nat := s.place.page.bind s.node.queue.data

end SplitNode

namespace AsyncNode

/-- `prepare_writeback_page` with any `int` as its count: a negative one is never used up. -/
def prepareWritebackPageCounted (n : AsyncNode) : (count : Int) → List Nat → Option (List Nat)
  | _, [] => some []
  | count, p :: rest =>
      if count = 0 then some []
      else
        match n.pageBlock p with
        | none => none
        | some (a, b) =>
            if b.dirtyFlag then (n.prepareWritebackPageCounted (count - 1) rest).map (a :: ·)
            else n.prepareWritebackPageCounted count rest

/-! ## What a state keeps -/

/-- The page each block names, the victim's left out. -/
def pageBut (n : AsyncNode) : Option Nat → Nat → Option Nat
  | none => n.page
  | some v => Function.update n.page v none

/-- The ring, the heap and the dirty list, while `victim` is taken out. -/
structure Kept (n : AsyncNode) (victim : Option Nat) : Prop where
  queue : n.queue.Ok n.Live (n.pageBut victim)
  memory : ∀ a b, n.heap.find? a = some b → b.writebackPage.isSome → b.valid = true ∧ b.elem.isSome
  fresh : ∀ a, n.Live a → a < n.created
  dirty : ∀ a b, n.heap.find? a = some b → b.dirtyFlag = true → victim ≠ some a → ∃ p, b.writebackPage = some p ∧ p ∈ n.queue.dirty

theorem pageBut_of_ne {n : AsyncNode} {victim : Option Nat} {a : Nat} (h : victim ≠ some a) : n.pageBut victim a = n.page a := by
  cases victim with
  | none => rfl
  | some v =>
      refine Function.update_of_ne ?_ _ _
      rintro rfl
      exact h rfl

namespace Kept

variable {n n' : AsyncNode} {victim : Option Nat}

theorem start (count : Nat) : Kept (AsyncNode.start count) none := by
  have hcore := (start_inv count).toCore
  refine ⟨hcore.queue, hcore.memory, hcore.fresh, ?_⟩
  intro a b hb
  cases hb

/-- The files, the queue of the pass and its place decide nothing. -/
theorem congr (h : Kept n victim) (hheap : n'.heap = n.heap) (hqueue : n'.queue = n.queue) (hcreated : n'.created = n.created) :
    Kept n' victim := by
  have hlive : n'.Live = n.Live := by
    funext a
    unfold Live
    rw [hheap]
  have hpage : n'.page = n.page := by
    funext a
    unfold page
    rw [hheap]
  have hbut : n'.pageBut victim = n.pageBut victim := by
    unfold pageBut
    rw [hpage]
  refine ⟨?_, ?_, ?_, ?_⟩
  · rw [hqueue, hlive, hbut]
    exact h.queue
  · rw [hheap]
    exact h.memory
  · rw [hlive, hcreated]
    exact h.fresh
  · rw [hheap, hqueue]
    exact h.dirty

theorem core (h : Kept n none) : Core n := ⟨h.queue, h.memory, h.fresh⟩

/-- What is said of a dirty block. -/
theorem tracked (h : Kept n victim) {a : Nat} {b : PagedBlock} (hb : n.heap.find? a = some b) (hd : b.dirtyFlag = true)
    (hv : victim ≠ some a) :
    ∃ p, b.writebackPage = some p ∧ p ∈ n.queue.tracked ∧ n.queue.data p = some a ∧ p ∈ n.queue.dirty := by
  obtain ⟨p, hp, hdirty⟩ := h.dirty a b hb hd hv
  have hpage : n.pageBut victim a = some p := by
    rw [pageBut_of_ne hv, page_of_find hb]
    exact hp
  obtain ⟨htracked, hdata⟩ := h.queue.tracked_of_page a p hpage
  exact ⟨p, hp, htracked, hdata, hdirty⟩

/-- **One block changes**, and the ring with it; the victim, if there was one, is this block. -/
theorem change (h : Kept n victim) {a : Nat} {b b' : PagedBlock} (hv : ∀ x, x ≠ a → victim ≠ some x)
    (hb : n.heap.find? a = some b) (hheap : ∀ x, n'.heap.find? x = if x = a then some b' else n.heap.find? x)
    (hcreated : n'.created = n.created) (hqueue : n'.queue.Ok n.Live (Function.update (n.pageBut victim) a b'.writebackPage))
    (hmem : b'.writebackPage.isSome → b'.valid = true ∧ b'.elem.isSome)
    (hself : b'.dirtyFlag = true → ∃ p, b'.writebackPage = some p ∧ p ∈ n'.queue.dirty)
    (hothers : ∀ x p, x ≠ a → n.pageBut victim x = some p → p ∈ n.queue.dirty → p ∈ n'.queue.dirty) : Kept n' none := by
  have hlive : n'.Live = n.Live := by
    funext x
    unfold Live
    rw [hheap]
    by_cases hx : x = a
    · rw [if_pos hx, hx, hb]
      rfl
    · rw [if_neg hx]
  have hpage : n'.page = Function.update (n.pageBut victim) a b'.writebackPage := by
    funext x
    unfold page
    rw [hheap]
    by_cases hx : x = a
    · rw [if_pos hx, hx, Function.update_self]
      rfl
    · rw [if_neg hx, Function.update_of_ne hx, pageBut_of_ne (hv x hx)]
      rfl
  refine ⟨?_, ?_, ?_, ?_⟩
  · show n'.queue.Ok n'.Live n'.page
    rw [hlive, hpage]
    exact hqueue
  · intro x c hc hp
    rw [hheap] at hc
    split at hc
    · cases hc
      exact hmem hp
    · exact h.memory x c hc hp
  · rw [hlive, hcreated]
    exact h.fresh
  · intro x c hc hd _
    rw [hheap] at hc
    by_cases hx : x = a
    · rw [if_pos hx] at hc
      cases hc
      exact hself hd
    · rw [if_neg hx] at hc
      obtain ⟨p, hp, hdirty⟩ := h.dirty x c hc hd (hv x hx)
      refine ⟨p, hp, hothers x p hx ?_ hdirty⟩
      rw [pageBut_of_ne (hv x hx), page_of_find hc]
      exact hp

/-- A block that is clean now asks for nothing, whichever it is. -/
theorem clean (h : Kept n victim) {a : Nat} {b : PagedBlock} (hb : n.heap.find? a = some b) :
    Kept (n.setBlock a { b with dirtyFlag := false }) victim := by
  have hfind : ∀ x c, (n.heap.put a { b with dirtyFlag := false }).find? x = some c →
      ∃ c', n.heap.find? x = some c' ∧ c = { c' with dirtyFlag := c.dirtyFlag } ∧ (c.dirtyFlag = true → c = c') := by
    intro x c hc
    rw [OrdMap.find?_put] at hc
    split at hc
    · rename_i hx
      cases hc
      rw [hx]
      exact ⟨b, hb, rfl, fun hd => by cases hd⟩
    · exact ⟨c, hc, rfl, fun _ => rfl⟩
  have hlive : (n.setBlock a { b with dirtyFlag := false }).Live = n.Live := by
    funext x
    show (((n.heap.put a { b with dirtyFlag := false }).find? x).isSome = true) = ((n.heap.find? x).isSome = true)
    rw [OrdMap.find?_put]
    split
    · rename_i hx
      rw [hx, hb]
      rfl
    · rfl
  have hpage : (n.setBlock a { b with dirtyFlag := false }).page = n.page := by
    funext x
    show ((n.heap.put a { b with dirtyFlag := false }).find? x).bind _ = (n.heap.find? x).bind _
    rw [OrdMap.find?_put]
    split
    · rename_i hx
      rw [hx, hb]
      rfl
    · rfl
  refine ⟨?_, ?_, ?_, ?_⟩
  · have hbut : (n.setBlock a { b with dirtyFlag := false }).pageBut victim = n.pageBut victim := by
      unfold pageBut
      rw [hpage]
    rw [hlive, hbut]
    exact h.queue
  · intro x c hc hp
    obtain ⟨c', hc', heq, -⟩ := hfind x c hc
    rw [heq] at hp ⊢
    exact h.memory x c' hc' hp
  · rw [hlive]
    exact h.fresh
  · intro x c hc hd hv
    obtain ⟨c', hc', -, heq⟩ := hfind x c hc
    have hcc := heq hd
    subst hcc
    exact h.dirty x c hc' hd hv

/-- A page leaves the dirty list that no dirty block names. -/
theorem delDirtyPage (h : Kept n victim) {p : Nat}
    (hp : ∀ a b, n.heap.find? a = some b → b.dirtyFlag = true → victim ≠ some a → b.writebackPage ≠ some p) :
    Kept { n with queue := n.queue.delDirtyPage p } victim := by
  refine ⟨h.queue.delDirtyPage p, h.memory, h.fresh, ?_⟩
  intro a b hb hd hv
  obtain ⟨r, hr, hdirty⟩ := h.dirty a b hb hd hv
  refine ⟨r, hr, (List.mem_erase_of_ne ?_).mpr hdirty⟩
  rintro rfl
  exact hp a b hb hd hv hr

/-- `pop` makes its block the victim. -/
theorem pop (h : Kept n none) {p : Nat} {queue : AccessQueue Nat} (hpop : n.queue.pop = some (p, queue)) :
    ∃ v c, n.queue.data p = some v ∧ n.heap.find? v = some c ∧ c.writebackPage = some p ∧ p ∉ queue.tracked ∧
      queue.data p = some v ∧ Kept { n with queue := queue } (some v) := by
  obtain ⟨v, hdata, hpage, hok⟩ := h.queue.pop hpop
  have hlive := h.queue.live_of_page v p hpage
  obtain ⟨c, hc⟩ := Option.isSome_iff_exists.mp hlive
  have hpage' : n.page v = some p := hpage
  rw [page_of_find hc] at hpage'
  have hnodup := hok.nodup
  unfold AccessQueue.pop at hpop
  split at hpop
  · cases hpop
  · rename_i r rest htracked
    cases hpop
    refine ⟨v, c, hdata, hc, hpage', ?_, hdata, hok, h.memory, h.fresh, ?_⟩
    · intro hmem
      exact List.disjoint_of_nodup_append hnodup hmem (List.mem_append_right _ (List.mem_singleton_self _))
    · intro a b hb hd _
      exact h.dirty a b hb hd (by simp)

/-- Memory for a block that has none. -/
theorem allocate (h : Kept n none) {a : Nat} (hr : SplitNode.allocate n a = some n') :
    Kept n' none ∧ ∃ b, n'.heap.find? a = some b ∧ b.valid = true ∧ b.elem.isSome := by
  unfold SplitNode.allocate at hr
  split at hr
  · cases hr
  · rename_i b hb
    obtain ⟨⟨b', pool⟩, halloc, rfl⟩ := Option.map_eq_some_iff.mp hr
    unfold PagedBlock.allocateMemory at halloc
    obtain ⟨⟨e, pool'⟩, -, heq⟩ := Option.map_eq_some_iff.mp halloc
    obtain ⟨rfl, rfl⟩ := Prod.mk.inj heq
    refine ⟨h.change (fun _ _ => by simp) hb (fun x => OrdMap.find?_put ..) rfl ?_ (fun _ => ⟨rfl, rfl⟩) ?_ ?_, _,
      OrdMap.find?_put_self .., rfl, rfl⟩
    · show n.queue.Ok n.Live (Function.update n.page a b.writebackPage)
      rw [← page_of_find hb, Function.update_eq_self]
      exact h.queue
    · intro hd
      exact h.dirty a b hb hd (by simp)
    · exact fun x p _ _ hp => hp

/-- The victim gives its memory back, and names its page no longer. -/
theorem free {v p : Nat} {c : PagedBlock} (h : Kept n (some v)) (hc : n.heap.find? v = some c) (hp : c.writebackPage = some p)
    (hclean : c.dirtyFlag = false) :
    Kept { n.setBlock v (c.freeMemory n.pool).2.1 with pool := (c.freeMemory n.pool).2.2 } none := by
  obtain ⟨hvalid, helem⟩ := h.memory v c hc (by rw [hp]; rfl)
  obtain ⟨e, he⟩ := Option.isSome_iff_exists.mp helem
  have hfreed : c.freeMemory n.pool = (BLOCK_SIZE, { c with elem := none, writebackPage := none }, n.pool.free e) := by
    simp [PagedBlock.freeMemory, hvalid, he, hclean]
  rw [hfreed]
  refine h.change ?_ hc (fun x => OrdMap.find?_put ..) rfl ?_ (fun hc => by cases hc) ?_ (fun x r _ _ hr => hr)
  · rintro x hx hv
    cases hv
    exact hx rfl
  · have hsame : Function.update (n.pageBut (some v)) v (none : Option Nat) = n.pageBut (some v) := Function.update_idem ..
    show n.queue.Ok n.Live (Function.update (n.pageBut (some v)) v none)
    rw [hsame]
    exact h.queue
  · intro hd
    rw [show ({ c with elem := none, writebackPage := none } : PagedBlock).dirtyFlag = c.dirtyFlag from rfl, hclean] at hd
    cases hd

/-- A block that was read or written is in the ring, and in the dirty list if it is dirty. -/
theorem updateAccessOrder {m : AsyncNode} (h : Kept n none) {a : Nat} {b : PagedBlock} {dirty : Bool} (hb : n.heap.find? a = some b)
    (hmem : b.valid = true ∧ b.elem.isSome)
    (hm : m = n ∧ dirty = false ∨ m = n.setBlock a { b with dirtyFlag := true } ∧ dirty = true)
    (hr : m.updateAccessOrder a dirty = some n') : Kept n' none := by
  -- `c` is the block with its flag set
  obtain ⟨c, hc, hpage, hvalid, helem, hflag⟩ : ∃ c, m.heap.find? a = some c ∧ c.writebackPage = b.writebackPage ∧ c.valid = true ∧
      c.elem.isSome ∧ (c.dirtyFlag = true → dirty = true ∨ b.dirtyFlag = true) := by
    rcases hm with ⟨rfl, rfl⟩ | ⟨rfl, rfl⟩
    · exact ⟨b, hb, rfl, hmem.1, hmem.2, Or.inr⟩
    · exact ⟨_, OrdMap.find?_put_self .., rfl, hmem.1, hmem.2, fun _ => Or.inl rfl⟩
  have hfind : ∀ x, m.heap.find? x = if x = a then some c else n.heap.find? x := by
    intro x
    by_cases hx : x = a
    · rw [if_pos hx, hx]
      exact hc
    · rw [if_neg hx]
      rcases hm with ⟨rfl, -⟩ | ⟨rfl, -⟩
      · rfl
      · exact OrdMap.find?_put_ne _ _ hx
  have hqueue : m.queue = n.queue ∧ m.created = n.created := by
    rcases hm with ⟨rfl, -⟩ | ⟨rfl, -⟩ <;> exact ⟨rfl, rfl⟩
  unfold AsyncNode.updateAccessOrder at hr
  rw [hc] at hr
  simp only [hpage, hqueue.1] at hr
  split at hr
  · -- its page becomes the youngest
    rename_i p hp
    cases hr
    have hpa : n.page a = some p := (page_of_find hb).trans hp
    have hnodup := h.queue.dirty_nodup
    refine h.change (fun _ _ => by simp) hb hfind hqueue.2 ?_ (fun _ => ⟨hvalid, helem⟩) ?_ ?_
    · show (n.queue.touch p dirty).Ok n.Live (Function.update n.page a c.writebackPage)
      rw [hpage, ← page_of_find hb, Function.update_eq_self]
      exact h.queue.touch hpa dirty
    · intro hd
      refine ⟨p, hpage.trans hp, ?_⟩
      show p ∈ (n.queue.touch p dirty).dirty
      have hdirty : dirty = true ∨ p ∈ n.queue.dirty := by
        rcases hflag hd with hd | hd
        · exact Or.inl hd
        · obtain ⟨r, hr, hdirty⟩ := h.dirty a b hb hd (by simp)
          rw [hp] at hr
          cases hr
          exact Or.inr hdirty
      rw [AccessQueue.touch_dirty hnodup, if_pos hdirty]
      exact List.mem_append_right _ (List.mem_singleton_self p)
    · intro x r hx hxr hr
      have hrp : r ≠ p := by
        rintro rfl
        have h1 := (h.queue.tracked_of_page x r hxr).2
        rw [(h.queue.tracked_of_page a r hpa).2] at h1
        cases h1
        exact hx rfl
      show r ∈ (n.queue.touch p dirty).dirty
      rw [AccessQueue.touch_dirty hnodup]
      split
      · exact List.mem_append_left _ ((List.mem_erase_of_ne hrp).mpr hr)
      · exact hr
  · -- it gets a page
    rename_i hp
    cases hr
    have hpa : n.page a = none := (page_of_find hb).trans hp
    have hnew : ∀ x, (m.heap.put a { c with writebackPage := some (n.queue.push a dirty).1 }).find? x =
        if x = a then some { c with writebackPage := some (n.queue.push a dirty).1 } else n.heap.find? x := by
      intro x
      rw [OrdMap.find?_put, hfind]
      split <;> rfl
    refine h.change (fun _ _ => by simp) hb hnew hqueue.2 (h.queue.push (live_of_find hb) hpa dirty) (fun _ => ⟨hvalid, helem⟩) ?_ ?_
    · intro hd
      refine ⟨_, rfl, ?_⟩
      rcases hflag hd with rfl | hd
      · exact n.queue.push_dirty a
      · obtain ⟨r, hr, -⟩ := h.dirty a b hb hd (by simp)
        rw [hp] at hr
        cases hr
    · intro x r _ _ hr
      exact n.queue.push_dirty_subset a dirty hr

/-- A new block is clean. -/
theorem createNewBlock (h : Kept n none) (fileNo : Int) (startPoint : Nat) : Kept (n.createNewBlock fileNo startPoint) none := by
  obtain ⟨hcore, -⟩ := h.core.createNewBlock fileNo startPoint
  refine ⟨hcore.queue, hcore.memory, hcore.fresh, ?_⟩
  intro a b hb hd hv
  have hb' : (n.heap.put n.created PagedBlock.create).find? a = some b := hb
  rw [OrdMap.find?_put] at hb'
  split at hb'
  · cases hb'
    cases hd
  · exact h.dirty a b hb' hd hv

theorem openFile (h : Kept n none) (fileNo : Int) (startPoints : List Nat) : Kept (n.openFile fileNo startPoints) none := by
  unfold AsyncNode.openFile
  split
  · exact h
  · have hopened : Kept { n with files := n.files.put fileNo ⟨false, OrdMap.empty⟩ } none := h.congr rfl rfl rfl
    generalize ({ n with files := n.files.put fileNo ⟨false, OrdMap.empty⟩ } : AsyncNode) = m at hopened
    induction startPoints generalizing m with
    | nil => exact hopened
    | cons startPoint rest ih => exact ih _ (hopened.createNewBlock fileNo startPoint)

/-- A count below zero is not used up: every dirty block of the list is taken. -/
theorem prepareWritebackPageCounted_neg {count : Int} (hcount : count < 0) {pages : List Nat}
    (hpages : ∀ p ∈ pages, ∃ a, n.queue.data p = some a ∧ n.Live a) :
    n.prepareWritebackPageCounted count pages = some (pages.filterMap n.dirtyBlock?) := by
  induction pages generalizing count with
  | nil => rfl
  | cons p rest ih =>
      obtain ⟨a, hdata, hlive⟩ := hpages p List.mem_cons_self
      obtain ⟨b, hb⟩ := Option.isSome_iff_exists.mp hlive
      have hblock : n.pageBlock p = some (a, b) := by
        unfold pageBlock
        rw [hdata, Option.bind_some, hb]
        rfl
      have hrest : ∀ r ∈ rest, ∃ a, n.queue.data r = some a ∧ n.Live a := fun r hr => hpages r (List.mem_cons_of_mem p hr)
      have hne : count ≠ 0 := by omega
      have hdirty : n.dirtyBlock? p = if b.dirtyFlag then some a else none := by
        unfold dirtyBlock?
        rw [hblock]
        rfl
      simp only [AsyncNode.prepareWritebackPageCounted, if_neg hne, hblock]
      by_cases hd : b.dirtyFlag = true
      · have hcount' : count - 1 < 0 := by omega
        rw [if_pos hd, ih hcount' hrest, List.filterMap_cons_some (hdirty.trans (if_pos hd))]
        rfl
      · rw [if_neg hd, ih hcount hrest, List.filterMap_cons_none (hdirty.trans (if_neg hd))]

/-- An unbounded `prepare_writeback_page` finds every dirty block but the victim. -/
theorem prepared (h : Kept n victim) : ∃ blocks, n.prepareWritebackPageCounted (-1) n.queue.dirty = some blocks ∧
    ∀ a b, n.heap.find? a = some b → b.dirtyFlag = true → victim ≠ some a → a ∈ blocks := by
  refine ⟨_, prepareWritebackPageCounted_neg (by omega) h.queue.live_of_dirty, ?_⟩
  intro a b hb hd hv
  obtain ⟨p, -, -, hdata, hdirty⟩ := h.tracked hb hd hv
  refine List.mem_filterMap.mpr ⟨p, hdirty, ?_⟩
  unfold dirtyBlock? pageBlock
  rw [hdata, Option.bind_some, hb, Option.map_some, Option.bind_some, if_pos hd]

end Kept

/-- The bounded search is the same, its count a natural number. -/
theorem prepareWritebackPage_counted (n : AsyncNode) (count : Nat) (pages : List Nat) :
    n.prepareWritebackPage count pages = n.prepareWritebackPageCounted count pages := by
  induction pages generalizing count with
  | nil => cases count <;> rfl
  | cons p rest ih =>
      cases count with
      | zero => rfl
      | succ count =>
          have hne : ((count + 1 : Nat) : Int) ≠ 0 := by omega
          have hpred : ((count + 1 : Nat) : Int) - 1 = (count : Int) := by omega
          cases hblock : n.pageBlock p with
          | none => simp only [prepareWritebackPage, prepareWritebackPageCounted, if_neg hne, hblock]
          | some e => simp only [prepareWritebackPage, prepareWritebackPageCounted, if_neg hne, hblock, hpred, ih]

theorem openFile_removeFileList (n : AsyncNode) (fileNo : Int) (startPoints : List Nat) :
    (n.openFile fileNo startPoints).removeFileList = n.removeFileList := by
  unfold openFile
  split
  · rfl
  · show _ = ({ n with files := n.files.put fileNo ⟨false, OrdMap.empty⟩ } : AsyncNode).removeFileList
    generalize ({ n with files := n.files.put fileNo ⟨false, OrdMap.empty⟩ } : AsyncNode) = m
    induction startPoints generalizing m with
    | nil => rfl
    | cons startPoint rest ih => exact (ih _).trans rfl

end AsyncNode

namespace SplitNode

open AsyncNode

/-- The page that was taken out, and the block that still names it. -/
structure Taken (n : AsyncNode) (p v : Nat) (c : PagedBlock) : Prop where
  data : n.queue.data p = some v
  find : n.heap.find? v = some c
  page : c.writebackPage = some p
  out : p ∉ n.queue.tracked

/-- What the handler relies on where it is. -/
def Fits (n : AsyncNode) : Place → Prop
  | .idle | .locked _ _ | .evicting _ _ _ | .checking _ | .preparing _ _ => True
  | .popped _ _ _ p | .writing _ _ _ p => ∃ v c, Taken n p v c
  | .freeing _ _ _ p => ∃ v c, Taken n p v c ∧ c.dirtyFlag = false
  | .touching a _ => ∃ b, n.heap.find? a = some b ∧ b.valid = true ∧ b.elem.isSome

/-- The invariant of the two threads. -/
structure Inv (s : SplitNode) : Prop where
  kept : Kept s.node s.victim
  fits : Fits s.node s.place
  noRemoval : s.node.removeFileList = []

theorem Taken.pageBlock {n : AsyncNode} {p v : Nat} {c : PagedBlock} (h : Taken n p v c) : n.pageBlock p = some (v, c) := by
  unfold AsyncNode.pageBlock
  rw [h.data, Option.bind_some, h.find]
  rfl

/-- A block is cleaned under the handler's hands. -/
theorem Fits.clean {n : AsyncNode} {place : Place} (h : Fits n place) {a : Nat} {b : PagedBlock} (hb : n.heap.find? a = some b) :
    Fits (n.setBlock a { b with dirtyFlag := false }) place := by
  have hfind : ∀ x c, n.heap.find? x = some c → ∃ c', (n.heap.put a { b with dirtyFlag := false }).find? x = some c' ∧
      c'.writebackPage = c.writebackPage ∧ c'.valid = c.valid ∧ c'.elem = c.elem ∧ (c.dirtyFlag = false → c'.dirtyFlag = false) := by
    intro x c hc
    rw [OrdMap.find?_put]
    split
    · rename_i hx
      rw [hx, hb] at hc
      cases hc
      exact ⟨_, rfl, rfl, rfl, rfl, fun _ => rfl⟩
    · exact ⟨c, hc, rfl, rfl, rfl, id⟩
  have htaken : ∀ p v c, Taken n p v c → ∃ c', Taken (n.setBlock a { b with dirtyFlag := false }) p v c' ∧
      (c.dirtyFlag = false → c'.dirtyFlag = false) := by
    intro p v c hc
    obtain ⟨c', hc', hpage, -, -, hd⟩ := hfind v c hc.find
    exact ⟨c', ⟨hc.data, hc', hpage.trans hc.page, hc.out⟩, hd⟩
  cases place with
  | popped _ _ _ p | writing _ _ _ p =>
      obtain ⟨v, c, hc⟩ := h
      obtain ⟨c', hc', -⟩ := htaken p v c hc
      exact ⟨v, c', hc'⟩
  | freeing _ _ _ p =>
      obtain ⟨v, c, hc, hd⟩ := h
      obtain ⟨c', hc', hd'⟩ := htaken p v c hc
      exact ⟨v, c', hc', hd' hd⟩
  | touching a' _ =>
      obtain ⟨c, hc, hvalid, helem⟩ := h
      obtain ⟨c', hc', -, hv, he, -⟩ := hfind a' c hc
      exact ⟨c', hc', hv.trans hvalid, he ▸ helem⟩
  | _ => trivial

namespace Inv

variable {s s' : SplitNode}

theorem start (count : Nat) : Inv (start count) := ⟨Kept.start count, trivial, rfl⟩

/-- The handler is not inside `swap_out`. -/
theorem of_quiet {n : AsyncNode} {place : Place} (hkept : Kept n none) (hpage : place.page = none) (hfits : Fits n place)
    (hremoval : n.removeFileList = []) : Inv ⟨n, place⟩ := by
  refine ⟨?_, hfits, hremoval⟩
  unfold victim
  rw [hpage]
  exact hkept

/-- The handler is at the page it took out. -/
theorem of_taken {n : AsyncNode} {place : Place} {p v : Nat} (hkept : Kept n (some v)) (hpage : place.page = some p)
    (hdata : n.queue.data p = some v) (hfits : Fits n place) (hremoval : n.removeFileList = []) : Inv ⟨n, place⟩ := by
  refine ⟨?_, hfits, hremoval⟩
  unfold victim
  rw [hpage, Option.bind_some, hdata]
  exact hkept

theorem victim_taken {n : AsyncNode} {place : Place} {p v : Nat} (h : Inv ⟨n, place⟩) (hpage : place.page = some p)
    (hdata : n.queue.data p = some v) : Kept n (some v) := by
  have hkept := h.kept
  unfold victim at hkept
  rw [hpage, Option.bind_some, hdata] at hkept
  exact hkept

theorem allocate_removeFileList {n n' : AsyncNode} {a : Nat} (hr : SplitNode.allocate n a = some n') :
    n'.removeFileList = n.removeFileList := by
  unfold SplitNode.allocate at hr
  split at hr
  · cases hr
  · obtain ⟨⟨b', pool⟩, -, rfl⟩ := Option.map_eq_some_iff.mp hr
    rfl

theorem updateAccessOrder_removeFileList {n n' : AsyncNode} {a : Nat} {dirty : Bool} (hr : n.updateAccessOrder a dirty = some n') :
    n'.removeFileList = n.removeFileList := by
  unfold AsyncNode.updateAccessOrder at hr
  split at hr
  · cases hr
  · split at hr <;> cases hr <;> rfl

/-- **Each piece of the handler's work** keeps every dirty block but the victim in the list. -/
theorem advance {n : AsyncNode} {place : Place} (h : Inv ⟨n, place⟩) (hr : SplitNode.advance n place = some s') : Inv s' := by
  have hremoval : n.removeFileList = [] := h.noRemoval
  cases place with
  | idle => cases hr
  | locked a write =>
      simp only [SplitNode.advance] at hr
      split at hr
      · cases hr
      · rename_i b hb
        split at hr
        · cases hr
          exact of_quiet h.kept rfl trivial hremoval
        · rename_i hneed
          cases hr
          refine of_quiet h.kept rfl ⟨b, hb, ?_⟩ hremoval
          simpa [PagedBlock.needAllocation, Option.isSome_iff_ne_none] using hneed
  | evicting a write size =>
      have hkept : Kept n none := h.kept
      simp only [SplitNode.advance] at hr
      split at hr
      · obtain ⟨m, hm, rfl⟩ := Option.map_eq_some_iff.mp hr
        obtain ⟨hkept', hloaded⟩ := hkept.allocate hm
        exact of_quiet hkept' rfl hloaded ((allocate_removeFileList hm).trans hremoval)
      · rename_i p queue hpop
        cases hr
        have hpop' : n.queue.pop = some (p, queue) := by
          split at hpop
          · cases hpop
          · exact hpop
        obtain ⟨v, c, -, hfind, hpage, hout, hdata, hkept'⟩ := hkept.pop hpop'
        exact of_taken hkept' rfl hdata ⟨v, c, hdata, hfind, hpage, hout⟩ hremoval
  | popped a write size p =>
      obtain ⟨v, c, hc⟩ := h.fits
      have hkept := h.victim_taken rfl hc.data
      simp only [SplitNode.advance, hc.pageBlock] at hr
      cases hr
      by_cases hd : c.dirtyFlag = true
      · rw [if_pos hd]
        exact of_taken hkept rfl hc.data ⟨v, c, hc⟩ hremoval
      · rw [if_neg hd]
        exact of_taken hkept rfl hc.data ⟨v, c, hc, Bool.eq_false_iff.mpr hd⟩ hremoval
  | writing a write size p =>
      obtain ⟨v, c, hc⟩ := h.fits
      have hkept := h.victim_taken rfl hc.data
      simp only [SplitNode.advance, hc.pageBlock] at hr
      cases hr
      have hcleaned := hkept.clean hc.find
      refine of_taken (hcleaned.delDirtyPage ?_) rfl hc.data ?_ hremoval
      · -- the pages other dirty blocks name are in the ring
        intro x d hd hdirty hx hp
        obtain ⟨r, hr, htracked, -, -⟩ := hcleaned.tracked hd hdirty hx
        rw [hp] at hr
        cases hr
        exact hc.out htracked
      · exact ⟨v, _, ⟨hc.data, OrdMap.find?_put_self .., hc.page, hc.out⟩, rfl⟩
  | freeing a write size p =>
      obtain ⟨v, c, hc, hclean⟩ := h.fits
      have hkept := h.victim_taken rfl hc.data
      simp only [SplitNode.advance, hc.pageBlock] at hr
      cases hr
      exact of_quiet (hkept.free hc.find hc.page hclean) rfl trivial hremoval
  | touching a write =>
      obtain ⟨b, hb, hmem⟩ := h.fits
      have hkept : Kept n none := h.kept
      simp only [SplitNode.advance] at hr
      obtain ⟨m, hm, rfl⟩ := Option.map_eq_some_iff.mp hr
      cases write with
      | false =>
          rw [if_neg Bool.false_ne_true] at hm
          exact of_quiet (hkept.updateAccessOrder hb hmem (Or.inl ⟨rfl, rfl⟩) hm) rfl trivial
            ((updateAccessOrder_removeFileList hm).trans hremoval)
      | true =>
          rw [if_pos rfl] at hm
          unfold AsyncNode.markDirty at hm
          rw [hb] at hm
          exact of_quiet (hkept.updateAccessOrder hb hmem (Or.inr ⟨rfl, rfl⟩) hm) rfl trivial
            ((updateAccessOrder_removeFileList hm).trans hremoval)
  | checking items =>
      have hkept : Kept n none := h.kept
      cases items with
      | nil =>
          cases hr
          exact of_quiet (hkept.congr rfl rfl rfl) rfl trivial hremoval
      | cons a rest =>
          simp only [SplitNode.advance] at hr
          split at hr
          · cases hr
          · rename_i b hb
            split at hr
            · rename_i p hd hp
              cases hr
              refine of_quiet (hkept.delDirtyPage ?_) rfl trivial hremoval
              -- the page of a clean block is no dirty block's page
              intro x c hc hdirty _ hcp
              have h1 := (hkept.queue.tracked_of_page x p ((page_of_find hc).trans hcp)).2
              rw [(hkept.queue.tracked_of_page a p ((page_of_find hb).trans hp)).2] at h1
              cases h1
              rw [hb] at hc
              cases hc
              rw [hd] at hdirty
              cases hdirty
            · cases hr
              exact of_quiet hkept rfl trivial hremoval
  | preparing count pages =>
      have hkept : Kept n none := h.kept
      cases count with
      | zero =>
          cases hr
          exact of_quiet (hkept.congr rfl rfl rfl) rfl trivial hremoval
      | succ count =>
          cases pages with
          | nil =>
              cases hr
              exact of_quiet (hkept.congr rfl rfl rfl) rfl trivial hremoval
          | cons p rest =>
              simp only [SplitNode.advance] at hr
              split at hr
              · cases hr
              · split at hr
                · cases hr
                  exact of_quiet (hkept.congr rfl rfl rfl) rfl trivial hremoval
                · cases hr
                  exact of_quiet hkept rfl trivial hremoval

/-- What the pass does to its own place and to its queue. -/
theorem of_same {n : AsyncNode} (h : Inv s) (hheap : n.heap = s.node.heap) (hqueue : n.queue = s.node.queue)
    (hcreated : n.created = s.node.created) (hremoval : n.removeFileList = s.node.removeFileList) : Inv { s with node := n } := by
  have hvictim : victim { s with node := n } = s.victim := by
    unfold victim
    rw [hqueue]
  refine ⟨?_, ?_, hremoval.trans h.noRemoval⟩
  · rw [hvictim]
    exact h.kept.congr hheap hqueue hcreated
  · have hfits := h.fits
    have htaken : ∀ p v c, Taken s.node p v c → Taken n p v c := by
      intro p v c hc
      refine ⟨?_, ?_, hc.page, ?_⟩
      · rw [hqueue]
        exact hc.data
      · rw [hheap]
        exact hc.find
      · rw [hqueue]
        exact hc.out
    show Fits n s.place
    cases hplace : s.place with
    | popped _ _ _ p | writing _ _ _ p =>
        rw [hplace] at hfits
        obtain ⟨v, c, hc⟩ := hfits
        exact ⟨v, c, htaken p v c hc⟩
    | freeing _ _ _ p =>
        rw [hplace] at hfits
        obtain ⟨v, c, hc, hd⟩ := hfits
        exact ⟨v, c, htaken p v c hc, hd⟩
    | touching a _ =>
        rw [hplace] at hfits
        obtain ⟨b, hb, hmem⟩ := hfits
        exact ⟨b, hheap ▸ hb, hmem⟩
    | _ => trivial

/-- The pass writes one block back, wherever the handler is. -/
theorem writeNext {n : AsyncNode} {receiving : Bool} (h : Inv s) (hr : s.node.writeNext receiving = some n) : Inv { s with node := n } := by
  unfold AsyncNode.writeNext at hr
  split at hr
  · cases hr
  · split at hr
    · cases hr
    · split at hr
      · cases hr
      · rename_i b hb
        cases hr
        split
        · have hcleaned : Inv { s with node := s.node.setBlock _ { b with dirtyFlag := false } } :=
            ⟨h.kept.clean hb, h.fits.clean hb, h.noRemoval⟩
          have hmoved := fun n => of_same (n := n) hcleaned
          exact hmoved _ rfl rfl rfl rfl
        · exact of_same h rfl rfl rfl rfl

theorem step {e : Event} (h : Inv s) (hr : s.step e = some s') : Inv s' := by
  have hquiet : s.place = .idle → Kept s.node none := by
    intro hidle
    have hkept := h.kept
    unfold victim at hkept
    rw [hidle] at hkept
    exact hkept
  cases e with
  | openFile fileNo startPoints =>
      simp only [SplitNode.step] at hr
      split at hr
      · rename_i hidle
        cases hr
        rw [hidle]
        refine of_quiet ((hquiet hidle).openFile fileNo startPoints) rfl trivial ?_
        rw [openFile_removeFileList]
        exact h.noRemoval
      · cases hr
  | writeBlock fileNo startPoint =>
      simp only [SplitNode.step] at hr
      split at hr
      · cases hr
      · rename_i hidle
        rw [ne_eq, not_not] at hidle
        split at hr
        · cases hr
          exact h
        · obtain ⟨a, -, rfl⟩ := Option.map_eq_some_iff.mp hr
          split
          · exact of_quiet (hquiet hidle) rfl trivial h.noRemoval
          · exact of_quiet ((hquiet hidle).createNewBlock fileNo startPoint) rfl trivial h.noRemoval
  | readBlock fileNo startPoint =>
      simp only [SplitNode.step] at hr
      split at hr
      · cases hr
      · rename_i hidle
        rw [ne_eq, not_not] at hidle
        split at hr <;> cases hr
        · exact h
        · exact of_quiet (hquiet hidle) rfl trivial h.noRemoval
  | interval =>
      simp only [SplitNode.step] at hr
      split at hr
      · cases hr
      · rename_i hidle
        rw [ne_eq, not_not] at hidle
        cases hr
        have hsame : s.node.removeFiles = s.node := by
          unfold removeFiles
          rw [h.noRemoval]
          split
          · show { s.node with removeFileList := [] } = s.node
            rw [← h.noRemoval]
          · rfl
        rw [hsame]
        split <;> exact of_quiet (hquiet hidle) rfl trivial h.noRemoval
  | advance => exact Inv.advance h hr
  | startPass =>
      obtain ⟨n, hn, rfl⟩ := Option.map_eq_some_iff.mp hr
      unfold AsyncNode.startPass at hn
      split at hn
      · cases hn
        exact of_same h rfl rfl rfl rfl
      · cases hn
  | writeNext receiving =>
      simp only [SplitNode.step] at hr
      split at hr
      · cases hr
      · obtain ⟨n, hn, rfl⟩ := Option.map_eq_some_iff.mp hr
        exact h.writeNext hn
  | endPass =>
      obtain ⟨n, hn, rfl⟩ := Option.map_eq_some_iff.mp hr
      unfold AsyncNode.endPass at hn
      split at hn
      · cases hn
      · split at hn
        · cases hn
        · cases hn
          exact of_same h rfl rfl rfl rfl

end Inv

/-- What a state outside the handler's work on a block is to satisfy, and any state but for the victim. -/
structure DirtyTracked (s : SplitNode) : Prop where
  tracked : ∀ a b, s.node.heap.find? a = some b → b.dirtyFlag = true → s.victim ≠ some a →
    ∃ p, b.writebackPage = some p ∧ p ∈ s.node.queue.tracked ∧ s.node.queue.data p = some a ∧ p ∈ s.node.queue.dirty
  prepared : ∃ blocks, s.node.prepareWritebackPageCounted (-1) s.node.queue.dirty = some blocks ∧
    ∀ a b, s.node.heap.find? a = some b → b.dirtyFlag = true → s.victim ≠ some a → a ∈ blocks

/-- **No dirty block is forgotten.** However the handler's work is interleaved with the write-back: every dirty block but the one
`swap_out` has in hand has a page in the ring, which points to it and is in the dirty list, so that an unbounded
`prepare_writeback_page` finds it. Between two requests and inside `interval_process` there is no such exception. -/
theorem no_dirty_block_forgotten (count : Nat) {events : List Event} {s : SplitNode}
    (hr : Run.run step (start count) events = some s) : DirtyTracked s ∧ (s.place.lock = none → s.victim = none) := by
  have hstep : ∀ (m : SplitNode) e m', Inv m → True → m.step e = some m' → Inv m' := fun m e m' hm _ hs => hm.step hs
  have h := Run.run_invariant hstep (Inv.start count) (Run.Guarded.of_forall (fun _ _ => trivial)) hr
  refine ⟨⟨fun a b hb hd hv => h.kept.tracked hb hd hv, h.kept.prepared⟩, ?_⟩
  intro hlock
  unfold victim
  cases hplace : s.place with
  | idle | checking _ | preparing _ _ => rfl
  | _ =>
      rw [hplace] at hlock
      cases hlock

/-- Memory for two blocks: the third write takes the page of the first block, which the pass cleans between `need_writeback` and
`writeback`; the second block is written again while it is in the queue of the pass. -/
def contendedRun : List Event :=
  [.openFile 1 [], .writeBlock 1 0, .advance, .advance, .advance, .writeBlock 1 BLOCK_SIZE, .advance, .advance, .advance, .interval,
    .advance, .advance, .advance, .advance, .startPass, .writeBlock 1 (2 * BLOCK_SIZE), .advance, .advance, .advance, .writeNext false,
    .advance, .advance, .advance, .advance, .writeNext false, .writeBlock 1 BLOCK_SIZE, .advance, .advance, .endPass, .interval,
    .advance, .advance, .advance]

theorem no_dirty_block_forgotten_contended : (Run.run step (start 2) contendedRun).isSome ∧
    ∀ s, Run.run step (start 2) contendedRun = some s → DirtyTracked s ∧ (s.place.lock = none → s.victim = none) := by
  refine ⟨by decide +kernel, ?_⟩
  intro s hr
  exact no_dirty_block_forgotten 2 hr

end SplitNode

end HuronFS
