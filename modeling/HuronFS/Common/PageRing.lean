import Mathlib.Data.List.Perm.Subperm
import HuronFS.Lib.LinkedRing
import HuronFS.Lib.Run
import HuronFS.Common.AccessQueue

/-!
# `Common.PageRing` — the pointers of an `access_queue` (`CBB_basic_swap.h`, `CBB_list.h`)

`AccessQueue` says what the queue is for: the pages in use, oldest first, the pages that wait, and the dirty ones. Here are
the pointers the code keeps. All pages hang in one ring by `next` and `prev`; `head` and `tail` are two of them, and which
two they are changes with every `push` that reuses a page and every `pop`. The dirty pages hang in a ring of their own, with
one page more that is never anything else: `first_dirty_page` and `last_dirty_page` are both this page.

A page is the number it was created under. An operation that follows a null pointer has no result.
-/

namespace HuronFS

/-- A place in the dirty ring. -/
inductive DirtyNode
  | sentinel
  | page (p : Nat)
  deriving DecidableEq

/-- `access_queue`, with the fields of its pages. -/
structure PageRing (α : Type*) where
  ring : Links Nat
  dirtyRing : Links DirtyNode
  data : Nat → Option α
  head : Nat
  tail : Nat
  created : Nat

namespace PageRing

variable {α : Type*}

/-- The constructor: `head` and `tail` are each other's neighbours on both sides. -/
def start : PageRing α where
  ring := ((((⟨fun _ => none, fun _ => none⟩ : Links Nat).setNext 0 (some 1)).setPrev 0 (some 1)).setNext 1 (some 0)).setPrev 1 (some 0)
  dirtyRing := ((⟨fun _ => none, fun _ => none⟩ : Links DirtyNode).setNext .sentinel (some .sentinel)).setPrev .sentinel (some .sentinel)
  data := fun _ => none
  head := 0
  tail := 1
  created := 2

/-- `is_in_dirty_queue`. -/
def isInDirtyQueue (r : PageRing α) (p : Nat) : Bool := (r.dirtyRing.next (.page p)).isSome

/-- `push_dirty_page`. -/
def pushDirtyPage (r : PageRing α) (p : Nat) : Option (PageRing α) :=
  if r.isInDirtyQueue p then some r
  else (r.dirtyRing.insertBefore .sentinel (.page p)).map (fun d => { r with dirtyRing := d })

/-- `del_dirty_page`. -/
def delDirtyPage (r : PageRing α) (p : Nat) : Option (PageRing α) :=
  if r.isInDirtyQueue p then (r.dirtyRing.remove (.page p)).map (fun d => { r with dirtyRing := d })
  else some r

/-- `del`. -/
def del (r : PageRing α) (p : Nat) : Option (PageRing α) :=
  (r.ring.unlink p).bind (fun m => { r with ring := m }.delDirtyPage p)

/-- `b->get_prev()->insert_after(p)`. -/
def insertBehind (r : PageRing α) (b p : Nat) : Option (PageRing α) :=
  (r.ring.prev b).bind (fun a => (r.ring.insertAfter a p).map (fun m => { r with ring := m }))

/-- `enqueue`. -/
def enqueue (r : PageRing α) (p : Nat) : Option (PageRing α) := r.insertBehind r.head p

/-- `is_full`. -/
def isFull (r : PageRing α) : Bool := r.ring.next r.head == some r.tail

/-- `push`, before its last step. -/
def track (r : PageRing α) (a : α) : Option (Nat × PageRing α) :=
  if r.isFull then
    ({ r with data := Function.update r.data r.created (some a), created := r.created + 1 }.enqueue r.created).map
      (fun r' => (r.created, r'))
  else
    (r.ring.next r.head).map (fun n => (r.head, { r with data := Function.update r.data r.head (some a), head := n }))

/-- `push`. -/
def push (r : PageRing α) (a : α) (dirty : Bool) : Option (Nat × PageRing α) :=
  (r.track a).bind (fun (p, r) => if dirty then (r.pushDirtyPage p).map (fun r => (p, r)) else some (p, r))

/-- `pop`. The page is null when `head` comes right after `tail`. -/
def pop (r : PageRing α) : Option (Option Nat × PageRing α) :=
  (r.ring.next r.tail).map (fun ret => if ret ≠ r.head then (some ret, { r with tail := ret }) else (none, r))

/-- `touch`. -/
def touch (r : PageRing α) (p : Nat) (dirty : Bool) : Option (PageRing α) :=
  let dirtyAlready := r.isInDirtyQueue p
  ((r.del p).bind (fun r => r.enqueue p)).bind (fun r => if dirty || dirtyAlready then r.pushDirtyPage p else some r)

/-- `erase`. -/
def erase (r : PageRing α) (p : Nat) : Option (PageRing α) := (r.del p).bind (fun r => r.insertBehind r.tail p)

/-- The pages met going by `next` from `tail` to `head`. -/
def inUse (r : PageRing α) : Option (List Nat) := r.ring.walk r.head r.created r.tail

/-! ## The pointers hang as the lists say -/

/-- The ring holds the pages of `q`, those in use first; `head` and `tail` bound those that wait. -/
structure Rep (r : PageRing α) (q : AccessQueue α) : Prop where
  ring : r.ring.Ring (q.tracked ++ q.free)
  free : ∃ mid, q.free = r.head :: (mid ++ [r.tail])
  dirtyRing : r.dirtyRing.Ring (.sentinel :: q.dirty.map .page)
  clean : ∀ p, p ∉ q.dirty → r.dirtyRing.next (.page p) = none
  data : r.data = q.data
  created : r.created = q.created
  mem : ∀ p, p ∈ q.tracked ++ q.free ↔ p < q.created

namespace Rep

variable {r : PageRing α} {q : AccessQueue α}

theorem start : Rep (PageRing.start : PageRing α) AccessQueue.start := by
  refine ⟨⟨by decide, ⟨rfl, rfl⟩, rfl, rfl⟩, ⟨[], rfl⟩, ⟨List.nodup_singleton _, rfl, rfl⟩, fun p _ => rfl, rfl, rfl, ?_⟩
  intro p
  show p ∈ [0, 1] ↔ p < 2
  simp only [List.mem_cons, List.not_mem_nil, or_false]
  omega

/-- The ring that begins with `head`. -/
theorem ringAtHead (h : Rep r q) : ∃ mid, q.free = r.head :: (mid ++ [r.tail]) ∧ r.ring.Ring (q.tracked ++ r.head :: (mid ++ [r.tail])) := by
  obtain ⟨mid, hfree⟩ := h.free
  refine ⟨mid, hfree, ?_⟩
  rw [← hfree]
  exact h.ring

/-! ## The dirty ring -/

theorem isInDirtyQueue (h : Rep r q) (p : Nat) : r.isInDirtyQueue p = decide (p ∈ q.dirty) := by
  unfold PageRing.isInDirtyQueue
  by_cases hp : p ∈ q.dirty
  · rw [decide_eq_true hp]
    exact h.dirtyRing.next_isSome (List.mem_cons_of_mem _ (List.mem_map_of_mem hp))
  · rw [decide_eq_false hp, h.clean p hp]
    rfl

theorem pushDirtyPage (h : Rep r q) (p : Nat) : ∃ r', r.pushDirtyPage p = some r' ∧ Rep r' (q.pushDirtyPage p) := by
  unfold PageRing.pushDirtyPage AccessQueue.pushDirtyPage
  rw [h.isInDirtyQueue]
  by_cases hp : p ∈ q.dirty
  · rw [decide_eq_true hp, if_pos rfl, if_pos hp]
    exact ⟨r, rfl, h⟩
  · have hfresh : DirtyNode.page p ∉ .sentinel :: q.dirty.map .page := by
      intro hc
      rcases List.mem_cons.mp hc with hc | hc
      · cases hc
      · obtain ⟨p', hp', heq⟩ := List.mem_map.mp hc
        cases heq
        exact hp hp'
    obtain ⟨d, hd, hring, hkeeps⟩ := h.dirtyRing.insertBefore hfresh
    rw [decide_eq_false hp, if_neg Bool.false_ne_true, if_neg hp, hd, Option.map_some]
    refine ⟨_, rfl, h.ring, h.free, ?_, ?_, h.data, h.created, h.mem⟩
    · rw [List.map_append]
      exact hring
    · intro p' hp'
      have hne : DirtyNode.page p' ∉ .sentinel :: q.dirty.map .page ++ [.page p] := by
        intro hc
        rcases List.mem_append.mp hc with hc | hc
        · rcases List.mem_cons.mp hc with hc | hc
          · cases hc
          · obtain ⟨p'', hp'', heq⟩ := List.mem_map.mp hc
            cases heq
            exact hp' (List.mem_append_left _ hp'')
        · cases List.mem_singleton.mp hc
          exact hp' (List.mem_append_right _ (List.mem_singleton_self _))
      rw [(hkeeps _ hne).1]
      exact h.clean p' (fun hc => hp' (List.mem_append_left _ hc))

/-- The other ring has no part in it. -/
theorem pushDirtyPage_dirtyRing (h : Rep r q) (p : Nat) : ∃ d, ∀ m,
    PageRing.pushDirtyPage { r with ring := m } p = some { r with ring := m, dirtyRing := d } := by
  obtain ⟨r', hr', -⟩ := h.pushDirtyPage p
  unfold PageRing.pushDirtyPage at hr' ⊢
  cases hin : r.isInDirtyQueue p with
  | true =>
      refine ⟨r.dirtyRing, fun m => ?_⟩
      rw [show PageRing.isInDirtyQueue { r with ring := m } p = true from hin, if_pos rfl]
  | false =>
      rw [hin, if_neg Bool.false_ne_true] at hr'
      obtain ⟨d, hd, -⟩ := Option.map_eq_some_iff.mp hr'
      refine ⟨d, fun m => ?_⟩
      rw [show PageRing.isInDirtyQueue { r with ring := m } p = false from hin, if_neg Bool.false_ne_true, hd, Option.map_some]

/-- What happens in the dirty ring does not depend on the other. -/
theorem delDirtyPage (h : Rep r q) (p : Nat) : ∃ d,
    (∀ m, PageRing.delDirtyPage { r with ring := m } p = some { r with ring := m, dirtyRing := d }) ∧
    Rep { r with dirtyRing := d } (q.delDirtyPage p) := by
  have hin : ∀ m, PageRing.isInDirtyQueue { r with ring := m } p = decide (p ∈ q.dirty) := fun _ => h.isInDirtyQueue p
  simp only [PageRing.delDirtyPage, hin]
  by_cases hp : p ∈ q.dirty
  · obtain ⟨u, v, huv⟩ := List.mem_iff_append.mp hp
    have hring : r.dirtyRing.Ring ((.sentinel :: u.map .page) ++ .page p :: v.map .page) := by
      have hdirty := h.dirtyRing
      rw [huv, List.map_append, List.map_cons] at hdirty
      exact hdirty
    have hnodup := hring.nodup
    obtain ⟨d, hd, hring', hnone, hkeeps⟩ := hring.remove_mem (by simp)
    have herase : q.dirty.erase p = u ++ v := by
      have hpu : p ∉ u := by
        intro hc
        refine List.disjoint_of_nodup_append hnodup ?_ List.mem_cons_self
        exact List.mem_cons_of_mem _ (List.mem_map_of_mem hc)
      rw [huv, List.erase_append_right _ hpu, List.erase_cons_head]
    simp only [decide_eq_true hp, if_true, hd, Option.map_some]
    refine ⟨d, fun _ => rfl, h.ring, h.free, ?_, ?_, h.data, h.created, h.mem⟩
    · show d.Ring (.sentinel :: (q.dirty.erase p).map .page)
      rw [herase, List.map_append]
      exact hring'
    · intro p' hp'
      by_cases hpp : p' = p
      · rw [hpp]
        exact hnone
      · have hnot : p' ∉ q.dirty := fun hc => hp' ((List.mem_erase_of_ne hpp).mpr hc)
        have hne : DirtyNode.page p' ∉ (.sentinel :: u.map .page) ++ .page p :: v.map .page := by
          intro hc
          apply hnot
          rw [huv]
          simpa using hc
        show d.next (.page p') = none
        rw [(hkeeps _ hne).1]
        exact h.clean p' hnot
  · simp only [decide_eq_false hp, if_neg Bool.false_ne_true]
    refine ⟨r.dirtyRing, fun _ => rfl, h.ring, h.free, ?_, ?_, h.data, h.created, h.mem⟩
    · show r.dirtyRing.Ring (.sentinel :: (q.dirty.erase p).map .page)
      rw [List.erase_of_not_mem hp]
      exact h.dirtyRing
    · intro p' hp'
      apply h.clean p'
      intro hc
      rw [show (q.delDirtyPage p).dirty = q.dirty from List.erase_of_not_mem hp] at hp'
      exact hp' hc

/-! ## The ring of all pages -/

/-- No page waits between `head` and `tail`. -/
theorem isFull (h : Rep r q) : r.isFull = q.isFull := by
  obtain ⟨mid, hfree, hring⟩ := h.ringAtHead
  unfold PageRing.isFull AccessQueue.isFull
  rw [hfree]
  cases mid with
  | nil =>
      rw [hring.next_eq]
      simp
  | cons n mid =>
      have hnodup := (List.nodup_append.mp hring.nodup).2.1
      have hne : n ≠ r.tail := by
        rintro rfl
        exact (List.nodup_cons.mp (List.nodup_cons.mp hnodup).2).1 (List.mem_append_right mid (List.mem_singleton_self _))
      rw [hring.next_eq]
      simp [hne]

/-- A page goes behind `head`, that is to the end of the pages in use. -/
theorem enqueue {m : Links Nat} {tracked : List Nat} {p : Nat} (hring : m.Ring (tracked ++ q.free))
    (hfree : ∃ mid, q.free = r.head :: (mid ++ [r.tail])) (hp : p ∉ tracked ++ q.free) :
    ∃ m', { r with ring := m }.enqueue p = some { r with ring := m' } ∧ m'.Ring (tracked ++ [p] ++ q.free) := by
  obtain ⟨mid, hfree⟩ := hfree
  rw [hfree] at hring hp
  have hring' : m.Ring (r.head :: (mid ++ [r.tail] ++ tracked)) := hring.rotate
  have hp' : p ∉ r.head :: (mid ++ [r.tail] ++ tracked) := by
    intro hc
    apply hp
    rcases List.mem_append.mp (show p ∈ (r.head :: (mid ++ [r.tail])) ++ tracked from hc) with hc | hc
    · exact List.mem_append_right _ hc
    · exact List.mem_append_left _ hc
  obtain ⟨a, m', -, hlinked, hm', hring'', -⟩ := hring'.insertAfter_prev hp'
  refine ⟨m', ?_, ?_⟩
  · unfold PageRing.enqueue PageRing.insertBehind
    simp only [hlinked.2, Option.bind_some, hm', Option.map_some]
  · rw [hfree]
    refine Links.Ring.rotate (u := r.head :: (mid ++ [r.tail])) (v := tracked ++ [p]) ?_
    simpa using hring''

theorem track (h : Rep r q) (a : α) : ∃ r', r.track a = some ((q.track a).1, r') ∧ Rep r' (q.track a).2 := by
  have hfull := h.isFull
  unfold PageRing.track AccessQueue.track
  obtain ⟨mid, hfree⟩ := h.free
  cases hq : q.isFull with
  | true =>
      -- a new page
      have hfresh : q.created ∉ q.tracked ++ q.free := fun hc => Nat.lt_irrefl _ ((h.mem _).mp hc)
      obtain ⟨m', hm', hring⟩ := enqueue (r := { r with data := Function.update r.data r.created (some a), created := r.created + 1 })
        h.ring h.free hfresh
      rw [hfull, hq, if_pos rfl]
      simp only [h.created] at hm' ⊢
      rw [hm', Option.map_some]
      refine ⟨_, rfl, hring, h.free, h.dirtyRing, h.clean, ?_, rfl, ?_⟩
      · show Function.update r.data q.created (some a) = Function.update q.data q.created (some a)
        rw [h.data]
      · intro p
        show p ∈ q.tracked ++ [q.created] ++ q.free ↔ p < q.created + 1
        have hmem := h.mem p
        simp only [List.mem_append, List.mem_singleton] at hmem ⊢
        rw [Nat.lt_succ_iff_lt_or_eq, ← hmem]
        tauto
  | false =>
      -- the page at `head`, which `head` leaves
      cases mid with
      | nil =>
          exfalso
          unfold AccessQueue.isFull at hq
          rw [hfree] at hq
          simp at hq
      | cons n mid =>
          have hring := h.ring
          rw [hfree] at hring
          have hnext := hring.next_eq
          simp only [List.cons_append] at hfree
          rw [hfull, hq, if_neg Bool.false_ne_true, hfree]
          simp only [hnext, Option.map_some]
          refine ⟨_, rfl, ?_, ⟨mid, rfl⟩, h.dirtyRing, h.clean, ?_, h.created, ?_⟩
          · simpa using hring
          · show Function.update r.data r.head (some a) = Function.update q.data r.head (some a)
            rw [h.data]
          · intro p
            have hmem := h.mem p
            rw [hfree] at hmem
            rw [← hmem]
            simp

/-- **`push` of the pointers is `push` of the lists.** -/
theorem push (h : Rep r q) (a : α) (dirty : Bool) :
    ∃ r', r.push a dirty = some ((q.push a dirty).1, r') ∧ Rep r' (q.push a dirty).2 := by
  obtain ⟨r1, htrack, h1⟩ := h.track a
  unfold PageRing.push AccessQueue.push
  rw [htrack, Option.bind_some]
  cases dirty with
  | false => exact ⟨r1, rfl, h1⟩
  | true =>
      obtain ⟨r2, hpush, h2⟩ := h1.pushDirtyPage (q.track a).1
      refine ⟨r2, ?_, h2⟩
      simp only [if_true, hpush, Option.map_some]

/-- **`pop`.** -/
theorem pop (h : Rep r q) : ∃ r', r.pop = some (q.tracked.head?, r') ∧
    Rep r' (match q.pop with | none => q | some (_, q') => q') := by
  obtain ⟨mid, hfree, hring⟩ := h.ringAtHead
  unfold PageRing.pop AccessQueue.pop
  cases htracked : q.tracked with
  | nil =>
      rw [htracked] at hring
      have hring' : r.ring.Ring (r.tail :: (r.head :: mid)) :=
        Links.Ring.rotate (u := r.head :: mid) (v := [r.tail]) hring
      refine ⟨r, ?_, h⟩
      rw [hring'.2.1.1, Option.map_some, if_neg (fun hc => hc rfl)]
      rfl
  | cons p rest =>
      rw [htracked] at hring
      have hring' : r.ring.Ring (r.tail :: (p :: rest ++ r.head :: mid)) := by
        refine Links.Ring.rotate (u := p :: rest ++ r.head :: mid) (v := [r.tail]) ?_
        simpa using hring
      have hne : p ≠ r.head := by
        rintro rfl
        exact (List.nodup_cons.mp hring.nodup).1 (List.mem_append_right rest List.mem_cons_self)
      refine ⟨{ r with tail := p }, ?_, ?_, ⟨mid ++ [r.tail], ?_⟩, h.dirtyRing, h.clean, h.data, h.created, ?_⟩
      · rw [hring'.2.1.1, Option.map_some, if_pos hne]
        rfl
      · have hrot : r.ring.Ring (rest ++ r.head :: (mid ++ [r.tail]) ++ [p]) :=
          Links.Ring.rotate (u := [p]) (v := rest ++ r.head :: (mid ++ [r.tail])) hring
        show r.ring.Ring (rest ++ (q.free ++ [p]))
        rw [hfree, ← List.append_assoc]
        exact hrot
      · show q.free ++ [p] = _
        rw [hfree]
        simp
      · intro x
        have hmem := h.mem x
        rw [htracked] at hmem
        show x ∈ rest ++ (q.free ++ [p]) ↔ x < q.created
        rw [← hmem]
        simp only [List.mem_append, List.mem_cons, List.not_mem_nil, or_false]
        tauto

/-- A page in use leaves the ring, and the dirty ring with it. -/
theorem del (h : Rep r q) {p : Nat} {u v : List Nat} (huv : q.tracked = u ++ p :: v) :
    ∃ m d, r.del p = some { r with ring := m, dirtyRing := d } ∧ m.Ring (u ++ v ++ q.free) ∧ p ∉ u ++ v ++ q.free ∧
      q.tracked.erase p = u ++ v ∧ Rep { r with dirtyRing := d } (q.delDirtyPage p) := by
  obtain ⟨mid, hfree⟩ := h.free
  have hring := h.ring
  rw [huv, List.append_assoc, List.cons_append] at hring
  have hnodup := hring.nodup
  obtain ⟨hp, -⟩ := List.nodup_cons.mp (List.nodup_middle.mp hnodup)
  obtain ⟨m, hm, hring'⟩ := hring.unlink_mem (by rw [hfree]; simp)
  obtain ⟨d, hd, hrep⟩ := h.delDirtyPage p
  refine ⟨m, d, ?_, ?_, ?_, ?_, hrep⟩
  · unfold PageRing.del
    rw [hm, Option.bind_some]
    exact hd m
  · rw [List.append_assoc]
    exact hring'
  · rw [List.append_assoc]
    exact hp
  · have hpu : p ∉ u := fun hc => hp (List.mem_append_left _ hc)
    rw [huv, List.erase_append_right _ hpu, List.erase_cons_head]

/-- **`touch`** of a page in use. -/
theorem touch (h : Rep r q) {p : Nat} (hp : p ∈ q.tracked) (dirty : Bool) :
    ∃ r', r.touch p dirty = some r' ∧ Rep r' (q.touch p dirty) := by
  obtain ⟨u, v, huv⟩ := List.mem_iff_append.mp hp
  obtain ⟨m, d, hdel, hring, hfresh, herase, hrep⟩ := h.del huv
  obtain ⟨m', hm', hring'⟩ := enqueue (r := { r with ring := m, dirtyRing := d }) hring h.free hfresh
  have hmoved : Rep { r with ring := m', dirtyRing := d } { q with tracked := q.tracked.erase p ++ [p], dirty := q.dirty.erase p } := by
    refine ⟨?_, h.free, hrep.dirtyRing, hrep.clean, h.data, h.created, ?_⟩
    · show m'.Ring (q.tracked.erase p ++ [p] ++ q.free)
      rw [herase]
      exact hring'
    · intro x
      show x ∈ q.tracked.erase p ++ [p] ++ q.free ↔ x < q.created
      rw [← h.mem x, herase, huv]
      simp only [List.mem_append, List.mem_cons, List.not_mem_nil, or_false]
      tauto
  unfold PageRing.touch AccessQueue.touch
  simp only [h.isInDirtyQueue, hdel, Option.bind_some, hm']
  split
  · exact hmoved.pushDirtyPage p
  · exact ⟨_, rfl, hmoved⟩

/-- **`erase`** of a page in use: it waits right before `tail`. -/
theorem erase (h : Rep r q) {p : Nat} (hp : p ∈ q.tracked) : ∃ r', r.erase p = some r' ∧ Rep r' (q.erase p) := by
  obtain ⟨u, v, huv⟩ := List.mem_iff_append.mp hp
  obtain ⟨mid, hfree⟩ := h.free
  obtain ⟨m, d, hdel, hring, hfresh, herase, hrep⟩ := h.del huv
  have hsplit : u ++ v ++ q.free = u ++ v ++ r.head :: mid ++ [r.tail] := by
    rw [hfree]
    simp
  rw [hsplit] at hring hfresh
  have hring' : m.Ring (r.tail :: (u ++ v ++ r.head :: mid)) := hring.rotate
  have hfresh' : p ∉ r.tail :: (u ++ v ++ r.head :: mid) := by
    intro hc
    apply hfresh
    rcases List.mem_cons.mp hc with hc | hc
    · exact List.mem_append_right _ (List.mem_singleton.mpr hc)
    · exact List.mem_append_left _ hc
  obtain ⟨a, m', -, hlinked, hm', hring'', -⟩ := hring'.insertAfter_prev hfresh'
  have hfree' : (q.erase p).free = r.head :: (mid ++ [p] ++ [r.tail]) := by
    show q.free.dropLast ++ p :: q.free.getLast?.toList = _
    rw [hfree, ← List.cons_append, List.dropLast_concat, List.getLast?_concat]
    simp
  refine ⟨{ r with ring := m', dirtyRing := d }, ?_, ?_, ⟨mid ++ [p], hfree'⟩, hrep.dirtyRing, hrep.clean, h.data, h.created, ?_⟩
  · unfold PageRing.erase PageRing.insertBehind
    simp only [hdel, Option.bind_some, hlinked.2, hm', Option.map_some]
  · show m'.Ring (q.tracked.erase p ++ (q.erase p).free)
    rw [hfree', herase]
    have hrot : m'.Ring ((u ++ v ++ r.head :: mid ++ [p]) ++ [r.tail]) :=
      Links.Ring.rotate (u := [r.tail]) (v := u ++ v ++ r.head :: mid ++ [p]) hring''
    simpa using hrot
  · intro x
    show x ∈ q.tracked.erase p ++ (q.erase p).free ↔ x < q.created
    rw [← h.mem x, hfree', herase, huv, hfree]
    simp only [List.mem_append, List.mem_cons, List.not_mem_nil, or_false]
    tauto

theorem dirty_nodup (h : Rep r q) : q.dirty.Nodup := (List.nodup_cons.mp h.dirtyRing.nodup).2.of_map _

/-- Fewer pages are in use than there are pages. -/
theorem length_lt (h : Rep r q) : q.tracked.length < r.created := by
  obtain ⟨mid, hfree⟩ := h.free
  have hsub : (q.tracked ++ q.free) ⊆ List.range q.created := by
    intro p hp
    exact List.mem_range.mpr ((h.mem p).mp hp)
  have hlen := (h.ring.nodup.subperm hsub).length_le
  rw [List.length_append, List.length_range, hfree, List.length_cons] at hlen
  rw [h.created]
  omega

/-- The pages met going by `next` from `tail` to `head` are the pages in use. -/
theorem walk (h : Rep r q) : r.ring.walk r.head r.created r.tail = some q.tracked := by
  obtain ⟨mid, hfree, hring⟩ := h.ringAtHead
  have hring' : r.ring.Ring (r.tail :: (q.tracked ++ r.head :: mid)) := by
    refine Links.Ring.rotate (u := q.tracked ++ r.head :: mid) (v := [r.tail]) ?_
    simpa using hring
  have hseg := (Links.seg_append.mp hring'.2).1
  refine hseg.walk ?_ h.length_lt
  intro hc
  exact List.disjoint_of_nodup_append hring.nodup hc List.mem_cons_self

theorem inUse (h : Rep r q) : r.inUse = some q.tracked := h.walk

/-- The page `tail` stands on is no page in use, and `touch` is not made for it: it puts `tail` right before `head`, and
    the pages that were in use are met no longer. -/
theorem touch_tail (h : Rep r q) (dirty : Bool) : ∃ r', r.touch r.tail dirty = some r' ∧ r'.inUse = some [] := by
  obtain ⟨mid, hfree, hring⟩ := h.ringAtHead
  have hring' : r.ring.Ring ((q.tracked ++ r.head :: mid) ++ r.tail :: []) := by
    simpa using hring
  obtain ⟨m, hm, hcut⟩ := hring'.unlink_mem (by simp)
  rw [List.append_nil] at hcut
  obtain ⟨d, hd, hrep⟩ := h.delDirtyPage r.tail
  have hfresh : r.tail ∉ r.head :: (mid ++ q.tracked) := by
    intro hc
    have hapart := List.disjoint_of_nodup_append hring'.nodup
    rcases List.mem_append.mp (show r.tail ∈ (r.head :: mid) ++ q.tracked from hc) with hc | hc
    · exact hapart (List.mem_append_right _ hc) (List.mem_singleton_self _)
    · exact hapart (List.mem_append_left _ hc) (List.mem_singleton_self _)
  have hcut' : m.Ring (r.head :: (mid ++ q.tracked)) := hcut.rotate
  obtain ⟨a, m', -, hlinked, hm', hring'', -⟩ := hcut'.insertAfter_prev hfresh
  -- `tail` is the last node of the ring that begins with `head`
  have hlast : m'.next r.tail = some r.head := by
    have hrot : m'.Ring (r.tail :: r.head :: (mid ++ q.tracked)) :=
      Links.Ring.rotate (u := r.head :: (mid ++ q.tracked)) (v := [r.tail]) hring''
    exact hrot.2.1.1
  have hempty : ∀ e : Links DirtyNode, PageRing.inUse { r with ring := m', dirtyRing := e } = some [] := by
    intro e
    unfold PageRing.inUse
    cases hcreated : r.created with
    | zero =>
        have hlt := h.length_lt
        rw [hcreated] at hlt
        exact absurd hlt (Nat.not_lt_zero _)
    | succ fuel =>
        simp only [Links.walk]
        rw [hlast, Option.bind_some, if_pos rfl]
  have hdel : r.del r.tail = some { r with ring := m, dirtyRing := d } := by
    unfold PageRing.del
    rw [hm, Option.bind_some]
    exact hd m
  have henqueue : PageRing.enqueue { r with ring := m, dirtyRing := d } r.tail = some { r with ring := m', dirtyRing := d } := by
    unfold PageRing.enqueue PageRing.insertBehind
    simp only [hlinked.2, Option.bind_some, hm', Option.map_some]
  unfold PageRing.touch
  simp only [hdel, Option.bind_some, henqueue]
  split
  · obtain ⟨e, he⟩ := hrep.pushDirtyPage_dirtyRing r.tail
    exact ⟨_, he m', hempty e⟩
  · exact ⟨_, rfl, hempty d⟩

end Rep

/-! ## The order of use

A clock beside the queue: each page in use carries the time it was last pushed or touched at. -/

/-- A queue whose use is watched. -/
structure Observed (α : Type*) where
  queue : PageRing α
  stamp : Nat → Option Nat
  clock : Nat

inductive QueueOp (α : Type*)
  | push (a : α) (dirty : Bool)
  | touch (p : Nat) (dirty : Bool)
  | pop
  | erase (p : Nat)

namespace Observed

def start : Observed α := { queue := PageRing.start, stamp := fun _ => none, clock := 0 }

/-- The page is in use from now on, as the last used one. -/
def used (o : Observed α) (p : Nat) (r : PageRing α) : Observed α :=
  { queue := r, stamp := Function.update o.stamp p (some o.clock), clock := o.clock + 1 }

/-- The page is in use no longer. -/
def dropped (o : Observed α) (p : Nat) (r : PageRing α) : Observed α :=
  { o with queue := r, stamp := Function.update o.stamp p none }

def step (o : Observed α) : QueueOp α → Option (Observed α)
  | .push a dirty => (o.queue.push a dirty).map (fun (p, r) => o.used p r)
  | .touch p dirty => (o.queue.touch p dirty).map (fun r => o.used p r)
  | .pop =>
      o.queue.pop.map (fun (p, r) =>
        match p with
        | none => { o with queue := r }
        | some p => o.dropped p r)
  | .erase p => (o.queue.erase p).map (fun r => o.dropped p r)

/-- `touch` and `erase` are applied to pages in use. -/
def OnTracked (o : Observed α) : QueueOp α → Prop
  | .touch p _ => (o.stamp p).isSome
  | .erase p => (o.stamp p).isSome
  | _ => True

instance OnTracked.decidable (o : Observed α) : ∀ op, Decidable (o.OnTracked op)
  | .push _ _ => .isTrue trivial
  | .touch p _ => inferInstanceAs (Decidable ((o.stamp p).isSome = true))
  | .pop => .isTrue trivial
  | .erase p => inferInstanceAs (Decidable ((o.stamp p).isSome = true))

/-- `a` was used before `b`. -/
def Older (o : Observed α) (a b : Nat) : Prop := ∃ i j, o.stamp a = some i ∧ o.stamp b = some j ∧ i < j

/-- The dirty list, in order. -/
def DirtyList (r : PageRing α) (d : List Nat) : Prop :=
  r.dirtyRing.Ring (.sentinel :: d.map .page) ∧ d.Nodup ∧ ∀ p, r.isInDirtyQueue p = decide (p ∈ d)

/-- A page that is neither in use nor one of the two ends. -/
def Waiting (o : Observed α) (p : Nat) : Prop :=
  p < o.queue.created ∧ p ≠ o.queue.head ∧ p ≠ o.queue.tail ∧ o.stamp p = none

/-- The queue is an exact LRU list. -/
structure ExactLru (o : Observed α) : Prop where
  /-- From `tail` to `head`: the pages in use, oldest first; the others close the one ring of all pages. -/
  order : ∃ l free, o.queue.ring.walk o.queue.head o.queue.created o.queue.tail = some l ∧
    (∀ p, p ∈ l ↔ (o.stamp p).isSome) ∧ l.Pairwise o.Older ∧ o.queue.ring.Ring (l ++ free) ∧
    free.head? = some o.queue.head ∧ free.getLast? = some o.queue.tail ∧ ∀ p, p ∈ l ++ free ↔ p < o.queue.created
  /-- `pop` gives the page used longest ago, and null when there is none. -/
  pop : ∃ p r, o.queue.pop = some (p, r) ∧
    match p with
    | none => ∀ x, o.stamp x = none
    | some p => (o.stamp p).isSome ∧ ∀ x, (o.stamp x).isSome → x = p ∨ o.Older p x
  /-- `push` takes a page that was not in use, a new one only when no page waits. -/
  push : ∀ a dirty, ∃ p r, o.queue.push a dirty = some (p, r) ∧ o.stamp p = none ∧
    ((∃ x, o.Waiting x) → p < o.queue.created ∧ r.created = o.queue.created) ∧
    ((¬ ∃ x, o.Waiting x) → p = o.queue.created ∧ r.created = o.queue.created + 1)
  /-- The dirty list is a ring without duplicates, and `touch` moves a page to its end. -/
  dirty : ∃ d, DirtyList o.queue d ∧ ∀ p dirty, (o.stamp p).isSome → ∃ r, o.queue.touch p dirty = some r ∧
    DirtyList r (if dirty = true ∨ p ∈ d then d.erase p ++ [p] else d)
  erase : ∀ p, (o.stamp p).isSome → ∃ r, o.queue.erase p = some r

/-! ## Every run -/

/-- The clock and the lists agree. -/
structure Tracks (o : Observed α) (q : AccessQueue α) : Prop where
  rep : o.queue.Rep q
  mem : ∀ p, p ∈ q.tracked ↔ (o.stamp p).isSome
  lt : ∀ p i, o.stamp p = some i → i < o.clock
  sorted : q.tracked.Pairwise o.Older

namespace Tracks

variable {o : Observed α} {q : AccessQueue α}

theorem start : Tracks (Observed.start : Observed α) AccessQueue.start := by
  refine ⟨Rep.start, ?_, ?_, List.Pairwise.nil⟩
  · intro p
    simp [AccessQueue.start, Observed.start]
  · rintro p i ⟨⟩

/-- A page used now comes after the pages in use but itself. -/
theorem used (h : Tracks o q) {q' : AccessQueue α} {r : PageRing α} {p : Nat} (hrep : r.Rep q') {l : List Nat}
    (htracked : q'.tracked = l ++ [p]) (hl : ∀ x, x ∈ l ↔ x ∈ q.tracked ∧ x ≠ p) (hsub : l.Sublist q.tracked) :
    Tracks (o.used p r) q' := by
  have hstamp : ∀ x ∈ l, (o.used p r).stamp x = o.stamp x := by
    intro x hx
    exact Function.update_of_ne ((hl x).mp hx).2 _ _
  refine ⟨hrep, ?_, ?_, ?_⟩
  · intro x
    rw [htracked, List.mem_append, List.mem_singleton, hl, h.mem]
    show _ ↔ (Function.update o.stamp p (some o.clock) x).isSome
    by_cases hx : x = p
    · rw [hx, Function.update_self]
      simp
    · rw [Function.update_of_ne hx]
      simp [hx]
  · intro x i hx
    by_cases hxp : x = p
    · rw [hxp, show (o.used p r).stamp p = some o.clock from Function.update_self ..] at hx
      cases hx
      exact Nat.lt_succ_self _
    · rw [show (o.used p r).stamp x = o.stamp x from Function.update_of_ne hxp _ _] at hx
      exact Nat.lt_succ_of_lt (h.lt x i hx)
  · rw [htracked]
    refine List.pairwise_append.mpr ⟨?_, List.pairwise_singleton _ _, ?_⟩
    · refine (h.sorted.sublist hsub).imp_of_mem ?_
      rintro a b ha hb ⟨i, j, hi, hj, hij⟩
      exact ⟨i, j, (hstamp a ha).trans hi, (hstamp b hb).trans hj, hij⟩
    · intro a ha b hb
      rw [List.mem_singleton.mp hb]
      obtain ⟨i, hi⟩ := Option.isSome_iff_exists.mp ((h.mem a).mp ((hl a).mp ha).1)
      exact ⟨i, o.clock, (hstamp a ha).trans hi, Function.update_self .., h.lt a i hi⟩

/-- A page that leaves does not disturb the order of the others. -/
theorem dropped (h : Tracks o q) {q' : AccessQueue α} {r : PageRing α} {p : Nat} (hrep : r.Rep q')
    (hl : ∀ x, x ∈ q'.tracked ↔ x ∈ q.tracked ∧ x ≠ p) (hsub : q'.tracked.Sublist q.tracked) : Tracks (o.dropped p r) q' := by
  have hstamp : ∀ x, x ≠ p → (o.dropped p r).stamp x = o.stamp x := fun x hx => Function.update_of_ne hx _ _
  have hnone : (o.dropped p r).stamp p = none := Function.update_self ..
  refine ⟨hrep, ?_, ?_, ?_⟩
  · intro x
    rw [hl, h.mem]
    by_cases hx : x = p
    · rw [hx, hnone]
      simp
    · rw [hstamp x hx]
      simp [hx]
  · intro x i hx
    by_cases hxp : x = p
    · rw [hxp, hnone] at hx
      cases hx
    · rw [hstamp x hxp] at hx
      exact h.lt x i hx
  · refine (h.sorted.sublist hsub).imp_of_mem ?_
    rintro a b ha hb ⟨i, j, hi, hj, hij⟩
    exact ⟨i, j, (hstamp a ((hl a).mp ha).2).trans hi, (hstamp b ((hl b).mp hb).2).trans hj, hij⟩

theorem tracked_nodup (h : Tracks o q) : q.tracked.Nodup := (List.nodup_append.mp h.rep.ring.nodup).1

theorem push (h : Tracks o q) (a : α) (dirty : Bool) : ∃ r, o.queue.push a dirty = some ((q.push a dirty).1, r) ∧
    r.Rep (q.push a dirty).2 ∧ (q.push a dirty).1 ∉ q.tracked ∧ Tracks (o.used (q.push a dirty).1 r) (q.push a dirty).2 := by
  obtain ⟨r, hr, hrep⟩ := h.rep.push a dirty
  have htracked := q.push_tracked a dirty
  have hnot : (q.push a dirty).1 ∉ q.tracked := by
    intro hc
    have hnodup := (List.nodup_append.mp hrep.ring.nodup).1
    rw [htracked] at hnodup
    exact List.disjoint_of_nodup_append hnodup hc (List.mem_singleton_self _)
  refine ⟨r, hr, hrep, hnot, h.used hrep htracked ?_ (List.Sublist.refl _)⟩
  intro x
  exact ⟨fun hx => ⟨hx, ne_of_mem_of_not_mem hx hnot⟩, fun hx => hx.1⟩

theorem touch (h : Tracks o q) {p : Nat} (hp : (o.stamp p).isSome) (dirty : Bool) :
    ∃ r, o.queue.touch p dirty = some r ∧ r.Rep (q.touch p dirty) ∧ Tracks (o.used p r) (q.touch p dirty) := by
  obtain ⟨r, hr, hrep⟩ := h.rep.touch ((h.mem p).mpr hp) dirty
  refine ⟨r, hr, hrep, h.used hrep (q.touch_tracked p dirty) ?_ List.erase_sublist⟩
  intro x
  rw [h.tracked_nodup.mem_erase_iff]
  exact and_comm

theorem erase (h : Tracks o q) {p : Nat} (hp : (o.stamp p).isSome) :
    ∃ r, o.queue.erase p = some r ∧ Tracks (o.dropped p r) (q.erase p) := by
  obtain ⟨r, hr, hrep⟩ := h.rep.erase ((h.mem p).mpr hp)
  refine ⟨r, hr, h.dropped hrep ?_ List.erase_sublist⟩
  intro x
  show x ∈ q.tracked.erase p ↔ _
  rw [h.tracked_nodup.mem_erase_iff]
  exact and_comm

/-- **Each operation can be carried out**, and the order is kept. -/
theorem step (h : Tracks o q) {op : QueueOp α} (hop : o.OnTracked op) : ∃ o' q', o.step op = some o' ∧ Tracks o' q' := by
  cases op with
  | push a dirty =>
      obtain ⟨r, hr, -, -, h'⟩ := h.push a dirty
      refine ⟨_, _, ?_, h'⟩
      show (o.queue.push a dirty).map _ = _
      rw [hr, Option.map_some]
  | touch p dirty =>
      obtain ⟨r, hr, -, h'⟩ := h.touch hop dirty
      refine ⟨_, _, ?_, h'⟩
      show (o.queue.touch p dirty).map _ = _
      rw [hr, Option.map_some]
  | erase p =>
      obtain ⟨r, hr, h'⟩ := h.erase hop
      refine ⟨_, _, ?_, h'⟩
      show (o.queue.erase p).map _ = _
      rw [hr, Option.map_some]
  | pop =>
      obtain ⟨r, hr, hrep⟩ := h.rep.pop
      have hstep : o.step .pop = o.queue.pop.map _ := rfl
      rw [hstep, hr, Option.map_some]
      have htracked : ∀ p rest, q.tracked = p :: rest →
          q.pop = some (p, { q with tracked := rest, free := q.free ++ [p] }) := by
        intro p rest hq
        unfold AccessQueue.pop
        rw [hq]
      cases hq : q.tracked with
      | nil =>
          have hpop : q.pop = none := by
            unfold AccessQueue.pop
            rw [hq]
          rw [hpop] at hrep
          exact ⟨_, q, rfl, hrep, h.mem, h.lt, h.sorted⟩
      | cons p rest =>
          rw [htracked p rest hq] at hrep
          have hnodup := h.tracked_nodup
          rw [hq] at hnodup
          refine ⟨_, _, rfl, h.dropped hrep ?_ ?_⟩
          · intro x
            show x ∈ rest ↔ x ∈ q.tracked ∧ x ≠ p
            rw [hq, List.mem_cons]
            constructor
            · intro hx
              exact ⟨Or.inr hx, fun hc => (List.nodup_cons.mp hnodup).1 (hc ▸ hx)⟩
            · rintro ⟨rfl | hx, hne⟩
              · exact absurd rfl hne
              · exact hx
          · rw [hq]
            exact List.sublist_cons_self p rest

/-- What waits can be used again: a page waits exactly when `head` and `tail` are not next to each other. -/
theorem waiting_iff (h : Tracks o q) : (∃ x, o.Waiting x) ↔ q.isFull = false := by
  obtain ⟨mid, hfree⟩ := h.rep.free
  have hnodup := (List.nodup_append.mp h.rep.ring.nodup).2.1
  have hdisj := List.disjoint_of_nodup_append h.rep.ring.nodup
  rw [hfree] at hnodup hdisj
  have hfull : q.isFull = false ↔ mid ≠ [] := by
    unfold AccessQueue.isFull
    rw [hfree]
    cases mid <;> simp
  rw [hfull]
  constructor
  · rintro ⟨x, hlt, hhead, htail, hstamp⟩ rfl
    rw [h.rep.created, ← h.rep.mem x, hfree, List.mem_append, h.mem, hstamp] at hlt
    simp only [Option.isSome_none, Bool.false_eq_true, false_or, List.nil_append, List.mem_cons, List.not_mem_nil, or_false] at hlt
    rcases hlt with hlt | hlt
    · exact hhead hlt
    · exact htail hlt
  · intro hne
    obtain ⟨x, rest, hmid⟩ := List.exists_cons_of_ne_nil hne
    have hx : x ∈ mid := by
      rw [hmid]
      exact List.mem_cons_self
    refine ⟨x, ?_, ?_, ?_, ?_⟩
    · rw [h.rep.created, ← h.rep.mem x, hfree]
      exact List.mem_append_right _ (List.mem_cons_of_mem _ (List.mem_append_left _ hx))
    · rintro rfl
      exact (List.nodup_cons.mp hnodup).1 (List.mem_append_left _ hx)
    · rintro rfl
      exact List.disjoint_of_nodup_append (List.nodup_cons.mp hnodup).2 hx (List.mem_singleton_self _)
    · have hnot : x ∉ q.tracked := fun hc => hdisj hc (List.mem_cons_of_mem _ (List.mem_append_left _ hx))
      rw [h.mem x, Option.not_isSome_iff_eq_none] at hnot
      exact hnot

theorem dirtyList {r : PageRing α} (h : r.Rep q) : DirtyList r q.dirty := ⟨h.dirtyRing, h.dirty_nodup, h.isInDirtyQueue⟩

/-- **The lists give the order.** -/
theorem exactLru (h : Tracks o q) : o.ExactLru := by
  refine ⟨?_, ?_, ?_, ?_, ?_⟩
  · obtain ⟨mid, hfree⟩ := h.rep.free
    refine ⟨q.tracked, q.free, h.rep.walk, h.mem, h.sorted, h.rep.ring, ?_, ?_, ?_⟩
    · rw [hfree]
      rfl
    · rw [hfree, ← List.cons_append, List.getLast?_concat]
    · rw [h.rep.created]
      exact h.rep.mem
  · obtain ⟨r, hr, -⟩ := h.rep.pop
    refine ⟨_, r, hr, ?_⟩
    have hsorted := h.sorted
    have hmem := h.mem
    cases hq : q.tracked with
    | nil =>
        rw [hq] at hmem
        intro x
        rw [← Option.not_isSome_iff_eq_none, ← hmem x]
        exact List.not_mem_nil
    | cons p rest =>
        rw [hq] at hmem hsorted
        refine ⟨(hmem p).mp List.mem_cons_self, ?_⟩
        intro x hx
        rcases List.mem_cons.mp ((hmem x).mpr hx) with hx | hx
        · exact Or.inl hx
        · exact Or.inr ((List.pairwise_cons.mp hsorted).1 x hx)
  · intro a dirty
    obtain ⟨r, hr, hrep, hnot, -⟩ := h.push a dirty
    refine ⟨_, r, hr, ?_, ?_, ?_⟩
    · rw [h.mem, Option.not_isSome_iff_eq_none] at hnot
      exact hnot
    · rw [h.waiting_iff, hrep.created, h.rep.created]
      intro hfull
      obtain ⟨hcreated, hpage⟩ := q.push_reuses a dirty hfull
      exact ⟨(h.rep.mem _).mp (List.mem_append_right _ hpage), hcreated⟩
    · rw [h.waiting_iff, hrep.created, h.rep.created, Bool.not_eq_false]
      intro hfull
      exact q.push_allocates a dirty hfull
  · refine ⟨q.dirty, dirtyList h.rep, ?_⟩
    intro p dirty hp
    obtain ⟨r, hr, hrep, -⟩ := h.touch hp dirty
    refine ⟨r, hr, ?_⟩
    rw [← AccessQueue.touch_dirty h.rep.dirty_nodup]
    exact dirtyList hrep
  · intro p hp
    obtain ⟨r, hr, -⟩ := h.erase hp
    exact ⟨r, hr⟩

end Tracks

/-- **The pages are an exact LRU list.** However pages are pushed, touched, popped and erased, as long as only pages in use are
touched and erased: no null pointer is followed, and in every state the queue is exact. -/
theorem access_queue_exact_lru {ops : List (QueueOp α)} (hops : Run.Guarded step OnTracked (start : Observed α) ops) :
    ∃ o, Run.run step (start : Observed α) ops = some o ∧ o.ExactLru := by
  have hstep : ∀ (o : Observed α) op, (∃ q, Tracks o q) → o.OnTracked op → ∃ o', o.step op = some o' ∧ ∃ q, Tracks o' q := by
    rintro o op ⟨q, h⟩ hop
    obtain ⟨o', q', ho', h'⟩ := h.step hop
    exact ⟨o', ho', q', h'⟩
  obtain ⟨o, hrun, q, h⟩ := Run.run_progress hstep ⟨_, Tracks.start⟩ hops
  exact ⟨o, hrun, h.exactLru⟩

/-- One page is erased, a dirty one is popped, and the page at `head` is reused. -/
theorem access_queue_exact_lru_recycled : ∃ o, Run.run step (start : Observed Unit)
    [.push () true, .push () false, .touch 2 false, .erase 3, .pop, .push () true, .touch 0 true] = some o ∧ o.ExactLru := by
  apply access_queue_exact_lru
  decide

end Observed

end PageRing

end HuronFS
