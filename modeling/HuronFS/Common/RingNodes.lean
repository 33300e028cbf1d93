import HuronFS.Common.TaskRing
import Mathlib.Data.List.Perm.Subperm

/-!
# `Common.RingNodes` — the nodes of a task ring

A node is made only by an `allocate_tmp_node` that finds every other node in use, and none is given back before the queue
itself goes. So a ring has as many nodes as were ever in use at once, and two more: the one taken last and the one that is
allocated next.

`destory_queue` goes from `queue_head` round to `queue_tail`. The nodes between the two it does not meet: what was published
and not taken stays behind when the queue goes.
-/

namespace HuronFS

variable {α : Type*}

namespace TaskQueue

/-- The loop of `destory_queue`, and the `delete` after it: the nodes that are deleted, in this order. -/
def destoryLoop (q : TaskQueue α) : (fuel next : Nat) → Option (List Nat)
  | 0, _ => none
  | fuel + 1, next =>
      if q.queueTail = next then some [q.queueTail]
      else (q.destoryLoop fuel (q.next next)).map (next :: ·)

/-- `destory_queue`. The loop meets no node twice, which gives the fuel. -/
def destoryQueue (q : TaskQueue α) : Option (List Nat) := q.destoryLoop q.fresh q.queueHead

/-- The loop goes along the links up to `queue_tail`. -/
theorem destoryLoop_eq {q : TaskQueue α} {fuel next : Nat} {nodes : List Nat} (hfuel : nodes.length < fuel)
    (hchain : List.IsChain (fun a b => q.next a = b) (nodes ++ [q.queueTail])) (htail : q.queueTail ∉ nodes)
    (hhead : (nodes ++ [q.queueTail]).head? = some next) : q.destoryLoop fuel next = some (nodes ++ [q.queueTail]) := by
  induction nodes generalizing fuel next with
  | nil =>
      obtain ⟨fuel, rfl⟩ := Nat.exists_eq_succ_of_ne_zero (Nat.ne_of_gt hfuel)
      have hnext : q.queueTail = next := by simpa using hhead
      simp only [destoryLoop, if_pos hnext, List.nil_append]
  | cons n rest ih =>
      obtain ⟨fuel, rfl⟩ := Nat.exists_eq_succ_of_ne_zero (Nat.ne_of_gt (Nat.lt_of_le_of_lt (Nat.zero_le _) hfuel))
      obtain rfl : n = next := by simpa using hhead
      obtain ⟨hn, htail'⟩ := not_or.mp (fun h => htail (List.mem_cons.mpr h))
      rw [List.cons_append, List.isChain_cons] at hchain
      obtain ⟨hlink, hchain'⟩ := hchain
      -- the next node is the one the link leads to
      have hhead' : (rest ++ [q.queueTail]).head? = some (q.next n) := by
        obtain ⟨m, hm⟩ := Option.isSome_iff_exists.mp (show (rest ++ [q.queueTail]).head?.isSome by simp)
        rw [hm, hlink m hm]
      have hrest := ih (Nat.lt_of_succ_lt_succ hfuel) hchain' htail' hhead'
      simp only [destoryLoop, if_neg hn, hrest, Option.map_some, List.cons_append]

namespace Layout

variable {q : TaskQueue α} {pub pend free : List Nat}

/-- All nodes of the ring. -/
def nodes (q : TaskQueue α) (pub pend free : List Nat) : List Nat := q.queueTail :: (pub ++ pend ++ q.queueTmpHead :: free)

theorem subperm_range (h : Layout q pub pend free) : (nodes q pub pend free).Subperm (List.range q.fresh) :=
  List.subperm_of_subset h.nodup (fun n hn => List.mem_range.mpr (h.bound n hn))

/-- What `destory_queue` deletes. -/
theorem destoryQueue (h : Layout q pub pend free) :
    q.destoryQueue = some (pend ++ q.queueTmpHead :: free ++ [q.queueTail]) := by
  have hlength : (nodes q pub pend free).length ≤ q.fresh := by simpa using h.subperm_range.length_le
  refine destoryLoop_eq ?_ ?_ ?_ ?_
  · simp only [nodes, List.length_cons, List.length_append] at hlength ⊢
    omega
  · have hchain := h.chain
    rw [List.append_assoc pub, List.cons_append, List.append_assoc pub] at hchain
    exact (List.isChain_append.mp (List.IsChain.tail hchain)).2.1
  · intro hmem
    refine (List.nodup_cons.mp h.nodup).1 ?_
    rw [List.append_assoc]
    exact List.mem_append_right pub hmem
  · have hhead := h.head
    cases pend with
    | nil => simpa using hhead
    | cons n pend => simpa using hhead

end Layout

end TaskQueue

open TaskQueue

namespace Ring

/-- The nodes between `queue_tail` and `queue_head`. -/
def waitingNodes (r : Ring α) : List Nat := (r.published.map Prod.fst).drop r.taken.length

/-- How many nodes hold a task that is waiting or not yet published. -/
def inUse (r : Ring α) : Nat := r.waitingNodes.length + r.allocated.length

end Ring

/-- A ring, and the most nodes that were in use at once. -/
structure PeakRing (α : Type*) where
  ring : Ring α
  peak : Nat

namespace PeakRing

def start : PeakRing α := ⟨Ring.start, 0⟩

def step (p : PeakRing α) (op : RingOp α) : Option (PeakRing α) :=
  (p.ring.step op).map (fun r => ⟨r, max p.peak r.inUse⟩)

def Permitted (p : PeakRing α) (op : RingOp α) : Prop := p.ring.Permitted op

instance (p : PeakRing α) (op : RingOp α) : Decidable (p.Permitted op) := inferInstanceAs (Decidable (p.ring.Permitted op))

/-- Every node made is in the ring, and there are as many as the peak asks for. -/
structure Accounted (p : PeakRing α) (waiting free : List Nat) : Prop where
  layout : Layout p.ring.queue waiting p.ring.allocated free
  history : p.ring.published.map Prod.fst = p.ring.taken.map Prod.fst ++ waiting
  nodes : p.ring.queue.fresh = waiting.length + p.ring.allocated.length + free.length + 2
  peak : p.ring.queue.fresh = p.peak + 2

variable {p p' : PeakRing α} {waiting free : List Nat}

theorem waitingNodes_eq {r : Ring α} (h : r.published.map Prod.fst = r.taken.map Prod.fst ++ waiting) : r.waitingNodes = waiting := by
  unfold Ring.waitingNodes
  rw [h]
  exact List.drop_left' (List.length_map _)

theorem inUse_eq {r : Ring α} (h : r.published.map Prod.fst = r.taken.map Prod.fst ++ waiting) :
    r.inUse = waiting.length + r.allocated.length := by
  unfold Ring.inUse
  rw [waitingNodes_eq h]

namespace Accounted

theorem start : Accounted (PeakRing.start : PeakRing α) [] [] := ⟨Ring.start_inv.layout, rfl, rfl, rfl⟩

/-- No node is made: the peak stays. -/
theorem of_same {r : Ring α} {waiting' free' : List Nat} (h : Accounted p waiting free) (hlayout : Layout r.queue waiting' r.allocated free')
    (hhistory : r.published.map Prod.fst = r.taken.map Prod.fst ++ waiting') (hfresh : r.queue.fresh = p.ring.queue.fresh)
    (hcount : waiting'.length + r.allocated.length + free'.length = waiting.length + p.ring.allocated.length + free.length) :
    Accounted ⟨r, max p.peak r.inUse⟩ waiting' free' := by
  have hnodes := h.nodes
  have hpeak := h.peak
  have hinUse := inUse_eq hhistory
  refine ⟨hlayout, hhistory, ?_, ?_⟩
  · show r.queue.fresh = waiting'.length + r.allocated.length + free'.length + 2
    omega
  · show r.queue.fresh = max p.peak r.inUse + 2
    omega

/-- **Each operation** accounts for every node. -/
theorem step (h : Accounted p waiting free) {op : RingOp α} (hop : p.Permitted op) :
    ∃ p' waiting' free', p.step op = some p' ∧ Accounted p' waiting' free' := by
  have hnodes := h.nodes
  have hpeak := h.peak
  cases op with
  | allocate =>
      have hfst := Ring.allocateTmpNode_fst p.ring.queue
      cases free with
      | nil =>
          -- every node is in use: one more is made, and the peak is reached or passed
          have hfull : p.ring.queue.queueTail = p.ring.queue.next p.ring.queue.queueTmpHead := h.layout.next_tmpHead.symm
          have hfresh : p.ring.queue.allocateTmpNode.2.fresh = p.ring.queue.fresh + 1 := by
            simp only [allocateTmpNode, if_pos hfull]
          refine ⟨_, waiting, [], rfl, ?_, h.history, ?_, ?_⟩
          · show Layout p.ring.queue.allocateTmpNode.2 waiting (p.ring.allocated ++ [p.ring.queue.allocateTmpNode.1]) []
            rw [hfst]
            exact h.layout.of_allocateTmpNode_full
          · show p.ring.queue.allocateTmpNode.2.fresh = waiting.length + (p.ring.allocated ++ [_]).length + 0 + 2
            rw [hfresh, List.length_append, List.length_singleton]
            simp only [List.length_nil] at hnodes
            omega
          · show p.ring.queue.allocateTmpNode.2.fresh =
              max p.peak (p.ring.waitingNodes.length + (p.ring.allocated ++ [p.ring.queue.allocateTmpNode.1]).length) + 2
            rw [waitingNodes_eq h.history, hfresh, List.length_append, List.length_singleton]
            simp only [List.length_nil] at hnodes
            omega
      | cons f free =>
          have hfresh : p.ring.queue.allocateTmpNode.2.fresh = p.ring.queue.fresh := by
            have hne : ¬ p.ring.queue.queueTail = p.ring.queue.next p.ring.queue.queueTmpHead := by
              rw [h.layout.next_tmpHead]
              exact h.layout.tail_ne_of_free
            simp only [allocateTmpNode, if_neg hne]
          refine ⟨_, waiting, free, rfl, h.of_same ?_ h.history hfresh ?_⟩
          · show Layout p.ring.queue.allocateTmpNode.2 waiting (p.ring.allocated ++ [p.ring.queue.allocateTmpNode.1]) free
            rw [hfst]
            exact h.layout.of_allocateTmpNode_reuse
          · show waiting.length + (p.ring.allocated ++ [p.ring.queue.allocateTmpNode.1]).length + free.length = _
            rw [List.length_append, List.length_singleton, List.length_cons]
            omega
  | fill node message => exact ⟨_, waiting, free, rfl, h.of_same (h.layout.of_task _) h.history rfl rfl⟩
  | enqueue =>
      obtain ⟨n, rest, hallocated⟩ := List.exists_cons_of_ne_nil (show p.ring.allocated ≠ [] from hop)
      have hlayout := h.layout
      rw [hallocated] at hlayout
      obtain ⟨hhead, hlayout'⟩ := hlayout.enqueue
      refine ⟨_, waiting ++ [n], free, rfl, h.of_same ?_ ?_ rfl ?_⟩
      · show Layout p.ring.queue.enqueue (waiting ++ [n]) p.ring.allocated.tail free
        rw [hallocated]
        exact hlayout'
      · show (p.ring.published ++ [(p.ring.queue.queueHead, _)]).map Prod.fst = p.ring.taken.map Prod.fst ++ (waiting ++ [n])
        rw [List.map_append, h.history, hhead, List.append_assoc]
        rfl
      · show (waiting ++ [n]).length + p.ring.allocated.tail.length + free.length = _
        rw [hallocated, List.tail_cons, List.length_append, List.length_singleton, List.length_cons]
        omega
  | putback =>
      obtain ⟨free', hlist, hlayout⟩ := h.layout.putback
      refine ⟨_, waiting, free', rfl, h.of_same hlayout h.history rfl ?_⟩
      have hlength := congrArg List.length hlist
      simp only [List.length_append, List.length_cons, List.length_nil] at hlength ⊢
      omega
  | getTask =>
      cases waiting with
      | nil =>
          have hempty := h.layout.isEmpty_of_nil
          rw [show p.ring.queue.isEmpty = false from hop] at hempty
          cases hempty
      | cons n waiting =>
          obtain ⟨hget, hlayout⟩ := h.layout.getTask
          have hstep : p.ring.step .getTask = some { p.ring with
              queue := { p.ring.queue with queueTail := n }, taken := p.ring.taken ++ [(n, p.ring.queue.task n)] } := by
            simp only [Ring.step, hget]
          refine ⟨_, waiting, free ++ [p.ring.queue.queueTail], congrArg (Option.map _) hstep, h.of_same hlayout ?_ rfl ?_⟩
          · show p.ring.published.map Prod.fst = (p.ring.taken ++ [(n, _)]).map Prod.fst ++ waiting
            rw [h.history, List.map_append, List.append_assoc]
            rfl
          · show waiting.length + p.ring.allocated.length + (free ++ [p.ring.queue.queueTail]).length = _
            rw [List.length_append, List.length_singleton, List.length_cons]
            omega

/-- All nodes that were made. -/
theorem perm_range (h : Accounted p waiting free) :
    (Layout.nodes p.ring.queue waiting p.ring.allocated free).Perm (List.range p.ring.queue.fresh) := by
  refine h.layout.subperm_range.perm_of_length_le ?_
  have hnodes := h.nodes
  simp only [Layout.nodes, List.length_range, List.length_cons, List.length_append]
  omega

end Accounted

/-- **The nodes of a ring are accounted for.** However its two sides use it, a ring has two nodes more than were ever in use at once;
`destory_queue` ends, deletes no node twice, and deletes exactly those that do not wait to be taken. -/
theorem ring_nodes_accounted (ops : List (RingOp α)) (hops : Run.Guarded step Permitted start ops) :
    ∃ p deleted, Run.run step start ops = some p ∧ p.ring.queue.fresh = p.peak + 2 ∧ p.ring.queue.destoryQueue = some deleted ∧
      deleted.Nodup ∧ ∀ n, n ∈ deleted ↔ n < p.ring.queue.fresh ∧ n ∉ p.ring.waitingNodes := by
  have hstep : ∀ (p : PeakRing α) op, (∃ waiting free, Accounted p waiting free) → p.Permitted op →
      ∃ p', p.step op = some p' ∧ ∃ waiting free, Accounted p' waiting free := by
    rintro p op ⟨waiting, free, h⟩ hop
    obtain ⟨p', waiting', free', hs, h'⟩ := h.step hop
    exact ⟨p', hs, waiting', free', h'⟩
  obtain ⟨p, hrun, waiting, free, h⟩ := Run.run_progress hstep ⟨[], [], Accounted.start⟩ hops
  -- the whole ring is what waits, and what is deleted
  have hperm : (waiting ++ (p.ring.allocated ++ p.ring.queue.queueTmpHead :: free ++ [p.ring.queue.queueTail])).Perm
      (List.range p.ring.queue.fresh) := by
    refine List.Perm.trans ?_ h.perm_range
    unfold Layout.nodes
    rw [List.append_assoc waiting, ← List.append_assoc waiting _ [_]]
    exact List.perm_append_singleton _ _
  have hnodup := hperm.nodup_iff.mpr List.nodup_range
  obtain ⟨-, hdeleted, hdisjoint⟩ := List.nodup_append.mp hnodup
  refine ⟨p, _, hrun, h.peak, h.layout.destoryQueue, hdeleted, ?_⟩
  intro n
  rw [waitingNodes_eq h.history, ← List.mem_range, ← hperm.mem_iff]
  constructor
  · intro hn
    exact ⟨List.mem_append_right waiting hn, fun hw => hdisjoint n hw n hn rfl⟩
  · rintro ⟨hn, hnot⟩
    rcases List.mem_append.mp hn with hw | hn
    · exact absurd hw hnot
    · exact hn

/-- Two tasks wait when the queue goes; three nodes were in use at once. -/
def unreadRun : List (RingOp Nat) :=
  [.allocate, .fill 1 7, .enqueue, .getTask, .allocate, .enqueue, .allocate, .allocate, .enqueue, .putback]

theorem ring_nodes_accounted_unread : Run.Guarded step Permitted start unreadRun ∧
    ∃ p deleted, Run.run step start unreadRun = some p ∧ p.ring.queue.fresh = p.peak + 2 ∧ p.ring.queue.destoryQueue = some deleted ∧
      deleted.Nodup ∧ ∀ n, n ∈ deleted ↔ n < p.ring.queue.fresh ∧ n ∉ p.ring.waitingNodes := by
  have hops : Run.Guarded step Permitted start unreadRun := by decide +kernel
  exact ⟨hops, ring_nodes_accounted unreadRun hops⟩

end PeakRing

end HuronFS
