import HuronFS.Common.TaskQueue
import HuronFS.Lib.Run

/-!
# `Common.TaskRing` — one producer and one consumer on a task ring

The ring next to its history: which nodes the producer has allocated and not published, what was published
and what the consumer took, each as the node and the message in it. The three cursors only ever move along
the links, so the history can be read off the ring (`RingInv`): what is published is what was taken, followed
by the nodes between `queue_tail` and `queue_head`.
-/

namespace HuronFS

open TaskQueue

variable {α : Type*}

/-- A ring with what happened on it. -/
structure Ring (α : Type*) where
  queue : TaskQueue α
  allocated : List Nat
  published : List (Nat × Option α)
  taken : List (Nat × Option α)

/-- What the producer and the consumer can do, in any order. `fill` writes a message into a node. -/
inductive RingOp (α : Type*)
  | allocate
  | fill (node : Nat) (message : α)
  | enqueue
  | putback
  | getTask

namespace Ring

def start : Ring α := ⟨TaskQueue.init, [], [], []⟩

/-- One operation; `get_task` waits while the queue is empty. -/
def step (r : Ring α) : RingOp α → Option (Ring α)
  | .allocate =>
      some { r with queue := r.queue.allocateTmpNode.2, allocated := r.allocated ++ [r.queue.allocateTmpNode.1] }
  | .fill node message => some { r with queue := r.queue.fill node message }
  | .enqueue =>
      some { r with
        queue := r.queue.enqueue
        allocated := r.allocated.tail
        published := r.published ++ [(r.queue.queueHead, r.queue.task r.queue.queueHead)] }
  | .putback => some { r with queue := r.queue.putbackTmpNode, allocated := [] }
  | .getTask =>
      match r.queue.getTask with
      | none => none
      | some (message, queue) => some { r with queue := queue, taken := r.taken ++ [(queue.queueTail, message)] }

/-- The producer writes into and publishes only what it has allocated, the consumer takes only what is there. -/
def Permitted (r : Ring α) : RingOp α → Prop
  | .allocate => True
  | .fill node _ => node ∈ r.allocated
  | .enqueue => r.allocated ≠ []
  | .putback => True
  | .getTask => r.queue.isEmpty = false

instance (r : Ring α) (op : RingOp α) : Decidable (r.Permitted op) := by
  cases op <;> unfold Permitted <;> infer_instance

/-- The nodes between `queue_tail` and `queue_head` are what is published and not taken, those from there to
    `queue_tmp_head` are what is allocated, and `queue_tail` is what was taken last. -/
structure RingInv (r : Ring α) (waiting free : List Nat) : Prop where
  layout : Layout r.queue waiting r.allocated free
  history : r.published = r.taken ++ waiting.map (fun n => (n, r.queue.task n))
  last : ∀ p ∈ r.taken.getLast?, p.1 = r.queue.queueTail

theorem start_inv : RingInv (start : Ring α) [] [] := by
  refine ⟨⟨?_, ?_, ?_, rfl⟩, rfl, ?_⟩
  · simp [start, TaskQueue.init]
  · simp [start, TaskQueue.init]
  · simp [start, TaskQueue.init]
  · simp [start]

variable {r : Ring α} {waiting free : List Nat}

theorem allocateTmpNode_fst (q : TaskQueue α) : q.allocateTmpNode.1 = q.queueTmpHead := by
  unfold allocateTmpNode
  dsimp only
  split <;> rfl

theorem allocateTmpNode_task (q : TaskQueue α) :
    q.allocateTmpNode.2.task = Function.update q.task q.queueTmpHead none := by
  unfold allocateTmpNode
  dsimp only
  split <;> rfl

theorem allocateTmpNode_tail (q : TaskQueue α) : q.allocateTmpNode.2.queueTail = q.queueTail := by
  unfold allocateTmpNode
  dsimp only
  split <;> rfl

/-- What stands between `queue_tail` and `queue_head` does not see a change to another node. -/
theorem history_of_update {n : Nat} (h : RingInv r waiting free) (hn : n ∉ waiting) (v : Option α) :
    r.published = r.taken ++ waiting.map (fun k => (k, Function.update r.queue.task n v k)) := by
  rw [h.history]
  congr 1
  apply List.map_congr_left
  intro k hk
  have hne : k ≠ n := fun he => hn (he ▸ hk)
  rw [Function.update_of_ne hne]

/-- **One operation.** -/
theorem RingInv.step (h : RingInv r waiting free) {op : RingOp α} (hop : r.Permitted op) :
    ∃ r' waiting' free', r.step op = some r' ∧ RingInv r' waiting' free' := by
  cases op with
  | allocate =>
      obtain ⟨free', hl⟩ := h.layout.allocate
      refine ⟨_, waiting, free', rfl, ⟨?_, ?_, ?_⟩⟩
      · show Layout r.queue.allocateTmpNode.2 waiting (r.allocated ++ [r.queue.allocateTmpNode.1]) free'
        rw [allocateTmpNode_fst]
        exact hl
      · show r.published = r.taken ++ waiting.map (fun k => (k, r.queue.allocateTmpNode.2.task k))
        rw [allocateTmpNode_task]
        exact history_of_update h h.layout.tmpHead_not_mem.1 none
      · show ∀ p ∈ r.taken.getLast?, p.1 = r.queue.allocateTmpNode.2.queueTail
        rw [allocateTmpNode_tail]
        exact h.last
  | fill node message =>
      refine ⟨_, waiting, free, rfl, ⟨h.layout.of_task _, ?_, h.last⟩⟩
      apply history_of_update h
      -- a node is published or allocated, not both
      intro hmem
      have hnodup := (List.nodup_cons.mp h.layout.nodup).2
      rw [List.nodup_append] at hnodup
      exact (List.nodup_append.mp hnodup.1).2.2 node hmem node hop rfl
  | enqueue =>
      obtain ⟨n, rest, hallocated⟩ := List.exists_cons_of_ne_nil (show r.allocated ≠ [] from hop)
      have hl := h.layout
      rw [hallocated] at hl
      obtain ⟨hhead, hl'⟩ := hl.enqueue
      refine ⟨_, waiting ++ [n], free, rfl, ⟨?_, ?_, h.last⟩⟩
      · show Layout r.queue.enqueue (waiting ++ [n]) r.allocated.tail free
        rw [hallocated]
        exact hl'
      · show r.published ++ [(r.queue.queueHead, r.queue.task r.queue.queueHead)]
          = r.taken ++ (waiting ++ [n]).map (fun k => (k, r.queue.task k))
        rw [h.history, hhead, List.map_append, List.append_assoc]
        rfl
  | putback =>
      obtain ⟨free', -, hl⟩ := h.layout.putback
      exact ⟨_, waiting, free', rfl, ⟨hl, h.history, h.last⟩⟩
  | getTask =>
      cases waiting with
      | nil =>
          have hempty := h.layout.isEmpty_of_nil
          rw [show r.queue.isEmpty = false from hop] at hempty
          cases hempty
      | cons n waiting =>
          obtain ⟨hget, hl⟩ := h.layout.getTask
          refine ⟨{ r with queue := { r.queue with queueTail := n }, taken := r.taken ++ [(n, r.queue.task n)] },
            waiting, free ++ [r.queue.queueTail], ?_, ⟨hl, ?_, ?_⟩⟩
          · simp only [Ring.step, hget]
          · show r.published = r.taken ++ [(n, r.queue.task n)] ++ waiting.map (fun k => (k, r.queue.task k))
            rw [h.history, List.append_assoc]
            rfl
          · intro p hp
            have hlast : (r.taken ++ [(n, r.queue.task n)]).getLast? = some (n, r.queue.task n) := List.getLast?_concat
            rw [hlast] at hp
            rw [← Option.some.inj hp]

/-- The node the next `allocate_tmp_node` returns is in nobody's hands. -/
theorem RingInv.next_node (h : RingInv r waiting free) :
    (∀ p ∈ r.taken.getLast?, r.queue.allocateTmpNode.1 ≠ p.1) ∧ r.queue.allocateTmpNode.1 ∉ waiting ∧
      r.queue.allocateTmpNode.1 ∉ r.allocated := by
  rw [allocateTmpNode_fst]
  obtain ⟨hwaiting, hallocated⟩ := h.layout.tmpHead_not_mem
  refine ⟨?_, hwaiting, hallocated⟩
  intro p hp hc
  have hnodup := (List.nodup_cons.mp h.layout.nodup).1
  rw [← h.last p hp, ← hc] at hnodup
  exact hnodup (by simp)

/-- **The ring is a FIFO queue that never recycles a task in use.** -/
theorem ring_is_fifo (ops : List (RingOp α)) (hops : Run.Guarded step Permitted start ops) :
    ∃ r waiting free, Run.run step start ops = some r ∧
      -- the ring is one cycle, in the order of the cursors
      Layout r.queue waiting r.allocated free ∧
      -- what was taken is what was published, in that order, up to the nodes still waiting
      r.published = r.taken ++ waiting.map (fun n => (n, r.queue.task n)) ∧
      -- the next allocation does not touch the node taken last, a waiting one or an allocated one
      ((∀ p ∈ r.taken.getLast?, r.queue.allocateTmpNode.1 ≠ p.1) ∧ r.queue.allocateTmpNode.1 ∉ waiting ∧
        r.queue.allocateTmpNode.1 ∉ r.allocated) ∧
      -- putting back frees what is allocated and leaves what the consumer sees
      ∃ free', Layout r.queue.putbackTmpNode waiting [] free' ∧
        (∀ n ∈ r.allocated, n ∈ r.queue.putbackTmpNode.queueTmpHead :: free') ∧
        r.queue.putbackTmpNode.task = r.queue.task := by
  have hstep : ∀ (r : Ring α) op, (∃ waiting free, RingInv r waiting free) → r.Permitted op →
      ∃ r', r.step op = some r' ∧ ∃ waiting free, RingInv r' waiting free := by
    rintro r op ⟨waiting, free, h⟩ hop
    obtain ⟨r', waiting', free', hstep, h'⟩ := h.step hop
    exact ⟨r', hstep, waiting', free', h'⟩
  obtain ⟨r, hrun, waiting, free, hinv⟩ := Run.run_progress hstep ⟨[], [], start_inv⟩ hops
  obtain ⟨free', hlist, hputback⟩ := hinv.layout.putback
  refine ⟨r, waiting, free, hrun, hinv.layout, hinv.history, hinv.next_node, free', hputback, ?_, rfl⟩
  intro n hn
  show n ∈ r.queue.queueHead :: free'
  rw [← hlist]
  exact List.mem_append.mpr (Or.inl hn)

/-- Two messages published and one of them taken, a third one put back. -/
theorem ring_is_fifo_two_messages :
    Run.Guarded step Permitted (start : Ring Nat)
      [.allocate, .fill 1 7, .enqueue, .allocate, .fill 2 8, .enqueue, .getTask, .allocate, .putback] ∧
    ∃ r waiting free, Run.run step (start : Ring Nat)
        [.allocate, .fill 1 7, .enqueue, .allocate, .fill 2 8, .enqueue, .getTask, .allocate, .putback] = some r ∧
      Layout r.queue waiting r.allocated free ∧
      r.published = r.taken ++ waiting.map (fun n => (n, r.queue.task n)) := by
  have hops : Run.Guarded step Permitted (start : Ring Nat)
      [.allocate, .fill 1 7, .enqueue, .allocate, .fill 2 8, .enqueue, .getTask, .allocate, .putback] := by
    decide +kernel
  obtain ⟨r, waiting, free, hrun, hlayout, hhistory, -⟩ := ring_is_fifo _ hops
  exact ⟨hops, r, waiting, free, hrun, hlayout, hhistory⟩

end Ring

end HuronFS
