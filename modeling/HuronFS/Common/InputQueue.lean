import Mathlib.Data.List.Nodup
import HuronFS.Common.TaskRing

/-!
# `Common.InputQueue` — the two producers of a server's input queue 0 (`Server.cpp`)

The receiver thread allocates a node, receives a message into it and publishes it, or puts it back when the
connection breaks; the sender thread, like the receiver after a broken connection, reports a failed node with
`send_input_for_handle_error`. Nothing orders the two. A node holds `some p` once `p` has filled it
completely, and nothing before.
-/

namespace HuronFS

open TaskQueue

/-- The threads that put tasks into input queue 0. -/
inductive Producer
  | receiver
  | sender
deriving DecidableEq, Repr

/-- How far a producer is: about to report a failure, with a node it receives or reports into, or with a
    node that is filled. -/
inductive Phase
  | idle
  | failed
  | receiving (node : Nat)
  | reporting (node : Nat)
  | ready (node : Nat)
deriving DecidableEq, Repr

/-- The node a producer holds. -/
def Phase.held : Phase → List Nat
  | .idle => []
  | .failed => []
  | .receiving node => [node]
  | .reporting node => [node]
  | .ready node => [node]

/-- A publication: who had allocated the node, who published, and who had filled the node. -/
structure Publication where
  owner : Option Producer
  publisher : Producer
  content : Option Producer
deriving DecidableEq, Repr

/-- Input queue 0 with its producers and what happened on it. -/
structure InputQueue where
  queue : TaskQueue Producer
  phase : Producer → Phase
  allocated : List (Producer × Nat)
  published : List Publication
  discarded : List (Producer × Producer)
  taken : List (Option Producer)

/-- One queue operation of one thread, with what led to it. -/
inductive InputEvent
  | receive
  | received
  | lost
  | closed
  | sendFailed
  | report (p : Producer)
  | reported (p : Producer)
  | enqueue (p : Producer)
  | take
deriving DecidableEq, Repr

namespace InputQueue

def start : InputQueue := ⟨TaskQueue.init, fun _ => .idle, [], [], [], []⟩

/-- `allocate_tmp_node` by `p`. -/
def allocate (s : InputQueue) (p : Producer) (phase : Nat → Phase) : InputQueue :=
  { s with
    queue := s.queue.allocateTmpNode.2
    phase := Function.update s.phase p (phase s.queue.allocateTmpNode.1)
    allocated := s.allocated ++ [(p, s.queue.allocateTmpNode.1)] }

/-- `p` completes the message in its node. -/
def fill (s : InputQueue) (p : Producer) (node : Nat) : InputQueue :=
  { s with queue := s.queue.fill node p, phase := Function.update s.phase p (.ready node) }

/-- One event; `none` where the thread is not at that point. -/
def step (s : InputQueue) : InputEvent → Option InputQueue
  | .receive =>
      match s.phase .receiver with
      | .idle => some (s.allocate .receiver .receiving)
      | _ => none
  | .received =>
      match s.phase .receiver with
      | .receiving node => some (s.fill .receiver node)
      | _ => none
  | .lost =>
      -- `receive_message` threw: the `catch` puts the node back and goes on to report the failure
      match s.phase .receiver with
      | .receiving _ =>
          some { s with
            queue := s.queue.putbackTmpNode
            phase := Function.update s.phase .receiver .failed
            allocated := []
            discarded := s.discarded ++ s.allocated.map (fun e => (e.1, .receiver)) }
      | _ => none
  | .closed =>
      -- `Recv` of the queue number threw: no node was allocated
      match s.phase .receiver with
      | .idle => some { s with phase := Function.update s.phase .receiver .failed }
      | _ => none
  | .sendFailed =>
      match s.phase .sender with
      | .idle => some { s with phase := Function.update s.phase .sender .failed }
      | _ => none
  | .report p =>
      match s.phase p with
      | .failed => some (s.allocate p .reporting)
      | _ => none
  | .reported p =>
      match s.phase p with
      | .reporting node => some (s.fill p node)
      | _ => none
  | .enqueue p =>
      match s.phase p with
      | .ready _ =>
          some { s with
            queue := s.queue.enqueue
            phase := Function.update s.phase p .idle
            allocated := s.allocated.tail
            published := s.published ++
              [⟨s.allocated.head?.map Prod.fst, p, s.queue.task s.queue.queueHead⟩] }
      | _ => none
  | .take =>
      match s.queue.getTask with
      | none => none
      | some (content, queue) => some { s with queue := queue, taken := s.taken ++ [content] }

/-- What the handler takes is complete, and each producer publishes and puts back its own nodes only. -/
structure Complete (s : InputQueue) : Prop where
  published : ∀ e ∈ s.published, e.owner = some e.publisher ∧ e.content = some e.publisher
  discarded : ∀ d ∈ s.discarded, d.1 = d.2
  taken : ∃ waiting, s.published.map Publication.content = s.taken ++ waiting

/-- A producer publishes while no node the other one allocated before it is still unpublished, and puts back
    while the other one has none. -/
def InTurn (s : InputQueue) : InputEvent → Prop
  | .enqueue p => ∀ e ∈ s.allocated.head?, e.1 = p
  | .lost => ∀ e ∈ s.allocated, e.1 = .receiver
  | _ => True

instance (s : InputQueue) (e : InputEvent) : Decidable (s.InTurn e) := by
  cases e <;> unfold InTurn <;> infer_instance

/-! ## The invariant -/

/-- The ring next to the phases: the nodes of a producer that are allocated are the one it holds, and a node
    it is done with is filled. -/
structure Inv (s : InputQueue) (waiting free : List Nat) : Prop where
  layout : Layout s.queue waiting (s.allocated.map Prod.snd) free
  holds : ∀ p, (s.allocated.filter (fun e => e.1 = p)).map Prod.snd = (s.phase p).held
  filled : ∀ p node, s.phase p = .ready node → s.queue.task node = some p
  history : s.published.map Publication.content = s.taken ++ waiting.map s.queue.task
  published : ∀ e ∈ s.published, e.owner = some e.publisher ∧ e.content = some e.publisher
  discarded : ∀ d ∈ s.discarded, d.1 = d.2

theorem Inv.complete {s : InputQueue} {waiting free : List Nat} (h : Inv s waiting free) : s.Complete :=
  ⟨h.published, h.discarded, waiting.map s.queue.task, h.history⟩

theorem start_inv : Inv start [] [] := by
  refine ⟨⟨?_, ?_, ?_, rfl⟩, ?_, ?_, rfl, ?_, ?_⟩
  · simp [start, TaskQueue.init]
  · simp [start, TaskQueue.init]
  · simp [start, TaskQueue.init]
  · intro p
    rfl
  · intro p node hp
    cases hp
  · simp [start]
  · simp [start]

variable {s : InputQueue} {waiting free : List Nat} {p : Producer}

theorem Inv.mem_allocated (h : Inv s waiting free) {node : Nat} (hp : node ∈ (s.phase p).held) :
    (p, node) ∈ s.allocated := by
  rw [← h.holds p, List.mem_map] at hp
  obtain ⟨⟨q, n⟩, hmem, rfl⟩ := hp
  rw [List.mem_filter] at hmem
  obtain rfl : q = p := by simpa using hmem.2
  exact hmem.1

/-- An allocated node is not waiting for the handler. -/
theorem Inv.not_waiting (h : Inv s waiting free) {node : Nat} (hmem : node ∈ s.allocated.map Prod.snd) :
    node ∉ waiting := by
  intro hw
  have hnodup := (List.nodup_cons.mp h.layout.nodup).2
  rw [List.nodup_append] at hnodup
  exact (List.nodup_append.mp hnodup.1).2.2 node hw node hmem rfl

theorem Inv.allocated_nodup (h : Inv s waiting free) : (s.allocated.map Prod.snd).Nodup := by
  have hnodup := (List.nodup_cons.mp h.layout.nodup).2
  rw [List.nodup_append] at hnodup
  exact (List.nodup_append.mp hnodup.1).2.1

/-- Two producers hold two nodes. -/
theorem Inv.node_ne (h : Inv s waiting free) {q : Producer} {node other : Nat} (hpq : q ≠ p)
    (hnode : (p, node) ∈ s.allocated) (hother : (q, other) ∈ s.allocated) : other ≠ node := by
  intro he
  have hsame : (q, other) = (p, node) :=
    List.inj_on_of_nodup_map h.allocated_nodup hother hnode he
  exact hpq (congrArg Prod.fst hsame)

theorem Inv.allocate (h : Inv s waiting free) (hidle : (s.phase p).held = []) (phase : Nat → Phase)
    (hheld : ∀ n, (phase n).held = [n]) (hready : ∀ n m, phase n ≠ .ready m) :
    ∃ free', Inv (s.allocate p phase) waiting free' := by
  obtain ⟨free', hl⟩ := h.layout.allocate
  obtain ⟨hwaiting, hallocated⟩ := h.layout.tmpHead_not_mem
  have hfst := Ring.allocateTmpNode_fst s.queue
  refine ⟨free', ⟨?_, ?_, ?_, ?_, h.published, h.discarded⟩⟩
  · show Layout s.queue.allocateTmpNode.2 waiting ((s.allocated ++ [(p, s.queue.allocateTmpNode.1)]).map Prod.snd) free'
    rw [List.map_append, hfst]
    exact hl
  · intro q
    show ((s.allocated ++ [(p, s.queue.allocateTmpNode.1)]).filter (fun e => e.1 = q)).map Prod.snd
      = (Function.update s.phase p (phase s.queue.allocateTmpNode.1) q).held
    rw [List.filter_append, List.map_append, h.holds q]
    by_cases hq : q = p
    · subst hq
      rw [hidle, Function.update_self, hheld]
      simp
    · rw [Function.update_of_ne hq]
      simp [Ne.symm hq]
  · intro q node hq
    show s.queue.allocateTmpNode.2.task node = some q
    rw [Ring.allocateTmpNode_task]
    by_cases hqp : q = p
    · subst hqp
      have hphase : Function.update s.phase q (phase s.queue.allocateTmpNode.1) q = .ready node := hq
      rw [Function.update_self] at hphase
      exact absurd hphase (hready _ _)
    · have hphase : Function.update s.phase p (phase s.queue.allocateTmpNode.1) q = .ready node := hq
      rw [Function.update_of_ne hqp] at hphase
      have hmem : (q, node) ∈ s.allocated := h.mem_allocated (by rw [hphase]; exact List.mem_singleton_self _)
      have hne : node ≠ s.queue.queueTmpHead := by
        intro he
        apply hallocated
        rw [← he]
        exact List.mem_map_of_mem hmem
      rw [Function.update_of_ne hne]
      exact h.filled q node hphase
  · show s.published.map Publication.content = s.taken ++ waiting.map s.queue.allocateTmpNode.2.task
    rw [Ring.allocateTmpNode_task, map_update_of_not_mem hwaiting]
    exact h.history

theorem Inv.fill (h : Inv s waiting free) {node : Nat} (hheld : (s.phase p).held = [node]) :
    Inv (s.fill p node) waiting free := by
  have hmem : (p, node) ∈ s.allocated := h.mem_allocated (by rw [hheld]; exact List.mem_singleton_self _)
  refine ⟨h.layout.of_task _, ?_, ?_, ?_, h.published, h.discarded⟩
  · intro q
    show _ = (Function.update s.phase p (.ready node) q).held
    by_cases hq : q = p
    · subst hq
      rw [Function.update_self]
      exact (h.holds q).trans hheld
    · rw [Function.update_of_ne hq]
      exact h.holds q
  · intro q other hq
    show Function.update s.queue.task node (some p) other = some q
    have hphase : Function.update s.phase p (.ready node) q = .ready other := hq
    by_cases hqp : q = p
    · subst hqp
      rw [Function.update_self] at hphase
      obtain rfl : node = other := Phase.ready.inj hphase
      rw [Function.update_self]
    · rw [Function.update_of_ne hqp] at hphase
      have hother : (q, other) ∈ s.allocated := h.mem_allocated (by rw [hphase]; exact List.mem_singleton_self _)
      rw [Function.update_of_ne (h.node_ne hqp hmem hother)]
      exact h.filled q other hphase
  · show s.published.map Publication.content = s.taken ++ waiting.map (Function.update s.queue.task node (some p))
    rw [map_update_of_not_mem (h.not_waiting (List.mem_map_of_mem hmem))]
    exact h.history

/-- A producer that starts to report holds no node, before and after. -/
theorem Inv.fail (h : Inv s waiting free) (hidle : (s.phase p).held = []) :
    Inv { s with phase := Function.update s.phase p .failed } waiting free := by
  refine ⟨h.layout, ?_, ?_, h.history, h.published, h.discarded⟩
  · intro q
    show _ = (Function.update s.phase p .failed q).held
    by_cases hq : q = p
    · subst hq
      rw [Function.update_self]
      exact (h.holds q).trans hidle
    · rw [Function.update_of_ne hq]
      exact h.holds q
  · intro q node hq
    have hphase : Function.update s.phase p .failed q = .ready node := hq
    by_cases hqp : q = p
    · subst hqp
      rw [Function.update_self] at hphase
      cases hphase
    · rw [Function.update_of_ne hqp] at hphase
      exact h.filled q node hphase

/-- The receiver puts its node back while the sender has none. -/
theorem Inv.putback (h : Inv s waiting free)
    (hturn : ∀ e ∈ s.allocated, e.1 = Producer.receiver) :
    ∃ free', Inv { s with
      queue := s.queue.putbackTmpNode
      phase := Function.update s.phase .receiver .failed
      allocated := []
      discarded := s.discarded ++ s.allocated.map (fun e => (e.1, .receiver)) } waiting free' := by
  obtain ⟨free', -, hl⟩ := h.layout.putback
  have hsender : (s.phase .sender).held = [] := by
    rw [← h.holds .sender, List.map_eq_nil_iff, List.filter_eq_nil_iff]
    intro e he
    rw [hturn e he]
    decide
  refine ⟨free', ⟨hl, ?_, ?_, h.history, h.published, ?_⟩⟩
  · intro q
    show [] = (Function.update s.phase .receiver .failed q).held
    cases q with
    | receiver => rw [Function.update_self]; rfl
    | sender => rw [Function.update_of_ne (by decide), hsender]
  · intro q other hq
    have hphase' : Function.update s.phase .receiver .failed q = .ready other := hq
    cases q with
    | receiver => rw [Function.update_self] at hphase'; cases hphase'
    | sender =>
        rw [Function.update_of_ne (by decide)] at hphase'
        rw [hphase'] at hsender
        cases hsender
  · intro d hd
    rcases List.mem_append.mp hd with hd | hd
    · exact h.discarded d hd
    · obtain ⟨e, he, rfl⟩ := List.mem_map.mp hd
      exact hturn e he

/-- A producer publishes while its own node is the oldest one allocated. -/
theorem Inv.enqueue (h : Inv s waiting free) {node : Nat} (hphase : s.phase p = .ready node)
    (hturn : ∀ e ∈ s.allocated.head?, e.1 = p) :
    Inv { s with
      queue := s.queue.enqueue
      phase := Function.update s.phase p .idle
      allocated := s.allocated.tail
      published := s.published ++ [⟨s.allocated.head?.map Prod.fst, p, s.queue.task s.queue.queueHead⟩] }
      (waiting ++ [node]) free := by
  have hmem : (p, node) ∈ s.allocated := h.mem_allocated (by rw [hphase]; exact List.mem_singleton_self _)
  obtain ⟨⟨q, n⟩, rest, hallocated⟩ := List.exists_cons_of_ne_nil (List.ne_nil_of_mem hmem)
  have hhead : s.allocated.head? = some (q, n) := by rw [hallocated]; rfl
  obtain rfl : q = p := hturn (q, n) hhead
  -- the producer has one node, and it is the first of the list
  have hone : n :: (rest.filter (fun e => e.1 = q)).map Prod.snd = [node] := by
    have := h.holds q
    rw [hallocated, hphase] at this
    simpa [Phase.held] using this
  obtain ⟨rfl, hrest⟩ := List.cons.inj hone
  have hlayout := h.layout
  rw [hallocated, List.map_cons] at hlayout
  obtain ⟨hqueueHead, hl⟩ := hlayout.enqueue
  have hcontent : s.queue.task s.queue.queueHead = some q := by
    rw [hqueueHead]
    exact h.filled q n hphase
  refine ⟨?_, ?_, ?_, ?_, ?_, h.discarded⟩
  · show Layout s.queue.enqueue (waiting ++ [n]) (s.allocated.tail.map Prod.snd) free
    rw [hallocated]
    exact hl
  · intro j
    show (s.allocated.tail.filter (fun e => e.1 = j)).map Prod.snd = (Function.update s.phase q .idle j).held
    rw [hallocated, List.tail_cons]
    by_cases hj : j = q
    · subst hj
      rw [Function.update_self, hrest]
      rfl
    · rw [Function.update_of_ne hj, ← h.holds j, hallocated]
      simp [Ne.symm hj]
  · intro j other hj
    have hphase' : Function.update s.phase q .idle j = .ready other := hj
    by_cases hjq : j = q
    · subst hjq
      rw [Function.update_self] at hphase'
      cases hphase'
    · rw [Function.update_of_ne hjq] at hphase'
      exact h.filled j other hphase'
  · show (s.published ++ [_]).map Publication.content = s.taken ++ (waiting ++ [n]).map s.queue.task
    rw [List.map_append, h.history, List.map_append, List.append_assoc, hqueueHead]
    rfl
  · intro e he
    rcases List.mem_append.mp he with he | he
    · exact h.published e he
    · obtain rfl := List.mem_singleton.mp he
      exact ⟨by rw [hhead]; rfl, hcontent⟩

theorem Inv.take (h : Inv s waiting free) {content : Option Producer} {queue : TaskQueue Producer}
    (hget : s.queue.getTask = some (content, queue)) :
    ∃ waiting' free', Inv { s with queue := queue, taken := s.taken ++ [content] } waiting' free' := by
  cases waiting with
  | nil =>
      unfold TaskQueue.getTask at hget
      rw [if_pos h.layout.isEmpty_of_nil] at hget
      cases hget
  | cons n waiting =>
      obtain ⟨hget', hl⟩ := h.layout.getTask
      rw [hget] at hget'
      obtain ⟨rfl, rfl⟩ := Prod.mk.inj (Option.some.inj hget')
      refine ⟨waiting, free ++ [s.queue.queueTail], ⟨hl, h.holds, h.filled, ?_, h.published, h.discarded⟩⟩
      show s.published.map Publication.content = s.taken ++ [s.queue.task n] ++ waiting.map s.queue.task
      rw [h.history, List.append_assoc]
      rfl

/-- **One event.** -/
theorem Inv.step (h : Inv s waiting free) {e : InputEvent} {s' : InputQueue} (hturn : s.InTurn e)
    (hstep : s.step e = some s') : ∃ waiting' free', Inv s' waiting' free' := by
  cases e with
  | receive =>
      simp only [InputQueue.step] at hstep
      split at hstep
      · rename_i hphase
        obtain rfl := Option.some.inj hstep
        obtain ⟨free', h'⟩ := h.allocate (p := .receiver) (by rw [hphase]; rfl) .receiving (fun _ => rfl)
          (fun _ _ => by simp)
        exact ⟨waiting, free', h'⟩
      · cases hstep
  | received =>
      simp only [InputQueue.step] at hstep
      split at hstep
      · rename_i node hphase
        obtain rfl := Option.some.inj hstep
        exact ⟨waiting, free, h.fill (by rw [hphase]; rfl)⟩
      · cases hstep
  | lost =>
      simp only [InputQueue.step] at hstep
      split at hstep
      · obtain rfl := Option.some.inj hstep
        obtain ⟨free', h'⟩ := h.putback hturn
        exact ⟨waiting, free', h'⟩
      · cases hstep
  | closed =>
      simp only [InputQueue.step] at hstep
      split at hstep
      · rename_i hphase
        obtain rfl := Option.some.inj hstep
        exact ⟨waiting, free, h.fail (by rw [hphase]; rfl)⟩
      · cases hstep
  | sendFailed =>
      simp only [InputQueue.step] at hstep
      split at hstep
      · rename_i hphase
        obtain rfl := Option.some.inj hstep
        exact ⟨waiting, free, h.fail (by rw [hphase]; rfl)⟩
      · cases hstep
  | report p =>
      simp only [InputQueue.step] at hstep
      split at hstep
      · rename_i hphase
        obtain rfl := Option.some.inj hstep
        obtain ⟨free', h'⟩ := h.allocate (p := p) (by rw [hphase]; rfl) .reporting (fun _ => rfl) (fun _ _ => by simp)
        exact ⟨waiting, free', h'⟩
      · cases hstep
  | reported p =>
      simp only [InputQueue.step] at hstep
      split at hstep
      · rename_i node hphase
        obtain rfl := Option.some.inj hstep
        exact ⟨waiting, free, h.fill (by rw [hphase]; rfl)⟩
      · cases hstep
  | enqueue p =>
      simp only [InputQueue.step] at hstep
      split at hstep
      · rename_i node hphase
        obtain rfl := Option.some.inj hstep
        exact ⟨waiting ++ [node], free, h.enqueue hphase hturn⟩
      · cases hstep
  | take =>
      simp only [InputQueue.step] at hstep
      split at hstep
      · cases hstep
      · rename_i content queue hget
        obtain rfl := Option.some.inj hstep
        exact h.take hget

/-- **While the producers take turns, every task the handler obtains is complete.** -/
theorem requests_complete (events : List InputEvent) (hturns : Run.Guarded step InTurn start events)
    {s : InputQueue} (hrun : Run.run step start events = some s) : s.Complete := by
  have hstep : ∀ (s : InputQueue) e s', (∃ waiting free, Inv s waiting free) → s.InTurn e → s.step e = some s' →
      ∃ waiting free, Inv s' waiting free := by
    rintro s e s' ⟨waiting, free, h⟩ hturn hs
    exact h.step hturn hs
  obtain ⟨waiting, free, hinv⟩ := Run.run_invariant hstep ⟨[], [], start_inv⟩ hturns hrun
  exact hinv.complete

/-- The receiver has a message half received when the sender reports a failure: its `enqueue` publishes the
    receiver's node. -/
def overtaken : List InputEvent := [.receive, .sendFailed, .report .sender, .reported .sender, .enqueue .sender, .take]

/-- The sender's report and then a message, one after the other. -/
def inTurn : List InputEvent :=
  [.sendFailed, .report .sender, .reported .sender, .enqueue .sender, .receive, .received, .enqueue .receiver, .take]

theorem requests_complete_inTurn :
    Run.Guarded step InTurn start inTurn ∧ ∃ s, Run.run step start inTurn = some s ∧ s.Complete := by
  have hturns : Run.Guarded step InTurn start inTurn := by decide +kernel
  have hrun : (Run.run step start inTurn).isSome = true := by decide +kernel
  obtain ⟨s, hs⟩ := Option.isSome_iff_exists.mp hrun
  exact ⟨hturns, s, hs, requests_complete inTurn hturns hs⟩

theorem requests_incomplete_overtaken :
    ∃ s, Run.run step start overtaken = some s ∧ s.taken = [none] ∧ ¬ s.Complete := by
  have hrun : (Run.run step start overtaken).isSome = true := by decide +kernel
  obtain ⟨s, hs⟩ := Option.isSome_iff_exists.mp hrun
  have htaken : (Run.run step start overtaken).map InputQueue.taken = some [none] := by decide +kernel
  have hpublished : (Run.run step start overtaken).map InputQueue.published
      = some [⟨some .receiver, .sender, none⟩] := by decide +kernel
  rw [hs] at htaken hpublished
  refine ⟨s, hs, Option.some.inj htaken, ?_⟩
  intro hc
  have he : s.published = [⟨some .receiver, .sender, none⟩] := Option.some.inj hpublished
  have := (hc.published ⟨some .receiver, .sender, none⟩ (by rw [he]; exact List.mem_singleton_self _)).1
  cases this

end InputQueue

end HuronFS
