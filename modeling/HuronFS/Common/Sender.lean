import HuronFS.Common.TaskRing
import Mathlib.Algebra.Order.BigOperators.Group.Finset

/-!
# `Common.Sender` — the output queues of a process and its sender thread (`CBB_communication_thread.cpp`)

A producer publishes a task in two steps: `task_enqueue` moves `queue_head`, and then adds to the counter of the queue's event
descriptor. The sender thread sleeps in `epoll_wait` until a counter is not zero, reads it, which makes it zero, and sends what is
in that queue until `is_empty` (`input_from_producer`). Between any two of these steps the other threads can run.

A task that is published is on its way: its producer has not written to the descriptor yet, or the counter is not zero, or the
sender is at that queue (`SenderInv.awake`). So a sender that sleeps for good has left nothing behind.
-/

namespace HuronFS

def LENGTH_OF_LISTEN_QUEUE : Nat := 1

variable {α : Type*}

/-- Where `sender_thread_function` is: in `epoll_wait`, at the next of the events it returned, or in `input_from_producer`. -/
inductive SenderPhase
  | waiting
  | handling (queue : Nat) (events : List Nat)
  | draining (queue : Nat) (events : List Nat)
deriving DecidableEq, Repr

def SenderPhase.isHandling : SenderPhase → Bool
  | .handling _ _ => true
  | _ => false

def SenderPhase.isDraining : SenderPhase → Bool
  | .draining _ _ => true
  | _ => false

/-- The output queues of a process, the counter of each one's `queue_event_fd`, and the sender thread. `notifying` says that a
    producer is in `task_enqueue`, between its two steps; `sent` are the tasks that were given to `send`, with their queues. -/
structure Sender (α : Type*) where
  number : Nat
  queue : Nat → Ring α
  counter : Nat → Nat
  notifying : Nat → Bool
  phase : SenderPhase
  sent : List (Nat × Option α)

/-- A step of a producer, or of the sender thread. -/
inductive SenderEvent (α : Type*)
  | allocate (queue : Nat)
  | fill (queue node : Nat) (message : α)
  | putback (queue : Nat)
  | publish (queue : Nat)
  | notify (queue : Nat)
  | epollWait (queue : Nat) (events : List Nat)
  | read
  | drain

namespace Sender

def start (number : Nat) : Sender α :=
  ⟨number, fun _ => Ring.start, fun _ => 0, fun _ => false, .waiting, []⟩

/-- A step on one of the queues. -/
def onQueue (s : Sender α) (q : Nat) (op : RingOp α) : Option (Sender α) :=
  ((s.queue q).step op).map fun r => { s with queue := Function.update s.queue q r }

/-- The next event, or `epoll_wait` again. -/
def nextEvent : List Nat → SenderPhase
  | [] => .waiting
  | q :: events => .handling q events

/-- A task is given to `send`. -/
def send (s : Sender α) (q : Nat) (message : Option α) : Sender α := { s with sent := s.sent ++ [(q, message)] }

/-- One turn of the loop of `input_from_producer`. Whatever becomes of `send`, the loop goes on. -/
def drainTurn (s : Sender α) (q : Nat) (events : List Nat) : Option (Sender α) :=
  match (s.queue q).queue.getTask with
  | none => some { s with phase := nextEvent events }
  | some (message, _) => (s.onQueue q .getTask).map fun s => s.send q message

def step (s : Sender α) : SenderEvent α → Option (Sender α)
  | .allocate q => s.onQueue q .allocate
  | .fill q node message => s.onQueue q (.fill node message)
  | .putback q => s.onQueue q .putback
  | .publish q => (s.onQueue q .enqueue).map fun s => { s with notifying := Function.update s.notifying q true }
  | .notify q =>
      some { s with counter := Function.update s.counter q (s.counter q + 1), notifying := Function.update s.notifying q false }
  | .epollWait q events => some { s with phase := .handling q events }
  | .read =>
      match s.phase with
      | .handling q events => some { s with counter := Function.update s.counter q 0, phase := .draining q events }
      | _ => none
  | .drain =>
      match s.phase with
      | .draining q events => s.drainTurn q events
      | _ => none

/-- Each queue has one producer, which is at one thing at a time. -/
def ProducerFree (s : Sender α) (q : Nat) : Prop := q < s.number ∧ s.notifying q = false

/-- What the threads keep to. `epoll_wait` returns descriptors whose counter is not zero, each once, and as many as it has room
    for at most. -/
def Permitted (s : Sender α) : SenderEvent α → Prop
  | .allocate q => s.ProducerFree q
  | .fill q node _ => s.ProducerFree q ∧ node ∈ (s.queue q).allocated
  | .putback q => s.ProducerFree q
  | .publish q => s.ProducerFree q ∧ (s.queue q).allocated ≠ []
  | .notify q => q < s.number ∧ s.notifying q = true
  | .epollWait q events => s.phase = .waiting ∧ (q :: events).length ≤ LENGTH_OF_LISTEN_QUEUE ∧ (q :: events).Nodup ∧
      ∀ k ∈ q :: events, k < s.number ∧ 0 < s.counter k
  | .read => s.phase.isHandling = true
  | .drain => s.phase.isDraining = true

instance (s : Sender α) (q : Nat) : Decidable (s.ProducerFree q) := inferInstanceAs (Decidable (_ ∧ _))

instance (s : Sender α) : (e : SenderEvent α) → Decidable (s.Permitted e)
  | .allocate q => inferInstanceAs (Decidable (s.ProducerFree q))
  | .fill _ _ _ => inferInstanceAs (Decidable (_ ∧ _))
  | .putback q => inferInstanceAs (Decidable (s.ProducerFree q))
  | .publish q => inferInstanceAs (Decidable (s.ProducerFree q ∧ (s.queue q).allocated ≠ []))
  | .notify _ => inferInstanceAs (Decidable (_ ∧ _))
  | .epollWait _ _ => inferInstanceAs (Decidable (_ ∧ _ ∧ _ ∧ _))
  | .read => inferInstanceAs (Decidable (_ = true))
  | .drain => inferInstanceAs (Decidable (_ = true))

/-- The steps of the sender thread. -/
def bySender : SenderEvent α → Bool
  | .epollWait _ _ | .read | .drain => true
  | _ => false

/-- What is published and not taken. -/
def backlog (s : Sender α) (q : Nat) : List (Nat × Option α) := (s.queue q).published.drop (s.queue q).taken.length

/-- The tasks of one queue that were sent, in order. -/
def sentFrom (s : Sender α) (q : Nat) : List (Option α) := (s.sent.filter (fun e => e.1 = q)).map Prod.snd

/-- What was published in a queue, in order. -/
def publishedTo (s : Sender α) (q : Nat) : List (Option α) := (s.queue q).published.map Prod.snd

/-- The sender sleeps, and nothing is there to wake it. -/
def Asleep (s : Sender α) : Prop := s.phase = .waiting ∧ ∀ q, s.counter q = 0

/-- The queues whose counters the sender was told about. -/
def told : SenderPhase → List Nat
  | .waiting => []
  | .handling q events => q :: events
  | .draining _ events => events

/-- The queue the sender takes from. -/
def current : SenderPhase → Option Nat
  | .draining q _ => some q
  | _ => none

/-- **What the threads keep.** -/
structure SenderInv (s : Sender α) : Prop where
  /-- each queue is a ring in order -/
  ring : ∀ q, ∃ waiting free, Ring.RingInv (s.queue q) waiting free
  /-- a queue with something in it does not go unnoticed -/
  awake : ∀ q, s.backlog q ≠ [] → s.notifying q = true ∨ 0 < s.counter q ∨ current s.phase = some q
  /-- what a queue gave was sent, in the order in which it gave it -/
  sent : ∀ q, s.sentFrom q = (s.queue q).taken.map Prod.snd
  /-- nothing is done at a queue that does not exist -/
  inRange : ∀ q, s.notifying q = true ∨ 0 < s.counter q ∨ current s.phase = some q → q < s.number
  /-- the counters the sender was told about are still there -/
  told : (told s.phase).Nodup ∧ ∀ q ∈ told s.phase, 0 < s.counter q

/-! ## One queue -/

/-- What is published and not taken is what stands between the two ends of the ring. -/
theorem backlog_eq {s : Sender α} {q : Nat} {waiting free : List Nat} (h : Ring.RingInv (s.queue q) waiting free) :
    s.backlog q = waiting.map (fun n => (n, (s.queue q).queue.task n)) := by
  unfold backlog
  rw [h.history, List.drop_left]

/-- What is published is what was taken, and the rest. -/
theorem publishedTo_eq {s : Sender α} (h : SenderInv s) (q : Nat) :
    s.publishedTo q = s.sentFrom q ++ (s.backlog q).map Prod.snd := by
  obtain ⟨waiting, free, hring⟩ := h.ring q
  unfold publishedTo
  rw [h.sent, backlog_eq hring, hring.history, List.map_append]

theorem start_inv (number : Nat) : SenderInv (start number : Sender α) where
  ring _ := ⟨[], [], Ring.start_inv⟩
  awake q hq := absurd rfl hq
  sent _ := rfl
  inRange q h := by simp [start, current] at h
  told := by simp [start, Sender.told]

/-- Another ring for one queue. -/
def withQueue (s : Sender α) (q : Nat) (r : Ring α) : Sender α := { s with queue := Function.update s.queue q r }

section WithQueue

variable {s : Sender α} {q k : Nat} {r : Ring α}

@[simp] theorem withQueue_self : (s.withQueue q r).queue q = r := Function.update_self ..
@[simp] theorem withQueue_ne (h : k ≠ q) : (s.withQueue q r).queue k = s.queue k := Function.update_of_ne h ..
@[simp] theorem withQueue_counter : (s.withQueue q r).counter = s.counter := rfl
@[simp] theorem withQueue_notifying : (s.withQueue q r).notifying = s.notifying := rfl
@[simp] theorem withQueue_phase : (s.withQueue q r).phase = s.phase := rfl
@[simp] theorem withQueue_sent : (s.withQueue q r).sent = s.sent := rfl
@[simp] theorem withQueue_number : (s.withQueue q r).number = s.number := rfl

theorem backlog_withQueue_ne (h : k ≠ q) : (s.withQueue q r).backlog k = s.backlog k := by
  simp [backlog, h]

theorem sentFrom_withQueue : (s.withQueue q r).sentFrom k = s.sentFrom k := rfl

/-- A step that leaves what is published and what is taken keeps the invariant. -/
theorem SenderInv.quiet (h : SenderInv s) {waiting free : List Nat} (hr : Ring.RingInv r waiting free)
    (hpublished : r.published = (s.queue q).published) (htaken : r.taken = (s.queue q).taken) : SenderInv (s.withQueue q r) where
  ring k := by
    by_cases hk : k = q
    · subst hk
      exact ⟨waiting, free, by simpa using hr⟩
    · simpa [hk] using h.ring k
  awake k hk := by
    refine h.awake k ?_
    by_cases hkq : k = q
    · subst hkq
      simpa [backlog, hpublished, htaken] using hk
    · rwa [backlog_withQueue_ne hkq] at hk
  sent k := by
    by_cases hk : k = q
    · subst hk
      simpa [htaken, sentFrom_withQueue] using h.sent k
    · simpa [hk, sentFrom_withQueue] using h.sent k
  inRange := h.inRange
  told := h.told

end WithQueue

/-! ## One step -/

section Step

variable {s s' : Sender α} {q : Nat}

/-- A permitted operation on a queue has a result. -/
theorem SenderInv.onQueue (h : SenderInv s) (q : Nat) (op : RingOp α) (hop : (s.queue q).Permitted op) :
    ∃ r waiting free, (s.queue q).step op = some r ∧ s.onQueue q op = some (s.withQueue q r) ∧ Ring.RingInv r waiting free := by
  obtain ⟨waiting, free, hring⟩ := h.ring q
  obtain ⟨r, waiting', free', hstep, hr⟩ := hring.step hop
  refine ⟨r, waiting', free', hstep, ?_, hr⟩
  unfold Sender.onQueue
  rw [hstep]
  rfl

/-- `task_enqueue` has moved `queue_head`. -/
theorem SenderInv.publish (h : SenderInv s) (hfree : s.ProducerFree q) (hallocated : (s.queue q).allocated ≠ []) :
    ∃ s', s.step (.publish q) = some s' ∧ SenderInv s' := by
  obtain ⟨r, waiting, free, hstep, hon, hr⟩ := h.onQueue q .enqueue hallocated
  refine ⟨{ s.withQueue q r with notifying := Function.update s.notifying q true }, ?_, ?_⟩
  · simp only [Sender.step, hon, Option.map_some, withQueue_notifying]
  have htaken : r.taken = (s.queue q).taken := by
    obtain rfl := Option.some.inj hstep
    rfl
  refine ⟨?_, ?_, ?_, ?_, h.told⟩
  · intro k
    show ∃ waiting free, Ring.RingInv ((s.withQueue q r).queue k) waiting free
    by_cases hk : k = q
    · subst hk
      exact ⟨waiting, free, by simpa using hr⟩
    · simpa [hk] using h.ring k
  · intro k hk
    by_cases hkq : k = q
    · left
      subst hkq
      exact Function.update_self ..
    · have hold : s.backlog k ≠ [] := by
        rwa [← backlog_withQueue_ne (r := r) hkq]
      show Function.update s.notifying q true k = true ∨ _
      rw [Function.update_of_ne hkq]
      exact h.awake k hold
  · intro k
    show s.sentFrom k = ((s.withQueue q r).queue k).taken.map Prod.snd
    by_cases hk : k = q
    · subst hk
      simpa [htaken] using h.sent k
    · simpa [hk] using h.sent k
  · intro k hk
    by_cases hkq : k = q
    · subst hkq
      exact hfree.1
    · have hold : Function.update s.notifying q true k = true ∨ 0 < s.counter k ∨ current s.phase = some k := hk
      rw [Function.update_of_ne hkq] at hold
      exact h.inRange k hold

/-- The other half of `task_enqueue`. -/
theorem SenderInv.notify (h : SenderInv s) (hq : q < s.number) :
    SenderInv { s with counter := Function.update s.counter q (s.counter q + 1), notifying := Function.update s.notifying q false } := by
  have hmono : ∀ k, 0 < s.counter k → 0 < Function.update s.counter q (s.counter q + 1) k := by
    intro k hk
    by_cases hkq : k = q
    · subst hkq
      simp
    · rwa [Function.update_of_ne hkq]
  refine ⟨h.ring, ?_, h.sent, ?_, h.told.1, fun k hk => hmono k (h.told.2 k hk)⟩
  · intro k hk
    by_cases hkq : k = q
    · subst hkq
      right; left
      simp
    · show Function.update s.notifying q false k = true ∨ 0 < Function.update s.counter q _ k ∨ _
      rw [Function.update_of_ne hkq, Function.update_of_ne hkq]
      exact h.awake k hk
  · intro k hk
    by_cases hkq : k = q
    · subst hkq
      exact hq
    · have hold : Function.update s.notifying q false k = true ∨ 0 < Function.update s.counter q (s.counter q + 1) k ∨
          current s.phase = some k := hk
      rw [Function.update_of_ne hkq, Function.update_of_ne hkq] at hold
      exact h.inRange k hold

/-- A read makes the counter of a queue zero, and the sender turns to that queue. -/
theorem SenderInv.read (h : SenderInv s) {events : List Nat} (hphase : s.phase = .handling q events) :
    SenderInv { s with counter := Function.update s.counter q 0, phase := .draining q events } := by
  obtain ⟨hnodup, hcounters⟩ := h.told
  rw [hphase] at hnodup hcounters
  obtain ⟨hq, hevents⟩ := List.nodup_cons.mp hnodup
  refine ⟨h.ring, ?_, h.sent, ?_, hevents, ?_⟩
  · intro k hk
    by_cases hkq : k = q
    · subst hkq
      exact .inr (.inr rfl)
    · have hold := h.awake k hk
      rw [hphase] at hold
      show _ ∨ 0 < Function.update s.counter q 0 k ∨ _
      rw [Function.update_of_ne hkq]
      exact hold.imp_right fun h => h.imp_right fun h => by simp [current] at h
  · intro k hk
    by_cases hkq : k = q
    · subst hkq
      exact h.inRange k (.inr (.inl (hcounters k List.mem_cons_self)))
    · have hold : s.notifying k = true ∨ 0 < Function.update s.counter q 0 k ∨ some q = some k := hk
      rw [Function.update_of_ne hkq] at hold
      refine h.inRange k (hold.imp_right fun h => h.imp_right fun h => ?_)
      exact absurd (Option.some.inj h).symm hkq
  · intro k hk
    have hkq : k ≠ q := fun hc => hq (hc ▸ hk)
    show 0 < Function.update s.counter q 0 k
    rw [Function.update_of_ne hkq]
    exact hcounters k (List.mem_cons_of_mem q hk)

theorem told_nextEvent (events : List Nat) : told (nextEvent events) = events := by
  cases events <;> rfl

theorem current_nextEvent (events : List Nat) : current (nextEvent events) = none := by
  cases events <;> rfl

/-- The queue is empty: the sender leaves it. -/
theorem SenderInv.leave (h : SenderInv s) {events : List Nat} (hphase : s.phase = .draining q events) (hempty : s.backlog q = []) :
    SenderInv { s with phase := nextEvent events } := by
  have htold := h.told
  rw [hphase] at htold
  refine ⟨h.ring, ?_, h.sent, ?_, ?_, ?_⟩
  · intro k hk
    have hkq : k ≠ q := by
      rintro rfl
      exact hk hempty
    have hold := h.awake k hk
    rw [hphase] at hold
    refine hold.imp_right fun h => h.imp_right fun h => ?_
    exact absurd (Option.some.inj h).symm hkq
  · intro k hk
    refine h.inRange k (hk.imp_right fun h => h.imp_right fun h => ?_)
    have hnone : current (nextEvent events) = some k := h
    rw [current_nextEvent] at hnone
    cases hnone
  · show (Sender.told (nextEvent events)).Nodup
    rw [told_nextEvent]
    exact htold.1
  · show ∀ k ∈ Sender.told (nextEvent events), 0 < s.counter k
    rw [told_nextEvent]
    exact htold.2

/-- The tasks of the other queues do not see one that is sent. -/
theorem sentFrom_send (s : Sender α) (q k : Nat) (message : Option α) :
    (s.send q message).sentFrom k = s.sentFrom k ++ if q = k then [message] else [] := by
  unfold sentFrom send
  rw [List.filter_append, List.map_append]
  by_cases hqk : q = k
  · simp [hqk]
  · simp [hqk]

/-- A task that is taken from a queue and sent. -/
structure Sends (s : Sender α) (q : Nat) (s' : Sender α) : Prop where
  first : ∃ first, s.backlog q = first :: s'.backlog q ∧ s'.sent = s.sent ++ [(q, first.2)]
  others : ∀ k, k ≠ q → s'.backlog k = s.backlog k
  published : ∀ k, s'.publishedTo k = s.publishedTo k
  phase : s'.phase = s.phase
  counter : s'.counter = s.counter
  notifying : s'.notifying = s.notifying
  number : s'.number = s.number

/-- There is a task in the queue: it is sent. -/
theorem SenderInv.take (h : SenderInv s) {events : List Nat} (hphase : s.phase = .draining q events) (hsome : s.backlog q ≠ []) :
    ∃ s', s.drainTurn q events = some s' ∧ SenderInv s' ∧ Sends s q s' := by
  obtain ⟨waiting, free, hring⟩ := h.ring q
  have hbacklog := backlog_eq hring
  obtain ⟨n, waiting, rfl⟩ : ∃ n rest, waiting = n :: rest := by
    refine List.exists_cons_of_ne_nil ?_
    rintro rfl
    exact hsome hbacklog
  obtain ⟨hget, -⟩ := hring.layout.getTask
  have hthere : (s.queue q).queue.isEmpty = false := by
    unfold TaskQueue.getTask at hget
    by_contra hc
    rw [Bool.not_eq_false] at hc
    rw [hc] at hget
    cases hget
  obtain ⟨r, waiting', free', hstep, hon, hr⟩ := h.onQueue q .getTask hthere
  -- the ring hands out its first node, and its history has it
  simp only [Ring.step, hget, Option.some.injEq] at hstep
  have hpublished : r.published = (s.queue q).published := by
    rw [← hstep]
  have htaken : r.taken = (s.queue q).taken ++ [(n, (s.queue q).queue.task n)] := by
    rw [← hstep]
  have hrest : (s.withQueue q r).backlog q = waiting.map (fun k => (k, (s.queue q).queue.task k)) := by
    have hold : (s.queue q).published.drop (s.queue q).taken.length = s.backlog q := rfl
    unfold backlog
    rw [withQueue_self, hpublished, htaken, List.length_append, ← List.drop_drop, hold, hbacklog]
    rfl
  refine ⟨(s.withQueue q r).send q ((s.queue q).queue.task n), ?_, ⟨?_, ?_, ?_, h.inRange, h.told⟩, ⟨?_, ?_, ?_, rfl, rfl, rfl, rfl⟩⟩
  · simp only [drainTurn, hget, hon, Option.map_some]
  · intro k
    by_cases hk : k = q
    · subst hk
      exact ⟨waiting', free', by simpa [send] using hr⟩
    · simpa [send, hk] using h.ring k
  · intro k hk
    by_cases hkq : k = q
    · subst hkq
      exact .inr (.inr (by simp [send, hphase, current]))
    · have hold : (s.withQueue q r).backlog k ≠ [] := hk
      rw [backlog_withQueue_ne hkq] at hold
      exact h.awake k hold
  · intro k
    rw [sentFrom_send, sentFrom_withQueue, h.sent k]
    by_cases hk : k = q
    · subst hk
      simp [send, htaken]
    · have hqk : q ≠ k := fun hc => hk hc.symm
      simp [send, hk, hqk]
  · refine ⟨(n, (s.queue q).queue.task n), ?_, rfl⟩
    show s.backlog q = _ :: (s.withQueue q r).backlog q
    rw [hbacklog, hrest, List.map_cons]
  · intro k hk
    exact backlog_withQueue_ne hk
  · intro k
    show ((s.withQueue q r).queue k).published.map Prod.snd = (s.queue k).published.map Prod.snd
    by_cases hk : k = q
    · subst hk
      rw [withQueue_self, hpublished]
    · rw [withQueue_ne hk]

/-- An empty queue gives nothing. -/
theorem SenderInv.drainTurn_empty (h : SenderInv s) (events : List Nat) (hempty : s.backlog q = []) :
    s.drainTurn q events = some { s with phase := nextEvent events } := by
  obtain ⟨waiting, free, hring⟩ := h.ring q
  rw [backlog_eq hring, List.map_eq_nil_iff] at hempty
  subst hempty
  unfold drainTurn TaskQueue.getTask
  rw [hring.layout.isEmpty_of_nil]
  rfl

/-- **One step.** -/
theorem SenderInv.step (h : SenderInv s) {e : SenderEvent α} (he : s.Permitted e) : ∃ s', s.step e = some s' ∧ SenderInv s' := by
  cases e with
  | allocate q =>
      obtain ⟨r, waiting, free, hstep, hon, hr⟩ := h.onQueue q .allocate trivial
      obtain rfl := Option.some.inj hstep
      exact ⟨_, hon, h.quiet hr rfl rfl⟩
  | fill q node message =>
      obtain ⟨r, waiting, free, hstep, hon, hr⟩ := h.onQueue q (.fill node message) he.2
      obtain rfl := Option.some.inj hstep
      exact ⟨_, hon, h.quiet hr rfl rfl⟩
  | putback q =>
      obtain ⟨r, waiting, free, hstep, hon, hr⟩ := h.onQueue q .putback trivial
      obtain rfl := Option.some.inj hstep
      exact ⟨_, hon, h.quiet hr rfl rfl⟩
  | publish q => exact h.publish he.1 he.2
  | notify q => exact ⟨_, rfl, h.notify he.1⟩
  | epollWait q events =>
      obtain ⟨hwaiting, -, hnodup, hcounters⟩ := he
      refine ⟨_, rfl, h.ring, ?_, h.sent, ?_, hnodup, fun k hk => (hcounters k hk).2⟩
      · intro k hk
        have hold := h.awake k hk
        rw [hwaiting] at hold
        exact hold.imp_right fun h => h.imp_right fun h => by cases h
      · intro k hk
        exact h.inRange k (hk.imp_right fun h => h.imp_right fun h => by cases h)
  | read =>
      unfold Permitted at he
      cases hphase : s.phase with
      | handling q events =>
          refine ⟨_, ?_, h.read hphase⟩
          simp only [Sender.step, hphase]
      | waiting => simp [hphase, SenderPhase.isHandling] at he
      | draining q events => simp [hphase, SenderPhase.isHandling] at he
  | drain =>
      unfold Permitted at he
      cases hphase : s.phase with
      | draining q events =>
          by_cases hempty : s.backlog q = []
          · refine ⟨_, ?_, h.leave hphase hempty⟩
            simp only [Sender.step, hphase, h.drainTurn_empty events hempty]
          · obtain ⟨s', hturn, hs', -⟩ := h.take hphase hempty
            refine ⟨s', ?_, hs'⟩
            simp only [Sender.step, hphase, hturn]
      | waiting => simp [hphase, SenderPhase.isDraining] at he
      | handling q events => simp [hphase, SenderPhase.isDraining] at he

end Step

/-! ## The sender alone -/

/-- What there is to do at a queue: to read its counter, and to send its tasks. -/
def workAt (s : Sender α) (q : Nat) : Nat := (if 0 < s.counter q then 3 else 0) + (s.backlog q).length

/-- A read leads to a queue that has to be left again, and a queue to `epoll_wait`. -/
def phaseWork : SenderPhase → Nat
  | .waiting => 1
  | .handling _ _ => 0
  | .draining _ _ => 2

/-- How many steps the sender can take at most while nothing is published. -/
def work (s : Sender α) : Nat := (∑ q ∈ Finset.range s.number, s.workAt q) + phaseWork s.phase

/-- One term of a sum becomes smaller. -/
theorem sum_drop {n q k : Nat} {f g : Nat → Nat} (hq : q < n) (hothers : ∀ j, j ≠ q → g j = f j) (hdrop : g q + k ≤ f q) :
    (∑ j ∈ Finset.range n, g j) + k ≤ ∑ j ∈ Finset.range n, f j := by
  have hmem := Finset.mem_range.mpr hq
  rw [← Finset.add_sum_erase _ f hmem, ← Finset.add_sum_erase _ g hmem]
  have hrest : ∑ j ∈ (Finset.range n).erase q, g j = ∑ j ∈ (Finset.range n).erase q, f j :=
    Finset.sum_congr rfl fun j hj => hothers j (Finset.ne_of_mem_erase hj)
  omega

section Alone

variable {s s' : Sender α}

theorem phaseWork_nextEvent_lt (q : Nat) (events all : List Nat) : phaseWork (nextEvent events) < phaseWork (.draining q all) := by
  cases events <;> simp [nextEvent, phaseWork]

/-- **A step of the sender** publishes nothing, and leaves less to do. -/
theorem SenderInv.sender_step (h : SenderInv s) {e : SenderEvent α} (hsender : bySender e = true) (he : s.Permitted e)
    (hstep : s.step e = some s') :
    SenderInv s' ∧ s'.work < s.work ∧ s'.notifying = s.notifying ∧ ∀ q, s'.publishedTo q = s.publishedTo q := by
  have hinv : SenderInv s' := by
    obtain ⟨t, ht, hinv⟩ := h.step he
    rw [hstep] at ht
    rwa [Option.some.inj ht]
  refine ⟨hinv, ?_⟩
  cases e with
  | allocate q => cases hsender
  | fill q node message => cases hsender
  | putback q => cases hsender
  | publish q => cases hsender
  | notify q => cases hsender
  | epollWait q events =>
      obtain rfl := Option.some.inj hstep
      refine ⟨?_, rfl, fun _ => rfl⟩
      show (∑ k ∈ Finset.range s.number, s.workAt k) + 0 < (∑ k ∈ Finset.range s.number, s.workAt k) + phaseWork s.phase
      rw [he.1]
      exact Nat.lt_succ_self _
  | read =>
      cases hphase : s.phase with
      | waiting => simp [Sender.step, hphase] at hstep
      | draining q events => simp [Sender.step, hphase] at hstep
      | handling q events =>
          simp only [Sender.step, hphase, Option.some.injEq] at hstep
          subst hstep
          refine ⟨?_, rfl, fun _ => rfl⟩
          have hcounter : 0 < s.counter q := h.told.2 q (by rw [hphase]; exact List.mem_cons_self)
          have hdrop := sum_drop (n := s.number) (q := q) (k := 3) (f := s.workAt)
            (g := Sender.workAt { s with counter := Function.update s.counter q 0, phase := .draining q events })
            (h.inRange q (.inr (.inl hcounter))) ?_ ?_
          · unfold work
            rw [hphase]
            exact Nat.lt_of_lt_of_le (Nat.add_lt_add_left (show 2 < 3 by decide) _) hdrop
          · intro j hj
            show (if 0 < Function.update s.counter q 0 j then 3 else 0) + (s.backlog j).length = s.workAt j
            rw [Function.update_of_ne hj]
            rfl
          · show (if 0 < Function.update s.counter q 0 q then 3 else 0) + (s.backlog q).length + 3 ≤ s.workAt q
            unfold workAt
            rw [Function.update_self, if_neg (Nat.lt_irrefl 0), if_pos hcounter]
            omega
  | drain =>
      cases hphase : s.phase with
      | waiting => simp [Sender.step, hphase] at hstep
      | handling q events => simp [Sender.step, hphase] at hstep
      | draining q events =>
          simp only [Sender.step, hphase] at hstep
          by_cases hempty : s.backlog q = []
          · rw [h.drainTurn_empty events hempty] at hstep
            obtain rfl := Option.some.inj hstep
            refine ⟨?_, rfl, fun _ => rfl⟩
            show (∑ k ∈ Finset.range s.number, s.workAt k) + phaseWork (nextEvent events) < s.work
            unfold work
            rw [hphase]
            exact Nat.add_lt_add_left (phaseWork_nextEvent_lt q events events) _
          · obtain ⟨t, hturn, -, hsends⟩ := h.take hphase hempty
            rw [hturn] at hstep
            obtain rfl := Option.some.inj hstep
            refine ⟨?_, hsends.notifying, hsends.published⟩
            obtain ⟨first, hfirst, -⟩ := hsends.first
            have hdrop := sum_drop (n := s.number) (q := q) (k := 1) (f := s.workAt) (g := Sender.workAt t)
              (h.inRange q (.inr (.inr (by rw [hphase]; rfl)))) ?_ ?_
            · unfold work
              rw [hsends.number, hsends.phase]
              omega
            · intro j hj
              unfold workAt
              rw [hsends.counter, hsends.others j hj]
            · unfold workAt
              rw [hsends.counter, hfirst, List.length_cons]
              omega

/-- A sender that is not asleep has a step to take. -/
theorem SenderInv.sender_moves (h : SenderInv s) (hawake : ¬ s.Asleep) : ∃ e, bySender e = true ∧ s.Permitted e := by
  cases hphase : s.phase with
  | handling q events => exact ⟨.read, rfl, by simp [Permitted, hphase, SenderPhase.isHandling]⟩
  | draining q events => exact ⟨.drain, rfl, by simp [Permitted, hphase, SenderPhase.isDraining]⟩
  | waiting =>
      have hcounter : ∃ q, 0 < s.counter q := by
        by_contra hnone
        refine hawake ⟨hphase, fun q => ?_⟩
        by_contra hq
        exact hnone ⟨q, Nat.pos_of_ne_zero hq⟩
      obtain ⟨q, hq⟩ := hcounter
      refine ⟨.epollWait q [], rfl, hphase, Nat.le_refl 1, List.nodup_singleton q, ?_⟩
      intro k hk
      obtain rfl := List.mem_singleton.mp hk
      exact ⟨h.inRange k (.inr (.inl hq)), hq⟩

/-- Nothing is left in a queue of a sender that sleeps, once its producer has come out of `task_enqueue`. -/
theorem SenderInv.asleep (h : SenderInv s) (hasleep : s.Asleep) {q : Nat} (hq : s.notifying q = false) :
    s.sentFrom q = s.publishedTo q := by
  have hempty : s.backlog q = [] := by
    by_contra hsome
    obtain hnotifying | hcounter | hcurrent := h.awake q hsome
    · rw [hq] at hnotifying
      cases hnotifying
    · rw [hasleep.2 q] at hcounter
      exact Nat.lt_irrefl 0 hcounter
    · rw [hasleep.1] at hcurrent
      cases hcurrent
  rw [publishedTo_eq h, hempty, List.map_nil, List.append_nil]

end Alone

/-- **No task is left behind.** However the producers and the sender thread come in turn, what was sent of each queue is the
    front of what was published there, each task once and in order. A sender that sleeps with nothing to wake it has sent all of
    it; and while nothing is published the sender comes to that, within as many of its own steps as it has work. -/
theorem no_task_left_behind (number : Nat) (events : List (SenderEvent α))
    (hevents : Run.Guarded step Permitted (start number) events) :
    ∃ s, Run.run step (start number) events = some s ∧
      (∀ q, s.sentFrom q <+: s.publishedTo q) ∧
      (s.Asleep → ∀ q, s.notifying q = false → s.sentFrom q = s.publishedTo q) ∧
      ∀ more s', Run.Guarded step (fun s e => bySender e = true ∧ s.Permitted e) s more → Run.run step s more = some s' →
        more.length ≤ s.work ∧ (∀ q, s'.publishedTo q = s.publishedTo q) ∧
        ((s'.Asleep ∧ ∀ q, s.notifying q = false → s'.sentFrom q = s.publishedTo q) ∨ ∃ e, bySender e = true ∧ s'.Permitted e) := by
  obtain ⟨s, hrun, h⟩ := Run.run_progress (fun s e h he => SenderInv.step h he) (start_inv number) hevents
  refine ⟨s, hrun, ?_, fun hasleep q hq => h.asleep hasleep hq, ?_⟩
  · intro q
    rw [publishedTo_eq h]
    exact List.prefix_append ..
  · intro more s' hmore hrun'
    have hless : ∀ (t : Sender α) e t', SenderInv t → bySender e = true ∧ t.Permitted e → t.step e = some t' →
        SenderInv t' ∧ t'.work < t.work := by
      intro t e t' ht he hstep
      obtain ⟨ht', hwork, -⟩ := ht.sender_step he.1 he.2 hstep
      exact ⟨ht', hwork⟩
    have hlength := Run.run_bounded hless h hmore hrun'
    have hkept : SenderInv s' ∧ s'.notifying = s.notifying ∧ ∀ q, s'.publishedTo q = s.publishedTo q := by
      have hkeep : ∀ (t : Sender α) e t', SenderInv t ∧ t.notifying = s.notifying ∧ (∀ q, t.publishedTo q = s.publishedTo q) →
          bySender e = true ∧ t.Permitted e → t.step e = some t' →
          SenderInv t' ∧ t'.notifying = s.notifying ∧ ∀ q, t'.publishedTo q = s.publishedTo q := by
        rintro t e t' ⟨ht, hnotifying, hpublished⟩ he hstep
        obtain ⟨ht', -, hnotifying', hpublished'⟩ := ht.sender_step he.1 he.2 hstep
        exact ⟨ht', hnotifying'.trans hnotifying, fun q => (hpublished' q).trans (hpublished q)⟩
      exact Run.run_invariant hkeep ⟨h, rfl, fun _ => rfl⟩ hmore hrun'
    obtain ⟨h', hnotifying, hpublished⟩ := hkept
    refine ⟨hlength, hpublished, ?_⟩
    by_cases hasleep : s'.Asleep
    · refine .inl ⟨hasleep, fun q hq => ?_⟩
      rw [← hpublished q]
      exact h'.asleep hasleep (by rw [hnotifying, hq])
    · exact .inr (h'.sender_moves hasleep)

/-- A task is published while the sender is at the queue, and sent before its producer has written to the descriptor: the sender
    wakes once more and finds nothing. -/
def overtaken : List (SenderEvent Nat) :=
  [.allocate 0, .fill 0 1 7, .publish 0, .notify 0, .epollWait 0 [], .read, .allocate 0, .fill 0 2 8, .drain, .publish 0, .drain, .drain,
    .notify 0, .epollWait 0 [], .read, .drain]

theorem no_task_left_behind_overtaken :
    Run.Guarded step Permitted (start 2) overtaken ∧
    ∃ s, Run.run step (start 2) overtaken = some s ∧
      (∀ q, s.sentFrom q <+: s.publishedTo q) ∧ (s.Asleep → ∀ q, s.notifying q = false → s.sentFrom q = s.publishedTo q) := by
  have hevents : Run.Guarded step Permitted (start 2) overtaken := by decide +kernel
  obtain ⟨s, hrun, hfront, hall, -⟩ := no_task_left_behind 2 overtaken hevents
  exact ⟨hevents, s, hrun, hfront, hall⟩

end Sender

end HuronFS
