import HuronFS.Common.Extended
import HuronFS.Common.Sender

/-!
# `Protocol.Channel` — from an output queue of one process to an input queue of another

Any number of processes send to one: a producer publishes a task in an output queue, the sender thread takes it from there and puts
its bytes on the connection, the receiver thread finds the bytes, reads the queue from the first word and the sizes from the rest
of the header, and publishes a task in that input queue, where the handler gets it. `Common.Sender`, `Common.Extended` and
`Common.TaskRing` have the three parts; here they are one system, with every interleaving of its threads.

The parcels of a process on a connection are those that have arrived, in order, and those whose bytes are on the wire
(`NetworkInv.wire`). So the queues and the connection together are what the other protocols take them for: a channel that loses
nothing, adds nothing and keeps the order.
-/

namespace HuronFS

open Chunks Tcp Sender

/-- What a producer makes of a node: the connection, the queue at the other end, and the pushes. `task` is what the node held. -/
structure Parcel where
  handle : Handle
  receiverId : BitVec 32
  task : IOTask
  pushes : List Push

namespace Parcel

def content (p : Parcel) : ExtendedIOTask := ExtendedIOTask.fill p.task p.receiverId p.pushes

def bytes (p : Parcel) : List Byte := ExtendedIOTask.wireBytes p.receiverId p.task.id p.pushes

/-- The other end has this queue, and room for what is in the parcel. -/
structure Good (p : Parcel) (number : Nat) : Prop where
  queue : p.receiverId.toNat < number
  fits : ExtendedIOTask.Fits p.pushes

instance (p : Parcel) (number : Nat) : Decidable (p.Good number) :=
  decidable_of_iff (p.receiverId.toNat < number ∧ ExtendedIOTask.Fits p.pushes) ⟨fun h => ⟨h.1, h.2⟩, fun h => ⟨h.queue, h.fits⟩⟩

end Parcel

/-- A connection: a process and its handle. -/
abbrev Connection := Nat × Handle

/-- Processes with their output queues, the bytes on their connections, and the `number` input queues of the process at the other
    end. A received task has the handle of its connection. -/
structure Network where
  number : Nat
  sender : Nat → Sender Parcel
  wire : Connection → List Byte
  input : Nat → Ring (Connection × ReceiveTask)

/-- A step of a producer or of the sender thread of a process, of the receiver thread, or of the handler. `calls` are what `send`
    and `recv` return, `stale` what the nodes of the input queues hold. -/
inductive NetworkEvent
  | process (i : Nat) (e : SenderEvent Parcel) (calls : List (Chunks.Call Unit))
  | receive (c : Connection) (calls : List (Chunks.Call Byte)) (stale : Nat → ReceiveTask)
  | getTask (q : Nat)

namespace Ring

variable {α : Type*}

/-- The one producer of a queue allocates a node, fills it and publishes it. -/
def put (r : Ring α) (message : α) : Option (Ring α) :=
  Run.run step r [.allocate, .fill r.queue.allocateTmpNode.1 message, .enqueue]

end Ring

namespace Network

def start (number : Nat) (queues : Nat → Nat) : Network :=
  ⟨number, fun i => Sender.start (queues i), fun _ => [], fun _ => Ring.start⟩

/-- The parcel that a step of the sender thread gives to `send`. -/
def sentNow (s t : Sender Parcel) : Option Parcel := (t.sent.drop s.sent.length).head?.bind Prod.snd

/-- A step of a process; a parcel that is sent goes to its connection. -/
def process (n : Network) (i : Nat) (e : SenderEvent Parcel) (calls : List (Chunks.Call Unit)) : Option Network :=
  match (n.sender i).step e with
  | none => none
  | some t =>
      match sentNow (n.sender i) t with
      | none => some { n with sender := Function.update n.sender i t }
      | some p =>
          match p.content.send calls with
          | .error _ => none
          | .ok (bytes, _) =>
              some { n with
                sender := Function.update n.sender i t
                wire := Function.update n.wire (i, p.handle) (n.wire (i, p.handle) ++ bytes) }

/-- `Server::input_from_network`; there has to be a queue with that number. -/
def receive (n : Network) (c : Connection) (calls : List (Chunks.Call Byte)) (stale : Nat → ReceiveTask) : Option Network :=
  match inputFromNetwork stale calls with
  | .error _ => none
  | .ok ((q, t), rest) =>
      if q < n.number then
        ((n.input q).put (c, t)).map fun r =>
          { n with wire := Function.update n.wire c (arrived rest), input := Function.update n.input q r }
      else none

def step (n : Network) : NetworkEvent → Option Network
  | .process i e calls => n.process i e calls
  | .receive c calls stale => n.receive c calls stale
  | .getTask q => ((n.input q).step .getTask).map fun r => { n with input := Function.update n.input q r }

/-- What a producer may do besides: it fills a node with what has room and goes to a queue that is there, and publishes what it has
    filled. -/
def ProducerKeeps (n : Network) (i : Nat) : SenderEvent Parcel → Prop
  | .fill _ _ p => p.Good n.number
  | .publish q => ((n.sender i).queue q).queue.task ((n.sender i).queue q).queue.queueHead ≠ none
  | _ => True

/-- The connection takes what is sent. -/
def TakesAll (s : Sender Parcel) (e : SenderEvent Parcel) (calls : List (Chunks.Call Unit)) : Prop :=
  ∀ t ∈ s.step e, ∀ p ∈ sentNow s t, p.bytes.length ≤ (arrived calls).length

/-- What the threads keep to, on connections that do not fail. The receiver thread waits for the whole of a message, so its step
    is where all of it has come. -/
def Permitted (n : Network) : NetworkEvent → Prop
  | .process i e calls => (n.sender i).Permitted e ∧ n.ProducerKeeps i e ∧ TakesAll (n.sender i) e calls
  | .receive c calls _ => n.wire c ≠ [] ∧ arrived calls = n.wire c
  | .getTask q => (n.input q).queue.isEmpty = false

instance (n : Network) (i : Nat) : (e : SenderEvent Parcel) → Decidable (n.ProducerKeeps i e)
  | .fill _ _ p => inferInstanceAs (Decidable (p.Good n.number))
  | .publish q => decidable_of_iff (((n.sender i).queue q).queue.task ((n.sender i).queue q).queue.queueHead).isSome
      Option.isSome_iff_ne_none
  | .allocate _ | .putback _ | .notify _ | .epollWait _ _ | .read | .drain => .isTrue trivial

instance (s : Sender Parcel) (e : SenderEvent Parcel) (calls : List (Chunks.Call Unit)) : Decidable (TakesAll s e calls) :=
  inferInstanceAs (Decidable (∀ t ∈ s.step e, ∀ p ∈ sentNow s t, p.bytes.length ≤ (arrived calls).length))

instance (n : Network) : (e : NetworkEvent) → Decidable (n.Permitted e)
  | .process _ _ _ => inferInstanceAs (Decidable (_ ∧ _ ∧ _))
  | .receive _ _ _ => inferInstanceAs (Decidable (_ ∧ _))
  | .getTask _ => inferInstanceAs (Decidable (_ = false))

/-- What a process has given to `send` for one of its connections. -/
def parcels (n : Network) (c : Connection) : List Parcel :=
  ((n.sender c.1).sent.filterMap Prod.snd).filter (fun p => p.handle = c.2)

/-- Those for one queue. -/
def forQueue (l : List Parcel) (q : Nat) : List Parcel := l.filter (fun p => p.receiverId.toNat = q)

/-- The tasks of one connection. -/
def fromConnection (l : List (Nat × Option (Connection × ReceiveTask))) (c : Connection) : List ReceiveTask :=
  ((l.filterMap Prod.snd).filter (fun e => e.1 = c)).map Prod.snd

/-- The tasks that were published in an input queue, of one connection. -/
def arrivedAt (n : Network) (c : Connection) (q : Nat) : List ReceiveTask := fromConnection (n.input q).published c

/-- The tasks that the handler got. -/
def handled (n : Network) (c : Connection) (q : Nat) : List ReceiveTask := fromConnection (n.input q).taken c

/-- A received task is that of a parcel. -/
def Delivers (t : ReceiveTask) (p : Parcel) : Prop := t.Carries p.task.id p.pushes

/-- Nothing is under way. -/
structure AtRest (n : Network) : Prop where
  senders : ∀ i, (n.sender i).Asleep ∧ ∀ q, (n.sender i).notifying q = false
  wire : ∀ c, n.wire c = []
  input : ∀ q, (n.input q).queue.isEmpty = true

/-- **What the threads keep.** -/
structure NetworkInv (n : Network) : Prop where
  senders : ∀ i, SenderInv (n.sender i)
  /-- what is in a node of an output queue can be sent -/
  good : ∀ i q k p, ((n.sender i).queue q).queue.task k = some p → p.Good n.number
  /-- what is published is filled -/
  filled : ∀ i q, none ∉ (n.sender i).publishedTo q
  /-- the parcels of a connection have arrived, or are on the wire -/
  wire : ∀ c, ∃ done flying, n.parcels c = done ++ flying ∧ (∀ p ∈ flying, p.Good n.number) ∧
    n.wire c = flying.flatMap Parcel.bytes ∧ ∀ q, List.Forall₂ Delivers (n.arrivedAt c q) (forQueue done q)
  /-- the receiver thread is done with a node before it takes the next one -/
  input : ∀ q, (n.input q).allocated = [] ∧ ∃ waiting free, Ring.RingInv (n.input q) waiting free

end Network

/-! ## The queues -/

namespace Ring

variable {α : Type*} {r r' : Ring α}

/-- A node holds what it held, or what it was filled with. -/
theorem task_of_step {op : RingOp α} (h : r.step op = some r') {k : Nat} {m : α} (hk : r'.queue.task k = some m) :
    r.queue.task k = some m ∨ op = .fill k m := by
  cases op with
  | allocate =>
      obtain rfl := Option.some.inj h
      rw [allocateTmpNode_task] at hk
      by_cases hkq : k = r.queue.queueTmpHead
      · rw [hkq, Function.update_self] at hk
        cases hk
      · rw [Function.update_of_ne hkq] at hk
        exact .inl hk
  | fill node message =>
      obtain rfl := Option.some.inj h
      by_cases hkn : k = node
      · have hm : Function.update r.queue.task node (some message) k = some m := hk
        rw [hkn, Function.update_self] at hm
        rw [hkn, Option.some.inj hm]
        exact .inr rfl
      · have hm : Function.update r.queue.task node (some message) k = some m := hk
        rw [Function.update_of_ne hkn] at hm
        exact .inl hm
  | enqueue =>
      obtain rfl := Option.some.inj h
      exact .inl hk
  | putback =>
      obtain rfl := Option.some.inj h
      exact .inl hk
  | getTask =>
      simp only [Ring.step] at h
      unfold TaskQueue.getTask at h
      by_cases hempty : r.queue.isEmpty = true
      · simp [hempty] at h
      · simp only [hempty, Bool.false_eq_true, if_false, Option.some.injEq] at h
        rw [← h] at hk
        exact .inl hk

/-- Only `task_enqueue` publishes. -/
theorem published_of_step {op : RingOp α} (h : r.step op = some r') :
    r'.published = r.published ∨
      (op = .enqueue ∧ r'.published = r.published ++ [(r.queue.queueHead, r.queue.task r.queue.queueHead)]) := by
  cases op with
  | allocate =>
      obtain rfl := Option.some.inj h
      exact .inl rfl
  | fill node message =>
      obtain rfl := Option.some.inj h
      exact .inl rfl
  | enqueue =>
      obtain rfl := Option.some.inj h
      exact .inr ⟨rfl, rfl⟩
  | putback =>
      obtain rfl := Option.some.inj h
      exact .inl rfl
  | getTask =>
      simp only [Ring.step] at h
      cases hget : r.queue.getTask with
      | none =>
          rw [hget] at h
          cases h
      | some p =>
          rw [hget] at h
          obtain rfl := Option.some.inj h
          exact .inl rfl

/-- The producer has put a message into its queue. -/
theorem RingInv.put {waiting free : List Nat} (h : RingInv r waiting free) (hnone : r.allocated = []) (message : α) :
    ∃ r' waiting' free' node, r.put message = some r' ∧ RingInv r' waiting' free' ∧ r'.allocated = [] ∧
      r'.published = r.published ++ [(node, some message)] ∧ r'.taken = r.taken := by
  have hguard : Run.Guarded Ring.step Permitted r [.allocate, .fill r.queue.allocateTmpNode.1 message, .enqueue] := by
    refine ⟨trivial, ?_⟩
    intro r1 h1
    obtain rfl := Option.some.inj h1
    refine ⟨?_, ?_⟩
    · show r.queue.allocateTmpNode.1 ∈ r.allocated ++ [r.queue.allocateTmpNode.1]
      simp
    · intro r2 h2
      obtain rfl := Option.some.inj h2
      refine ⟨?_, fun _ _ => trivial⟩
      show r.allocated ++ [r.queue.allocateTmpNode.1] ≠ []
      simp
  have hstep : ∀ (r : Ring α) op, (∃ waiting free, RingInv r waiting free) → r.Permitted op →
      ∃ r', r.step op = some r' ∧ ∃ waiting free, RingInv r' waiting free := by
    rintro r op ⟨waiting, free, h⟩ hop
    obtain ⟨r', waiting', free', hstep, h'⟩ := h.step hop
    exact ⟨r', hstep, waiting', free', h'⟩
  obtain ⟨r', hrun, waiting', free', h'⟩ := Run.run_progress hstep ⟨waiting, free, h⟩ hguard
  -- the node that is published is the one that was filled: nothing else was allocated
  have hhead : r.queue.queueTmpHead = r.queue.queueHead := by
    have hh := h.layout.head
    rw [hnone] at hh
    simpa using hh
  have hheadAlloc : r.queue.allocateTmpNode.2.queueHead = r.queue.queueHead := by
    unfold TaskQueue.allocateTmpNode
    dsimp only
    split <;> rfl
  refine ⟨r', waiting', free', r.queue.allocateTmpNode.1, hrun, h', ?_⟩
  obtain rfl := Option.some.inj hrun
  refine ⟨?_, ?_, rfl⟩
  · show (r.allocated ++ [r.queue.allocateTmpNode.1]).tail = []
    rw [hnone]
    rfl
  · show r.published ++ [(r.queue.allocateTmpNode.2.queueHead,
      Function.update r.queue.allocateTmpNode.2.task r.queue.allocateTmpNode.1 (some message) r.queue.allocateTmpNode.2.queueHead)] = _
    rw [hheadAlloc, allocateTmpNode_fst, hhead, Function.update_self]

end Ring

namespace Sender

variable {s t : Sender Parcel}

/-- A step sends nothing, or the task of one node. -/
theorem SenderInv.sent_step (h : SenderInv s) {e : SenderEvent Parcel} (hstep : s.step e = some t) :
    t.sent = s.sent ∨ ∃ q k, t.sent = s.sent ++ [(q, (s.queue q).queue.task k)] := by
  have hquiet : ∀ q op, s.onQueue q op = some t → t.sent = s.sent := by
    intro q op hop
    unfold Sender.onQueue at hop
    obtain ⟨r, -, rfl⟩ := Option.map_eq_some_iff.mp hop
    rfl
  cases e with
  | allocate q => exact .inl (hquiet q _ hstep)
  | fill q node message => exact .inl (hquiet q _ hstep)
  | putback q => exact .inl (hquiet q _ hstep)
  | publish q =>
      simp only [Sender.step] at hstep
      obtain ⟨s', hs', rfl⟩ := Option.map_eq_some_iff.mp hstep
      unfold Sender.onQueue at hs'
      obtain ⟨r, -, rfl⟩ := Option.map_eq_some_iff.mp hs'
      exact .inl rfl
  | notify q =>
      obtain rfl := Option.some.inj hstep
      exact .inl rfl
  | epollWait q events =>
      obtain rfl := Option.some.inj hstep
      exact .inl rfl
  | read =>
      cases hphase : s.phase with
      | waiting => simp [Sender.step, hphase] at hstep
      | draining q events => simp [Sender.step, hphase] at hstep
      | handling q events =>
          simp only [Sender.step, hphase, Option.some.injEq] at hstep
          rw [← hstep]
          exact .inl rfl
  | drain =>
      cases hphase : s.phase with
      | waiting => simp [Sender.step, hphase] at hstep
      | handling q events => simp [Sender.step, hphase] at hstep
      | draining q events =>
          simp only [Sender.step, hphase] at hstep
          by_cases hempty : s.backlog q = []
          · rw [h.drainTurn_empty events hempty] at hstep
            obtain rfl := Option.some.inj hstep
            exact .inl rfl
          · obtain ⟨t', hturn, -, hsends⟩ := h.take hphase hempty
            rw [hturn] at hstep
            obtain rfl := Option.some.inj hstep
            obtain ⟨first, hfirst, hsent⟩ := hsends.first
            obtain ⟨waiting, free, hring⟩ := h.ring q
            rw [backlog_eq hring] at hfirst
            cases waiting with
            | nil => cases hfirst
            | cons k waiting =>
                rw [List.map_cons, List.cons.injEq] at hfirst
                rw [← hfirst.1] at hsent
                exact .inr ⟨q, k, hsent⟩

/-- What is in a node was there, or is what the step fills it with. -/
theorem task_of_step {e : SenderEvent Parcel} (hstep : s.step e = some t) {q k : Nat} {p : Parcel}
    (hk : (t.queue q).queue.task k = some p) : (s.queue q).queue.task k = some p ∨ e = .fill q k p := by
  have hqueue : ∀ j op t', s.onQueue j op = some t' → (t'.queue q).queue.task k = some p →
      (s.queue q).queue.task k = some p ∨ (j = q ∧ op = .fill k p) := by
    intro j op t' hop hk
    unfold Sender.onQueue at hop
    obtain ⟨r, hr, rfl⟩ := Option.map_eq_some_iff.mp hop
    by_cases hq : q = j
    · subst hq
      have hk' : ((Function.update s.queue q r) q).queue.task k = some p := hk
      rw [Function.update_self] at hk'
      exact (Ring.task_of_step hr hk').imp_right fun h => ⟨rfl, h⟩
    · have hk' : ((Function.update s.queue j r) q).queue.task k = some p := hk
      rw [Function.update_of_ne hq] at hk'
      exact .inl hk'
  cases e with
  | allocate j => exact (hqueue j _ t hstep hk).imp_right fun h => by cases h.2
  | fill j node message =>
      refine (hqueue j _ t hstep hk).imp_right ?_
      rintro ⟨rfl, h⟩
      cases h
      rfl
  | putback j => exact (hqueue j _ t hstep hk).imp_right fun h => by cases h.2
  | publish j =>
      simp only [Sender.step] at hstep
      obtain ⟨s', hs', rfl⟩ := Option.map_eq_some_iff.mp hstep
      exact (hqueue j _ s' hs' hk).imp_right fun h => by cases h.2
  | notify j =>
      obtain rfl := Option.some.inj hstep
      exact .inl hk
  | epollWait j events =>
      obtain rfl := Option.some.inj hstep
      exact .inl hk
  | read =>
      cases hphase : s.phase with
      | waiting => simp [Sender.step, hphase] at hstep
      | draining j events => simp [Sender.step, hphase] at hstep
      | handling j events =>
          simp only [Sender.step, hphase, Option.some.injEq] at hstep
          rw [← hstep] at hk
          exact .inl hk
  | drain =>
      cases hphase : s.phase with
      | waiting => simp [Sender.step, hphase] at hstep
      | handling j events => simp [Sender.step, hphase] at hstep
      | draining j events =>
          simp only [Sender.step, hphase, drainTurn] at hstep
          cases hget : (s.queue j).queue.getTask with
          | none =>
              rw [hget] at hstep
              obtain rfl := Option.some.inj hstep
              exact .inl hk
          | some r =>
              rw [hget] at hstep
              obtain ⟨s', hs', rfl⟩ := Option.map_eq_some_iff.mp hstep
              exact (hqueue j _ s' hs' hk).imp_right fun h => by cases h.2

/-- What a step publishes. -/
theorem publishedTo_of_step (h : SenderInv s) {e : SenderEvent Parcel} (he : s.Permitted e) (hstep : s.step e = some t) (q : Nat) :
    t.publishedTo q = s.publishedTo q ∨
      (e = .publish q ∧ t.publishedTo q = s.publishedTo q ++ [(s.queue q).queue.task (s.queue q).queue.queueHead]) := by
  have hqueue : ∀ j op t', s.onQueue j op = some t' →
      t'.publishedTo q = s.publishedTo q ∨ (j = q ∧ op = .enqueue ∧
        t'.publishedTo q = s.publishedTo q ++ [(s.queue q).queue.task (s.queue q).queue.queueHead]) := by
    intro j op t' hop
    unfold Sender.onQueue at hop
    obtain ⟨r, hr, rfl⟩ := Option.map_eq_some_iff.mp hop
    unfold publishedTo
    by_cases hq : q = j
    · subst hq
      dsimp only
      rw [Function.update_self]
      exact (Ring.published_of_step hr).imp (fun h => by rw [h]) fun h => ⟨rfl, h.1, by rw [h.2, List.map_append]; rfl⟩
    · dsimp only
      rw [Function.update_of_ne hq]
      exact .inl rfl
  cases e with
  | allocate j => exact (hqueue j _ t hstep).imp_right fun h => by cases h.2.1
  | fill j node message => exact (hqueue j _ t hstep).imp_right fun h => by cases h.2.1
  | putback j => exact (hqueue j _ t hstep).imp_right fun h => by cases h.2.1
  | publish j =>
      simp only [Sender.step] at hstep
      obtain ⟨s', hs', rfl⟩ := Option.map_eq_some_iff.mp hstep
      refine (hqueue j _ s' hs').imp_right ?_
      rintro ⟨rfl, -, h⟩
      exact ⟨rfl, h⟩
  | notify j =>
      obtain rfl := Option.some.inj hstep
      exact .inl rfl
  | epollWait j events => exact .inl ((h.sender_step rfl he hstep).2.2.2 q)
  | read => exact .inl ((h.sender_step rfl he hstep).2.2.2 q)
  | drain => exact .inl ((h.sender_step rfl he hstep).2.2.2 q)

end Sender

/-! ## The connection -/

namespace Network

variable {n : Network}

section Parcels

variable {c : Connection} {q : Nat}

theorem forQueue_append (l l' : List Parcel) (q : Nat) : forQueue (l ++ l') q = forQueue l q ++ forQueue l' q := List.filter_append ..

theorem forQueue_self (p : Parcel) : forQueue [p] p.receiverId.toNat = [p] := by
  simp [forQueue]

theorem forQueue_ne {p : Parcel} (h : q ≠ p.receiverId.toNat) : forQueue [p] q = [] := by
  simp [forQueue, Ne.symm h]

theorem fromConnection_append (l l' : List (Nat × Option (Connection × ReceiveTask))) (c : Connection) :
    fromConnection (l ++ l') c = fromConnection l c ++ fromConnection l' c := by
  simp [fromConnection]

theorem fromConnection_self (node : Nat) (c : Connection) (t : ReceiveTask) : fromConnection [(node, some (c, t))] c = [t] := by
  simp [fromConnection]

theorem fromConnection_ne {node : Nat} {c d : Connection} {t : ReceiveTask} (h : d ≠ c) :
    fromConnection [(node, some (c, t))] d = [] := by
  simp [fromConnection, Ne.symm h]

/-- What a process has sent on a connection, by the processes alone. -/
theorem parcels_congr {m : Network} (h : (m.sender c.1).sent = (n.sender c.1).sent) : m.parcels c = n.parcels c := by
  unfold parcels
  rw [h]

/-- One parcel more: on its own connection, and on no other. -/
theorem parcels_sent {m : Network} {q : Nat} {p : Parcel} (h : (m.sender c.1).sent = (n.sender c.1).sent ++ [(q, some p)]) :
    m.parcels c = n.parcels c ++ if p.handle = c.2 then [p] else [] := by
  unfold parcels
  rw [h, List.filterMap_append, List.filter_append]
  congr 1
  by_cases hp : p.handle = c.2 <;> simp [hp]

end Parcels

theorem start_inv (number : Nat) (queues : Nat → Nat) : NetworkInv (start number queues) where
  senders i := Sender.start_inv (queues i)
  good i q k p h := by cases h
  filled i q h := by cases h
  wire c := ⟨[], [], rfl, fun p hp => absurd hp List.not_mem_nil, rfl, fun _ => .nil⟩
  input q := ⟨rfl, [], [], Ring.start_inv⟩

section Process

variable {i : Nat} {e : SenderEvent Parcel} {calls : List (Chunks.Call Unit)} {t : Sender Parcel}

/-- What the process had, and keeps, when its state becomes `t`. -/
theorem NetworkInv.sender_step (h : NetworkInv n) (hpermitted : (n.sender i).Permitted e) (hkeeps : n.ProducerKeeps i e)
    (hstep : (n.sender i).step e = some t) :
    SenderInv t ∧ (∀ q k p, (t.queue q).queue.task k = some p → p.Good n.number) ∧ ∀ q, none ∉ t.publishedTo q := by
  have hinv : SenderInv t := by
    obtain ⟨t', ht', hinv⟩ := (h.senders i).step hpermitted
    rw [hstep] at ht'
    rwa [Option.some.inj ht']
  refine ⟨hinv, ?_, ?_⟩
  · intro q k p hk
    obtain hold | rfl := Sender.task_of_step hstep hk
    · exact h.good i q k p hold
    · exact hkeeps
  · intro q
    obtain hsame | ⟨rfl, hmore⟩ := Sender.publishedTo_of_step (h.senders i) hpermitted hstep q
    · rw [hsame]
      exact h.filled i q
    · rw [hmore, List.mem_append, List.mem_singleton]
      rintro (hold | hnone)
      · exact h.filled i q hold
      · exact hkeeps hnone.symm

/-- **A process takes a step.** What it sends is on its connection after it. -/
theorem NetworkInv.process (h : NetworkInv n) (hpermitted : (n.sender i).Permitted e) (hkeeps : n.ProducerKeeps i e)
    (htakes : TakesAll (n.sender i) e calls) : ∃ n', n.process i e calls = some n' ∧ NetworkInv n' := by
  obtain ⟨t, hstep, -⟩ := (h.senders i).step hpermitted
  obtain ⟨hinv, hgood, hfilled⟩ := h.sender_step hpermitted hkeeps hstep
  -- the other processes, and the invariants of this one
  have hsenders : ∀ j, SenderInv (Function.update n.sender i t j) := by
    intro j
    by_cases hj : j = i
    · rw [hj, Function.update_self]
      exact hinv
    · rw [Function.update_of_ne hj]
      exact h.senders j
  have hgoods : ∀ j q k p, ((Function.update n.sender i t j).queue q).queue.task k = some p → p.Good n.number := by
    intro j q k p hk
    by_cases hj : j = i
    · rw [hj, Function.update_self] at hk
      exact hgood q k p hk
    · rw [Function.update_of_ne hj] at hk
      exact h.good j q k p hk
  have hfilleds : ∀ j q, none ∉ (Function.update n.sender i t j).publishedTo q := by
    intro j q
    by_cases hj : j = i
    · rw [hj, Function.update_self]
      exact hfilled q
    · rw [Function.update_of_ne hj]
      exact h.filled j q
  have hother : ∀ j, j ≠ i → (Function.update n.sender i t j).sent = (n.sender j).sent := by
    intro j hj
    rw [Function.update_of_ne hj]
  -- nothing is sent
  have hquiet : sentNow (n.sender i) t = none → (∀ c, ({ n with sender := Function.update n.sender i t } : Network).parcels c = n.parcels c) →
      ∃ n', n.process i e calls = some n' ∧ NetworkInv n' := by
    intro hnow hparcels
    refine ⟨{ n with sender := Function.update n.sender i t }, ?_, hsenders, hgoods, hfilleds, fun c => ?_, h.input⟩
    · unfold Network.process
      simp only [hstep, hnow]
    · obtain ⟨done, flying, hsplit, hflying⟩ := h.wire c
      exact ⟨done, flying, (hparcels c).trans hsplit, hflying⟩
  obtain hsame | ⟨q, k, hmore⟩ := Sender.SenderInv.sent_step (h.senders i) hstep
  · refine hquiet ?_ fun c => parcels_congr ?_
    · unfold sentNow
      rw [hsame, List.drop_length]
      rfl
    · by_cases hc : c.1 = i
      · rw [hc]
        dsimp only
        rw [Function.update_self]
        exact hsame
      · exact hother c.1 hc
  · have hnow : sentNow (n.sender i) t = ((n.sender i).queue q).queue.task k := by
      unfold sentNow
      rw [hmore, List.drop_left]
      rfl
    cases htask : ((n.sender i).queue q).queue.task k with
    | none =>
        rw [htask] at hnow hmore
        refine hquiet hnow fun c => ?_
        unfold parcels
        by_cases hc : c.1 = i
        · dsimp only
          rw [hc, Function.update_self, hmore, List.filterMap_append]
          simp
        · rw [hother c.1 hc]
    | some p =>
        rw [htask] at hnow hmore
        have hp : p.Good n.number := h.good i q k p htask
        obtain ⟨rest, hsend⟩ := ExtendedIOTask.send_enough p.task p.receiverId hp.fits (htakes t hstep p hnow)
        refine ⟨{ n with
            sender := Function.update n.sender i t
            wire := Function.update n.wire (i, p.handle) (n.wire (i, p.handle) ++ p.bytes) }, ?_, hsenders, hgoods, hfilleds,
          fun c => ?_, h.input⟩
        · unfold Network.process Parcel.content
          simp only [hstep, hnow, hsend]
          rfl
        · obtain ⟨done, flying, hsplit, hflying, hwire, harrived⟩ := h.wire c
          dsimp only
          by_cases hc : c = (i, p.handle)
          · subst hc
            refine ⟨done, flying ++ [p], ?_, ?_, ?_, harrived⟩
            · rw [parcels_sent (n := n) (p := p) (q := q) (by simpa using hmore), hsplit]
              simp
            · intro p' hp'
              obtain hp' | hp' := List.mem_append.mp hp'
              · exact hflying p' hp'
              · rw [List.mem_singleton.mp hp']
                exact hp
            · rw [Function.update_self, hwire, List.flatMap_append, List.flatMap_singleton]
          · refine ⟨done, flying, ?_, hflying, ?_, harrived⟩
            · rw [← hsplit]
              by_cases hi : c.1 = i
              · have hhandle : p.handle ≠ c.2 := by
                  rintro hh
                  exact hc (Prod.ext hi hh.symm)
                rw [parcels_sent (n := n) (p := p) (q := q) (by rw [hi]; simpa using hmore), if_neg hhandle, List.append_nil]
              · exact parcels_congr (hother c.1 hi)
            · rw [Function.update_of_ne hc]
              exact hwire

end Process

section Receive

variable {c : Connection} {calls : List (Chunks.Call Byte)}

/-- **The receiver thread takes a message.** It is the parcel that was sent first of those that are under way. -/
theorem NetworkInv.receive (h : NetworkInv n) (hsome : n.wire c ≠ []) (hcalls : arrived calls = n.wire c) (stale : Nat → ReceiveTask) :
    ∃ n', n.receive c calls stale = some n' ∧ NetworkInv n' := by
  obtain ⟨done, flying, hsplit, hflying, hwire, harrived⟩ := h.wire c
  obtain ⟨p, flying, rfl⟩ : ∃ p rest, flying = p :: rest := by
    refine List.exists_cons_of_ne_nil ?_
    rintro rfl
    exact hsome hwire
  have hp : p.Good n.number := hflying p List.mem_cons_self
  rw [List.flatMap_cons] at hwire
  obtain ⟨t, rest, hinput, hrest, hcarries⟩ := inputFromNetwork_wire stale hp.fits (hcalls.trans hwire)
  obtain ⟨hnone, waiting, free, hring⟩ := h.input p.receiverId.toNat
  obtain ⟨r, waiting', free', node, hput, hring', hnone', hpublished, htaken⟩ := hring.put hnone (c, t)
  refine ⟨{ n with
    wire := Function.update n.wire c (arrived rest)
    input := Function.update n.input p.receiverId.toNat r }, ?_, h.senders, h.good, h.filled, fun d => ?_, fun q => ?_⟩
  · unfold Network.receive
    simp only [hinput, if_pos hp.queue, hput, Option.map_some]
  · -- what has arrived on a connection
    have harrivedAt : ∀ q, ({ n with
        wire := Function.update n.wire c (arrived rest)
        input := Function.update n.input p.receiverId.toNat r } : Network).arrivedAt d q =
        n.arrivedAt d q ++ if q = p.receiverId.toNat ∧ d = c then [t] else [] := by
      intro q
      unfold arrivedAt
      dsimp only
      by_cases hq : q = p.receiverId.toNat
      · rw [hq, Function.update_self, hpublished, fromConnection_append]
        by_cases hd : d = c
        · rw [hd, fromConnection_self, if_pos ⟨rfl, rfl⟩]
        · rw [fromConnection_ne hd, if_neg fun hc => hd hc.2]
      · rw [Function.update_of_ne hq, if_neg fun hc => hq hc.1, List.append_nil]
    by_cases hd : d = c
    · subst hd
      refine ⟨done ++ [p], flying, ?_, fun p' hp' => hflying p' (List.mem_cons_of_mem _ hp'), ?_, fun q => ?_⟩
      · rw [List.append_assoc]
        exact hsplit
      · dsimp only
        rw [Function.update_self]
        exact hrest
      · rw [harrivedAt, forQueue_append]
        by_cases hq : q = p.receiverId.toNat
        · subst hq
          rw [if_pos ⟨rfl, rfl⟩, forQueue_self]
          exact List.rel_append (harrived _) (.cons hcarries .nil)
        · rw [if_neg fun hc => hq hc.1, forQueue_ne hq, List.append_nil, List.append_nil]
          exact harrived q
    · obtain ⟨done', flying', hsplit', hflying', hwire', harrived'⟩ := h.wire d
      refine ⟨done', flying', hsplit', hflying', ?_, fun q => ?_⟩
      · dsimp only
        rw [Function.update_of_ne hd]
        exact hwire'
      · rw [harrivedAt, if_neg fun hc => hd hc.2, List.append_nil]
        exact harrived' q
  · dsimp only
    by_cases hq : q = p.receiverId.toNat
    · rw [hq, Function.update_self]
      exact ⟨hnone', waiting', free', hring'⟩
    · rw [Function.update_of_ne hq]
      exact h.input q

/-- The handler gets a task. -/
theorem NetworkInv.getTask (h : NetworkInv n) {q : Nat} (hthere : (n.input q).queue.isEmpty = false) :
    ∃ n', n.step (.getTask q) = some n' ∧ NetworkInv n' := by
  obtain ⟨hnone, waiting, free, hring⟩ := h.input q
  obtain ⟨r, waiting', free', hstep, hring'⟩ := hring.step (show (n.input q).Permitted .getTask from hthere)
  have hpublished : r.published = (n.input q).published := by
    obtain hsame | ⟨hop, -⟩ := Ring.published_of_step hstep
    · exact hsame
    · cases hop
  have hallocated : r.allocated = [] := by
    simp only [Ring.step] at hstep
    cases hget : (n.input q).queue.getTask with
    | none =>
        rw [hget] at hstep
        cases hstep
    | some m =>
        rw [hget] at hstep
        obtain rfl := Option.some.inj hstep
        exact hnone
  refine ⟨{ n with input := Function.update n.input q r }, ?_, h.senders, h.good, h.filled, fun c => ?_, fun k => ?_⟩
  · simp only [Network.step, hstep, Option.map_some]
  · obtain ⟨done, flying, hsplit, hflying, hwire, harrived⟩ := h.wire c
    refine ⟨done, flying, hsplit, hflying, hwire, fun k => ?_⟩
    have hsame : ({ n with input := Function.update n.input q r } : Network).arrivedAt c k = n.arrivedAt c k := by
      unfold arrivedAt
      dsimp only
      by_cases hk : k = q
      · rw [hk, Function.update_self, hpublished]
      · rw [Function.update_of_ne hk]
    rw [hsame]
    exact harrived k
  · dsimp only
    by_cases hk : k = q
    · rw [hk, Function.update_self]
      exact ⟨hallocated, waiting', free', hring'⟩
    · rw [Function.update_of_ne hk]
      exact h.input k

end Receive

/-- **One step.** -/
theorem NetworkInv.step (h : NetworkInv n) {e : NetworkEvent} (he : n.Permitted e) : ∃ n', n.step e = some n' ∧ NetworkInv n' := by
  cases e with
  | process i e calls =>
      obtain ⟨hpermitted, hkeeps, htakes⟩ := he
      have hnext : ∃ n', n.process i e calls = some n' ∧ NetworkInv n' := NetworkInv.process h hpermitted hkeeps htakes
      exact hnext
  | receive c calls stale =>
      obtain ⟨hsome, hcalls⟩ := he
      have hnext : ∃ n', n.receive c calls stale = some n' ∧ NetworkInv n' := NetworkInv.receive h hsome hcalls stale
      exact hnext
  | getTask q => exact NetworkInv.getTask h he

/-! ## From one end to the other -/

/-- What the handler got is the front of what has arrived. -/
theorem NetworkInv.arrivedAt_eq (h : NetworkInv n) (c : Connection) (q : Nat) :
    ∃ rest, n.arrivedAt c q = n.handled c q ++ rest ∧ ((n.input q).queue.isEmpty = true → rest = []) := by
  obtain ⟨-, waiting, free, hring⟩ := h.input q
  refine ⟨fromConnection (waiting.map fun k => (k, (n.input q).queue.task k)) c, ?_, fun hempty => ?_⟩
  · unfold arrivedAt handled
    rw [hring.history, fromConnection_append]
  · cases waiting with
    | nil => rfl
    | cons k waiting =>
        obtain ⟨hget, -⟩ := hring.layout.getTask
        unfold TaskQueue.getTask at hget
        rw [hempty] at hget
        cases hget

/-- What the handler got came from the front of what was sent to its queue. -/
theorem NetworkInv.handled_front (h : NetworkInv n) (c : Connection) (q : Nat) :
    ∃ front rest, forQueue (n.parcels c) q = front ++ rest ∧ List.Forall₂ Delivers (n.handled c q) front := by
  obtain ⟨done, flying, hsplit, -, -, harrived⟩ := h.wire c
  obtain ⟨waiting, heq, -⟩ := h.arrivedAt_eq c q
  have hall := harrived q
  rw [heq] at hall
  have hfront := List.forall₂_take (n.handled c q).length hall
  rw [List.take_left] at hfront
  refine ⟨_, (forQueue done q).drop (n.handled c q).length ++ forQueue flying q, ?_, hfront⟩
  rw [hsplit, forQueue_append, ← List.append_assoc, List.take_append_drop]

/-- Nothing is under way: all of it was sent, and all that was sent is with the handler. -/
theorem NetworkInv.atRest (h : NetworkInv n) (hrest : n.AtRest) (c : Connection) (q : Nat) :
    List.Forall₂ Delivers (n.handled c q) (forQueue (n.parcels c) q) := by
  obtain ⟨done, flying, hsplit, -, hwire, harrived⟩ := h.wire c
  have hflying : flying = [] := by
    rw [hrest.wire c] at hwire
    cases flying with
    | nil => rfl
    | cons p flying =>
        have hlength := congrArg List.length hwire
        rw [List.flatMap_cons, List.length_append] at hlength
        unfold Parcel.bytes ExtendedIOTask.wireBytes at hlength
        rw [List.length_append, Wire.length_leBytes, List.length_nil] at hlength
        omega
  obtain ⟨waiting, heq, hnone⟩ := h.arrivedAt_eq c q
  have hall := harrived q
  rwa [heq, hnone (hrest.input q), List.append_nil, ← List.append_nil done, ← hflying, ← hsplit] at hall

/-- **The queues and the connections are FIFO channels that lose nothing.** However the producers, the sender threads, the receiver
    thread and the handlers come in turn, what a handler got from a connection carries, one by one and in order, the first of the
    parcels that were sent there for its queue; what was sent of an output queue is the front of what was published there; and
    when nothing is under way, all that was published was sent, and all that was sent is with its handler. -/
theorem channel_is_fifo (number : Nat) (queues : Nat → Nat) (events : List NetworkEvent)
    (hevents : Run.Guarded step Permitted (start number queues) events) :
    ∃ n, Run.run step (start number queues) events = some n ∧
      (∀ c q, ∃ front rest, forQueue (n.parcels c) q = front ++ rest ∧ List.Forall₂ Delivers (n.handled c q) front) ∧
      (∀ i q, (n.sender i).sentFrom q <+: (n.sender i).publishedTo q ∧ none ∉ (n.sender i).publishedTo q) ∧
      (n.AtRest → (∀ c q, List.Forall₂ Delivers (n.handled c q) (forQueue (n.parcels c) q)) ∧
        ∀ i q, (n.sender i).sentFrom q = (n.sender i).publishedTo q) := by
  obtain ⟨n, hrun, h⟩ := Run.run_progress (fun n e h he => NetworkInv.step h he) (start_inv number queues) hevents
  refine ⟨n, hrun, h.handled_front, fun i q => ⟨?_, h.filled i q⟩, fun hrest => ⟨h.atRest hrest, fun i q => ?_⟩⟩
  · rw [Sender.publishedTo_eq (h.senders i)]
    exact List.prefix_append ..
  · exact (h.senders i).asleep (hrest.senders i).1 ((hrest.senders i).2 q)

/-- For the second queue: two bytes in the message and one in a send buffer. -/
def letter : Parcel := ⟨4, 1, IOTask.create 3, [.item (.value [5, 6]), .buffer [7]]⟩

/-- It goes all the way, the bytes one at a time; the queue it comes to held another task. -/
def letterSent : List NetworkEvent :=
  let bytes := letter.bytes.map fun b => Chunks.Call.moved b []
  [.process 0 (.allocate 0) [], .process 0 (.fill 0 1 letter) [], .process 0 (.publish 0) [], .process 0 (.notify 0) [],
    .process 0 (.epollWait 0 []) [], .process 0 .read [], .process 0 .drain (letter.bytes.map fun _ => .moved () []),
    .process 0 .drain [], .receive (0, 4) bytes (fun _ => ⟨1, fun _ => 9, fun _ => 9⟩), .getTask 1]

theorem channel_is_fifo_letter :
    Run.Guarded step Permitted (start 2 fun _ => 1) letterSent ∧
    ∃ n, Run.run step (start 2 fun _ => 1) letterSent = some n ∧ (n.handled (0, 4) 1).length = 1 ∧
      ∀ c q, ∃ front rest, forQueue (n.parcels c) q = front ++ rest ∧ List.Forall₂ Delivers (n.handled c q) front := by
  have hevents : Run.Guarded step Permitted (start 2 fun _ => 1) letterSent := by decide +kernel
  have hone : (Run.run step (start 2 fun _ => 1) letterSent).map (fun n => (n.handled (0, 4) 1).length) = some 1 := by decide +kernel
  obtain ⟨n, hrun, hfront, -⟩ := channel_is_fifo 2 (fun _ => 1) letterSent hevents
  rw [hrun] at hone
  exact ⟨hevents, n, hrun, Option.some.inj hone, hfront⟩

end Network

end HuronFS
