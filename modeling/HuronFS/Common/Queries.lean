import HuronFS.Common.Const
import HuronFS.Common.Task
import HuronFS.Common.TaskQueue
import HuronFS.Lib.Run

/-!
# `Common.Queries` — queries of a client and their queues (`Client.cpp`, `Client.h`)

A thread of a client that has something to ask locks an output queue, fills a node of it and waits at the input queue of the same
number. `_threads_handle_map` has, for each number, the address of the handle in that node: a `comm_handle_t` is a pointer. The
receiver thread has one handle of its own, which it sets to the connection that has something to read, and hands its address down.

The input queues are lists here (`Common.TaskRing` has why that is enough), the output queues are the rings, because the addresses
of their nodes are what the map holds.
-/

namespace HuronFS

def SOCKET_KILLED : Int := 1
def CONNECTION_SETUP_FAILED : Int := 2

/-- The address of a `comm_handle`: the variable of the receiver thread, or the field of a node of an output queue. -/
inductive HandlePtr
  | receiver
  | query (id node : Nat)
deriving DecidableEq, Repr

/-- What `get_query_response` and the two threads read of an `extended_IO_task`. -/
structure QueryTask where
  handle : Handle
  newConnection : Bool
  error : Int
deriving DecidableEq, Repr

/-- The queues of a client. `waiting` are the queries in `get_query_response`: a number and a node. -/
structure Queries where
  number : Nat
  outputQueue : Nat → TaskQueue QueryTask
  inputQueue : Nat → List QueryTask
  locked : Nat → Bool
  threadsHandleMap : Nat → Option HandlePtr
  receiverHandle : Handle
  waiting : List (Nat × Nat)

namespace Queries

def start (number : Nat) : Queries :=
  { number, outputQueue := fun _ => TaskQueue.init, inputQueue := fun _ => [], locked := fun _ => false
    threadsHandleMap := fun _ => none, receiverHandle := 0, waiting := [] }

/-- What a pointer points to. -/
def deref (s : Queries) : HandlePtr → Option Handle
  | .receiver => some s.receiverHandle
  | .query id node => ((s.outputQueue id).task node).map QueryTask.handle

/-- `compare_handle` of a query and a handle: the connections, not the addresses. -/
def compareHandle (s : Queries) (query : Nat × Nat) (handle : Handle) : Prop := s.deref (.query query.1 query.2) = some handle

/-- A task for the thread that waits at an input queue. -/
def deliver (s : Queries) (id : Nat) (t : QueryTask) : Queries :=
  { s with inputQueue := Function.update s.inputQueue id (s.inputQueue id ++ [t]) }

/-! ## The threads that ask -/

/-- `get_new_communication_queue`: the first queue that is not locked. -/
def getNewCommunicationQueue (s : Queries) : Option Nat := (List.range s.number).find? (fun id => !s.locked id)

/-- `allocate_new_query`; a new connection gets its handle when it is there. -/
def allocateNewQuery (s : Queries) (t : QueryTask) : Option Queries :=
  s.getNewCommunicationQueue.map (fun id => { s with
    locked := Function.update s.locked id true
    outputQueue := Function.update s.outputQueue id ((s.outputQueue id).allocate t) })

/-- `send_query`. -/
def sendQuery (s : Queries) (id : Nat) : Queries :=
  { s with outputQueue := Function.update s.outputQueue id (s.outputQueue id).enqueue }

/-- `release_communication_queue`. -/
def releaseCommunicationQueue (s : Queries) (id : Nat) : Queries := { s with locked := Function.update s.locked id false }

/-- `get_query_response`, up to where it waits. -/
def getQueryResponse (s : Queries) (id node : Nat) : Queries :=
  { s with threadsHandleMap := Function.update s.threadsHandleMap id (some (.query id node)), waiting := (id, node) :: s.waiting }

/-- A turn of the loop of `get_query_response`, with a task to get. What came over another connection is dropped. After an error the
    queue is released twice, and the map is left as it is. -/
def takeResponse (s : Queries) (id node : Nat) : Option Queries :=
  match s.inputQueue id, (s.outputQueue id).task node with
  | ret :: rest, some query =>
      let s := { s with inputQueue := Function.update s.inputQueue id rest }
      if query.newConnection = false ∧ query.handle ≠ ret.handle then some s
      else
        let s := { s with waiting := s.waiting.erase (id, node) }
        if ret.error ≠ SUCCESS then some ((s.releaseCommunicationQueue id).releaseCommunicationQueue id)
        else some { s with threadsHandleMap := Function.update s.threadsHandleMap id none }
  | _, _ => none

/-! ## The sender thread -/

/-- What a turn of `input_from_producer` meets. -/
inductive Sent
  | sent
  | connected (handle : Handle)
  | failed
deriving DecidableEq, Repr

/-- `reply_with_handle_error`: the node has the handle of the task that was in it before. -/
def replyWithHandleError (s : Queries) (id : Nat) (stale : Handle) (error : Int) : Queries := s.deliver id ⟨stale, false, error⟩

/-- A turn of the loop of `input_from_producer`. -/
def inputFromProducer (s : Queries) (id : Nat) (stale : Handle) (outcome : Sent) : Option Queries :=
  match (s.outputQueue id).getTask with
  | some (some task, queue) =>
      let node := queue.queueTail
      let s := { s with outputQueue := Function.update s.outputQueue id queue }
      match outcome, task.newConnection with
      | .sent, false => some s
      | .connected handle, true =>
          some { s with outputQueue := Function.update s.outputQueue id (queue.fill node { task with handle }) }
      | .failed, true => some (s.replyWithHandleError id stale CONNECTION_SETUP_FAILED)
      | .failed, false => some (s.replyWithHandleError id stale SOCKET_KILLED)
      | _, _ => none
  | _ => none

/-! ## The receiver thread -/

/-- What there is to read: nothing, because the connection is closed, or the number of a queue and then a message, which may be cut off. -/
inductive Received
  | closed
  | message (toId : Nat) (cut : Bool)
deriving DecidableEq, Repr

/-- `get_communication_queue_from_handle`: `handle == *it`. -/
def getCommunicationQueueFromHandle (s : Queries) (handle : HandlePtr) : Option Nat :=
  (List.range s.number).find? (fun id => s.threadsHandleMap id = some handle)

/-- `input_from_network`. A number that is no queue's ends the process. -/
def inputFromNetwork (s : Queries) (handle : HandlePtr) (received : Received) : Option Queries := do
  let connection ← s.deref handle
  match received with
  | .closed =>
      match s.getCommunicationQueueFromHandle handle with
      | none => some s
      | some id => some (s.deliver id ⟨connection, false, SOCKET_KILLED⟩)
  | .message toId cut => if toId < s.number then some (s.deliver toId ⟨connection, false, if cut then SOCKET_KILLED else SUCCESS⟩) else none

/-- A turn of the loop of `receiver_thread_function`. -/
def receiverThreadFunction (s : Queries) (connection : Handle) (received : Received) : Option Queries :=
  { s with receiverHandle := connection }.inputFromNetwork .receiver received

/-! ## Runs -/

inductive Event
  | allocateNewQuery (t : QueryTask)
  | sendQuery (id : Nat)
  | releaseCommunicationQueue (id : Nat)
  | getQueryResponse (id node : Nat)
  | takeResponse (id node : Nat)
  | inputFromProducer (id : Nat) (stale : Handle) (outcome : Sent)
  | receive (connection : Handle) (received : Received)

def step (s : Queries) : Event → Option Queries
  | .allocateNewQuery t => s.allocateNewQuery t
  | .sendQuery id => some (s.sendQuery id)
  | .releaseCommunicationQueue id => some (s.releaseCommunicationQueue id)
  | .getQueryResponse id node => some (s.getQueryResponse id node)
  | .takeResponse id node => if (id, node) ∈ s.waiting then s.takeResponse id node else none
  | .inputFromProducer id stale outcome => s.inputFromProducer id stale outcome
  | .receive connection received => s.receiverThreadFunction connection received

/-- The queries that wait on the connection are told of its end, each in its own input queue, and nothing comes into any other. -/
def Reported (s s' : Queries) (connection : Handle) : Prop :=
  (∀ query ∈ s.waiting, s.compareHandle query connection →
    ∃ t, s'.inputQueue query.1 = s.inputQueue query.1 ++ [t] ∧ t.error = SOCKET_KILLED) ∧
  ∀ id, (∀ query ∈ s.waiting, s.compareHandle query connection → query.1 ≠ id) → s'.inputQueue id = s.inputQueue id

/-- The map has addresses of nodes. -/
def OfQueries (s : Queries) : Prop := ∀ id, s.threadsHandleMap id ≠ some .receiver

variable {s s' : Queries} {number : Nat}

theorem start_ofQueries (number : Nat) : (start number).OfQueries := fun _ hc => (nomatch hc)

theorem takeResponse_map {id node : Nat} (hs : s.takeResponse id node = some s') :
    s'.threadsHandleMap = s.threadsHandleMap ∨ s'.threadsHandleMap = Function.update s.threadsHandleMap id none := by
  unfold takeResponse at hs
  split at hs
  · dsimp only at hs
    split at hs
    · cases hs
      exact Or.inl rfl
    · split at hs
      · cases hs
        exact Or.inl rfl
      · cases hs
        exact Or.inr rfl
  · cases hs

theorem inputFromProducer_map {id : Nat} {stale : Handle} {outcome : Sent} (hs : s.inputFromProducer id stale outcome = some s') :
    s'.threadsHandleMap = s.threadsHandleMap := by
  unfold inputFromProducer at hs
  split at hs
  · dsimp only at hs
    split at hs
    · cases hs
      rfl
    · cases hs
      rfl
    · cases hs
      rfl
    · cases hs
      rfl
    · cases hs
  · cases hs

theorem inputFromNetwork_map {handle : HandlePtr} {received : Received} (hs : s.inputFromNetwork handle received = some s') :
    s'.threadsHandleMap = s.threadsHandleMap := by
  unfold inputFromNetwork at hs
  obtain ⟨connection, -, hs⟩ := Option.bind_eq_some_iff.mp hs
  cases received with
  | closed =>
      dsimp only at hs
      split at hs
      · cases hs
        rfl
      · cases hs
        rfl
  | message toId cut =>
      dsimp only at hs
      split at hs
      · cases hs
        rfl
      · cases hs

/-- Only a query puts an address into the map, and it is that of its own node. -/
theorem OfQueries.step (h : s.OfQueries) {ev : Event} (hs : s.step ev = some s') : s'.OfQueries := by
  intro i
  cases ev with
  | allocateNewQuery t =>
      obtain ⟨id, -, rfl⟩ := Option.map_eq_some_iff.mp hs
      exact h i
  | sendQuery id =>
      cases hs
      exact h i
  | releaseCommunicationQueue id =>
      cases hs
      exact h i
  | getQueryResponse id node =>
      cases hs
      show Function.update s.threadsHandleMap id (some (.query id node)) i ≠ _
      by_cases hi : i = id
      · subst hi
        rw [Function.update_self]
        exact fun hc => HandlePtr.noConfusion (Option.some.inj hc)
      · rw [Function.update_of_ne hi]
        exact h i
  | takeResponse id node =>
      change (if (id, node) ∈ s.waiting then s.takeResponse id node else none) = some s' at hs
      split at hs
      · rcases takeResponse_map hs with hmap | hmap
        · rw [hmap]
          exact h i
        · rw [hmap]
          by_cases hi : i = id
          · subst hi
            rw [Function.update_self]
            exact fun hc => (nomatch hc)
          · rw [Function.update_of_ne hi]
            exact h i
      · cases hs
  | inputFromProducer id stale outcome =>
      rw [inputFromProducer_map hs]
      exact h i
  | receive connection received =>
      rw [inputFromNetwork_map hs]
      exact h i

/-- The receiver's own handle has an address that no query has, so the lookup finds nothing. -/
theorem OfQueries.closed (h : s.OfQueries) (connection : Handle) :
    s.step (.receive connection .closed) = some { s with receiverHandle := connection } := by
  have hnone : getCommunicationQueueFromHandle { s with receiverHandle := connection } .receiver = none := by
    unfold getCommunicationQueueFromHandle
    rw [List.find?_eq_none]
    intro id _
    rw [decide_eq_true_eq]
    exact h id
  show inputFromNetwork { s with receiverHandle := connection } .receiver .closed = _
  unfold inputFromNetwork
  rw [show deref { s with receiverHandle := connection } .receiver = some connection from rfl, Option.bind_eq_bind, Option.bind_some]
  dsimp only
  rw [hnone]

/-- **Whom a dead connection is reported to.** In every state of a client, when the receiver finds a connection closed, the queries that
    wait on it are told exactly if there are none. -/
theorem dead_connection_reported_iff (events : List Event) (hr : Run.run step (start number) events = some s) (connection : Handle) :
    ∃ s', s.step (.receive connection .closed) = some s' ∧
      (Reported s s' connection ↔ ∀ query ∈ s.waiting, ¬ s.compareHandle query connection) := by
  have hmap : s.OfQueries := Run.run_invariant (fun s ev s' h _ hs => OfQueries.step h hs) (start_ofQueries number)
    (Run.Guarded.of_forall (fun _ _ => trivial) : Run.Guarded step (fun _ _ => True) _ events) hr
  refine ⟨_, hmap.closed connection, ?_⟩
  constructor
  · rintro ⟨htold, -⟩ query hwaiting hsame
    obtain ⟨t, ht, -⟩ := htold query hwaiting hsame
    have hlength := congrArg List.length ht
    rw [List.length_append, List.length_singleton] at hlength
    exact absurd hlength (Nat.lt_succ_self _).ne
  · intro hnone
    exact ⟨fun query hwaiting hsame => absurd hsame (hnone query hwaiting), fun _ _ => rfl⟩

/-- A query is sent to the connection 5, and its thread waits. -/
def oneWaiting : List Event :=
  [.allocateNewQuery ⟨5, false, SUCCESS⟩, .sendQuery 0, .inputFromProducer 0 0 .sent, .getQueryResponse 0 1]

/-- The connection 6 is closed, which no query waits on. -/
theorem dead_connection_reported_other : ∃ s s', Run.run step (start 2) oneWaiting = some s ∧
    s.step (.receive 6 .closed) = some s' ∧ Reported s s' 6 := by
  obtain ⟨s', hs', hiff⟩ := @dead_connection_reported_iff _ 2 oneWaiting rfl 6
  refine ⟨_, s', rfl, hs', hiff.mpr ?_⟩
  intro query hwaiting
  cases List.mem_singleton.mp hwaiting
  exact fun hc => absurd (Option.some.inj hc) (by decide)

/-- The connection 5 is closed: the thread that waits on it gets nothing. -/
theorem dead_connection_not_reported : ∃ s s', Run.run step (start 2) oneWaiting = some s ∧
    s.step (.receive 5 .closed) = some s' ∧ ¬ Reported s s' 5 := by
  refine ⟨_, _, rfl, rfl, ?_⟩
  rintro ⟨htold, -⟩
  obtain ⟨t, ht, -⟩ := htold (0, 1) List.mem_cons_self rfl
  cases ht

end Queries

end HuronFS
