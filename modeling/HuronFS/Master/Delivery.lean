import HuronFS.Master.OpenTable
import HuronFS.Master.Replies

/-!
# `Master.Delivery` — replies over whole runs

The system around the Master: requests arrive from any number of clients in any order, the Master
handles them one at a time, and the communication threads transmit what stands published in the output
rings. An action is an arrival, the handling of the oldest request, or a transmission, and a run is any
interleaving of them. Each client queue receives the replies to its own requests, in the order it issued
them, as long as no known file is flushed: that handler publishes one node more than it filled, after
which a ring hands out a stale task.
-/

namespace HuronFS

open Master (Event)

/-- What one queue operation does to the rings. -/
def execOp (queues : Nat → TaskQueue OutTask) : QueueOp → Nat → TaskQueue OutTask
  | .alloc q t => Function.update queues q ((queues q).allocate t)
  | .enqueue q => Function.update queues q (queues q).enqueue

/-- What a handler does to the rings. -/
def execOps (queues : Nat → TaskQueue OutTask) (ops : List QueueOp) : Nat → TaskQueue OutTask :=
  ops.foldl execOp queues

/-- The Master with its input queue, its output rings, what has left it, and the history of a run. -/
structure System where
  master : Master
  inbox : List Event
  queues : Nat → TaskQueue OutTask
  delivered : List OutTask
  issued : List Event
  handled : List (Event × Outcome)

/-- One step of the system. -/
inductive Action
  | arrive (ev : Event)
  | handle
  | transmit (q : Nat)

namespace System

/-- A Master before its first request. -/
def initial (m : Master) : System :=
  { master := m, inbox := [], queues := fun _ => TaskQueue.init, delivered := [], issued := [], handled := [] }

/-- A request arrives. -/
def arrive (s : System) (ev : Event) : System := { s with inbox := s.inbox ++ [ev], issued := s.issued ++ [ev] }

/-- The oldest request is handled; an empty input queue is waited on. -/
def handle (s : System) : Option System :=
  match s.inbox with
  | [] => some s
  | ev :: rest =>
      match s.master.parseRequest ev.env ev.origin ev.request with
      | none => none
      | some out =>
          some { s with
            master := out.master
            inbox := rest
            queues := execOps s.queues out.ops
            handled := s.handled ++ [(ev, out)] }

/-- The oldest published task of a ring is transmitted; an empty ring is waited on. A node that no
    handler filled has no destination. -/
def transmit (s : System) (q : Nat) : Option System :=
  match (s.queues q).getTask with
  | none => some s
  | some (none, _) => none
  | some (some t, ring) =>
      some { s with queues := Function.update s.queues q ring, delivered := s.delivered ++ [t] }

/-- One action. -/
def step (s : System) : Action → Option System
  | .arrive ev => some (s.arrive ev)
  | .handle => s.handle
  | .transmit q => s.transmit q

end System

/-! ## What is to be shown -/

/-- A request with a reply, issued on this client queue. -/
def Master.Event.awaitedBy (c : Origin) (ev : Event) : Bool := ev.origin == c && ev.request.hasReply

/-- The task a handled request addressed to its requester. -/
def answerOf (h : Event × Outcome) : Option OutTask := (tasksOf h.2.ops).find? (addressedTo h.1.origin)

/-- **One request, one response**: what is allocated on a queue is published there and never more, and
    one task goes to the requester. -/
structure OneReply (o : Origin) (ops : List QueueOp) : Prop where
  balanced : ∀ q, enqueuesOn q ops = (allocatedOn q ops).length
  never_ahead : ∀ q pre, pre <+: ops → enqueuesOn q pre ≤ (allocatedOn q pre).length
  one : ((tasksOf ops).filter (addressedTo o)).length = 1

/-- **Replies come in order.** For a client queue, what was delivered, followed by what stands in the
    ring, is the list of the answers to its handled requests; and the handled requests, followed by the
    ones that wait, are the issued ones. -/
structure InOrder (clients : Set Handle) (s : System) : Prop where
  answered : ∀ (ev : Event) out, ev.origin.handle ∈ clients → ev.request.hasReply = true →
    s.master.RepliesOnce ev.request → s.master.parseRequest ev.env ev.origin ev.request = some out →
    OneReply ev.origin out.ops
  delivery : ∃ waiting, (s.queues SERVER_QUEUE_NUM).Holds waiting [] ∧ ∀ c : Origin, c.handle ∈ clients →
    ((s.delivered ++ waiting).filter (addressedTo c)).map some
      = (s.handled.filter (fun h => h.1.awaitedBy c)).map answerOf
  issued : s.issued = s.handled.map Prod.fst ++ s.inbox

/-- The condition on a step: a request that is handled does not flush a known file, and a registration
    does not come from a client. -/
def ReplyGuard (clients : Set Handle) (s : System) : Action → Prop
  | .handle => ∀ ev rest, s.inbox = ev :: rest →
      s.master.RepliesOnce ev.request ∧
      ∀ totalMemory uri, ev.request = .register totalMemory uri → ev.origin.handle ∉ clients
  | _ => True

/-! ## The rings under complete sends -/

theorem execOps_append (queues : Nat → TaskQueue OutTask) (a b : List QueueOp) :
    execOps queues (a ++ b) = execOps (execOps queues a) b := by
  unfold execOps
  rw [List.foldl_append]

theorem execOps_sendOn {queues : Nat → TaskQueue OutTask} {waiting : Nat → List OutTask}
    (h : ∀ q, (queues q).Holds (waiting q) []) (p : Nat × OutTask) (q : Nat) :
    (execOps queues (sendOn p.1 p.2) q).Holds (waiting q ++ ([p].filter (fun p => p.1 = q)).map Prod.snd) [] := by
  show (Function.update (Function.update queues p.1 _) p.1 _ q).Holds _ _
  by_cases hq : q = p.1
  · have hsent := ((h p.1).allocate p.2).enqueue
    simpa [hq, execOp] using hsent
  · have hq' : ¬ (p.1 = q) := fun hc => hq hc.symm
    rw [Function.update_of_ne hq, Function.update_of_ne hq]
    simpa [hq'] using h q

/-- Complete sends append their tasks to the rings. -/
theorem execOps_sends (ps : List (Nat × OutTask)) : ∀ {queues : Nat → TaskQueue OutTask}
    {waiting : Nat → List OutTask}, (∀ q, (queues q).Holds (waiting q) []) → ∀ q,
    (execOps queues (sends ps) q).Holds (waiting q ++ (ps.filter (fun p => p.1 = q)).map Prod.snd) [] := by
  induction ps with
  | nil =>
      intro queues waiting h q
      simpa [execOps] using h q
  | cons p ps ih =>
      intro queues waiting h q
      rw [sends_cons, execOps_append]
      have hrest := ih (execOps_sendOn h p) q
      have hlist : waiting q ++ ([p].filter (fun p => p.1 = q)).map Prod.snd
          ++ (ps.filter (fun p => p.1 = q)).map Prod.snd
          = waiting q ++ ((p :: ps).filter (fun p => p.1 = q)).map Prod.snd := by
        rw [List.append_assoc, ← List.map_append, ← List.filter_append]
        rfl
      rw [← hlist]
      exact hrest

/-! ## What one handled request publishes -/

/-- The tasks of complete sends on a queue. -/
def sentOn (q : Nat) (ps : List (Nat × OutTask)) : List OutTask := (ps.filter (fun p => p.1 = q)).map Prod.snd

theorem sentOn_append (q : Nat) (ps qs : List (Nat × OutTask)) : sentOn q (ps ++ qs) = sentOn q ps ++ sentOn q qs := by
  unfold sentOn
  rw [List.filter_append, List.map_append]

/-- Messages to IOnodes leave the reply queue alone. -/
theorem sentOn_nodes (ts : List OutTask) : sentOn SERVER_QUEUE_NUM (ts.map (Prod.mk IONODE_COMMUNICATE_QUEUE_NUM)) = [] := by
  unfold sentOn
  rw [List.map_eq_nil_iff, List.filter_eq_nil_iff]
  intro p hp
  obtain ⟨t, _, rfl⟩ := List.mem_map.mp hp
  show ¬ (decide (IONODE_COMMUNICATE_QUEUE_NUM = SERVER_QUEUE_NUM) = true)
  decide

theorem filter_addressed_nil {clients : Set Handle} {c : Origin} (hc : c.handle ∈ clients) {ts : List OutTask}
    (h : ∀ t ∈ ts, t.handle ∉ clients) : ts.filter (addressedTo c) = [] := by
  rw [List.filter_eq_nil_iff]
  intro t ht hto
  have hh : t.handle = c.handle := by
    simp only [addressedTo, Bool.and_eq_true, beq_iff_eq] at hto
    exact hto.1
  exact h t ht (hh ▸ hc)

/-- No IOnode is on a client's handle. -/
def NodesApart (clients : Set Handle) (m : Master) : Prop := ∀ r n, m.nodes r = some n → n.handle ∉ clients

theorem NodesApart.of_handles {clients : Set Handle} {m m' : Master} (h : NodesApart clients m)
    (hh : Master.HandlesFrom m m') : NodesApart clients m' := by
  intro r n' hn'
  obtain ⟨n, hn, he⟩ := hh r n' hn'
  exact he ▸ h r n hn

/-- What handling one request means for the client queues: complete sends, of which those outside the
    reply queue go to no client, and a client queue gets the answer if it awaits one, and nothing else. -/
def Published (clients : Set Handle) (ev : Event) (out : Outcome) : Prop :=
  ∃ ps, out.ops = sends ps ∧ (∀ q, q ≠ SERVER_QUEUE_NUM → ∀ t ∈ sentOn q ps, t.handle ∉ clients) ∧
    ∀ c : Origin, c.handle ∈ clients → ((sentOn SERVER_QUEUE_NUM ps).filter (addressedTo c)).map some
      = if ev.awaitedBy c then [answerOf (ev, out)] else []

theorem sentOn_mem {q : Nat} {ps : List (Nat × OutTask)} {t : OutTask} (h : t ∈ sentOn q ps) : (q, t) ∈ ps := by
  obtain ⟨p, hp, rfl⟩ := List.mem_map.mp h
  obtain ⟨hp, hq⟩ := List.mem_filter.mp hp
  have : p.1 = q := by simpa using hq
  exact this ▸ hp

/-- Messages to nodes around one reply to the requester. -/
theorem published_of_reply {clients : Set Handle} {m : Master} (hm : NodesApart clients m) {ev : Event} {out : Outcome}
    {a b : List QueueOp} {t : OutTask} (hops : out.ops = a ++ sendOn SERVER_QUEUE_NUM t ++ b)
    (ha : Master.NodeSends m a) (hb : Master.NodeSends m b) (hh : t.handle = ev.origin.handle)
    (hq : t.receiverId = ev.origin.queue) (hrep : ev.request.hasReply = true ∨ ev.origin.handle ∉ clients) :
    Published clients ev out := by
  obtain ⟨ts, rfl, hts⟩ := ha
  obtain ⟨us, rfl, hus⟩ := hb
  have hapart : ∀ ts : List OutTask, (∀ t ∈ ts, ∃ r n, m.nodes r = some n ∧ t.handle = n.handle) →
      ∀ t ∈ ts, t.handle ∉ clients := by
    intro ts hts t ht
    obtain ⟨r, n, hn, he⟩ := hts t ht
    exact he ▸ hm r n hn
  refine ⟨ts.map (Prod.mk IONODE_COMMUNICATE_QUEUE_NUM) ++ [(SERVER_QUEUE_NUM, t)]
    ++ us.map (Prod.mk IONODE_COMMUNICATE_QUEUE_NUM), ?_, ?_, ?_⟩
  · rw [hops, sends_append, sends_append]
    rfl
  · intro q hne x hx
    rcases List.mem_append.mp (sentOn_mem hx) with hx' | hx'
    · rcases List.mem_append.mp hx' with hx' | hx'
      · obtain ⟨y, hy, heq⟩ := List.mem_map.mp hx'
        cases heq
        exact hapart ts hts x hy
      · exact absurd (congrArg Prod.fst (List.mem_singleton.mp hx')) hne
    · obtain ⟨y, hy, heq⟩ := List.mem_map.mp hx'
      cases heq
      exact hapart us hus x hy
  · intro c hc
    have hserver : sentOn SERVER_QUEUE_NUM (ts.map (Prod.mk IONODE_COMMUNICATE_QUEUE_NUM) ++ [(SERVER_QUEUE_NUM, t)]
        ++ us.map (Prod.mk IONODE_COMMUNICATE_QUEUE_NUM)) = [t] := by
      rw [sentOn_append, sentOn_append, sentOn_nodes, sentOn_nodes]
      rfl
    rw [hserver]
    have hto : addressedTo c t = (ev.origin == c) := by
      obtain ⟨h, q⟩ := c
      rw [Bool.eq_iff_iff]
      simp only [addressedTo, hh, hq, Bool.and_eq_true, beq_iff_eq]
      exact Iff.intro (fun hx => by rw [← hx.1, ← hx.2]) (fun hx => by rw [hx]; exact ⟨rfl, rfl⟩)
    by_cases hoc : ev.origin = c
    · have hr : ev.request.hasReply = true := hrep.resolve_right (fun hn => hn (hoc ▸ hc))
      have haw : ev.awaitedBy c = true := by simp [Master.Event.awaitedBy, hoc, hr]
      have hans : answerOf (ev, out) = some t := by
        have hfil : (ts.filter (addressedTo c)) = [] := filter_addressed_nil hc (hapart ts hts)
        have htasks : tasksOf out.ops = ts ++ ([t] ++ us) := by
          rw [hops, List.append_assoc, tasksOf_append, tasksOf_append, tasksOf_sends, tasksOf_sends]
          simp [tasksOf, sendOn, Function.comp_def]
        unfold answerOf
        simp only
        rw [htasks, hoc, List.find?_append]
        have hnone : ts.find? (addressedTo c) = none := by
          rw [List.find?_eq_none]
          exact fun x hx => List.filter_eq_nil_iff.mp hfil x hx
        rw [hnone]
        simp [hto, hoc]
      rw [if_pos haw, hans]
      simp [hto, hoc]
    · have haw : ev.awaitedBy c = false := by simp [Master.Event.awaitedBy, hoc]
      rw [if_neg (by simp [haw])]
      simp [hto, hoc]

/-- A request without a reply reaches no client queue. -/
theorem published_of_silent {clients : Set Handle} {m : Master} (hm : NodesApart clients m) {ev : Event} {out : Outcome}
    (hs : Master.NodeSends m out.ops) (hrep : ev.request.hasReply = false) : Published clients ev out := by
  obtain ⟨ts, hops, hts⟩ := hs
  refine ⟨_, hops, ?_, ?_⟩
  · intro q _ x hx
    obtain ⟨y, hy, heq⟩ := List.mem_map.mp (sentOn_mem hx)
    cases heq
    obtain ⟨r, n, hn, he⟩ := hts x hy
    exact he ▸ hm r n hn
  · intro c _
    have haw : ev.awaitedBy c = false := by simp [Master.Event.awaitedBy, hrep]
    rw [sentOn_nodes, if_neg (by simp [haw])]
    rfl

/-- **One handled request**, whatever it is. -/
theorem parseRequest_published {clients : Set Handle} {m : Master} (hm : NodesApart clients m) {ev : Event} {out : Outcome}
    (h : m.parseRequest ev.env ev.origin ev.request = some out) (honce : m.RepliesOnce ev.request)
    (hreg : ∀ totalMemory uri, ev.request = .register totalMemory uri → ev.origin.handle ∉ clients) :
    Published clients ev out ∧ NodesApart clients out.master := by
  cases hrep : ev.request.hasReply with
  | true =>
      have hr := Master.parseRequest_replies h hrep honce
      obtain ⟨a, t, b, hops, ha, hb, hh, hq⟩ := hr.shape
      exact ⟨published_of_reply hm hops ha hb hh hq (Or.inl hrep), hm.of_handles hr.handles⟩
  | false =>
      by_cases hreg' : ∃ totalMemory uri, ev.request = .register totalMemory uri
      · obtain ⟨totalMemory, uri, heq⟩ := hreg'
        have hnc := hreg totalMemory uri heq
        rw [heq] at h
        cases h
        obtain ⟨t, hops, hh, hq, hnodes⟩ := Master.parseRegister_replies m ev.origin totalMemory uri
        refine ⟨published_of_reply hm (a := []) (b := []) (t := t) ?_ (Master.NodeSends.nil m) (Master.NodeSends.nil m)
          hh hq (Or.inr hnc), ?_⟩
        · rw [hops]; rfl
        · intro r n' hn'
          rcases hnodes r n' hn' with he | ⟨n, hn, he⟩
          · exact he ▸ hnc
          · exact he ▸ hm r n hn
      · have heff := Master.parseRequest_silent h hrep (fun x y hxy => hreg' ⟨x, y, hxy⟩)
        exact ⟨published_of_silent hm heff.sends hrep, hm.of_handles heff.handles⟩

/-- The first half of the property, for one request. -/
theorem parseRequest_oneReply {clients : Set Handle} {m : Master} (hm : NodesApart clients m) {ev : Event} {out : Outcome}
    (hc : ev.origin.handle ∈ clients) (hrep : ev.request.hasReply = true) (honce : m.RepliesOnce ev.request)
    (h : m.parseRequest ev.env ev.origin ev.request = some out) : OneReply ev.origin out.ops := by
  have hr := Master.parseRequest_replies h hrep honce
  obtain ⟨a, t, b, hops, ⟨ts, rfl, hts⟩, ⟨us, rfl, hus⟩, hh, hq⟩ := hr.shape
  have hsends : out.ops = sends (ts.map (Prod.mk IONODE_COMMUNICATE_QUEUE_NUM) ++ [(SERVER_QUEUE_NUM, t)]
      ++ us.map (Prod.mk IONODE_COMMUNICATE_QUEUE_NUM)) := by
    rw [hops, sends_append, sends_append]
    rfl
  have hnil : ∀ ts : List OutTask, (∀ t ∈ ts, ∃ r n, m.nodes r = some n ∧ t.handle = n.handle) →
      ts.filter (addressedTo ev.origin) = [] := by
    intro ts hts
    refine filter_addressed_nil hc ?_
    intro t ht
    obtain ⟨r, n, hn, he⟩ := hts t ht
    exact he ▸ hm r n hn
  refine ⟨?_, ?_, ?_⟩
  · intro q; rw [hsends]; exact enqueuesOn_sends q _
  · intro q pre hpre; rw [hsends] at hpre; exact sends_prefix_le q _ pre hpre
  · rw [hsends, tasksOf_sends]
    simp only [List.map_append, List.map_map, Function.comp_def, List.map_id']
    rw [List.filter_append, List.filter_append, hnil ts hts, hnil us hus]
    simp [addressedTo, hh, hq]

/-! ## The invariant -/

/-- What every step of the system keeps. -/
structure SystemInv (clients : Set Handle) (s : System) : Prop where
  apart : NodesApart clients s.master
  issued : s.issued = s.handled.map Prod.fst ++ s.inbox
  rings : ∃ waiting : Nat → List OutTask, (∀ q, (s.queues q).Holds (waiting q) []) ∧
    (∀ q, q ≠ SERVER_QUEUE_NUM → ∀ t ∈ waiting q, t.handle ∉ clients) ∧
    ∀ c : Origin, c.handle ∈ clients → ((s.delivered ++ waiting SERVER_QUEUE_NUM).filter (addressedTo c)).map some
      = (s.handled.filter (fun h => h.1.awaitedBy c)).map answerOf

namespace SystemInv

variable {clients : Set Handle} {s s' : System}

theorem initial {m : Master} (hm : ∀ r, m.nodes r = none) : SystemInv clients (System.initial m) := by
  refine ⟨?_, rfl, fun _ => [], fun _ => TaskQueue.holds_init, ?_, fun _ _ => rfl⟩
  · intro r n hn
    rw [show (System.initial m).master.nodes r = none from hm r] at hn
    cases hn
  · intro q _ t ht
    cases ht

theorem inOrder (h : SystemInv clients s) : InOrder clients s := by
  obtain ⟨waiting, hholds, _, horder⟩ := h.rings
  refine ⟨?_, ⟨waiting SERVER_QUEUE_NUM, hholds _, horder⟩, h.issued⟩
  intro ev out hc hrep honce hout
  exact parseRequest_oneReply h.apart hc hrep honce hout

theorem arrive (h : SystemInv clients s) (ev : Event) :
    SystemInv clients (s.arrive ev) := by
  refine ⟨h.apart, ?_, h.rings⟩
  show s.issued ++ [ev] = s.handled.map Prod.fst ++ (s.inbox ++ [ev])
  rw [h.issued, List.append_assoc]

/-- Handling a request appends its answer, on the reply ring and in the history alike. -/
theorem handle (h : SystemInv clients s) (hg : ReplyGuard clients s .handle) (hs : s.handle = some s') :
    SystemInv clients s' := by
  unfold System.handle at hs
  split at hs
  · cases hs; exact h
  · rename_i ev rest hin
    split at hs
    · cases hs
    · rename_i out hout
      cases hs
      obtain ⟨honce, hreg⟩ := hg ev rest hin
      obtain ⟨⟨ps, hops, hother, hserver⟩, hapart⟩ := parseRequest_published h.apart hout honce hreg
      obtain ⟨waiting, hholds, hnodes, horder⟩ := h.rings
      refine ⟨hapart, ?_, fun q => waiting q ++ sentOn q ps, ?_, ?_, ?_⟩
      · show s.issued = (s.handled ++ [(ev, out)]).map Prod.fst ++ rest
        rw [h.issued, hin]
        simp
      · intro q
        show (execOps s.queues out.ops q).Holds _ _
        rw [hops]
        exact execOps_sends ps hholds q
      · intro q hq t ht
        rcases List.mem_append.mp ht with ht | ht
        · exact hnodes q hq t ht
        · exact hother q hq t ht
      · intro c hc
        show ((s.delivered ++ (waiting SERVER_QUEUE_NUM ++ sentOn SERVER_QUEUE_NUM ps)).filter (addressedTo c)).map some
          = ((s.handled ++ [(ev, out)]).filter (fun h => h.1.awaitedBy c)).map answerOf
        rw [← List.append_assoc, List.filter_append, List.map_append, horder c hc, hserver c hc, List.filter_append,
          List.map_append]
        by_cases haw : ev.awaitedBy c = true
        · simp [haw]
        · simp [haw]

/-- A transmission moves the oldest task of a ring to what was delivered. -/
theorem transmit (h : SystemInv clients s) (q : Nat) : ∃ s', s.transmit q = some s' ∧ SystemInv clients s' ∧
    s'.master = s.master ∧ s'.inbox = s.inbox := by
  obtain ⟨waiting, hholds, hnodes, horder⟩ := h.rings
  cases hw : waiting q with
  | nil =>
      have hnone := TaskQueue.Holds.getTask_nil (hw ▸ hholds q)
      exact ⟨s, by simp only [System.transmit, hnone], h, rfl, rfl⟩
  | cons t rest =>
      obtain ⟨ring, hget, hring⟩ := TaskQueue.Holds.getTask_cons (hw ▸ hholds q)
      refine ⟨{ s with queues := Function.update s.queues q ring, delivered := s.delivered ++ [t] },
        by simp only [System.transmit, hget], ?_, rfl, rfl⟩
      refine ⟨h.apart, h.issued, Function.update waiting q rest, ?_, ?_, ?_⟩
      · intro p
        show (Function.update s.queues q ring p).Holds _ _
        by_cases hp : p = q
        · rw [hp]; simpa using hring
        · rw [Function.update_of_ne hp, Function.update_of_ne hp]
          exact hholds p
      · intro p hp x hx
        by_cases hpq : p = q
        · rw [hpq] at hx hp
          have hx' : x ∈ rest := by simpa using hx
          exact hnodes q hp x (by rw [hw]; exact List.mem_cons_of_mem t hx')
        · rw [Function.update_of_ne hpq] at hx
          exact hnodes p hp x hx
      · intro c hc
        rw [← horder c hc]
        show ((s.delivered ++ [t] ++ Function.update waiting q rest SERVER_QUEUE_NUM).filter (addressedTo c)).map some = _
        by_cases hq : q = SERVER_QUEUE_NUM
        · rw [← hq, Function.update_self, hw, List.append_assoc]
          rfl
        · rw [Function.update_of_ne (Ne.symm hq)]
          have ht : t.handle ∉ clients := hnodes q hq t (by rw [hw]; exact List.mem_cons_self)
          have hnil : [t].filter (addressedTo c) = [] := filter_addressed_nil hc (by
            intro x hx
            rw [List.mem_singleton.mp hx]
            exact ht)
          rw [List.filter_append, List.filter_append, hnil, List.append_nil, ← List.filter_append]

/-- **One step.** -/
theorem step (h : SystemInv clients s) {a : Action} (hg : ReplyGuard clients s a) (hs : s.step a = some s') :
    SystemInv clients s' := by
  cases a with
  | arrive ev =>
      cases hs
      exact h.arrive ev
  | handle => exact h.handle hg hs
  | transmit q =>
      obtain ⟨s'', hs'', hinv, _⟩ := h.transmit q
      have heq : s.transmit q = some s' := hs
      rw [hs''] at heq
      cases heq
      exact hinv

end SystemInv

/-! ## Requests the Master survives

A handler that dereferences what is not there has no outcome, and a run through it no result. The
condition below is the one under which each handler returns while no IOnode fails. -/

namespace Master

/-- The request meets no undefined behaviour in a sound table. -/
def Survives (m : Master) (o : Origin) : Request → Prop
  | .openFile path _ _ => OpensSafely m path
  | .readFile fileNo startPoint size => ∀ r f, m.bufferedFiles.find? fileNo = some r → m.files r = some f →
      selectNodeBlockSet f.blockList startPoint size ≠ none
  | .writeFile fileNo _ startPoint size => ∀ r f, m.bufferedFiles.find? fileNo = some r → m.files r = some f →
      selectNodeBlockSet (allocateNewBlocksForWriting f.blockList startPoint size) startPoint size ≠ none
  | .readDir path => path ≠ []
  | .rename oldPath newPath newMaster =>
      ¬ (newMaster = MYSELF ∧ oldPath = newPath ∧ m.fileStatPool.find? oldPath ≠ none)
  | .truncate path _ =>
      ∀ s, m.fileStatPool.find? path = some s → s.isExternal = true ∨ s.openedFileInfo ≠ none
  | .nodeFailure => m.getNodeInfoFromHandle o.handle = none
  | .IOnodeFailure nodeId => m.registeredIOnodes.find? nodeId = none
  | _ => True

theorem OpenInv.of_pool {m : Master} (h : OpenInv m) {p : Str} {s : FileStat} (hs : s.openedFileInfo = m.openedAt p) :
    OpenInv (m.setStat p s) :=
  ⟨h.table.setStat_same hs, ⟨h.nodes.live, h.nodes.idTaken, h.nodes.cursor, h.nodes.fresh⟩⟩

/-- The objects behind a known file number. -/
theorem OpenInv.objects {m : Master} (h : OpenInv m) {fileNo : Int} {r : FileRef}
    (hb : m.bufferedFiles.find? fileNo = some r) : ∃ f st n, FileObjects m fileNo r f st ∧
      st.openedFileInfo = m.openedAt f.fileStatus ∧ f.primaryReplicaNode.bind m.nodes = some n := by
  obtain ⟨f, hf⟩ := h.table.entry fileNo r hb
  obtain ⟨q, hq, hreg⟩ := hf.primary
  obtain ⟨n, hn⟩ := h.nodes.exists_node hreg
  have hop := hf.opened
  cases hst : m.fileStatPool.find? f.fileStatus with
  | none => rw [openedAt_of_none hst] at hop; cases hop
  | some st =>
      refine ⟨f, st, n, ⟨hb, hf.object, hst⟩, (openedAt_of_find hst).symm, ?_⟩
      rw [hq]
      exact hn

theorem OpenInv.parseRequest_survives {m : Master} (h : OpenInv m) (e : Env) (o : Origin) {req : Request}
    (hs : m.Survives o req) : ∃ out, m.parseRequest e o req = some out ∧ OpenInv out.master := by
  have htable : TableGuard m ⟨e, o, req⟩ → ∃ out, m.parseRequest e o req = some out ∧ OpenInv out.master := by
    intro hg
    obtain ⟨m', hstep, hinv⟩ := h.step ⟨e, o, req⟩ hg
    obtain ⟨out, hout, rfl⟩ := Option.map_eq_some_iff.mp hstep
    exact ⟨out, hout, hinv⟩
  cases req with
  | register totalMemory uri => exact htable trivial
  | newClient uri => exact ⟨_, rfl, h⟩
  | openFile path flag mode => exact htable hs
  | readFile fileNo startPoint size =>
      cases hb : m.bufferedFiles.find? fileNo with
      | none => exact ⟨_, by simp only [parseRequest, parseReadFile, hb]; rfl, h⟩
      | some r =>
          obtain ⟨f, st, n, hobj, _, hn⟩ := h.objects hb
          obtain ⟨bl, hbl⟩ := Option.ne_none_iff_exists'.mp (hs r f hb hobj.object)
          obtain ⟨msg, hmsg⟩ := sendBlockInfo_progress hn st.status.stSize bl
          refine ⟨m.reply o msg SUCCESS, ?_, h⟩
          simp only [parseRequest, parseReadFile, hb, hobj.object, hbl, hobj.entry, hmsg]
          rfl
  | writeFile fileNo attr startPoint size =>
      cases hb : m.bufferedFiles.find? fileNo with
      | none => exact ⟨_, by simp only [parseRequest, parseWriteFile, hb]; rfl, h⟩
      | some r =>
          obtain ⟨f, st, n, hobj, hop, hn⟩ := h.objects hb
          obtain ⟨bl, hbl⟩ := Option.ne_none_iff_exists'.mp (hs r f hb hobj.object)
          obtain ⟨msg, _, hout⟩ := parseWriteFile_progress hobj hn hbl o attr
          refine ⟨_, hout, ?_⟩
          have h1 := h.of_pool (s := st.setStatus (receiveAttr st.status attr)) hop
          exact ⟨h1.table.setFile_same hobj.object rfl rfl rfl rfl,
            ⟨h.nodes.live, h.nodes.idTaken, h.nodes.cursor, h.nodes.fresh⟩⟩
  | flushFile fileNo =>
      cases hb : m.bufferedFiles.find? fileNo with
      | none => exact ⟨_, by simp only [parseRequest, parseFlushFile, hb]; rfl, h⟩
      | some r =>
          obtain ⟨f, st, n, hobj, _, hn⟩ := h.objects hb
          exact ⟨_, by simp only [parseRequest, parseFlushFile, hb, primaryOf, hobj.object, hn]; rfl, h⟩
  | closeFile fileNo =>
      cases hb : m.bufferedFiles.find? fileNo with
      | none => exact ⟨_, by simp only [parseRequest, parseCloseFile, hb]; rfl, h⟩
      | some r =>
          obtain ⟨f, st, n, hobj, _, hn⟩ := h.objects hb
          exact ⟨_, by simp only [parseRequest, parseCloseFile, hb, primaryOf, hobj.object, hn]; rfl, h⟩
  | getAttr path =>
      refine ⟨_, rfl, ?_⟩
      unfold parseAttr
      split
      · exact h
      · split
        · exact h
        · exact h
  | updateMeta fileNo attr =>
      cases hb : m.bufferedFiles.find? fileNo with
      | none => exact ⟨_, by simp only [parseRequest, parseMetaUpdate, hb]; rfl, h⟩
      | some r =>
          obtain ⟨f, st, n, hobj, hop, _⟩ := h.objects hb
          refine ⟨_, by simp only [parseRequest, parseMetaUpdate, hb, hobj.object, hobj.entry]; rfl, ?_⟩
          exact h.of_pool hop
  | readDir path =>
      obtain ⟨last, hlast⟩ : ∃ last, path.getLast? = some last := by
        cases hl : path.getLast? with
        | none => exact absurd (List.getLast?_eq_none_iff.mp hl) hs
        | some last => exact ⟨last, rfl⟩
      exact ⟨_, by simp only [parseRequest, parseReaddir, getFileStatFromDir, hlast]; rfl, h⟩
  | rmDir path => exact htable trivial
  | unlink path => exact htable trivial
  | access path mode =>
      refine ⟨_, rfl, ?_⟩
      unfold parseAccess
      split
      · exact h
      · split
        · exact h
        · exact h
  | rename oldPath newPath newMaster => exact htable hs
  | renameMigrating path oldMaster =>
      refine ⟨_, rfl, h.of_pool ?_⟩
      show ((m.fileStatPool.find? path).getD (defaultStat path)).openedFileInfo = m.openedAt path
      unfold openedAt
      cases m.fileStatPool.find? path with
      | none => rfl
      | some s => rfl
  | mkdir path mode => exact htable trivial
  | truncate path size => exact htable hs
  | closeClient => exact ⟨_, rfl, h⟩
  | nodeFailure =>
      have hnone : m.getNodeInfoFromHandle o.handle = none := hs
      exact ⟨_, by simp only [parseRequest, parseNodeFailure, hnone]; rfl, h⟩
  | IOnodeFailure nodeId =>
      have hnone : m.registeredIOnodes.find? nodeId = none := hs
      exact ⟨_, by simp only [parseRequest, parseIOnodeFailure, hnone]; rfl, h⟩

end Master

/-- Each request is handled in a state in which the Master survives it. -/
def SurvivalGuard (s : System) : Action → Prop
  | .handle => ∀ ev rest, s.inbox = ev :: rest → s.master.Survives ev.origin ev.request
  | _ => True

theorem SystemInv.step_survives {clients : Set Handle} {s : System} (h : SystemInv clients s)
    (hm : s.master.OpenInv) {a : Action} (hg : ReplyGuard clients s a) (hg' : SurvivalGuard s a) :
    ∃ s', s.step a = some s' ∧ SystemInv clients s' ∧ s'.master.OpenInv := by
  cases a with
  | arrive ev => exact ⟨_, rfl, h.arrive ev, hm⟩
  | handle =>
      cases hin : s.inbox with
      | nil => exact ⟨s, by simp only [System.step, System.handle, hin], h, hm⟩
      | cons ev rest =>
          obtain ⟨out, hout, hinv⟩ := hm.parseRequest_survives ev.env ev.origin (hg' ev rest hin)
          have hs : s.step .handle = some { s with
              master := out.master
              inbox := rest
              queues := execOps s.queues out.ops
              handled := s.handled ++ [(ev, out)] } := by
            simp only [System.step, System.handle, hin, hout]
          exact ⟨_, hs, h.step hg hs, hinv⟩
  | transmit q =>
      obtain ⟨s', hs', hinv, hmaster, _⟩ := h.transmit q
      exact ⟨s', hs', hinv, by rw [hmaster]; exact hm⟩

/-! ## Runs -/

/-- **Replies correspond to requests.** Over any interleaving of arrivals, handlings and transmissions
    in which no known file is flushed, every client request gets one response, and what a client queue
    receives is the list of the answers to what was issued on it, in order. If besides each request is
    one the Master survives, the run has a result. -/
theorem replies_in_order (clients : Set Handle) {pool : OrdMap Str FileStat}
    (hpool : ∀ p s, pool.find? p = some s → s.openedFileInfo = none) (masterNumber : Int) (mountPoint : Str)
    (numOfReplica : Nat) (acts : List Action)
    (hg : Run.Guarded System.step (ReplyGuard clients)
      (System.initial (Master.initial pool masterNumber mountPoint numOfReplica)) acts) :
    (∀ s, Run.run System.step (System.initial (Master.initial pool masterNumber mountPoint numOfReplica)) acts = some s →
      InOrder clients s) ∧
    (Run.Guarded System.step SurvivalGuard
        (System.initial (Master.initial pool masterNumber mountPoint numOfReplica)) acts →
      ∃ s, Run.run System.step (System.initial (Master.initial pool masterNumber mountPoint numOfReplica)) acts = some s) := by
  have hinit : SystemInv clients (System.initial (Master.initial pool masterNumber mountPoint numOfReplica)) :=
    SystemInv.initial (fun _ => rfl)
  refine ⟨?_, ?_⟩
  · intro s hr
    exact (Run.run_invariant (fun s a s' h hg hs => SystemInv.step h hg hs) hinit hg hr).inOrder
  · intro hg'
    have hstep : ∀ s a, (SystemInv clients s ∧ s.master.OpenInv) → (ReplyGuard clients s a ∧ SurvivalGuard s a) →
        ∃ s', System.step s a = some s' ∧ (SystemInv clients s' ∧ s'.master.OpenInv) := by
      intro s a h hga
      exact h.1.step_survives h.2 hga.1 hga.2
    obtain ⟨s, hr, _⟩ := Run.run_progress hstep
      ⟨hinit, Master.initial_openInv hpool masterNumber mountPoint numOfReplica⟩ (hg.and hg')
    exact ⟨s, hr⟩

/-! Two clients, on handles 3 and 4, and an IOnode on handle 7: the run below registers the node, lets the
first client open `/a` and the second ask for its attributes twice, transmitting each reply. -/

def clientA : Origin := ⟨3, 0⟩

def clientB : Origin := ⟨4, 0⟩

/-- A request arrives, is handled, and its reply is transmitted. -/
def served (o : Origin) (request : Request) : List Action :=
  [.arrive ⟨⟨0, 0, 0⟩, o, request⟩, .handle, .transmit SERVER_QUEUE_NUM]

def twoClients : List Action :=
  served ⟨7, 0⟩ (.register 100 Master.pathA) ++ served clientA (.openFile Master.pathA 0 0) ++
    served clientB (.getAttr Master.pathA) ++ served clientB (.getAttr Master.pathA)

/-- A condition on handlings alone, checked where a served request is handled. -/
theorem guarded_served {guard : System → Action → Prop} (harrive : ∀ s ev, guard s (.arrive ev))
    (htransmit : ∀ s q, guard s (.transmit q)) {s s' : System} {o : Origin} {request : Request} {acts : List Action}
    (hhandle : guard (s.arrive ⟨⟨0, 0, 0⟩, o, request⟩) .handle)
    (hrun : Run.run System.step s (served o request) = some s') (hrest : Run.Guarded System.step guard s' acts) :
    Run.Guarded System.step guard s (served o request ++ acts) := by
  refine ⟨harrive _ _, ?_⟩
  intro s1 h1
  cases h1
  refine ⟨hhandle, ?_⟩
  intro s2 h2
  refine ⟨htransmit _ _, ?_⟩
  intro s3 h3
  have heq : Run.run System.step s (served o request) = some s3 := by
    simp only [served, Run.run, System.step] at h2 h3 ⊢
    rw [h2]
    simp only [h3]
  rw [hrun] at heq
  cases heq
  exact hrest

/-- Registering a node, opening `/a` and flushing a number that names no file meets both conditions. -/
theorem replies_in_order_open_flush :
    (∀ s, Run.run System.step (System.initial (Master.initial OrdMap.empty 0 [] 0))
        (served ⟨7, 0⟩ (.register 100 Master.pathA) ++ (served clientA (.openFile Master.pathA 0 0)
          ++ (served clientA (.flushFile 1) ++ []))) = some s → InOrder {3, 4} s) ∧
    ∃ s, Run.run System.step (System.initial (Master.initial OrdMap.empty 0 [] 0))
        (served ⟨7, 0⟩ (.register 100 Master.pathA) ++ (served clientA (.openFile Master.pathA 0 0)
          ++ (served clientA (.flushFile 1) ++ []))) = some s := by
  have hreply : ∀ (s : System) (o : Origin) (request : Request), s.inbox = [] → s.master.RepliesOnce request →
      (∀ totalMemory uri, request = .register totalMemory uri → o.handle ∉ ({3, 4} : Set Handle)) →
      ReplyGuard {3, 4} (s.arrive ⟨⟨0, 0, 0⟩, o, request⟩) .handle := by
    intro s o request hin honce hreg ev rest hev
    simp only [System.arrive, hin] at hev
    cases hev
    exact ⟨honce, hreg⟩
  have hsurvive : ∀ (s : System) (o : Origin) (request : Request), s.inbox = [] → s.master.Survives o request →
      SurvivalGuard (s.arrive ⟨⟨0, 0, 0⟩, o, request⟩) .handle := by
    intro s o request hin hs ev rest hev
    simp only [System.arrive, hin] at hev
    cases hev
    exact hs
  have hpool : ∀ p s, (OrdMap.empty : OrdMap Str FileStat).find? p = some s → s.openedFileInfo = none := by
    intro p s hs
    simp at hs
  have hg : Run.Guarded System.step (ReplyGuard {3, 4}) (System.initial (Master.initial OrdMap.empty 0 [] 0))
      (served ⟨7, 0⟩ (.register 100 Master.pathA) ++ (served clientA (.openFile Master.pathA 0 0)
        ++ (served clientA (.flushFile 1) ++ []))) := by
    refine guarded_served (fun _ _ => trivial) (fun _ _ => trivial) (hreply _ _ _ rfl trivial ?_) rfl ?_
    · intro _ _ _ hc
      rcases hc with hc | hc
      · cases hc
      · cases hc
    · refine guarded_served (fun _ _ => trivial) (fun _ _ => trivial) (hreply _ _ _ rfl trivial ?_) rfl ?_
      · intro _ _ hc
        cases hc
      · refine guarded_served (fun _ _ => trivial) (fun _ _ => trivial) (hreply _ _ _ rfl rfl ?_) rfl trivial
        intro _ _ hc
        cases hc
  have h := replies_in_order {3, 4} hpool 0 [] 0 _ hg
  refine ⟨h.1, h.2 ?_⟩
  refine guarded_served (fun _ _ => trivial) (fun _ _ => trivial) (hsurvive _ _ _ rfl trivial) rfl ?_
  refine guarded_served (fun _ _ => trivial) (fun _ _ => trivial) (hsurvive _ _ _ rfl (Or.inr (by decide))) rfl ?_
  exact guarded_served (fun _ _ => trivial) (fun _ _ => trivial) (hsurvive _ _ _ rfl trivial) rfl trivial

/-- **A flush of a known file sends a stale task.** The handler publishes twice what it allocated once,
    and the second client receives three messages for its two requests. -/
theorem replies_out_of_order_by_flush :
    ∃ s out s', Run.run System.step (System.initial (Master.initial OrdMap.empty 0 [] 0)) twoClients = some s ∧
      s.master.parseRequest ⟨0, 0, 0⟩ clientA (.flushFile 0) = some out ∧ ¬ OneReply clientA out.ops ∧
      Run.run System.step s (served clientA (.flushFile 0) ++ [.transmit SERVER_QUEUE_NUM]) = some s' ∧
      (s'.delivered.filter (addressedTo clientB)).length = 3 ∧
      (s'.issued.filter (fun ev => ev.awaitedBy clientB)).length = 2 := by
  refine ⟨_, _, _, rfl, rfl, ?_, rfl, ?_, ?_⟩
  · intro h
    have hb := h.balanced SERVER_QUEUE_NUM
    revert hb
    decide
  · decide
  · decide

end HuronFS
