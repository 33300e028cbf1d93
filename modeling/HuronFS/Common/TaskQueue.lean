import Mathlib.Data.List.Chain
import Mathlib.Logic.Function.Basic
import Mathlib.Tactic.Common

/-!
# `Common.TaskQueue` — the task ring (`task_parallel_queue`)

The queue is a ring of nodes linked by `next`. Going round from `queue_tail` one meets the tasks that are
published and not yet taken, the ones that are allocated and not yet published (from `queue_head` on),
the node the next allocation returns (`queue_tmp_head`), and nodes that can be reused. `Holds` says so
with two lists, and the operations act on the lists as on a FIFO queue; `enqueue` does so only while
something is allocated and unpublished, and otherwise moves `queue_head` past `queue_tmp_head`.
-/

namespace HuronFS

/-- A `task_parallel_queue`; nodes are addresses, `fresh` the next one `new` would return, and a node
    that was never filled holds no task. -/
structure TaskQueue (α : Type*) where
  next : Nat → Nat
  task : Nat → Option α
  queueTail : Nat
  queueHead : Nat
  queueTmpHead : Nat
  fresh : Nat

namespace TaskQueue

variable {α : Type*}

/-- The constructor: two nodes. -/
def init : TaskQueue α :=
  { next := fun n => if n = 0 then 1 else 0, task := fun _ => none,
    queueTail := 0, queueHead := 1, queueTmpHead := 1, fresh := 2 }

/-- `allocate_tmp_node`, the node being filled with `t`. A full ring grows by one node. -/
def allocate (q : TaskQueue α) (t : α) : TaskQueue α :=
  let ret := q.queueTmpHead
  let filled := { q with task := Function.update q.task ret (some t) }
  if q.queueTail = q.next ret then
    { filled with
      next := Function.update (Function.update q.next q.fresh (q.next ret)) ret q.fresh
      queueTmpHead := q.fresh
      fresh := q.fresh + 1 }
  else { filled with queueTmpHead := q.next ret }

/-- `allocate_tmp_node` alone: the node it returns, which is reset. -/
def allocateTmpNode (q : TaskQueue α) : Nat × TaskQueue α :=
  let ret := q.queueTmpHead
  let reset := { q with task := Function.update q.task ret none }
  if q.queueTail = q.next ret then
    (ret, { reset with
      next := Function.update (Function.update q.next q.fresh (q.next ret)) ret q.fresh
      queueTmpHead := q.fresh
      fresh := q.fresh + 1 })
  else (ret, { reset with queueTmpHead := q.next ret })

/-- A producer writes its message into a node. -/
def fill (q : TaskQueue α) (n : Nat) (t : α) : TaskQueue α := { q with task := Function.update q.task n (some t) }

/-- `putback_tmp_node`. -/
def putbackTmpNode (q : TaskQueue α) : TaskQueue α := { q with queueTmpHead := q.queueHead }

theorem allocate_eq (q : TaskQueue α) (t : α) : q.allocate t = q.allocateTmpNode.2.fill q.allocateTmpNode.1 t := by
  unfold allocate allocateTmpNode fill
  by_cases hfull : q.queueTail = q.next q.queueTmpHead
  · simp only [if_pos hfull, Function.update_idem]
  · simp only [if_neg hfull, Function.update_idem]

/-- `task_enqueue`: whatever node stands at `queue_head` is published. -/
def enqueue (q : TaskQueue α) : TaskQueue α := { q with queueHead := q.next q.queueHead }

/-- `is_empty`. -/
def isEmpty (q : TaskQueue α) : Bool := q.next q.queueTail == q.queueHead

/-- `get_task`, when there is one to get. -/
def getTask (q : TaskQueue α) : Option (Option α × TaskQueue α) :=
  if q.isEmpty then none
  else some (q.task (q.next q.queueTail), { q with queueTail := q.next q.queueTail })

/-! ## The ring as two lists -/

/-- The nodes of the ring in order, from the one after `queue_tail`: published, allocated, and free. -/
structure Layout (q : TaskQueue α) (pub pend free : List Nat) : Prop where
  nodup : (q.queueTail :: (pub ++ pend ++ q.queueTmpHead :: free)).Nodup
  bound : ∀ n ∈ q.queueTail :: (pub ++ pend ++ q.queueTmpHead :: free), n < q.fresh
  chain : List.IsChain (fun a b => q.next a = b)
    (q.queueTail :: (pub ++ pend ++ q.queueTmpHead :: free) ++ [q.queueTail])
  head : (pend ++ [q.queueTmpHead]).head? = some q.queueHead

/-- **The queue holds** `published` for the consumer and `pending` allocated but not published. -/
def Holds (q : TaskQueue α) (published pending : List α) : Prop :=
  ∃ pub pend free, Layout q pub pend free ∧
    pub.map q.task = published.map some ∧ pend.map q.task = pending.map some

theorem holds_init : Holds (init : TaskQueue α) [] [] := by
  refine ⟨[], [], [], ⟨by simp [init], by simp [init], by simp [init], rfl⟩, rfl, rfl⟩

namespace Layout

variable {q : TaskQueue α} {pub pend free : List Nat}

/-- The ring is full exactly when no node can be reused. -/
theorem next_tmpHead (h : Layout q pub pend free) :
    q.next q.queueTmpHead = (free ++ [q.queueTail]).head (by simp) := by
  have hchain := h.chain
  rw [List.cons_append, List.append_assoc, List.cons_append, List.isChain_cons_split] at hchain
  have htail := hchain.2
  cases free with
  | nil => simpa using htail
  | cons f free => exact (List.isChain_cons_cons.mp htail).1

theorem tail_ne_of_free {f : Nat} (h : Layout q pub pend (f :: free)) : q.queueTail ≠ f := by
  have hnd := (List.nodup_cons.mp h.nodup).1
  intro hc
  exact hnd (by simp [hc])

theorem tmpHead_not_mem (h : Layout q pub pend free) : q.queueTmpHead ∉ pub ∧ q.queueTmpHead ∉ pend := by
  have hnd := (List.nodup_cons.mp h.nodup).2
  have hdisj := (List.nodup_append.mp hnd).2.2
  refine ⟨?_, ?_⟩
  · intro hc
    exact hdisj _ (List.mem_append.mpr (Or.inl hc)) _ (by simp) rfl
  · intro hc
    exact hdisj _ (List.mem_append.mpr (Or.inr hc)) _ (by simp) rfl

end Layout

theorem map_update_of_not_mem {f : Nat → Option α} {l : List Nat} {n : Nat} (h : n ∉ l) (v : Option α) :
    l.map (Function.update f n v) = l.map f := by
  refine List.map_congr_left ?_
  intro a ha
  have hne : a ≠ n := fun hc => h (hc ▸ ha)
  exact Function.update_of_ne hne v f

/-- A chain of links, the last node apart, survives a change of links elsewhere. -/
theorem isChain_of_agree {f g : Nat → Nat} {l : List Nat} {c : Nat}
    (h : List.IsChain (fun a b => f a = b) (l ++ [c])) (hfg : ∀ a ∈ l, g a = f a) :
    List.IsChain (fun a b => g a = b) (l ++ [c]) := by
  rw [List.isChain_append] at h ⊢
  obtain ⟨h1, h2, h3⟩ := h
  refine ⟨?_, List.IsChain.singleton _, ?_⟩
  · refine h1.imp_of_mem_imp ?_
    intro a b ha _ hab
    rw [hfg a ha]; exact hab
  · intro x hx y hy
    rw [hfg x (List.mem_of_getLast? hx)]
    exact h3 x hx y hy

namespace Layout

variable {q : TaskQueue α} {pub pend free : List Nat}

/-- The layout is about the links, not about what the nodes hold. -/
theorem of_task (h : Layout q pub pend free) (f : Nat → Option α) : Layout { q with task := f } pub pend free :=
  ⟨h.nodup, h.bound, h.chain, h.head⟩

theorem of_allocateTmpNode_full (h : Layout q pub pend []) :
    Layout q.allocateTmpNode.2 pub (pend ++ [q.queueTmpHead]) [] := by
  obtain ⟨hnpub, hnpend⟩ := h.tmpHead_not_mem
  have hfull : q.queueTail = q.next q.queueTmpHead := h.next_tmpHead.symm
  have hq : q.allocateTmpNode.2 = { q with
      task := Function.update q.task q.queueTmpHead none
      next := Function.update (Function.update q.next q.fresh (q.next q.queueTmpHead)) q.queueTmpHead q.fresh
      queueTmpHead := q.fresh
      fresh := q.fresh + 1 } := by
    simp only [TaskQueue.allocateTmpNode, if_pos hfull]
  rw [hq]
  have hold : ∀ n ∈ q.queueTail :: (pub ++ pend ++ [q.queueTmpHead]), n ≠ q.fresh :=
    fun n hn => Nat.ne_of_lt (h.bound n hn)
  refine ⟨?_, ?_, ?_, ?_⟩
  · show (q.queueTail :: (pub ++ (pend ++ [q.queueTmpHead]) ++ [q.fresh])).Nodup
    rw [← List.append_assoc, ← List.cons_append]
    refine List.nodup_append.mpr ⟨h.nodup, by simp, ?_⟩
    intro a ha b hb
    rw [List.mem_singleton] at hb
    rw [hb]
    exact hold a ha
  · intro n hn
    show n < q.fresh + 1
    have hn' : n ∈ (q.queueTail :: (pub ++ pend ++ [q.queueTmpHead])) ++ [q.fresh] := by
      simpa [List.append_assoc] using hn
    rcases List.mem_append.mp hn' with hn' | hn'
    · exact Nat.lt_succ_of_lt (h.bound n hn')
    · rw [List.mem_singleton] at hn'
      rw [hn']
      exact Nat.lt_succ_self _
  · have hchain := h.chain
    rw [List.cons_append, List.append_assoc, List.cons_append, List.isChain_cons_split] at hchain
    show List.IsChain _ (q.queueTail :: (pub ++ (pend ++ [q.queueTmpHead]) ++ [q.fresh]) ++ [q.queueTail])
    have hlist : q.queueTail :: (pub ++ (pend ++ [q.queueTmpHead]) ++ [q.fresh]) ++ [q.queueTail]
        = q.queueTail :: (pub ++ pend ++ q.queueTmpHead :: q.fresh :: [q.queueTail]) := by simp
    rw [hlist, List.isChain_cons_append_cons_cons]
    refine ⟨?_, ?_, ?_⟩
    · -- up to `queue_tmp_head` the links are the old ones
      refine isChain_of_agree (l := q.queueTail :: (pub ++ pend)) hchain.1 ?_
      intro a ha
      have hmem : a ∈ q.queueTail :: (pub ++ pend ++ [q.queueTmpHead]) := by
        rcases List.mem_cons.mp ha with ha | ha
        · simp [ha]
        · exact List.mem_cons_of_mem _ (List.mem_append.mpr (Or.inl ha))
      have hne : a ≠ q.queueTmpHead := by
        rcases List.mem_cons.mp ha with ha | ha
        · rw [ha]
          intro hc
          exact (List.nodup_cons.mp h.nodup).1 (by simp [hc])
        · intro hc
          rcases List.mem_append.mp (hc ▸ ha) with ha | ha
          · exact hnpub ha
          · exact hnpend ha
      show Function.update (Function.update q.next q.fresh _) q.queueTmpHead q.fresh a = q.next a
      rw [Function.update_of_ne hne, Function.update_of_ne (hold a hmem)]
    · simp
    · have hne : q.fresh ≠ q.queueTmpHead := Ne.symm (hold _ (by simp))
      refine List.isChain_cons_cons.mpr ⟨?_, List.IsChain.singleton _⟩
      show Function.update (Function.update q.next q.fresh _) q.queueTmpHead q.fresh q.fresh = q.queueTail
      rw [Function.update_of_ne hne, Function.update_self]
      exact hfull.symm
  · show (pend ++ [q.queueTmpHead] ++ [q.fresh]).head? = some q.queueHead
    rw [List.head?_append, h.head]
    rfl

theorem of_allocateTmpNode_reuse {f : Nat} (h : Layout q pub pend (f :: free)) :
    Layout q.allocateTmpNode.2 pub (pend ++ [q.queueTmpHead]) free := by
  have hnext := h.next_tmpHead
  have hne : ¬ (q.queueTail = q.next q.queueTmpHead) := by
    rw [hnext]
    exact h.tail_ne_of_free
  have hq : q.allocateTmpNode.2 = { q with
      task := Function.update q.task q.queueTmpHead none
      queueTmpHead := f } := by
    simp only [TaskQueue.allocateTmpNode, if_neg hne]
    rw [hnext]
    rfl
  rw [hq]
  have hlist : pub ++ pend ++ q.queueTmpHead :: f :: free = pub ++ (pend ++ [q.queueTmpHead]) ++ f :: free := by
    simp
  refine ⟨?_, ?_, ?_, ?_⟩
  · rw [← hlist]; exact h.nodup
  · rw [← hlist]; exact h.bound
  · rw [← hlist]; exact h.chain
  · show (pend ++ [q.queueTmpHead] ++ [f]).head? = some q.queueHead
    rw [List.head?_append, h.head]
    rfl

/-- The node `allocate_tmp_node` returns joins the allocated ones; a full ring grows by one node. -/
theorem allocate (h : Layout q pub pend free) :
    ∃ free', Layout q.allocateTmpNode.2 pub (pend ++ [q.queueTmpHead]) free' := by
  cases free with
  | nil => exact ⟨[], h.of_allocateTmpNode_full⟩
  | cons f free => exact ⟨free, h.of_allocateTmpNode_reuse⟩

/-- Publication hands the oldest allocated node, the one at `queue_head`, to the consumer. -/
theorem enqueue {n : Nat} (h : Layout q pub (n :: pend) free) :
    q.queueHead = n ∧ Layout q.enqueue (pub ++ [n]) pend free := by
  have hhead : q.queueHead = n := by
    have := h.head
    simpa using this.symm
  have hlist : pub ++ n :: pend ++ q.queueTmpHead :: free = pub ++ [n] ++ pend ++ q.queueTmpHead :: free := by
    simp
  refine ⟨hhead, ⟨?_, ?_, ?_, ?_⟩⟩
  · show (q.queueTail :: (pub ++ [n] ++ pend ++ q.queueTmpHead :: free)).Nodup
    rw [← hlist]; exact h.nodup
  · show ∀ k ∈ q.queueTail :: (pub ++ [n] ++ pend ++ q.queueTmpHead :: free), k < q.fresh
    rw [← hlist]; exact h.bound
  · show List.IsChain (fun a b => q.next a = b)
      (q.queueTail :: (pub ++ [n] ++ pend ++ q.queueTmpHead :: free) ++ [q.queueTail])
    rw [← hlist]; exact h.chain
  · -- `queue_head` moves on to the next allocated node, or to `queue_tmp_head`
    show _ = some (q.next q.queueHead)
    rw [hhead]
    have hchain := h.chain
    have hlist' : q.queueTail :: (pub ++ n :: pend ++ q.queueTmpHead :: free) ++ [q.queueTail]
        = q.queueTail :: (pub ++ n :: (pend ++ q.queueTmpHead :: (free ++ [q.queueTail]))) := by simp
    rw [hlist', List.isChain_cons_split] at hchain
    cases pend with
    | nil =>
        rw [List.nil_append, List.isChain_cons_cons] at hchain
        exact congrArg some hchain.2.1.symm
    | cons n' pend =>
        rw [List.cons_append, List.isChain_cons_cons] at hchain
        exact congrArg some hchain.2.1.symm

/-- Putting back makes the allocated nodes free again, `queue_head` being the next to be allocated. -/
theorem putback (h : Layout q pub pend free) :
    ∃ free', pend ++ q.queueTmpHead :: free = q.queueHead :: free' ∧ Layout q.putbackTmpNode pub [] free' := by
  obtain ⟨free', hlist⟩ : ∃ free', pend ++ q.queueTmpHead :: free = q.queueHead :: free' := by
    have hhead := h.head
    cases pend with
    | nil =>
        have htmp : q.queueTmpHead = q.queueHead := by simpa using hhead
        exact ⟨free, by rw [htmp, List.nil_append]⟩
    | cons n pend =>
        obtain rfl : n = q.queueHead := by simpa using hhead
        exact ⟨pend ++ q.queueTmpHead :: free, rfl⟩
  have hring : pub ++ pend ++ q.queueTmpHead :: free = pub ++ [] ++ q.queueHead :: free' := by
    rw [List.append_assoc, hlist, List.append_nil]
  refine ⟨free', hlist, ⟨?_, ?_, ?_, rfl⟩⟩
  · show (q.queueTail :: (pub ++ [] ++ q.queueHead :: free')).Nodup
    rw [← hring]; exact h.nodup
  · show ∀ k ∈ q.queueTail :: (pub ++ [] ++ q.queueHead :: free'), k < q.fresh
    rw [← hring]; exact h.bound
  · show List.IsChain (fun a b => q.next a = b) (q.queueTail :: (pub ++ [] ++ q.queueHead :: free') ++ [q.queueTail])
    rw [← hring]; exact h.chain

/-- The consumer finds the queue empty when nothing is published. -/
theorem isEmpty_of_nil (h : Layout q [] pend free) : q.isEmpty = true := by
  have hnext : q.next q.queueTail = q.queueHead := by
    have hchain := h.chain
    have hhead := h.head
    cases pend with
    | nil =>
        rw [List.nil_append, List.nil_append, List.cons_append, List.cons_append, List.isChain_cons_cons] at hchain
        have : q.queueTmpHead = q.queueHead := by simpa using hhead
        rw [← this]; exact hchain.1
    | cons n pend =>
        rw [List.nil_append, List.cons_append, List.cons_append, List.cons_append, List.isChain_cons_cons] at hchain
        have : n = q.queueHead := by simpa using hhead
        rw [← this]; exact hchain.1
  simp [isEmpty, hnext]

/-- The consumer takes the oldest published node, and its last one can be reused from then on. -/
theorem getTask {n : Nat} (h : Layout q (n :: pub) pend free) :
    q.getTask = some (q.task n, { q with queueTail := n }) ∧
      Layout { q with queueTail := n } pub pend (free ++ [q.queueTail]) := by
  have hchain := h.chain
  rw [List.cons_append, List.cons_append, List.cons_append, List.cons_append, List.isChain_cons_cons] at hchain
  have hnext : q.next q.queueTail = n := hchain.1
  -- `queue_head` is past the published nodes
  have hne : ¬ (n = q.queueHead) := by
    intro hc
    have hmem : n ∈ pend ++ [q.queueTmpHead] := by
      have := List.mem_of_mem_head? h.head
      rw [hc]; exact this
    have hnd : n ∉ pub ++ pend ++ q.queueTmpHead :: free :=
      (List.nodup_cons.mp (List.nodup_cons.mp h.nodup).2).1
    refine hnd ?_
    rw [List.append_assoc]
    refine List.mem_append.mpr (Or.inr ?_)
    rcases List.mem_append.mp hmem with hm | hm
    · exact List.mem_append.mpr (Or.inl hm)
    · rw [List.mem_singleton] at hm
      simp [hm]
  refine ⟨?_, ⟨?_, ?_, ?_, h.head⟩⟩
  · simp [TaskQueue.getTask, isEmpty, hnext, hne]
  · have hperm : (q.queueTail :: (n :: pub ++ pend ++ q.queueTmpHead :: free)).Perm
        (n :: (pub ++ pend ++ q.queueTmpHead :: (free ++ [q.queueTail]))) := by
      have : n :: (pub ++ pend ++ q.queueTmpHead :: (free ++ [q.queueTail]))
          = (n :: pub ++ pend ++ q.queueTmpHead :: free) ++ [q.queueTail] := by simp
      rw [this]
      exact (List.perm_append_singleton _ _).symm
    exact hperm.nodup_iff.mp h.nodup
  · intro k hk
    refine h.bound k ?_
    have : k = n ∨ k ∈ pub ∨ k ∈ pend ∨ k = q.queueTmpHead ∨ k ∈ free ∨ k = q.queueTail := by
      simpa [or_assoc] using hk
    simp only [List.mem_cons, List.mem_append]
    tauto
  · have hchain' := hchain.2
    show List.IsChain (fun a b => q.next a = b)
      (n :: (pub ++ pend ++ q.queueTmpHead :: (free ++ [q.queueTail])) ++ [n])
    have hlist : n :: (pub ++ pend ++ q.queueTmpHead :: (free ++ [q.queueTail])) ++ [n]
        = n :: (pub ++ pend ++ q.queueTmpHead :: free ++ q.queueTail :: [n]) := by simp
    rw [hlist, List.isChain_cons_split]
    refine ⟨hchain', List.isChain_cons_cons.mpr ⟨hnext, List.IsChain.singleton _⟩⟩

end Layout

/-! ## The tasks in the ring -/

/-- Allocation appends to the pending tasks. -/
theorem Holds.allocate {q : TaskQueue α} {published pending : List α} (h : Holds q published pending) (t : α) :
    Holds (q.allocate t) published (pending ++ [t]) := by
  obtain ⟨pub, pend, free, hl, hpub, hpend⟩ := h
  obtain ⟨hnpub, hnpend⟩ := hl.tmpHead_not_mem
  obtain ⟨free', hl'⟩ := hl.allocate
  have htask : (q.allocate t).task = Function.update q.task q.queueTmpHead (some t) := by
    unfold TaskQueue.allocate
    dsimp only
    split <;> rfl
  refine ⟨pub, pend ++ [q.queueTmpHead], free', ?_, ?_, ?_⟩
  · rw [allocate_eq]
    exact hl'.of_task _
  · rw [htask, map_update_of_not_mem hnpub]
    exact hpub
  · rw [htask, List.map_append, List.map_append, map_update_of_not_mem hnpend, hpend]
    simp

/-- Publication moves the oldest pending task to the published ones. -/
theorem Holds.enqueue {q : TaskQueue α} {published pending : List α} {t : α}
    (h : Holds q published (t :: pending)) : Holds q.enqueue (published ++ [t]) pending := by
  obtain ⟨pub, pend, free, hl, hpub, hpend⟩ := h
  cases pend with
  | nil => simp at hpend
  | cons n pend =>
      rw [List.map_cons, List.map_cons, List.cons.injEq] at hpend
      refine ⟨pub ++ [n], pend, free, hl.enqueue.2, ?_, hpend.2⟩
      show (pub ++ [n]).map q.task = (published ++ [t]).map some
      rw [List.map_append, List.map_append, hpub]
      show published.map some ++ [q.task n] = _
      rw [hpend.1]
      rfl

/-- The consumer finds the queue empty exactly when nothing is published, and takes the oldest task. -/
theorem Holds.getTask_nil {q : TaskQueue α} {pending : List α} (h : Holds q [] pending) : q.getTask = none := by
  obtain ⟨pub, pend, free, hl, hpub, _⟩ := h
  obtain rfl : pub = [] := by simpa using hpub
  unfold TaskQueue.getTask
  rw [if_pos hl.isEmpty_of_nil]

theorem Holds.getTask_cons {q : TaskQueue α} {published pending : List α} {t : α}
    (h : Holds q (t :: published) pending) :
    ∃ q', q.getTask = some (some t, q') ∧ Holds q' published pending := by
  obtain ⟨pub, pend, free, hl, hpub, hpend⟩ := h
  cases pub with
  | nil => simp at hpub
  | cons n pub =>
      rw [List.map_cons, List.map_cons, List.cons.injEq] at hpub
      obtain ⟨hget, hl'⟩ := hl.getTask
      refine ⟨{ q with queueTail := n }, ?_, ⟨pub, pend, free ++ [q.queueTail], hl', hpub.2, hpend⟩⟩
      rw [hget, hpub.1]

end TaskQueue

end HuronFS
