import HuronFS.Common.Const
import HuronFS.Common.Task

/-!
# `Client.QueuePool` — programs that lock communication queues (`Client.h`, `Client.cpp`)

A thread of a client locks an output queue for each query and gives it back when it is done with the response. What it does to the
queues is a tree: at each node it asks for a queue, gives one back, or waits for a response. `run` carries the tree out with the
queues that other threads hold and the answers that come; `wp` is what has to hold of a tree for it to end as it should when every
answer is a response, and `run_of_wp` says that it does.

An answer may also be an error. `get_query_response` then gives the queue back twice, so whoever meets one has unlocked a queue that
it did not hold (`run_killed`).
-/

namespace HuronFS

/-- A response: the message, and the number of bytes that came behind it. -/
structure Response where
  fields : List Field
  received : Nat
deriving DecidableEq, Repr

/-- What `get_query_response` gets, once tasks of other connections are dropped: a response, or a task with an error. `known` is whether
    `_find_scbb_by_handle` finds the connection among those to IOnodes. -/
inductive Answer
  | response (r : Response)
  | killed (known : Bool)
deriving DecidableEq, Repr

/-- The queues as one thread has them. `before` are locked when it starts, `own` it has locked since; `stray` says that it has unlocked
    one it did not hold. For each time it looks for a queue, `busy` says which of them other threads hold then. -/
structure Pool where
  number : Nat
  before : List Nat
  own : List Nat
  stray : Bool
  busy : List (Nat → Bool)
  answers : List Answer

namespace Pool

/-- The pool an operation starts with. -/
def start (number : Nat) (before : List Nat) (busy : List (Nat → Bool)) (answers : List Answer) : Pool :=
  { number, before, own := [], stray := false, busy, answers }

def locked (p : Pool) : List Nat := p.own ++ p.before

/-- The loop of `get_new_communication_queue`: the first queue that can be locked. It goes round until there is one. -/
def scan (number : Nat) (locked : List Nat) (busy : Nat → Bool) : Option Nat :=
  (List.range number).find? (fun id => !busy id && !locked.contains id)

/-- `get_new_communication_queue`. -/
def lock (p : Pool) : Option (Nat × Pool) :=
  match p.busy with
  | [] => none
  | b :: busy => (scan p.number p.locked b).map (fun id => (id, { p with own := id :: p.own, busy }))

/-- `release_communication_queue`. -/
def unlock (p : Pool) (id : Nat) : Pool :=
  if id ∈ p.own then { p with own := p.own.erase id } else { p with before := p.before.erase id, stray := true }

end Pool

/-- What a thread does to the queues. `stuck` is where it goes no further: undefined behaviour, or the end of the process. -/
inductive Program (α : Type)
  | done (a : α)
  | stuck
  | getNewCommunicationQueue (k : Nat → Program α)
  | releaseCommunicationQueue (id : Nat) (k : Program α)
  | getQueryResponse (id : Nat) (k : Option Response → Program α)

namespace Program

variable {α β : Type}

def bind : Program α → (α → Program β) → Program β
  | .done a, f => f a
  | .stuck, _ => .stuck
  | .getNewCommunicationQueue k, f => .getNewCommunicationQueue (fun id => (k id).bind f)
  | .releaseCommunicationQueue id k, f => .releaseCommunicationQueue id (k.bind f)
  | .getQueryResponse id k, f => .getQueryResponse id (fun r => (k r).bind f)

/-- The error path of `get_query_response`: `response_dequeue`, `release_communication_queue`, and in `_report_IOnode_failure` a query
    that is sent and never given back. -/
def handleKilled (p : Pool) (id : Nat) (known : Bool) : Option Pool :=
  let p := (p.unlock id).unlock id
  if known then p.lock.map Prod.snd else some p

/-- The result, if there is one, and the queues. -/
def run : Program α → Pool → Option α × Pool
  | .done a, p => (some a, p)
  | .stuck, p => (none, p)
  | .getNewCommunicationQueue k, p =>
      match p.lock with
      | none => (none, p)
      | some (id, p) => (k id).run p
  | .releaseCommunicationQueue id k, p => k.run (p.unlock id)
  | .getQueryResponse id k, p =>
      match p.answers with
      | [] => (none, p)
      | .response r :: answers => (k (some r)).run { p with answers }
      | .killed known :: answers =>
          match handleKilled { p with answers } id known with
          | none => (none, ({ p with answers }.unlock id).unlock id)
          | some p => (k none).run p

theorem run_bind (m : Program α) (f : α → Program β) : ∀ p : Pool, (m.bind f).run p =
    match m.run p with
    | (some a, p) => (f a).run p
    | (none, p) => (none, p) := by
  induction m with
  | done a => exact fun _ => rfl
  | stuck => exact fun _ => rfl
  | getNewCommunicationQueue k ih =>
      intro p
      simp only [bind, run]
      cases p.lock with
      | none => rfl
      | some next => exact ih next.1 next.2
  | releaseCommunicationQueue id k ih => exact fun p => ih (p.unlock id)
  | getQueryResponse id k ih =>
      intro p
      simp only [bind, run]
      cases p.answers with
      | nil => rfl
      | cons a answers =>
          cases a with
          | response r => exact ih (some r) _
          | killed known =>
              dsimp only
              cases handleKilled { p with answers } id known with
              | none => rfl
              | some next => exact ih none next

/-! ## When every answer is a response -/

/-- The queues that the thread holds go from `own` to what `Q` says, whichever queues and responses it gets. -/
def wp : Program α → (own : List Nat) → (Q : α → List Nat → Prop) → Prop
  | .done a, own, Q => Q a own
  | .stuck, _, _ => True
  | .getNewCommunicationQueue k, own, Q => ∀ id, id ∉ own → (k id).wp (id :: own) Q
  | .releaseCommunicationQueue id k, own, Q => id ∈ own ∧ k.wp (own.erase id) Q
  | .getQueryResponse _ k, own, Q => ∀ r, (k (some r)).wp own Q

theorem wp_bind {f : α → Program β} {Q : β → List Nat → Prop} : ∀ {m : Program α} {own : List Nat},
    m.wp own (fun a own => (f a).wp own Q) → (m.bind f).wp own Q
  | .done _, _, h => h
  | .stuck, _, _ => trivial
  | .getNewCommunicationQueue _, _, h => fun id hid => wp_bind (h id hid)
  | .releaseCommunicationQueue _ _, _, h => ⟨h.1, wp_bind h.2⟩
  | .getQueryResponse _ _, _, h => fun r => wp_bind (h r)

theorem wp_mono {Q Q' : α → List Nat → Prop} (hQ : ∀ a own, Q a own → Q' a own) : ∀ {m : Program α} {own : List Nat},
    m.wp own Q → m.wp own Q'
  | .done _, _, h => hQ _ _ h
  | .stuck, _, _ => trivial
  | .getNewCommunicationQueue _, _, h => fun id hid => wp_mono hQ (h id hid)
  | .releaseCommunicationQueue _ _, _, h => ⟨h.1, wp_mono hQ h.2⟩
  | .getQueryResponse _ _, _, h => fun r => wp_mono hQ (h r)

end Program

/-- Every answer is a response. -/
def AllResponses (answers : List Answer) : Prop := ∀ a ∈ answers, ∃ r, a = .response r

namespace Pool

variable {p p' : Pool} {id : Nat}

theorem lock_eq (h : p.lock = some (id, p')) : ∃ b busy, p.busy = b :: busy ∧ scan p.number p.locked b = some id ∧
    p' = { p with own := id :: p.own, busy } := by
  unfold lock at h
  split at h
  · cases h
  · rename_i b busy hbusy
    obtain ⟨i, hi, he⟩ := Option.map_eq_some_iff.mp h
    cases he
    exact ⟨b, busy, hbusy, hi, rfl⟩

theorem lock_spec (h : p.lock = some (id, p')) : id ∉ p.own ∧ p'.own = id :: p.own ∧ p'.before = p.before ∧ p'.stray = p.stray ∧
    p'.answers = p.answers ∧ p'.number = p.number := by
  obtain ⟨b, busy, -, hi, rfl⟩ := lock_eq h
  have hfree := List.find?_some hi
  rw [Bool.and_eq_true, Bool.not_eq_true', Bool.not_eq_true'] at hfree
  refine ⟨fun hmem => ?_, rfl, rfl, rfl, rfl, rfl⟩
  have hlocked : p.locked.contains id = true := List.contains_iff_mem.mpr (List.mem_append.mpr (Or.inl hmem))
  rw [hlocked] at hfree
  exact absurd hfree.2 (by decide)

theorem unlock_own (h : id ∈ p.own) : p.unlock id = { p with own := p.own.erase id } := if_pos h

theorem unlock_stray (h : id ∉ p.own) : (p.unlock id).stray = true := by
  unfold unlock
  rw [if_neg h]

theorem unlock_answers (p : Pool) (id : Nat) : (p.unlock id).answers = p.answers := by
  unfold unlock
  split
  · rfl
  · rfl

theorem unlock_busy (p : Pool) (id : Nat) : (p.unlock id).busy = p.busy ∧ (p.unlock id).number = p.number := by
  unfold unlock
  split
  · exact ⟨rfl, rfl⟩
  · exact ⟨rfl, rfl⟩

theorem unlock_keeps_stray (h : p.stray = true) (id : Nat) : (p.unlock id).stray = true := by
  unfold unlock
  split
  · exact h
  · rfl

theorem unlock_nodup (h : p.own.Nodup) (id : Nat) : (p.unlock id).own.Nodup := by
  unfold unlock
  split
  · exact h.erase id
  · exact h

theorem lock_nodup (h : p.own.Nodup) (hl : p.lock = some (id, p')) : p'.own.Nodup := by
  obtain ⟨hid, hown, -⟩ := lock_spec hl
  rw [hown]
  exact List.nodup_cons.mpr ⟨hid, h⟩

/-- A queue that is given back twice is not held the second time. -/
theorem unlock_twice (h : p.own.Nodup) (id : Nat) : ((p.unlock id).unlock id).stray = true := by
  by_cases hid : id ∈ p.own
  · apply unlock_stray
    rw [unlock_own hid]
    exact h.not_mem_erase
  · exact unlock_keeps_stray (unlock_stray hid) id

end Pool

namespace Program

variable {α β : Type} {p : Pool}

/-- A tree that has `wp` is carried out as it says. -/
theorem run_of_wp {Q : α → List Nat → Prop} : ∀ {m : Program α} {p : Pool}, m.wp p.own Q → p.stray = false → AllResponses p.answers →
    (m.run p).2.stray = false ∧ (m.run p).2.before = p.before ∧ ∀ a, (m.run p).1 = some a → Q a (m.run p).2.own
  | .done a, p, h, hstray, _ => ⟨hstray, rfl, fun b hb => by cases hb; exact h⟩
  | .stuck, p, _, hstray, _ => ⟨hstray, rfl, fun b hb => (nomatch hb)⟩
  | .getNewCommunicationQueue k, p, h, hstray, hall => by
      unfold run
      cases hlock : p.lock with
      | none => exact ⟨hstray, rfl, fun b hb => (nomatch hb)⟩
      | some next =>
          obtain ⟨id, p'⟩ := next
          obtain ⟨hid, hown, hbefore, hs, hanswers, -⟩ := Pool.lock_spec hlock
          have hk := h id hid
          rw [← hown] at hk
          have hrec := run_of_wp hk (hs.trans hstray) (hanswers ▸ hall)
          rw [hbefore] at hrec
          exact hrec
  | .releaseCommunicationQueue id k, p, h, hstray, hall => by
      unfold run
      rw [Pool.unlock_own h.1]
      exact run_of_wp (p := { p with own := p.own.erase id }) h.2 hstray hall
  | .getQueryResponse id k, p, h, hstray, hall => by
      unfold run
      cases hanswers : p.answers with
      | nil => exact ⟨hstray, rfl, fun b hb => (nomatch hb)⟩
      | cons a answers =>
          rw [hanswers] at hall
          obtain ⟨r, rfl⟩ := hall a List.mem_cons_self
          exact run_of_wp (p := { p with answers }) (h r) hstray (fun a ha => hall a (List.mem_cons_of_mem _ ha))

/-- The number of queues stays, and what other threads hold is looked at from the front. -/
theorem run_looks : ∀ (m : Program α) (p : Pool), (m.run p).2.number = p.number ∧ ∃ looked, p.busy = looked ++ (m.run p).2.busy
  | .done _, _ => ⟨rfl, [], rfl⟩
  | .stuck, _ => ⟨rfl, [], rfl⟩
  | .getNewCommunicationQueue k, p => by
      unfold run
      cases hlock : p.lock with
      | none => exact ⟨rfl, [], rfl⟩
      | some next =>
          obtain ⟨id, p'⟩ := next
          obtain ⟨b, busy, hbusy, -, rfl⟩ := Pool.lock_eq hlock
          obtain ⟨hnumber, looked, hlooked⟩ := run_looks (k id) { p with own := id :: p.own, busy }
          refine ⟨hnumber, b :: looked, ?_⟩
          rw [hbusy, List.cons_append, ← hlooked]
  | .releaseCommunicationQueue id k, p => by
      unfold run
      obtain ⟨hbusy, hnumber⟩ := Pool.unlock_busy p id
      rw [← hbusy, ← hnumber]
      exact run_looks k (p.unlock id)
  | .getQueryResponse id k, p => by
      unfold run
      cases p.answers with
      | nil => exact ⟨rfl, [], rfl⟩
      | cons a answers =>
          cases a with
          | response r => exact run_looks (k (some r)) { p with answers }
          | killed known =>
              have hbusy : (({ p with answers } : Pool).unlock id |>.unlock id).busy = p.busy :=
                (Pool.unlock_busy _ id).1.trans (Pool.unlock_busy _ id).1
              have hnumber : (({ p with answers } : Pool).unlock id |>.unlock id).number = p.number :=
                (Pool.unlock_busy _ id).2.trans (Pool.unlock_busy _ id).2
              dsimp only
              cases hkilled : handleKilled { p with answers } id known with
              | none => exact ⟨hnumber, [], hbusy.symm⟩
              | some next =>
                  obtain ⟨hn, looked, hl⟩ := run_looks (k none) next
                  unfold handleKilled at hkilled
                  dsimp only at hkilled
                  split at hkilled
                  · obtain ⟨⟨i, p'⟩, hlock, rfl⟩ := Option.map_eq_some_iff.mp hkilled
                    obtain ⟨b, busy, hb, -, rfl⟩ := Pool.lock_eq hlock
                    refine ⟨hn.trans hnumber, b :: looked, ?_⟩
                    rw [List.cons_append, ← hl, ← hb, hbusy]
                  · cases hkilled
                    exact ⟨hn.trans hnumber, looked, hbusy.symm.trans hl⟩

theorem stray_of_none_used (h : p.stray = true ∨ ¬ AllResponses []) : p.stray = true :=
  h.elim id fun hno => absurd (fun _ ha => (nomatch ha)) hno

/-- Whatever a thread does, it takes answers from the front, a queue once unlocked by mistake stays so, and an error is such a mistake. -/
theorem run_killed : ∀ (m : Program α) {p : Pool}, p.own.Nodup →
    ∃ used, p.answers = used ++ (m.run p).2.answers ∧ (m.run p).2.own.Nodup ∧
      (p.stray = true ∨ ¬ AllResponses used → (m.run p).2.stray = true)
  | .done a, p, hnodup => ⟨[], rfl, hnodup, stray_of_none_used⟩
  | .stuck, p, hnodup => ⟨[], rfl, hnodup, stray_of_none_used⟩
  | .getNewCommunicationQueue k, p, hnodup => by
      unfold run
      cases hlock : p.lock with
      | none => exact ⟨[], rfl, hnodup, stray_of_none_used⟩
      | some next =>
          obtain ⟨id, p'⟩ := next
          obtain ⟨-, -, -, hs, hanswers, -⟩ := Pool.lock_spec hlock
          obtain ⟨used, hused, hkept, hstray⟩ := run_killed (k id) (Pool.lock_nodup hnodup hlock)
          rw [hanswers] at hused
          rw [hs] at hstray
          exact ⟨used, hused, hkept, hstray⟩
  | .releaseCommunicationQueue id k, p, hnodup => by
      unfold run
      obtain ⟨used, hused, hkept, hstray⟩ := run_killed k (Pool.unlock_nodup hnodup id)
      rw [Pool.unlock_answers] at hused
      exact ⟨used, hused, hkept, fun h => hstray (h.imp_left fun hs => Pool.unlock_keeps_stray hs id)⟩
  | .getQueryResponse id k, p, hnodup => by
      unfold run
      cases hanswers : p.answers with
      | nil => exact ⟨[], hanswers.symm, hnodup, stray_of_none_used⟩
      | cons a answers =>
          cases a with
          | response r =>
              obtain ⟨used, hused, hkept, hstray⟩ := run_killed (k (some r)) (p := { p with answers }) hnodup
              refine ⟨.response r :: used, ?_, hkept, fun h => hstray (h.imp_right fun hno hall => hno ?_)⟩
              · rw [List.cons_append, ← hused]
              · intro b hb
                rcases List.mem_cons.mp hb with rfl | hb
                · exact ⟨r, rfl⟩
                · exact hall b hb
          | killed known =>
              have htwice := Pool.unlock_twice (p := { p with answers }) hnodup id
              have hnodup' := Pool.unlock_nodup (Pool.unlock_nodup (p := { p with answers }) hnodup id) id
              have hleft : (({ p with answers } : Pool).unlock id |>.unlock id).answers = answers := by
                rw [Pool.unlock_answers, Pool.unlock_answers]
              dsimp only
              cases hkilled : handleKilled { p with answers } id known with
              | none => exact ⟨[.killed known], by rw [hleft]; rfl, hnodup', fun _ => htwice⟩
              | some next =>
                  have hnext : next.own.Nodup ∧ next.stray = true ∧ next.answers = answers := by
                    unfold handleKilled at hkilled
                    dsimp only at hkilled
                    split at hkilled
                    · obtain ⟨⟨i, p'⟩, hlock, rfl⟩ := Option.map_eq_some_iff.mp hkilled
                      obtain ⟨-, -, -, hs, hans, -⟩ := Pool.lock_spec hlock
                      exact ⟨Pool.lock_nodup hnodup' hlock, hs.trans htwice, hans.trans hleft⟩
                    · cases hkilled
                      exact ⟨hnodup', htwice, hleft⟩
                  obtain ⟨used, hused, hkept, hstray⟩ := run_killed (k none) hnext.1
                  refine ⟨.killed known :: used, ?_, hkept, fun _ => hstray (Or.inl hnext.2.1)⟩
                  rw [List.cons_append, ← hused, hnext.2.2]

end Program

end HuronFS
