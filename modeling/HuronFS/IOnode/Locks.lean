import HuronFS.IOnode.RemoteFile
import Mathlib.Data.Finset.Basic

/-!
# `IOnode.Locks` — the locks of blocks and files, between the handler and the background write-back

A block has a mutex for its metadata and a lock for its data, a file has a mutex for its descriptors, and two flags of a block are
waited for or looked at: `writing_back` and `receiving_data`. The handler takes the locks of one block and, to make room, those of
others one after the other; the remote task thread writes blocks back, one at a time.

The order of the locks is not kept everywhere. The handler gives `meta_lock` back while it receives into a block, and takes it
again with the data locked (`finish_transfer`); and whoever finds the data locked gives `meta_lock` back, takes it again and
looks once more (`dataRdlock`, `dataWrlock`). What saves it is that the background never waits with more than one `meta_lock`,
that it has looked at `receiving_data` under it, and that nothing is waited for while a file is locked (`Fine`).

What the two threads do is given by the list of their steps on locks and flags; what the data decides (is a block dirty, which
blocks have to go) is in the lists.
-/

namespace HuronFS

/-- A step on a lock or a flag. `test` is the question for `is_receiving_data`: if so, the mutex is given back and the next `skip`
    steps are left out. -/
inductive LockStep (β φ : Type*)
  | metalock (b : β)
  | metaunlock (b : β)
  | dataRdlock (b : β)
  | dataWrlock (b : β)
  | dataunlock (b : β)
  | lock (f : φ)
  | unlock (f : φ)
  | setWriting (b : β)
  | unsetWriting (b : β)
  | awaitWriting (b : β)
  | test (b : β) (skip : Nat)
  | setReceiving (b : β)
  | unsetReceiving (b : β)
deriving DecidableEq

/-- What a thread has: mutexes of blocks and the one of a file, data locks, and the flags it has set. The blocks in `checked` were not
    receiving when it looked, and it has not given their mutex back since. -/
@[ext]
structure Held (β φ : Type*) where
  metas : Finset β
  file : Option φ
  rd : Finset β
  wr : Finset β
  writing : Finset β
  receiving : Finset β
  checked : Finset β

/-- The two threads. -/
structure LockState (β φ : Type*) where
  held : Side → Held β φ
  todo : Side → List (LockStep β φ)
  writingBack : β → Bool

variable {β φ : Type*} [DecidableEq β] [DecidableEq φ]

namespace Held

/-- Nothing. -/
def nothing : Held β φ := ⟨∅, none, ∅, ∅, ∅, ∅, ∅⟩

def takeMeta (h : Held β φ) (b : β) : Held β φ := { h with metas := insert b h.metas }

def giveMeta (h : Held β φ) (b : β) : Held β φ := { h with metas := h.metas.erase b, checked := h.checked.erase b }

end Held

namespace LockState

/-- A thread has something else, and goes on. -/
def go (s : LockState β φ) (t : Side) (h : Held β φ) (rest : List (LockStep β φ)) : LockState β φ :=
  { s with held := Function.update s.held t h, todo := Function.update s.todo t rest }

/-- The data are locked: the mutex is given back, to be taken again. -/
def backOff (s : LockState β φ) (t : Side) (b : β) (again : List (LockStep β φ)) : Option (LockState β φ) :=
  if b ∈ (s.held t).metas then some (s.go t ((s.held t).giveMeta b) (.metalock b :: again)) else none

/-- One step of a thread, which spins where it cannot go on. There is no result for a lock that is given back and not held, or that
    is taken twice. -/
def perform (s : LockState β φ) (t : Side) (rest : List (LockStep β φ)) : LockStep β φ → Option (LockState β φ)
  | .metalock b =>
      if b ∈ (s.held t).metas then none
      else if b ∈ (s.held t.other).metas then some s
      else some (s.go t ((s.held t).takeMeta b) rest)
  | .metaunlock b => if b ∈ (s.held t).metas then some (s.go t ((s.held t).giveMeta b) rest) else none
  | .dataRdlock b =>
      if b ∈ (s.held t).rd ∨ b ∈ (s.held t).wr then none
      else if b ∈ (s.held t.other).wr then s.backOff t b (.dataRdlock b :: rest)
      else some (s.go t { s.held t with rd := insert b (s.held t).rd } rest)
  | .dataWrlock b =>
      if b ∈ (s.held t).rd ∨ b ∈ (s.held t).wr then none
      else if b ∈ (s.held t.other).rd ∨ b ∈ (s.held t.other).wr then s.backOff t b (.dataWrlock b :: rest)
      else some (s.go t { s.held t with wr := insert b (s.held t).wr } rest)
  | .dataunlock b =>
      if b ∈ (s.held t).rd ∨ b ∈ (s.held t).wr then
        some (s.go t { s.held t with rd := (s.held t).rd.erase b, wr := (s.held t).wr.erase b } rest)
      else none
  | .lock f =>
      if (s.held t).file.isSome then none
      else if (s.held t.other).file = some f then some s
      else some (s.go t { s.held t with file := some f } rest)
  | .unlock f => if (s.held t).file = some f then some (s.go t { s.held t with file := none } rest) else none
  | .setWriting b =>
      some ({ s with writingBack := Function.update s.writingBack b true }.go t
        { s.held t with writing := insert b (s.held t).writing } rest)
  | .unsetWriting b =>
      some ({ s with writingBack := Function.update s.writingBack b false }.go t
        { s.held t with writing := (s.held t).writing.erase b } rest)
  | .awaitWriting b => if s.writingBack b then some s else some (s.go t (s.held t) rest)
  | .test b skip =>
      if b ∈ (s.held t).receiving ∨ b ∈ (s.held t.other).receiving then
        some (s.go t (s.held t) (.metaunlock b :: rest.drop skip))
      else some (s.go t { s.held t with checked := insert b (s.held t).checked } rest)
  | .setReceiving b => some (s.go t { s.held t with receiving := insert b (s.held t).receiving } rest)
  | .unsetReceiving b => some (s.go t { s.held t with receiving := (s.held t).receiving.erase b } rest)

/-- A thread takes its next step, if it has one. -/
def step (s : LockState β φ) (t : Side) : Option (LockState β φ) :=
  match s.todo t with
  | [] => some s
  | a :: rest => s.perform t rest a

end LockState

/-! ## What the threads do -/

section Programs

variable (fileOf : β → φ)

/-- `_open_remote_file`, `_close_remote_file`, `add_dirty_pages`, `remove_dirty_pages`, `_close_file`: under the lock of the file. -/
def underFileLock (f : φ) : List (LockStep β φ) := [.lock f, .unlock f]

/-- `_write_to_storage` of a block that is not receiving; it may be `TO_BE_DELETED`. -/
def writeBlock (b : β) (toBeDeleted : Bool) : List (LockStep β φ) :=
  underFileLock (fileOf b) ++
    if toBeDeleted then .metaunlock b :: underFileLock (fileOf b)
    else
      [.setWriting b, .dataRdlock b, .metaunlock b, .unsetWriting b, .dataunlock b] ++ underFileLock (fileOf b) ++ underFileLock (fileOf b)

/-- `_write_to_storage` -/
def writeToStorage (b : β) (toBeDeleted : Bool) : List (LockStep β φ) :=
  .metalock b :: .test b (writeBlock fileOf b toBeDeleted).length :: writeBlock fileOf b toBeDeleted

/-- A block that `swap_out` comes to: is it dirty, is it to be deleted. -/
structure Victim (β : Type*) where
  block : β
  dirty : Bool
  toBeDeleted : Bool

/-- One turn of `swap_out`: `need_writeback`, `writeback` and `free_data`. -/
def swapOutBlock (v : Victim β) : List (LockStep β φ) :=
  [.metalock v.block, .metaunlock v.block] ++ (if v.dirty then writeToStorage fileOf v.block v.toBeDeleted else []) ++
    [.metalock v.block, .awaitWriting v.block, .dataWrlock v.block, .dataunlock v.block, .metaunlock v.block]

/-- `allocate_memory_for_block`, with the blocks that have to go, and `_read_from_storage`, if there is something to read. -/
def allocate (b : β) (victims : List (Victim β)) (reload : Bool) : List (LockStep β φ) :=
  victims.flatMap (swapOutBlock fileOf) ++ if reload then underFileLock (fileOf b) ++ underFileLock (fileOf b) else []

/-- What the handler does to one block, or to a file: a turn of `_send_data`, a turn of `_receive_data` (`update_block_data` and
    `finish_transfer`), or `_close_file`. -/
inductive Job (β φ : Type*)
  | send (b : β) (victims : List (Victim β)) (reload : Bool)
  | receive (b : β) (victims : List (Victim β)) (reload newlyDirty : Bool)
  | close (f : φ)

namespace Job

def steps : Job β φ → List (LockStep β φ)
  | .send b victims reload =>
      [.metalock b, .dataRdlock b] ++ allocate fileOf b victims reload ++ [.metaunlock b, .dataunlock b]
  | .receive b victims reload newlyDirty =>
      [.metalock b] ++ allocate fileOf b victims reload ++ [.dataWrlock b, .setReceiving b] ++
        (if newlyDirty then underFileLock (fileOf b) else []) ++
        [.metaunlock b, .metalock b, .unsetReceiving b, .dataunlock b, .metaunlock b]
  | .close f => underFileLock f

/-- A block that gets its memory is not in the access queue, and so not among those that have to go. -/
def Good : Job β φ → Prop
  | .send b victims _ => ∀ v ∈ victims, v.block ≠ b
  | .receive b victims _ _ => ∀ v ∈ victims, v.block ≠ b
  | .close _ => True

instance : (j : Job β φ) → Decidable j.Good
  | .send b victims _ => inferInstanceAs (Decidable (∀ v ∈ victims, v.block ≠ b))
  | .receive b victims _ _ => inferInstanceAs (Decidable (∀ v ∈ victims, v.block ≠ b))
  | .close _ => .isTrue trivial

end Job

/-- The handler with its jobs, and the background with its queue. -/
def LockState.start (jobs : List (Job β φ)) (queue : List (β × Bool)) : LockState β φ where
  held _ := Held.nothing
  todo
    | .foreground => jobs.flatMap (Job.steps fileOf)
    | .background => queue.flatMap fun e => writeToStorage fileOf e.1 e.2
  writingBack _ := false

end Programs

/-! ## The discipline -/

/-- What a thread that has `h` may do, and have nothing at the end: nothing is asked for under the lock of a file; the data of a block are
    locked under its mutex, and written to or freed only by the handler; the mutex is not given back while the data are locked for
    writing, unless the block is receiving. The background takes a mutex with nothing in hand, and reads only what is not receiving. -/
inductive Fine (t : Side) : Held β φ → List (LockStep β φ) → Prop
  | done {h} (hnothing : h = Held.nothing) : Fine t h []
  | metalock {h b l} (hfile : h.file = none) (hb : b ∉ h.metas) (halone : t = .background → h = Held.nothing)
      (hrest : Fine t (h.takeMeta b) l) : Fine t h (.metalock b :: l)
  | metaunlock {h b l} (hfile : h.file = none) (hb : b ∈ h.metas) (hwr : b ∈ h.wr → b ∈ h.receiving)
      (hrest : Fine t (h.giveMeta b) l) : Fine t h (.metaunlock b :: l)
  | dataRdlock {h b l} (hfile : h.file = none) (hb : b ∈ h.metas) (hrd : b ∉ h.rd) (hwr : b ∉ h.wr)
      (hchecked : t = .background → b ∈ h.checked) (hrest : Fine t { h with rd := insert b h.rd } l) : Fine t h (.dataRdlock b :: l)
  | dataWrlock {h b l} (ht : t = .foreground) (hfile : h.file = none) (hb : b ∈ h.metas) (hrd : b ∉ h.rd) (hwr : b ∉ h.wr)
      (hchecked : b ∉ h.checked) (hrest : Fine t { h with wr := insert b h.wr } l) : Fine t h (.dataWrlock b :: l)
  | dataunlock {h b l} (hfile : h.file = none) (hb : b ∈ h.rd ∨ b ∈ h.wr)
      (hrest : Fine t { h with rd := h.rd.erase b, wr := h.wr.erase b } l) : Fine t h (.dataunlock b :: l)
  | lock {h f l} (hfile : h.file = none) (hrest : Fine t { h with file := some f } l) : Fine t h (.lock f :: l)
  | unlock {h f l} (hfile : h.file = some f) (hrest : Fine t { h with file := none } l) : Fine t h (.unlock f :: l)
  | setWriting {h b l} (hfile : h.file = none) (hrest : Fine t { h with writing := insert b h.writing } l) : Fine t h (.setWriting b :: l)
  | unsetWriting {h b l} (hfile : h.file = none) (hrest : Fine t { h with writing := h.writing.erase b } l) : Fine t h (.unsetWriting b :: l)
  | awaitWriting {h b l} (ht : t = .foreground) (hfile : h.file = none) (hwriting : h.writing = ∅) (hrest : Fine t h l) :
      Fine t h (.awaitWriting b :: l)
  | test {h b skip l} (hfile : h.file = none) (hb : b ∈ h.metas) (hskip : 0 < skip ∧ skip ≤ l.length)
      (hreceiving : Fine t h (.metaunlock b :: l.drop skip)) (hrest : Fine t { h with checked := insert b h.checked } l) :
      Fine t h (.test b skip :: l)
  | setReceiving {h b l} (ht : t = .foreground) (hfile : h.file = none) (hb : b ∈ h.metas)
      (hrest : Fine t { h with receiving := insert b h.receiving } l) : Fine t h (.setReceiving b :: l)
  | unsetReceiving {h b l} (hfile : h.file = none) (hb : b ∈ h.metas) (hrest : Fine t { h with receiving := h.receiving.erase b } l) :
      Fine t h (.unsetReceiving b :: l)

/-- A thread by itself. -/
structure Held.Own (t : Side) (h : Held β φ) : Prop where
  covered : ∀ b ∈ h.wr, b ∈ h.metas ∨ b ∈ h.receiving
  checked : ∀ b ∈ h.checked, b ∈ h.metas
  background : t = .background → h.wr = ∅ ∧ h.receiving = ∅

/-- Two threads, one seen from the other. -/
structure Held.Apart (h o : Held β φ) : Prop where
  metas : ∀ b ∈ h.metas, b ∉ o.metas
  file : ∀ f, h.file = some f → o.file ≠ some f
  rd : ∀ b ∈ h.rd, b ∉ o.wr
  wr : ∀ b ∈ h.wr, b ∉ o.rd ∧ b ∉ o.wr
  checked : ∀ b ∈ h.checked, b ∉ o.receiving
  receiving : ∀ b ∈ h.receiving, b ∉ o.checked

theorem Held.Apart.symm {h o : Held β φ} (a : Held.Apart h o) : Held.Apart o h where
  metas b ho hb := a.metas b hb ho
  file f ho hf := a.file f hf ho
  rd b ho hb := (a.wr b hb).1 ho
  wr b ho := ⟨fun hb => a.rd b hb ho, fun hb => (a.wr b hb).2 ho⟩
  checked b ho hb := a.receiving b hb ho
  receiving b ho hb := a.checked b hb ho

/-- **What holds of the two threads.** -/
structure LockInv (s : LockState β φ) : Prop where
  fine : ∀ t, Fine t (s.held t) (s.todo t)
  own : ∀ t, (s.held t).Own t
  apart : ∀ t, (s.held t).Apart (s.held t.other)
  /-- a flag that is set was set by one of them -/
  flag : ∀ b, s.writingBack b = true → ∃ t, b ∈ (s.held t).writing

/-- The thread does not have to wait. -/
def LockState.Free (s : LockState β φ) (t : Side) : LockStep β φ → Prop
  | .metalock b => b ∉ (s.held t.other).metas
  | .dataRdlock b => b ∉ (s.held t.other).wr
  | .dataWrlock b => b ∉ (s.held t.other).rd ∧ b ∉ (s.held t.other).wr
  | .lock f => (s.held t.other).file ≠ some f
  | .awaitWriting b => s.writingBack b = false
  | _ => True

/-! ## One step -/

section Step

variable {s : LockState β φ} {t : Side} {h : Held β φ} {l : List (LockStep β φ)}

theorem Side.other_other (t : Side) : t.other.other = t := by
  cases t <;> rfl

theorem Side.other_ne (t : Side) : t.other ≠ t := by
  cases t <;> decide

@[simp] theorem LockState.go_held_self : (s.go t h l).held t = h := Function.update_self ..
@[simp] theorem LockState.go_todo_self : (s.go t h l).todo t = l := Function.update_self ..
@[simp] theorem LockState.go_held_other : (s.go t h l).held t.other = s.held t.other := Function.update_of_ne (Side.other_ne t) ..
@[simp] theorem LockState.go_todo_other : (s.go t h l).todo t.other = s.todo t.other := Function.update_of_ne (Side.other_ne t) ..

/-- One thread has something else, and the flags are `w`. -/
theorem LockInv.go (hs : LockInv s) {w : β → Bool} (fine : Fine t h l) (own : h.Own t) (apart : h.Apart (s.held t.other))
    (flag : ∀ b, w b = true → b ∈ h.writing ∨ b ∈ (s.held t.other).writing) :
    LockInv ({ s with writingBack := w }.go t h l) where
  fine t' := by
    by_cases ht : t' = t
    · rw [ht, LockState.go_held_self, LockState.go_todo_self]
      exact fine
    · rw [SharedStorage.Side.eq_other ht, LockState.go_held_other, LockState.go_todo_other]
      exact hs.fine t.other
  own t' := by
    by_cases ht : t' = t
    · rw [ht, LockState.go_held_self]
      exact own
    · rw [SharedStorage.Side.eq_other ht, LockState.go_held_other]
      exact hs.own t.other
  apart t' := by
    by_cases ht : t' = t
    · rw [ht, LockState.go_held_self, LockState.go_held_other]
      exact apart
    · rw [SharedStorage.Side.eq_other ht, Side.other_other, LockState.go_held_self, LockState.go_held_other]
      exact apart.symm
  flag b hb := by
    obtain hh | ho := flag b hb
    · exact ⟨t, by rw [LockState.go_held_self]; exact hh⟩
    · exact ⟨t.other, by rw [LockState.go_held_other]; exact ho⟩

/-- The flags as they are. -/
theorem LockInv.flag_of (hs : LockInv s) (t : Side) (hwriting : h.writing = (s.held t).writing) (b : β) (hb : s.writingBack b = true) :
    b ∈ h.writing ∨ b ∈ (s.held t.other).writing := by
  obtain ⟨t', ht'⟩ := hs.flag b hb
  by_cases ht : t' = t
  · left
    rw [hwriting, ← ht]
    exact ht'
  · right
    rwa [← SharedStorage.Side.eq_other ht]

/-- A thread that goes on, with less to do. -/
def Advances (s : LockState β φ) (t : Side) (s' : LockState β φ) (n : Nat) : Prop :=
  (s'.todo t).length ≤ n ∧ s'.todo t.other = s.todo t.other

theorem advances_go {w : β → Bool} {n : Nat} (hn : l.length ≤ n) : Advances s t ({ s with writingBack := w }.go t h l) n :=
  ⟨by rw [LockState.go_todo_self]; exact hn, LockState.go_todo_other⟩

variable {rest : List (LockStep β φ)}

/-- What the next step of a thread does: it has a result, and if the thread does not have to wait there is less to do. -/
def Proceeds (s : LockState β φ) (t : Side) (rest : List (LockStep β φ)) (a : LockStep β φ) : Prop :=
  ∃ s', s.perform t rest a = some s' ∧ LockInv s' ∧ (s.Free t a → Advances s t s' rest.length)

/-- A thread that goes on. -/
theorem Proceeds.go {w : β → Bool} {a : LockStep β φ} (hperform : s.perform t rest a = some ({ s with writingBack := w }.go t h rest))
    (hinv : LockInv ({ s with writingBack := w }.go t h rest)) : Proceeds s t rest a :=
  ⟨_, hperform, hinv, fun _ => advances_go (Nat.le_refl _)⟩

theorem LockInv.metalock (hs : LockInv s) {b : β} (hfine : Fine t (s.held t) (.metalock b :: rest)) :
    Proceeds s t rest (.metalock b) := by
  cases hfine with
  | metalock hfile hb halone hrest =>
      have ha := hs.apart t
      have ho := hs.own t
      by_cases hother : b ∈ (s.held t.other).metas
      · refine ⟨s, ?_, hs, fun hfree => absurd hother hfree⟩
        simp only [LockState.perform, if_neg hb, if_pos hother]
      · refine Proceeds.go (w := s.writingBack) (h := (s.held t).takeMeta b) ?_ ?_
        · simp only [LockState.perform, if_neg hb, if_neg hother]
        refine hs.go hrest ⟨?_, ?_, ho.background⟩ { ha with metas := ?_ } (hs.flag_of t rfl)
        · intro c hc
          exact (ho.covered c hc).imp_left Finset.mem_insert_of_mem
        · intro c hc
          exact Finset.mem_insert_of_mem (ho.checked c hc)
        · intro c hc
          obtain rfl | hc := Finset.mem_insert.mp hc
          · exact hother
          · exact ha.metas c hc

/-- Without the mutex of a block that is not locked for writing, or receiving. -/
theorem LockInv.giveMeta (hs : LockInv s) {b : β} (hwr : b ∈ (s.held t).wr → b ∈ (s.held t).receiving)
    (hrest : Fine t ((s.held t).giveMeta b) l) : LockInv (s.go t ((s.held t).giveMeta b) l) := by
  have ha := hs.apart t
  have ho := hs.own t
  refine hs.go (w := s.writingBack) hrest ⟨?_, ?_, ho.background⟩ { ha with metas := ?_, checked := ?_ } (hs.flag_of t rfl)
  · intro c hc
    by_cases hcb : c = b
    · exact .inr (hcb ▸ hwr (hcb ▸ hc))
    · exact (ho.covered c hc).imp_left fun hm => Finset.mem_erase.mpr ⟨hcb, hm⟩
  · intro c hc
    obtain ⟨hcb, hc⟩ := Finset.mem_erase.mp hc
    exact Finset.mem_erase.mpr ⟨hcb, ho.checked c hc⟩
  · intro c hc
    exact ha.metas c (Finset.mem_of_mem_erase hc)
  · intro c hc
    exact ha.checked c (Finset.mem_of_mem_erase hc)

theorem LockInv.metaunlock (hs : LockInv s) {b : β} (hfine : Fine t (s.held t) (.metaunlock b :: rest)) :
    Proceeds s t rest (.metaunlock b) := by
  cases hfine with
  | metaunlock hfile hb hwr hrest =>
      refine Proceeds.go (w := s.writingBack) ?_ (hs.giveMeta hwr hrest)
      simp only [LockState.perform, if_pos hb]

/-- What is not receiving is not locked for writing, once its mutex is held. -/
theorem LockInv.readable (hs : LockInv s) {b : β} (hb : b ∈ (s.held t).metas) (hchecked : t = .background → b ∈ (s.held t).checked) :
    b ∉ (s.held t.other).wr := by
  intro hwr
  cases t with
  | background =>
      obtain hm | hr := (hs.own .foreground).covered b hwr
      · exact (hs.apart .background).metas b hb hm
      · exact (hs.apart .background).checked b (hchecked rfl) hr
  | foreground =>
      have hnone := ((hs.own .background).background rfl).1
      have hmem : b ∈ (s.held .background).wr := hwr
      rw [hnone] at hmem
      exact absurd hmem (Finset.notMem_empty b)

theorem LockInv.dataRdlock (hs : LockInv s) {b : β} (hfine : Fine t (s.held t) (.dataRdlock b :: rest)) :
    Proceeds s t rest (.dataRdlock b) := by
  cases hfine with
  | dataRdlock hfile hb hrd hwr hchecked hrest =>
      have ha := hs.apart t
      have ho := hs.own t
      have hother := hs.readable hb hchecked
      refine Proceeds.go (w := s.writingBack) (h := { s.held t with rd := insert b (s.held t).rd }) ?_ ?_
      · simp only [LockState.perform, hrd, hwr, or_self, if_false, if_neg hother]
      refine hs.go hrest ⟨ho.covered, ho.checked, ho.background⟩ { ha with rd := ?_ } (hs.flag_of t rfl)
      intro c hc
      obtain rfl | hc := Finset.mem_insert.mp hc
      · exact hother
      · exact ha.rd c hc

theorem LockInv.dataWrlock (hs : LockInv s) {b : β} (hfine : Fine t (s.held t) (.dataWrlock b :: rest)) :
    Proceeds s t rest (.dataWrlock b) := by
  have hfine' := hfine
  cases hfine with
  | dataWrlock ht hfile hb hrd hwr hchecked hrest =>
      have ha := hs.apart t
      have ho := hs.own t
      by_cases hother : b ∈ (s.held t.other).rd ∨ b ∈ (s.held t.other).wr
      · -- the mutex is given back, and the same step is before the thread again
        refine ⟨s.go t ((s.held t).giveMeta b) (.metalock b :: .dataWrlock b :: rest), ?_, hs.giveMeta (fun hc => absurd hc hwr) ?_,
          fun hfree => ?_⟩
        · simp only [LockState.perform, LockState.backOff, hrd, hwr, or_self, if_false, if_pos hother, if_pos hb]
        · refine .metalock hfile (Finset.notMem_erase b _) (fun hc => ?_) ?_
          · rw [ht] at hc
            cases hc
          · have hsame : ((s.held t).giveMeta b).takeMeta b = s.held t := by
              ext1 <;> simp [Held.giveMeta, Held.takeMeta, Finset.insert_erase hb, Finset.erase_eq_of_notMem hchecked]
            rw [hsame]
            exact hfine'
        · obtain ho | ho := hother
          · exact absurd ho hfree.1
          · exact absurd ho hfree.2
      · refine Proceeds.go (w := s.writingBack) (h := { s.held t with wr := insert b (s.held t).wr }) ?_ ?_
        · simp only [LockState.perform, hrd, hwr, or_self, if_false, if_neg hother]
        refine hs.go hrest ⟨?_, ho.checked, fun hc => ?_⟩ { ha with wr := ?_ } (hs.flag_of t rfl)
        · intro c hc
          obtain rfl | hc := Finset.mem_insert.mp hc
          · exact .inl hb
          · exact ho.covered c hc
        · rw [ht] at hc
          cases hc
        · intro c hc
          obtain rfl | hc := Finset.mem_insert.mp hc
          · exact not_or.mp hother
          · exact ha.wr c hc

theorem LockInv.dataunlock (hs : LockInv s) {b : β} (hfine : Fine t (s.held t) (.dataunlock b :: rest)) :
    Proceeds s t rest (.dataunlock b) := by
  cases hfine with
  | dataunlock hfile hb hrest =>
      have ha := hs.apart t
      have ho := hs.own t
      refine Proceeds.go (w := s.writingBack) (h := { s.held t with rd := (s.held t).rd.erase b, wr := (s.held t).wr.erase b }) ?_ ?_
      · simp only [LockState.perform, if_pos hb]
      refine hs.go hrest ⟨?_, ho.checked, fun hc => ?_⟩ { ha with rd := ?_, wr := ?_ } (hs.flag_of t rfl)
      · intro c hc
        exact ho.covered c (Finset.mem_of_mem_erase hc)
      · obtain ⟨hwr, hreceiving⟩ := ho.background hc
        refine ⟨?_, hreceiving⟩
        simp [hwr]
      · intro c hc
        exact ha.rd c (Finset.mem_of_mem_erase hc)
      · intro c hc
        exact ha.wr c (Finset.mem_of_mem_erase hc)

theorem LockInv.lock (hs : LockInv s) {f : φ} (hfine : Fine t (s.held t) (.lock f :: rest)) : Proceeds s t rest (.lock f) := by
  cases hfine with
  | lock hfile hrest =>
      have ha := hs.apart t
      have ho := hs.own t
      by_cases hother : (s.held t.other).file = some f
      · refine ⟨s, ?_, hs, fun hfree => absurd hother hfree⟩
        simp [LockState.perform, hfile, hother]
      · refine Proceeds.go (w := s.writingBack) (h := { s.held t with file := some f }) ?_ ?_
        · simp [LockState.perform, hfile, hother]
        refine hs.go hrest ⟨ho.covered, ho.checked, ho.background⟩ { ha with file := ?_ } (hs.flag_of t rfl)
        intro g hg
        rw [Option.some.injEq] at hg
        exact hg ▸ hother

theorem LockInv.unlock (hs : LockInv s) {f : φ} (hfine : Fine t (s.held t) (.unlock f :: rest)) : Proceeds s t rest (.unlock f) := by
  cases hfine with
  | unlock hfile hrest =>
      have ha := hs.apart t
      have ho := hs.own t
      refine Proceeds.go (w := s.writingBack) (h := { s.held t with file := none }) ?_ ?_
      · simp only [LockState.perform, if_pos hfile]
      refine hs.go hrest ⟨ho.covered, ho.checked, ho.background⟩ { ha with file := ?_ } (hs.flag_of t rfl)
      intro g hg
      cases hg

theorem LockInv.setWriting (hs : LockInv s) {b : β} (hfine : Fine t (s.held t) (.setWriting b :: rest)) :
    Proceeds s t rest (.setWriting b) := by
  cases hfine with
  | setWriting hfile hrest =>
      have ha := hs.apart t
      have ho := hs.own t
      refine Proceeds.go rfl (hs.go hrest ⟨ho.covered, ho.checked, ho.background⟩ { ha with } ?_)
      intro c hc
      by_cases hcb : c = b
      · exact .inl (Finset.mem_insert.mpr (.inl hcb))
      · rw [Function.update_of_ne hcb] at hc
        exact (hs.flag_of t rfl c hc).imp_left Finset.mem_insert_of_mem

theorem LockInv.unsetWriting (hs : LockInv s) {b : β} (hfine : Fine t (s.held t) (.unsetWriting b :: rest)) :
    Proceeds s t rest (.unsetWriting b) := by
  cases hfine with
  | unsetWriting hfile hrest =>
      have ha := hs.apart t
      have ho := hs.own t
      refine Proceeds.go rfl (hs.go hrest ⟨ho.covered, ho.checked, ho.background⟩ { ha with } ?_)
      intro c hc
      by_cases hcb : c = b
      · rw [hcb, Function.update_self] at hc
        cases hc
      · rw [Function.update_of_ne hcb] at hc
        exact (hs.flag_of t rfl c hc).imp_left fun hw => Finset.mem_erase.mpr ⟨hcb, hw⟩

theorem LockInv.awaitWriting (hs : LockInv s) {b : β} (hfine : Fine t (s.held t) (.awaitWriting b :: rest)) :
    Proceeds s t rest (.awaitWriting b) := by
  cases hfine with
  | awaitWriting ht hfile hwriting hrest =>
      have ho := hs.own t
      by_cases hb : s.writingBack b = true
      · refine ⟨s, ?_, hs, fun hfree => absurd hfree (by simp [LockState.Free, hb])⟩
        simp only [LockState.perform, if_pos hb]
      · refine Proceeds.go (w := s.writingBack) (h := s.held t) ?_ ?_
        · simp only [LockState.perform, if_neg hb]
        exact hs.go hrest ho (hs.apart t) (hs.flag_of t rfl)

theorem LockInv.test (hs : LockInv s) {b : β} {skip : Nat} (hfine : Fine t (s.held t) (.test b skip :: rest)) :
    Proceeds s t rest (.test b skip) := by
  cases hfine with
  | test hfile hb hskip hreceiving hrest =>
      have ha := hs.apart t
      have ho := hs.own t
      by_cases hset : b ∈ (s.held t).receiving ∨ b ∈ (s.held t.other).receiving
      · refine ⟨s.go t (s.held t) (.metaunlock b :: rest.drop skip), ?_, ?_, fun _ => ?_⟩
        · simp only [LockState.perform, if_pos hset]
        · exact hs.go (w := s.writingBack) hreceiving ho ha (hs.flag_of t rfl)
        · refine advances_go (w := s.writingBack) ?_
          rw [List.length_cons, List.length_drop]
          omega
      · refine Proceeds.go (w := s.writingBack) (h := { s.held t with checked := insert b (s.held t).checked }) ?_ ?_
        · simp only [LockState.perform, if_neg hset]
        refine hs.go hrest ⟨ho.covered, ?_, ho.background⟩ { ha with checked := ?_ } (hs.flag_of t rfl)
        · intro c hc
          obtain rfl | hc := Finset.mem_insert.mp hc
          · exact hb
          · exact ho.checked c hc
        · intro c hc
          obtain rfl | hc := Finset.mem_insert.mp hc
          · exact (not_or.mp hset).2
          · exact ha.checked c hc

theorem LockInv.setReceiving (hs : LockInv s) {b : β} (hfine : Fine t (s.held t) (.setReceiving b :: rest)) :
    Proceeds s t rest (.setReceiving b) := by
  cases hfine with
  | setReceiving ht hfile hb hrest =>
      have ha := hs.apart t
      have ho := hs.own t
      refine Proceeds.go (w := s.writingBack) rfl
        (hs.go hrest ⟨?_, ho.checked, fun hc => ?_⟩ { ha with receiving := ?_ } (hs.flag_of t rfl))
      · intro c hc
        exact (ho.covered c hc).imp_right Finset.mem_insert_of_mem
      · rw [ht] at hc
        cases hc
      · intro c hc
        obtain rfl | hc := Finset.mem_insert.mp hc
        · -- who has looked at it has its mutex
          intro hchecked
          exact ha.metas c hb ((hs.own t.other).checked c hchecked)
        · exact ha.receiving c hc

theorem LockInv.unsetReceiving (hs : LockInv s) {b : β} (hfine : Fine t (s.held t) (.unsetReceiving b :: rest)) :
    Proceeds s t rest (.unsetReceiving b) := by
  cases hfine with
  | unsetReceiving hfile hb hrest =>
      have ha := hs.apart t
      have ho := hs.own t
      refine Proceeds.go (w := s.writingBack) rfl
        (hs.go hrest ⟨?_, ho.checked, fun hc => ?_⟩ { ha with receiving := ?_ } (hs.flag_of t rfl))
      · intro c hc
        by_cases hcb : c = b
        · exact .inl (hcb ▸ hb)
        · exact (ho.covered c hc).imp_right fun hr => Finset.mem_erase.mpr ⟨hcb, hr⟩
      · obtain ⟨hwr, hreceiving⟩ := ho.background hc
        refine ⟨hwr, ?_⟩
        simp [hreceiving]
      · intro c hc
        exact ha.receiving c (Finset.mem_of_mem_erase hc)

/-- **One step**, whichever it is. -/
theorem LockInv.perform (hs : LockInv s) {a : LockStep β φ} (hfine : Fine t (s.held t) (a :: rest)) : Proceeds s t rest a := by
  cases a with
  | metalock b => exact hs.metalock hfine
  | metaunlock b => exact hs.metaunlock hfine
  | dataRdlock b => exact hs.dataRdlock hfine
  | dataWrlock b => exact hs.dataWrlock hfine
  | dataunlock b => exact hs.dataunlock hfine
  | lock f => exact hs.lock hfine
  | unlock f => exact hs.unlock hfine
  | setWriting b => exact hs.setWriting hfine
  | unsetWriting b => exact hs.unsetWriting hfine
  | awaitWriting b => exact hs.awaitWriting hfine
  | test b skip => exact hs.test hfine
  | setReceiving b => exact hs.setReceiving hfine
  | unsetReceiving b => exact hs.unsetReceiving hfine

/-- A thread's turn has a result, if only that it still waits. -/
theorem LockInv.step (hs : LockInv s) (t : Side) : ∃ s', s.step t = some s' ∧ LockInv s' := by
  cases htodo : s.todo t with
  | nil =>
      refine ⟨s, ?_, hs⟩
      unfold LockState.step
      rw [htodo]
  | cons a rest =>
      obtain ⟨s', hperform, hs', -⟩ := hs.perform (htodo ▸ hs.fine t)
      refine ⟨s', ?_, hs'⟩
      unfold LockState.step
      rw [htodo]
      exact hperform

end Step

/-! ## One of them can go on -/

section Moves

variable {s : LockState β φ} {t : Side} {a : LockStep β φ} {rest : List (LockStep β φ)}

theorem LockInv.nothing_of_nil (hs : LockInv s) (htodo : s.todo t = []) : s.held t = Held.nothing := by
  have hfine := hs.fine t
  rw [htodo] at hfine
  cases hfine with
  | done hnothing => exact hnothing

/-- Nobody waits for a thread that has nothing. -/
theorem LockInv.free_of_nothing (hs : LockInv s) (hfine : Fine t (s.held t) (a :: rest)) (hother : s.held t.other = Held.nothing) :
    s.Free t a := by
  cases hfine <;> simp only [LockState.Free, hother, Held.nothing, Finset.notMem_empty, not_false_eq_true, and_self, reduceCtorEq,
    ne_eq]
  case awaitWriting b ht hfile hwriting hrest =>
    rw [Bool.eq_false_iff]
    intro hb
    obtain hw | hw := hs.flag_of t rfl b hb
    · rw [hwriting] at hw
      exact absurd hw (Finset.notMem_empty b)
    · rw [hother] at hw
      exact absurd hw (Finset.notMem_empty b)

/-- **What the background waits for**: a mutex, with nothing in hand, or a file that the handler has locked. -/
theorem LockInv.background_waits (hs : LockInv s) (hfine : Fine .background (s.held .background) (a :: rest))
    (hwaits : ¬ s.Free .background a) : s.held .background = Held.nothing ∨ ∃ f, (s.held .foreground).file = some f := by
  cases hfine with
  | metalock hfile hb halone hrest => exact .inl (halone rfl)
  | lock hfile hrest => exact .inr ⟨_, not_not.mp hwaits⟩
  | dataRdlock hfile hb hrd hwr hchecked hrest => exact absurd (hs.readable hb hchecked) hwaits
  | dataWrlock ht => cases ht
  | awaitWriting ht => cases ht
  | _ => exact absurd trivial hwaits

/-- Under the lock of a file, the next step gives it back. -/
theorem LockInv.free_of_file (hs : LockInv s) {f : φ} (hf : (s.held t).file = some f) :
    ∃ a rest, s.todo t = a :: rest ∧ s.Free t a := by
  have hfine := hs.fine t
  cases htodo : s.todo t with
  | nil =>
      rw [hs.nothing_of_nil htodo] at hf
      cases hf
  | cons a rest =>
      refine ⟨a, rest, rfl, ?_⟩
      rw [htodo] at hfine
      cases hfine with
      | unlock => trivial
      | _ => simp_all

/-- **No deadlock**: while there is something to do, one of them can go on. -/
theorem LockInv.moves (hs : LockInv s) (hsome : ¬ ∀ t, s.todo t = []) : ∃ t a rest, s.todo t = a :: rest ∧ s.Free t a := by
  have hfore : s.held .background = Held.nothing → ∀ a rest, s.todo .foreground = a :: rest → s.Free .foreground a := by
    intro hnothing a rest htodo
    have hfine := hs.fine .foreground
    rw [htodo] at hfine
    exact hs.free_of_nothing hfine hnothing
  cases hback : s.todo .background with
  | nil =>
      cases htodo : s.todo .foreground with
      | nil =>
          refine absurd (fun t => ?_) hsome
          cases t with
          | foreground => exact htodo
          | background => exact hback
      | cons a rest => exact ⟨.foreground, a, rest, htodo, hfore (hs.nothing_of_nil hback) a rest htodo⟩
  | cons a rest =>
      have hfine := hs.fine .background
      rw [hback] at hfine
      by_cases hfree : s.Free .background a
      · exact ⟨.background, a, rest, hback, hfree⟩
      obtain hnothing | ⟨f, hf⟩ := hs.background_waits hfine hfree
      · cases htodo : s.todo .foreground with
        | nil => exact absurd (hs.free_of_nothing hfine (hs.nothing_of_nil htodo)) hfree
        | cons a' rest' => exact ⟨.foreground, a', rest', htodo, hfore hnothing a' rest' htodo⟩
      · obtain ⟨a', rest', htodo, hfree'⟩ := hs.free_of_file hf
        exact ⟨.foreground, a', rest', htodo, hfree'⟩

/-- How much there is to do. -/
def LockState.ahead (s : LockState β φ) : Nat := (s.todo .foreground).length + (s.todo .background).length

theorem Advances.ahead_lt {s' : LockState β φ} (h : Advances s t s' rest.length) (htodo : s.todo t = a :: rest) : s'.ahead < s.ahead := by
  obtain ⟨hlength, hother⟩ := h
  have hself := congrArg List.length htodo
  rw [List.length_cons] at hself
  unfold LockState.ahead
  cases t with
  | foreground =>
      have ho : s'.todo .background = s.todo .background := hother
      rw [ho]
      omega
  | background =>
      have ho : s'.todo .foreground = s.todo .foreground := hother
      rw [ho]
      omega

end Moves

/-! ## The programs keep the discipline -/

section Programs

variable {fileOf : β → φ} {t : Side} {h : Held β φ} {l : List (LockStep β φ)} {b : β}

/-- A thread has nothing of a block. -/
structure Held.Without (h : Held β φ) (b : β) : Prop where
  metas : b ∉ h.metas
  rd : b ∉ h.rd
  wr : b ∉ h.wr
  writing : b ∉ h.writing
  checked : b ∉ h.checked

theorem Held.without_nothing (b : β) : (Held.nothing : Held β φ).Without b := by
  constructor <;> exact Finset.notMem_empty b

/-- A mutex that is taken and given back. -/
theorem Held.Without.giveMeta_takeMeta (hb : h.Without b) : (h.takeMeta b).giveMeta b = h := by
  ext1 <;> simp [Held.giveMeta, Held.takeMeta, Finset.erase_insert hb.metas, Finset.erase_eq_of_notMem hb.checked]

theorem Fine.underFileLock {f : φ} (hfile : h.file = none) (hl : Fine t h l) : Fine t h (underFileLock f ++ l) := by
  refine .lock hfile (.unlock rfl ?_)
  have hsame : ({ h with file := none } : Held β φ) = h := by
    ext1 <;> simp [hfile]
  rw [hsame]
  exact hl

theorem Fine.writeBlock {d : Bool} (hb : h.Without b) (hfile : h.file = none) (hl : Fine t h l) :
    Fine t { h.takeMeta b with checked := insert b h.checked } (writeBlock fileOf b d ++ l) := by
  have hmeta : b ∈ (h.takeMeta b).metas := Finset.mem_insert_self b _
  unfold HuronFS.writeBlock
  rw [List.append_assoc]
  refine Fine.underFileLock hfile ?_
  cases d with
  | true =>
      refine .metaunlock hfile hmeta (fun hwr => absurd hwr hb.wr) ?_
      have hsame : Held.giveMeta { h.takeMeta b with checked := insert b h.checked } b = h := by
        ext1 <;> simp [Held.giveMeta, Held.takeMeta, Finset.erase_insert hb.metas, Finset.erase_insert hb.checked]
      rw [hsame]
      exact Fine.underFileLock hfile hl
  | false =>
      refine .setWriting hfile (.dataRdlock hfile hmeta hb.rd hb.wr (fun _ => Finset.mem_insert_self b _) ?_)
      refine .metaunlock hfile hmeta (fun hwr => absurd hwr hb.wr) (.unsetWriting hfile ?_)
      refine .dataunlock hfile (.inl (Finset.mem_insert_self b _)) ?_
      -- everything taken is given back
      have hsame : ∀ k : Held β φ, k = h → Fine t k (HuronFS.underFileLock (fileOf b) ++ (HuronFS.underFileLock (fileOf b) ++ l)) := by
        rintro k rfl
        exact Fine.underFileLock hfile (Fine.underFileLock hfile hl)
      refine hsame _ ?_
      ext1 <;> simp [Held.giveMeta, Held.takeMeta, Finset.erase_insert hb.metas, Finset.erase_insert hb.checked,
        Finset.erase_insert hb.rd, Finset.erase_eq_of_notMem hb.wr, Finset.erase_insert hb.writing]

theorem Fine.writeToStorage {d : Bool} (hb : h.Without b) (hfile : h.file = none) (halone : t = .background → h = Held.nothing)
    (hl : Fine t h l) : Fine t h (writeToStorage fileOf b d ++ l) := by
  have hmeta : b ∈ (h.takeMeta b).metas := Finset.mem_insert_self b _
  unfold HuronFS.writeToStorage
  rw [List.cons_append, List.cons_append]
  refine .metalock hfile hb.metas halone (.test hfile hmeta ⟨?_, ?_⟩ ?_ (Fine.writeBlock hb hfile hl))
  · unfold HuronFS.writeBlock HuronFS.underFileLock
    simp
  · rw [List.length_append]
    exact Nat.le_add_right _ _
  · -- the operator chooses again
    refine .metaunlock hfile hmeta (fun hwr => absurd hwr hb.wr) ?_
    rw [hb.giveMeta_takeMeta, List.drop_left]
    exact hl

theorem Fine.swapOutBlock {v : Victim β} (hb : h.Without v.block) (hfile : h.file = none) (hwriting : h.writing = ∅)
    (hl : Fine .foreground h l) : Fine .foreground h (swapOutBlock fileOf v ++ l) := by
  have hno : Side.foreground = .background → h = Held.nothing := fun hc => nomatch hc
  have hmeta : v.block ∈ (h.takeMeta v.block).metas := Finset.mem_insert_self _ _
  unfold HuronFS.swapOutBlock
  rw [List.append_assoc, List.append_assoc]
  refine .metalock hfile hb.metas hno (.metaunlock hfile hmeta (fun hwr => absurd hwr hb.wr) ?_)
  rw [hb.giveMeta_takeMeta]
  -- `free_data`, whether or not the block was written
  have hfree : Fine .foreground h ([.metalock v.block, .awaitWriting v.block, .dataWrlock v.block, .dataunlock v.block,
      .metaunlock v.block] ++ l) := by
    refine .metalock hfile hb.metas hno (.awaitWriting rfl hfile hwriting (.dataWrlock rfl hfile hmeta hb.rd hb.wr hb.checked ?_))
    refine .dataunlock hfile (.inr (Finset.mem_insert_self _ _)) (.metaunlock hfile hmeta (fun hwr => ?_) ?_)
    · exact absurd hwr (Finset.notMem_erase _ _)
    · have hsame : ∀ k : Held β φ, k = h → Fine .foreground k l := by
        rintro k rfl
        exact hl
      refine hsame _ ?_
      ext1 <;> simp [Held.giveMeta, Held.takeMeta, Finset.erase_insert hb.metas, Finset.erase_eq_of_notMem hb.checked,
        Finset.erase_eq_of_notMem hb.rd, Finset.erase_insert hb.wr]
  cases v.dirty with
  | true => exact Fine.writeToStorage hb hfile hno hfree
  | false => exact hfree

theorem Fine.allocate {victims : List (Victim β)} {reload : Bool} (hb : ∀ v ∈ victims, h.Without v.block) (hfile : h.file = none)
    (hwriting : h.writing = ∅) (hl : Fine .foreground h l) : Fine .foreground h (allocate fileOf b victims reload ++ l) := by
  unfold HuronFS.allocate
  rw [List.append_assoc]
  have hread : Fine .foreground h ((if reload then HuronFS.underFileLock (fileOf b) ++ HuronFS.underFileLock (fileOf b) else []) ++ l) := by
    cases reload with
    | true => exact Fine.underFileLock hfile (Fine.underFileLock hfile hl)
    | false => exact hl
  induction victims with
  | nil => exact hread
  | cons v victims ih =>
      rw [List.flatMap_cons, List.append_assoc]
      exact Fine.swapOutBlock (hb v List.mem_cons_self) hfile hwriting (ih fun w hw => hb w (List.mem_cons_of_mem v hw))

/-- One job begins with nothing, and ends with nothing. -/
theorem Fine.job {j : Job β φ} (hj : j.Good) (hl : Fine .foreground Held.nothing l) :
    Fine .foreground Held.nothing (j.steps fileOf ++ l) := by
  have hno : Side.foreground = .background → (Held.nothing : Held β φ) = Held.nothing := fun _ => rfl
  cases j with
  | send b victims reload =>
      unfold Job.steps
      rw [List.append_assoc, List.append_assoc]
      refine .metalock rfl (Finset.notMem_empty b) hno (.dataRdlock rfl (Finset.mem_insert_self b _) (Finset.notMem_empty b)
        (Finset.notMem_empty b) (fun hc => nomatch hc) ?_)
      refine Fine.allocate (fun v hv => ?_) rfl rfl ?_
      · have hne := hj v hv
        constructor <;> simp [Held.takeMeta, Held.nothing, hne]
      · refine .metaunlock rfl (Finset.mem_insert_self b _) (fun hwr => absurd hwr (Finset.notMem_empty b)) ?_
        refine .dataunlock rfl (.inl (Finset.mem_insert_self b _)) ?_
        simpa [Held.giveMeta, Held.takeMeta, Held.nothing] using hl
  | receive b victims reload newlyDirty =>
      unfold Job.steps
      simp only [List.append_assoc]
      refine .metalock rfl (Finset.notMem_empty b) hno ?_
      refine Fine.allocate (fun v hv => ?_) rfl rfl ?_
      · have hne := hj v hv
        constructor <;> simp [Held.takeMeta, Held.nothing, hne]
      · refine .dataWrlock rfl rfl (Finset.mem_insert_self b _) (Finset.notMem_empty b) (Finset.notMem_empty b) (Finset.notMem_empty b) ?_
        refine .setReceiving rfl rfl (Finset.mem_insert_self b _) ?_
        -- `finish_transfer`, under no mutex at first
        have htail : Fine .foreground ⟨{b}, none, ∅, {b}, ∅, {b}, ∅⟩
            ([.metaunlock b, .metalock b, .unsetReceiving b, .dataunlock b, .metaunlock b] ++ l) := by
          refine .metaunlock rfl (Finset.mem_singleton_self b) (fun _ => Finset.mem_singleton_self b) ?_
          refine .metalock rfl (Finset.notMem_erase b _) (fun hc => nomatch hc) ?_
          refine .unsetReceiving rfl (Finset.mem_insert_self b _) (.dataunlock rfl (.inr (Finset.mem_singleton_self b)) ?_)
          refine .metaunlock rfl (Finset.mem_insert_self b _) (fun hwr => absurd hwr (Finset.notMem_erase b _)) ?_
          simpa [Held.giveMeta, Held.takeMeta, Held.nothing] using hl
        cases newlyDirty with
        | true => exact Fine.underFileLock rfl htail
        | false => exact htail
  | close f => exact Fine.underFileLock rfl hl

/-- **In the beginning**, with jobs for the handler and blocks for the background. -/
theorem LockInv.start {jobs : List (Job β φ)} (hjobs : ∀ j ∈ jobs, j.Good) (queue : List (β × Bool)) :
    LockInv (LockState.start fileOf jobs queue) where
  fine t := by
    cases t with
    | foreground =>
        change Fine .foreground Held.nothing (jobs.flatMap (Job.steps fileOf))
        induction jobs with
        | nil => exact .done rfl
        | cons j jobs ih => exact Fine.job (hjobs j List.mem_cons_self) (ih fun k hk => hjobs k (List.mem_cons_of_mem j hk))
    | background =>
        change Fine .background Held.nothing (queue.flatMap fun e => HuronFS.writeToStorage fileOf e.1 e.2)
        induction queue with
        | nil => exact .done rfl
        | cons e queue ih => exact Fine.writeToStorage (Held.without_nothing e.1) rfl (fun _ => rfl) ih
  own t := by
    constructor <;> simp [LockState.start, Held.nothing]
  apart t := by
    constructor <;> simp [LockState.start, Held.nothing]
  flag b hb := by cases hb

end Programs

/-! ## The locks never come to a deadlock -/

/-- **From every state that the handler and the background can come to, both can finish.** The handler sends, receives and closes, the
    background writes blocks back, both in any order of their steps; no lock is taken twice by one thread, or given back by who does not
    have it; and at the end nothing is locked. -/
theorem locks_never_deadlock (fileOf : β → φ) {jobs : List (Job β φ)} (hjobs : ∀ j ∈ jobs, j.Good) (queue : List (β × Bool))
    (schedule : List Side) :
    ∃ s, Run.run LockState.step (LockState.start fileOf jobs queue) schedule = some s ∧
      ∃ more s', Run.run LockState.step s more = some s' ∧ more.length ≤ s.ahead ∧ ∀ t, s'.todo t = [] ∧ s'.held t = Held.nothing := by
  have hguard : ∀ (s : LockState β φ) es, Run.Guarded LockState.step (fun _ _ => True) s es :=
    fun s es => Run.Guarded.of_forall fun _ _ => trivial
  obtain ⟨s, hrun, hs⟩ := Run.run_progress (fun s t hs _ => hs.step t) (LockInv.start hjobs queue) (hguard _ schedule)
  refine ⟨s, hrun, ?_⟩
  have hmoves : ∀ s : LockState β φ, LockInv s → ¬ (∀ t, s.todo t = []) →
      ∃ t s', True ∧ s.step t = some s' ∧ LockInv s' ∧ s'.ahead < s.ahead := by
    intro s hs hsome
    obtain ⟨t, a, rest, htodo, hfree⟩ := hs.moves hsome
    obtain ⟨s', hperform, hs', hadvances⟩ := hs.perform (htodo ▸ hs.fine t)
    refine ⟨t, s', trivial, ?_, hs', (hadvances hfree).ahead_lt htodo⟩
    unfold LockState.step
    rw [htodo]
    exact hperform
  obtain ⟨more, s', -, hmore, hs', hdone, hlength⟩ := Run.run_reaches hmoves hs
  exact ⟨more, s', hmore, hlength, fun t => ⟨hdone t, hs'.nothing_of_nil (hdone t)⟩⟩

/-- The handler makes room for block 2 and comes to block 1 while the background writes it: it waits with both mutexes. -/
theorem locks_never_deadlock_writing_back :
    (Run.run LockState.step (LockState.start (fun _ : Nat => 0) [.send 2 [⟨1, false, false⟩] true, .receive 1 [] true true, .close 0]
        [(1, false)]) (List.replicate 7 .background ++ List.replicate 6 .foreground)).map
      (fun s => (s.writingBack 1, (s.held .foreground).metas, (s.todo .foreground).head?)) =
        some (true, {1, 2}, some (.awaitWriting 1)) ∧
    ∃ s, Run.run LockState.step (LockState.start (fun _ : Nat => 0)
        [.send 2 [⟨1, false, false⟩] true, .receive 1 [] true true, .close 0] [(1, false)])
        (List.replicate 7 .background ++ List.replicate 6 .foreground) = some s ∧
      ∃ more s', Run.run LockState.step s more = some s' ∧ more.length ≤ s.ahead ∧
        ∀ t, s'.todo t = [] ∧ s'.held t = Held.nothing :=
  ⟨by decide, locks_never_deadlock (fun _ => 0) (by decide) [(1, false)] _⟩

end HuronFS
