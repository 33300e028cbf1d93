import Mathlib.Data.List.Nodup
import Mathlib.Logic.Function.Basic
import Mathlib.Tactic.Common

/-!
# `Common.AccessQueue` — the LRU ring and its dirty list (`CBB_basic_swap.h`)

The pages of an `access_queue` stand in a ring. Those after `tail` and before `head` are in use, the oldest
first; the others, from `head` on to `tail`, wait to be used again and still hold the data pointer they had.
A second list runs through the pages that were pushed or touched as dirty, wherever in the ring they are. A
page is the number it was created under.

`Ok` relates the ring to the things its pages point to: `page a` is the page that `a` itself names
(`writeback_page`), and `live a` says that `a` has not been deleted.
-/

namespace HuronFS

/-- `access_queue`. `data` is the data pointer of each page. -/
structure AccessQueue (α : Type*) where
  tracked : List Nat
  free : List Nat
  dirty : List Nat
  data : Nat → Option α
  created : Nat

namespace AccessQueue

variable {α : Type*}

/-- The constructor: `head` and `tail`, next to each other. -/
def start : AccessQueue α := { tracked := [], free := [0, 1], dirty := [], data := fun _ => none, created := 2 }

/-- `is_full`: no page between `head` and `tail`. -/
def isFull (q : AccessQueue α) : Bool := decide (q.free.length ≤ 2)

/-- `push_dirty_page`. -/
def pushDirtyPage (q : AccessQueue α) (p : Nat) : AccessQueue α :=
  if p ∈ q.dirty then q else { q with dirty := q.dirty ++ [p] }

/-- `del_dirty_page`. -/
def delDirtyPage (q : AccessQueue α) (p : Nat) : AccessQueue α := { q with dirty := q.dirty.erase p }

/-- `push`, before its last step: a page for `a`, a new one or the one at `head`. -/
def track (q : AccessQueue α) (a : α) : Nat × AccessQueue α :=
  match q.isFull, q.free with
  | false, p :: rest =>
      (p, { q with tracked := q.tracked ++ [p], free := rest, data := Function.update q.data p (some a) })
  | _, _ =>
      (q.created, { q with
        tracked := q.tracked ++ [q.created]
        data := Function.update q.data q.created (some a)
        created := q.created + 1 })

/-- `push`. -/
def push (q : AccessQueue α) (a : α) (dirty : Bool) : Nat × AccessQueue α :=
  let (p, q) := q.track a
  (p, if dirty then q.pushDirtyPage p else q)

/-- `pop`: `tail` moves on to the oldest page. -/
def pop (q : AccessQueue α) : Option (Nat × AccessQueue α) :=
  match q.tracked with
  | [] => none
  | p :: rest => some (p, { q with tracked := rest, free := q.free ++ [p] })

/-- `touch`: a page that was in the dirty list stays in it, as its last. -/
def touch (q : AccessQueue α) (p : Nat) (dirty : Bool) : AccessQueue α :=
  let dirtyAlready := decide (p ∈ q.dirty)
  let q := { q with tracked := q.tracked.erase p ++ [p], dirty := q.dirty.erase p }
  if dirty || dirtyAlready then q.pushDirtyPage p else q

/-- `erase`: the page goes right before `tail`. -/
def erase (q : AccessQueue α) (p : Nat) : AccessQueue α :=
  { q with
    tracked := q.tracked.erase p
    free := q.free.dropLast ++ p :: q.free.getLast?.toList
    dirty := q.dirty.erase p }

theorem push_tracked (q : AccessQueue α) (a : α) (dirty : Bool) : (q.push a dirty).2.tracked = q.tracked ++ [(q.push a dirty).1] := by
  have htrack : (q.track a).2.tracked = q.tracked ++ [(q.track a).1] := by
    unfold track
    split <;> rfl
  cases dirty with
  | false => exact htrack
  | true =>
      show ((q.track a).2.pushDirtyPage (q.track a).1).tracked = _
      unfold pushDirtyPage
      split <;> exact htrack

theorem push_dirty (q : AccessQueue α) (a : α) : (q.push a true).1 ∈ (q.push a true).2.dirty := by
  show (q.track a).1 ∈ ((q.track a).2.pushDirtyPage (q.track a).1).dirty
  unfold pushDirtyPage
  split
  · assumption
  · exact List.mem_append_right _ (List.mem_singleton_self _)

/-- No page leaves the dirty list by a `push`. -/
theorem push_dirty_subset (q : AccessQueue α) (a : α) (dirty : Bool) {p : Nat} (hp : p ∈ q.dirty) : p ∈ (q.push a dirty).2.dirty := by
  have htrack : (q.track a).2.dirty = q.dirty := by
    unfold track
    split <;> rfl
  rw [← htrack] at hp
  cases dirty with
  | false => exact hp
  | true =>
      show p ∈ ((q.track a).2.pushDirtyPage (q.track a).1).dirty
      unfold pushDirtyPage
      split
      · exact hp
      · exact List.mem_append_left _ hp

/-- A page that waits is used before a new one is made. -/
theorem push_reuses (q : AccessQueue α) (a : α) (dirty : Bool) (h : q.isFull = false) :
    (q.push a dirty).2.created = q.created ∧ (q.push a dirty).1 ∈ q.free := by
  have htrack : (q.track a).2.created = q.created ∧ (q.track a).1 ∈ q.free := by
    unfold track
    unfold isFull at h
    cases hfree : q.free with
    | nil =>
        rw [hfree] at h
        simp at h
    | cons p rest =>
        rw [hfree] at h
        rw [isFull, hfree, h]
        exact ⟨rfl, List.mem_cons_self⟩
  refine ⟨?_, htrack.2⟩
  show (if dirty then (q.track a).2.pushDirtyPage (q.track a).1 else (q.track a).2).created = _
  rw [← htrack.1]
  unfold pushDirtyPage
  split
  · split <;> rfl
  · rfl

theorem push_allocates (q : AccessQueue α) (a : α) (dirty : Bool) (h : q.isFull = true) :
    (q.push a dirty).1 = q.created ∧ (q.push a dirty).2.created = q.created + 1 := by
  have htrack : (q.track a).1 = q.created ∧ (q.track a).2.created = q.created + 1 := by
    unfold track
    rw [h]
    exact ⟨rfl, rfl⟩
  refine ⟨htrack.1, ?_⟩
  show (if dirty then (q.track a).2.pushDirtyPage (q.track a).1 else (q.track a).2).created = _
  rw [← htrack.2]
  unfold pushDirtyPage
  split
  · split <;> rfl
  · rfl

theorem touch_tracked (q : AccessQueue α) (p : Nat) (dirty : Bool) : (q.touch p dirty).tracked = q.tracked.erase p ++ [p] := by
  unfold touch pushDirtyPage
  simp only
  split
  · split <;> rfl
  · rfl

/-- A page touched as dirty, or dirty already, is the last of the dirty list. -/
theorem touch_dirty {q : AccessQueue α} (h : q.dirty.Nodup) (p : Nat) (dirty : Bool) :
    (q.touch p dirty).dirty = if dirty = true ∨ p ∈ q.dirty then q.dirty.erase p ++ [p] else q.dirty := by
  have hnot : p ∉ q.dirty.erase p := fun hc => (h.mem_erase_iff.mp hc).1 rfl
  unfold touch pushDirtyPage
  simp only [Bool.or_eq_true, decide_eq_true_eq]
  by_cases hd : dirty = true ∨ p ∈ q.dirty
  · rw [if_pos hd, if_pos hd, if_neg hnot]
  · rw [if_neg hd, if_neg hd]
    exact List.erase_of_not_mem (fun hc => hd (Or.inr hc))

/-! ## What the pages point to -/

/-- Each page in use points to the one thing that names it, and what the dirty list points to is there. -/
structure Ok (q : AccessQueue α) (live : α → Prop) (page : α → Option Nat) : Prop where
  nodup : (q.tracked ++ q.free).Nodup
  lt : ∀ p ∈ q.tracked ++ q.free, p < q.created
  dirty_nodup : q.dirty.Nodup
  tracked_of_page : ∀ a p, page a = some p → p ∈ q.tracked ∧ q.data p = some a
  page_of_tracked : ∀ p ∈ q.tracked, ∃ a, q.data p = some a ∧ page a = some p
  live_of_page : ∀ a p, page a = some p → live a
  live_of_dirty : ∀ p ∈ q.dirty, ∃ a, q.data p = some a ∧ live a

namespace Ok

variable {q : AccessQueue α} {live : α → Prop} {page : α → Option Nat}

theorem start : Ok (AccessQueue.start : AccessQueue α) (fun _ => False) (fun _ => none) := by
  refine ⟨by simp [AccessQueue.start], by simp [AccessQueue.start], List.nodup_nil, ?_, ?_, ?_, ?_⟩ <;> intros <;>
    contradiction

theorem not_free (h : Ok q live page) {a : α} {p : Nat} (ha : page a = some p) : p ∉ q.free := by
  intro hp
  exact List.disjoint_of_nodup_append h.nodup (h.tracked_of_page a p ha).1 hp

theorem page_of_data (h : Ok q live page) {a : α} {p : Nat} (hp : p ∈ q.tracked) (hd : q.data p = some a) :
    page a = some p := by
  obtain ⟨b, hb, hpage⟩ := h.page_of_tracked p hp
  rw [hb] at hd
  cases hd
  exact hpage

theorem live_of_tracked (h : Ok q live page) {p : Nat} (hp : p ∈ q.tracked) : ∃ a, q.data p = some a ∧ live a := by
  obtain ⟨a, ha, hpage⟩ := h.page_of_tracked p hp
  exact ⟨a, ha, h.live_of_page a p hpage⟩

/-- More things can be alive than the pages know of. -/
theorem mono {live' : α → Prop} (h : Ok q live page) (hl : ∀ a, live a → live' a) : Ok q live' page := by
  refine ⟨h.nodup, h.lt, h.dirty_nodup, h.tracked_of_page, h.page_of_tracked, ?_, ?_⟩
  · intro a p ha
    exact hl a (h.live_of_page a p ha)
  · intro p hp
    obtain ⟨a, ha, hlive⟩ := h.live_of_dirty p hp
    exact ⟨a, ha, hl a hlive⟩

/-! ## The dirty list -/

theorem delDirtyPage (h : Ok q live page) (p : Nat) : Ok (q.delDirtyPage p) live page := by
  refine ⟨h.nodup, h.lt, h.dirty_nodup.erase p, h.tracked_of_page, h.page_of_tracked, h.live_of_page, ?_⟩
  intro r hr
  exact h.live_of_dirty r (List.mem_of_mem_erase hr)

theorem pushDirtyPage (h : Ok q live page) {p : Nat} (hp : p ∈ q.tracked) : Ok (q.pushDirtyPage p) live page := by
  unfold AccessQueue.pushDirtyPage
  by_cases hd : p ∈ q.dirty
  · rw [if_pos hd]
    exact h
  · rw [if_neg hd]
    refine ⟨h.nodup, h.lt, ?_, h.tracked_of_page, h.page_of_tracked, h.live_of_page, ?_⟩
    · exact List.nodup_append.mpr ⟨h.dirty_nodup, List.nodup_singleton p, by simpa using fun r hr => ne_of_mem_of_not_mem hr hd⟩
    · intro r hr
      rcases List.mem_append.mp hr with hr | hr
      · exact h.live_of_dirty r hr
      · rw [List.mem_singleton.mp hr]
        exact h.live_of_tracked hp

/-! ## The ring -/

variable [DecidableEq α]

/-- A page for a thing that has none. -/
theorem track (h : Ok q live page) {a : α} (hlive : live a) (hnone : page a = none) :
    Ok (q.track a).2 live (Function.update page a (some (q.track a).1)) ∧ (q.track a).1 ∈ (q.track a).2.tracked := by
  -- both cases add one page `p` that was not in use
  have key : ∀ (p : Nat) (free' : List Nat) (created' : Nat),
      (q.tracked ++ [p] ++ free').Nodup → (∀ r ∈ q.tracked ++ [p] ++ free', r < created') → p ∉ q.tracked →
      Ok { q with tracked := q.tracked ++ [p], free := free', data := Function.update q.data p (some a), created := created' }
        live (Function.update page a (some p)) := by
    intro p free' created' hnodup hlt hp
    refine ⟨hnodup, hlt, h.dirty_nodup, ?_, ?_, ?_, ?_⟩
    · intro b r hb
      by_cases hba : b = a
      · subst hba
        rw [Function.update_self] at hb
        cases hb
        exact ⟨by simp, Function.update_self ..⟩
      · rw [Function.update_of_ne hba] at hb
        obtain ⟨hr, hd⟩ := h.tracked_of_page b r hb
        exact ⟨List.mem_append_left _ hr, (Function.update_of_ne (ne_of_mem_of_not_mem hr hp) _ _).trans hd⟩
    · intro r hr
      rcases List.mem_append.mp hr with hr | hr
      · obtain ⟨b, hb, hpage⟩ := h.page_of_tracked r hr
        have hba : b ≠ a := by
          intro heq
          rw [heq, hnone] at hpage
          cases hpage
        exact ⟨b, (Function.update_of_ne (ne_of_mem_of_not_mem hr hp) _ _).trans hb,
          (Function.update_of_ne hba _ _).trans hpage⟩
      · rw [List.mem_singleton.mp hr]
        exact ⟨a, Function.update_self .., Function.update_self ..⟩
    · intro b r hb
      by_cases hba : b = a
      · rw [hba]
        exact hlive
      · rw [Function.update_of_ne hba] at hb
        exact h.live_of_page b r hb
    · intro r hr
      by_cases hrp : r = p
      · rw [hrp]
        exact ⟨a, Function.update_self .., hlive⟩
      · obtain ⟨b, hb, hbl⟩ := h.live_of_dirty r hr
        exact ⟨b, (Function.update_of_ne hrp _ _).trans hb, hbl⟩
  have hfresh : q.created ∉ q.tracked ++ q.free := fun hmem => absurd (h.lt _ hmem) (Nat.lt_irrefl _)
  unfold AccessQueue.track
  split
  · rename_i p rest hfull hfree
    have hn := h.nodup
    have hl := h.lt
    rw [hfree, List.append_cons] at hn hl
    refine ⟨key p rest q.created hn hl ?_, by simp⟩
    intro hp
    have := (List.nodup_append.mp hn).1
    exact List.disjoint_of_nodup_append this hp (List.mem_singleton_self p)
  · refine ⟨key q.created q.free (q.created + 1) ?_ ?_ (fun hp => hfresh (List.mem_append_left _ hp)), by simp⟩
    · rw [List.append_assoc, List.singleton_append]
      exact List.nodup_middle.mpr (List.nodup_cons.mpr ⟨hfresh, h.nodup⟩)
    · intro r hr
      rw [List.append_assoc, List.singleton_append, List.mem_append, List.mem_cons] at hr
      rcases hr with hr | rfl | hr
      · exact Nat.lt_succ_of_lt (h.lt r (List.mem_append_left _ hr))
      · exact Nat.lt_succ_self _
      · exact Nat.lt_succ_of_lt (h.lt r (List.mem_append_right _ hr))

theorem push (h : Ok q live page) {a : α} (hlive : live a) (hnone : page a = none) (dirty : Bool) :
    Ok (q.push a dirty).2 live (Function.update page a (some (q.push a dirty).1)) := by
  obtain ⟨hok, hmem⟩ := h.track hlive hnone
  cases dirty with
  | false => exact hok
  | true => exact hok.pushDirtyPage hmem

omit [DecidableEq α] in
theorem touch (h : Ok q live page) {a : α} {p : Nat} (ha : page a = some p) (dirty : Bool) :
    Ok (q.touch p dirty) live page := by
  have hp : p ∈ q.tracked := (h.tracked_of_page a p ha).1
  have hperm : (q.tracked.erase p ++ [p]).Perm q.tracked :=
    (List.perm_append_singleton p _).trans (List.perm_cons_erase hp).symm
  have hmoved : Ok { q with tracked := q.tracked.erase p ++ [p], dirty := q.dirty.erase p } live page := by
    refine ⟨?_, ?_, h.dirty_nodup.erase p, ?_, ?_, h.live_of_page, ?_⟩
    · exact (hperm.append_right q.free).nodup_iff.mpr h.nodup
    · intro r hr
      exact h.lt r ((hperm.append_right q.free).mem_iff.mp hr)
    · intro b r hb
      obtain ⟨hr, hd⟩ := h.tracked_of_page b r hb
      exact ⟨hperm.mem_iff.mpr hr, hd⟩
    · intro r hr
      exact h.page_of_tracked r (hperm.mem_iff.mp hr)
    · intro r hr
      exact h.live_of_dirty r (List.mem_of_mem_erase hr)
  unfold AccessQueue.touch
  simp only
  split
  · exact hmoved.pushDirtyPage (by simp)
  · exact hmoved

/-- The oldest page goes, and what it points to names it no longer. It may stay in the dirty list. -/
theorem pop {q' : AccessQueue α} {p : Nat} (h : Ok q live page) (hpop : q.pop = some (p, q')) :
    ∃ a, q.data p = some a ∧ page a = some p ∧ Ok q' live (Function.update page a none) := by
  unfold AccessQueue.pop at hpop
  split at hpop
  · cases hpop
  · rename_i p' rest htracked
    cases hpop
    have hn := h.nodup
    have hl := h.lt
    rw [htracked] at hn hl
    have hnot : p ∉ rest := fun hmem => (List.nodup_cons.mp hn).1 (List.mem_append_left _ hmem)
    obtain ⟨a, ha, hpage⟩ := h.page_of_tracked p (by rw [htracked]; exact List.mem_cons_self)
    have hperm : (rest ++ (q.free ++ [p])).Perm (p :: rest ++ q.free) := by
      rw [← List.append_assoc, List.cons_append]
      exact List.perm_append_singleton p _
    refine ⟨a, ha, hpage, hperm.nodup_iff.mpr hn, fun r hr => hl r (hperm.mem_iff.mp hr), h.dirty_nodup, ?_, ?_, ?_,
      h.live_of_dirty⟩
    · intro b r hb
      by_cases hba : b = a
      · rw [hba, Function.update_self] at hb
        cases hb
      · rw [Function.update_of_ne hba] at hb
        obtain ⟨hr, hd⟩ := h.tracked_of_page b r hb
        rw [htracked] at hr
        rcases List.mem_cons.mp hr with rfl | hr
        · rw [ha] at hd
          cases hd
          exact absurd rfl hba
        · exact ⟨hr, hd⟩
    · intro r hr
      obtain ⟨b, hb, hbp⟩ := h.page_of_tracked r (by rw [htracked]; exact List.mem_cons_of_mem _ hr)
      have hba : b ≠ a := by
        rintro rfl
        rw [hpage] at hbp
        cases hbp
        exact hnot hr
      exact ⟨b, hb, (Function.update_of_ne hba _ _).trans hbp⟩
    · intro b r hb
      by_cases hba : b = a
      · rw [hba, Function.update_self] at hb
        cases hb
      · rw [Function.update_of_ne hba] at hb
        exact h.live_of_page b r hb

/-- What no page but possibly its own points to can be deleted, and its own page with it. -/
theorem erase (h : Ok q live page) {a : α} {p : Nat} (ha : page a = some p)
    (hdirty : ∀ r ∈ q.dirty, q.data r = some a → r = p) :
    Ok (q.erase p) (fun b => live b ∧ b ≠ a) (Function.update page a none) := by
  obtain ⟨hp, hd⟩ := h.tracked_of_page a p ha
  have htracked : q.tracked.Nodup := (List.nodup_append.mp h.nodup).1
  have hlast : (q.free.dropLast ++ p :: q.free.getLast?.toList).Perm (p :: q.free) := by
    refine List.perm_middle.trans (List.Perm.cons p ?_)
    cases hf : q.free.getLast? with
    | none =>
        rw [List.getLast?_eq_none_iff.mp hf]
        rfl
    | some l =>
        rw [Option.toList_some, List.dropLast_append_getLast? l hf]
  have hperm : (q.tracked.erase p ++ (q.free.dropLast ++ p :: q.free.getLast?.toList)).Perm (q.tracked ++ q.free) := by
    refine (List.Perm.append_left _ hlast).trans (List.perm_middle.trans ?_)
    exact (List.perm_cons_erase hp).symm.append_right q.free
  refine ⟨hperm.nodup_iff.mpr h.nodup, fun r hr => h.lt r (hperm.mem_iff.mp hr), h.dirty_nodup.erase p, ?_, ?_, ?_, ?_⟩
  · intro b r hb
    by_cases hba : b = a
    · rw [hba, Function.update_self] at hb
      cases hb
    · rw [Function.update_of_ne hba] at hb
      obtain ⟨hr, hbd⟩ := h.tracked_of_page b r hb
      refine ⟨(List.mem_erase_of_ne ?_).mpr hr, hbd⟩
      rintro rfl
      rw [hd] at hbd
      cases hbd
      exact hba rfl
  · intro r hr
    obtain ⟨hrp, hr'⟩ := htracked.mem_erase_iff.mp hr
    obtain ⟨b, hb, hbp⟩ := h.page_of_tracked r hr'
    have hba : b ≠ a := by
      rintro rfl
      rw [ha] at hbp
      cases hbp
      exact hrp rfl
    exact ⟨b, hb, (Function.update_of_ne hba _ _).trans hbp⟩
  · intro b r hb
    by_cases hba : b = a
    · rw [hba, Function.update_self] at hb
      cases hb
    · rw [Function.update_of_ne hba] at hb
      exact ⟨h.live_of_page b r hb, hba⟩
  · intro r hr
    obtain ⟨hrp, hr'⟩ := h.dirty_nodup.mem_erase_iff.mp hr
    obtain ⟨b, hb, hbl⟩ := h.live_of_dirty r hr'
    refine ⟨b, hb, hbl, ?_⟩
    rintro rfl
    exact hrp (hdirty r hr' hb)

omit [DecidableEq α] in
/-- The same, for a thing without a page. -/
theorem forget (h : Ok q live page) {a : α} (ha : page a = none) (hdirty : ∀ r ∈ q.dirty, q.data r ≠ some a) :
    Ok q (fun b => live b ∧ b ≠ a) page := by
  refine ⟨h.nodup, h.lt, h.dirty_nodup, h.tracked_of_page, h.page_of_tracked, ?_, ?_⟩
  · intro b p hb
    refine ⟨h.live_of_page b p hb, ?_⟩
    rintro rfl
    rw [ha] at hb
    cases hb
  · intro p hp
    obtain ⟨b, hb, hbl⟩ := h.live_of_dirty p hp
    refine ⟨b, hb, hbl, ?_⟩
    rintro rfl
    exact hdirty p hp hb

end Ok

end AccessQueue

end HuronFS
