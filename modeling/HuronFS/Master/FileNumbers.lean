import Mathlib.Data.Finset.Card
import HuronFS.Lib.Run
import HuronFS.Master.TablesSpec

/-!
# `Master.FileNumbers` — a file number in use belongs to one file

A cursor, a counter and a `bool` array answer `_get_file_no` and `_release_file_no`. Beside them runs the set
of the numbers handed out and not given back, which the source does not have: the array is that set, the
counter its size, and the cursor stays where both scans read inside the array only.
-/

namespace HuronFS

namespace Master

/-- The numbers the pool has as used. -/
def usedNumbers (m : Master) : Finset Nat := (Finset.range MAX_FILE_NUMBER).filter (fun n => m.fileNoPool n = true)

theorem mem_usedNumbers {m : Master} {n : Nat} : n ∈ m.usedNumbers ↔ n < MAX_FILE_NUMBER ∧ m.fileNoPool n = true := by
  unfold usedNumbers
  rw [Finset.mem_filter, Finset.mem_range]

end Master

/-- The Master with the numbers now in use. -/
structure Numbers where
  master : Master
  held : Finset Int

/-- A call on the pool of numbers. -/
inductive NumberCall
  | get
  | release (fileNo : Int)
deriving DecidableEq, Repr

namespace Numbers

/-- One call. -/
def step (s : Numbers) : NumberCall → Option Numbers
  | .get =>
      let (fileNo, m) := s.master.getFileNo
      some ⟨m, if fileNo = -1 then s.held else insert fileNo s.held⟩
  | .release fileNo => (s.master.releaseFileNo fileNo).map (fun m => ⟨m, s.held.erase fileNo⟩)

/-- Only numbers in use are released. -/
def Held (s : Numbers) : NumberCall → Prop
  | .get => True
  | .release fileNo => fileNo ∈ s.held

instance (s : Numbers) : (call : NumberCall) → Decidable (s.Held call)
  | .get => .isTrue trivial
  | .release fileNo => inferInstanceAs (Decidable (fileNo ∈ s.held))

/-- The pool is the set of numbers in use, and the counter its size. -/
structure Inv (s : Numbers) : Prop where
  count : s.master.fileNumber = s.master.usedNumbers.card
  range : ∀ i ∈ s.held, 0 ≤ i ∧ i < MAX_FILE_NUMBER
  pool : ∀ n, s.master.fileNoPool n = true ↔ (n : Int) ∈ s.held
  cursor : s.master.currentFileNo ≤ MAX_FILE_NUMBER

section

variable {s : Numbers}

theorem Inv.mem_used (h : Inv s) {n : Nat} : n ∈ s.master.usedNumbers ↔ (n : Int) ∈ s.held := by
  rw [Master.mem_usedNumbers, h.pool n]
  constructor
  · rintro ⟨_, hn⟩
    exact hn
  · intro hn
    have := h.range n hn
    exact ⟨by omega, hn⟩

/-- The counter stands at the limit just when every number is in use. -/
theorem Inv.full_iff (h : Inv s) : s.master.fileNumber = MAX_FILE_NUMBER ↔ ∀ n, n < MAX_FILE_NUMBER → s.master.fileNoPool n = true := by
  have hsub : s.master.usedNumbers ⊆ Finset.range MAX_FILE_NUMBER := Finset.filter_subset _ _
  rw [h.count, Int.ofNat_inj]
  constructor
  · intro hcard n hn
    have heq := Finset.eq_of_subset_of_card_le hsub (by rw [Finset.card_range, hcard])
    have hmem : n ∈ s.master.usedNumbers := by
      rw [heq]
      exact Finset.mem_range.mpr hn
    exact (Master.mem_usedNumbers.mp hmem).2
  · intro hall
    have heq : s.master.usedNumbers = Finset.range MAX_FILE_NUMBER := by
      apply Finset.filter_true_of_mem
      intro n hn
      exact hall n (Finset.mem_range.mp hn)
    rw [heq, Finset.card_range]

/-- **What `_get_file_no` answers**: a number not in use, or `-1` when there is none. -/
theorem Inv.getFileNo (h : Inv s) :
    (∃ n, n < MAX_FILE_NUMBER ∧ (n : Int) ∉ s.held ∧ s.master.getFileNo = ((n : Int), s.master.takeFileNo n)) ∨
    ((∀ n, n < MAX_FILE_NUMBER → (n : Int) ∈ s.held) ∧ ∃ c, c ≤ MAX_FILE_NUMBER ∧
      s.master.getFileNo = (-1, { s.master with currentFileNo := c })) := by
  rcases Master.getFileNo_cases s.master with ⟨n, hlt, hfree, _, hget⟩ | ⟨c, hfull, hget⟩
  · left
    refine ⟨n, hlt, ?_, hget⟩
    intro hc
    rw [(h.pool n).mpr hc] at hfree
    cases hfree
  · right
    have hall : ∀ n, n < MAX_FILE_NUMBER → s.master.fileNoPool n = true := by
      rcases hfull with hfull | hall
      · exact h.full_iff.mp hfull
      · exact hall
    refine ⟨fun n hn => (h.pool n).mp (hall n hn), s.master.currentFileNo, h.cursor, ?_⟩
    unfold Master.getFileNo
    rw [if_pos (h.full_iff.mpr hall)]

theorem update_true_iff {pool : Nat → Bool} {n k : Nat} : Function.update pool n true k = true ↔ k = n ∨ pool k = true := by
  by_cases hk : k = n
  · subst hk
    rw [Function.update_self]
    exact ⟨fun _ => Or.inl rfl, fun _ => rfl⟩
  · rw [Function.update_of_ne hk]
    exact ⟨Or.inr, fun ho => ho.resolve_left hk⟩

theorem update_false_iff {pool : Nat → Bool} {n k : Nat} : Function.update pool n false k = true ↔ k ≠ n ∧ pool k = true := by
  by_cases hk : k = n
  · subst hk
    rw [Function.update_self]
    exact ⟨fun hc => absurd hc (by decide), fun hc => absurd rfl hc.1⟩
  · rw [Function.update_of_ne hk]
    exact ⟨fun hc => ⟨hk, hc⟩, fun hc => hc.2⟩

/-- **A number is taken.** -/
theorem Inv.take (h : Inv s) {n : Nat} (hn : n < MAX_FILE_NUMBER) (hfree : (n : Int) ∉ s.held) :
    Inv ⟨s.master.takeFileNo n, insert (n : Int) s.held⟩ := by
  have hused : (s.master.takeFileNo n).usedNumbers = insert n s.master.usedNumbers := by
    ext k
    rw [Finset.mem_insert, Master.mem_usedNumbers, Master.mem_usedNumbers]
    show _ ∧ Function.update s.master.fileNoPool n true k = true ↔ _
    rw [update_true_iff]
    constructor
    · rintro ⟨hk, rfl | hused⟩
      · exact Or.inl rfl
      · exact Or.inr ⟨hk, hused⟩
    · rintro (rfl | ⟨hk, hused⟩)
      · exact ⟨hn, Or.inl rfl⟩
      · exact ⟨hk, Or.inr hused⟩
  have hnot : n ∉ s.master.usedNumbers := fun hc => hfree (h.mem_used.mp hc)
  refine ⟨?_, ?_, ?_, ?_⟩
  · show s.master.fileNumber + 1 = _
    rw [hused, Finset.card_insert_of_notMem hnot, h.count]
    rfl
  · intro i hi
    rcases Finset.mem_insert.mp hi with rfl | hi
    · omega
    · exact h.range i hi
  · intro k
    show Function.update s.master.fileNoPool n true k = true ↔ (k : Int) ∈ insert (n : Int) s.held
    rw [Finset.mem_insert, update_true_iff, h.pool k, Int.ofNat_inj]
  · show n + 1 ≤ _
    omega

/-- **A number is given back.** -/
theorem Inv.giveBack (h : Inv s) {i : Int} (hi : i ∈ s.held) :
    ∃ m, s.master.releaseFileNo i = some m ∧ Inv ⟨m, s.held.erase i⟩ := by
  obtain ⟨h0, hlt⟩ := h.range i hi
  obtain ⟨n, rfl⟩ := Int.eq_ofNat_of_zero_le h0
  refine ⟨{ s.master with fileNumber := s.master.fileNumber - 1, fileNoPool := Function.update s.master.fileNoPool n false }, ?_, ?_⟩
  · unfold Master.releaseFileNo
    rw [if_pos ⟨h0, hlt⟩, Int.toNat_natCast]
  have hmem : n ∈ s.master.usedNumbers := h.mem_used.mpr hi
  have hused : Master.usedNumbers { s.master with
      fileNumber := s.master.fileNumber - 1
      fileNoPool := Function.update s.master.fileNoPool n false } = s.master.usedNumbers.erase n := by
    ext k
    rw [Finset.mem_erase, Master.mem_usedNumbers, Master.mem_usedNumbers]
    show _ ∧ Function.update s.master.fileNoPool n false k = true ↔ _
    rw [update_false_iff]
    exact ⟨fun hc => ⟨hc.2.1, hc.1, hc.2.2⟩, fun hc => ⟨hc.2.1, hc.1, hc.2.2⟩⟩
  refine ⟨?_, ?_, ?_, h.cursor⟩
  · show s.master.fileNumber - 1 = _
    have hpos : 0 < s.master.usedNumbers.card := Finset.card_pos.mpr ⟨n, hmem⟩
    rw [hused, Finset.card_erase_of_mem hmem, h.count]
    omega
  · intro j hj
    exact h.range j (Finset.mem_of_mem_erase hj)
  · intro k
    show Function.update s.master.fileNoPool n false k = true ↔ (k : Int) ∈ s.held.erase (n : Int)
    rw [Finset.mem_erase, update_false_iff, h.pool k, ne_eq, ne_eq, Int.ofNat_inj]

/-- **One call** keeps the invariant, and has a result. -/
theorem Inv.step (h : Inv s) (call : NumberCall) (hcall : s.Held call) : ∃ s', s.step call = some s' ∧ Inv s' := by
  cases call with
  | get =>
      rcases h.getFileNo with ⟨n, hn, hfree, hget⟩ | ⟨_, c, hc, hget⟩
      · refine ⟨⟨s.master.takeFileNo n, insert (n : Int) s.held⟩, ?_, h.take hn hfree⟩
        unfold Numbers.step
        simp only [hget]
        rw [if_neg (by omega)]
      · refine ⟨⟨{ s.master with currentFileNo := c }, s.held⟩, ?_, h.count, h.range, h.pool, hc⟩
        unfold Numbers.step
        simp only [hget, if_true]
  | release i =>
      obtain ⟨m, hrel, hinv⟩ := h.giveBack hcall
      refine ⟨⟨m, s.held.erase i⟩, ?_, hinv⟩
      unfold Numbers.step
      simp only [hrel, Option.map_some]

end

end Numbers

/-! ## What the scans read -/

namespace Master

theorem freeFrom_congr {pool pool' : Nat → Bool} (fuel : Nat) : ∀ {start : Nat},
    (∀ n, start ≤ n → n < start + fuel → pool n = pool' n) → freeFrom pool fuel start = freeFrom pool' fuel start := by
  induction fuel with
  | zero =>
      intro start _
      rfl
  | succ fuel ih =>
      intro start h
      unfold freeFrom
      rw [h start (le_refl _) (by omega), ih (fun n h1 h2 => h n (by omega) (by omega))]

/-- Both scans read the array inside its bounds only. -/
theorem getFileNo_reads (m : Master) {pool : Nat → Bool} (h : ∀ n, n < MAX_FILE_NUMBER → m.fileNoPool n = pool n) :
    ({ m with fileNoPool := pool } : Master).getFileNo.1 = m.getFileNo.1 := by
  have hslot : freeSlot pool MAX_FILE_NUMBER m.currentFileNo = freeSlot m.fileNoPool MAX_FILE_NUMBER m.currentFileNo := by
    have hfirst : freeFrom pool (MAX_FILE_NUMBER - m.currentFileNo) m.currentFileNo =
        freeFrom m.fileNoPool (MAX_FILE_NUMBER - m.currentFileNo) m.currentFileNo :=
      freeFrom_congr _ (fun n h1 h2 => (h n (by omega)).symm)
    have hsecond : freeFrom pool MAX_FILE_NUMBER 0 = freeFrom m.fileNoPool MAX_FILE_NUMBER 0 :=
      freeFrom_congr _ (fun n h1 h2 => (h n (by omega)).symm)
    unfold freeSlot
    rw [hfirst, hsecond]
  unfold getFileNo
  split
  · rfl
  · simp only [hslot]
    cases freeSlot m.fileNoPool MAX_FILE_NUMBER m.currentFileNo with
    | some n => rfl
    | none => rfl

end Master

namespace Numbers

/-- **A file number in use belongs to one file.** Over every run of the two functions that gives back only
    numbers in use: no index leaves the pool, the counter is the number of used entries, and the next call
    of `_get_file_no` answers a number that is not in use, or `-1` just when all are. -/
theorem file_numbers_unique (pool : OrdMap Str FileStat) (masterNumber : Int) (mountPoint : Str) (numOfReplica : Nat)
    (calls : List NumberCall)
    (hcalls : Run.Guarded step Held ⟨Master.initial pool masterNumber mountPoint numOfReplica, ∅⟩ calls) :
    ∃ s, Run.run step ⟨Master.initial pool masterNumber mountPoint numOfReplica, ∅⟩ calls = some s ∧
      s.master.fileNumber = s.master.usedNumbers.card ∧
      (∀ n, s.master.fileNoPool n = true ↔ (n : Int) ∈ s.held) ∧
      (s.master.getFileNo.1 ≠ -1 → 0 ≤ s.master.getFileNo.1 ∧ s.master.getFileNo.1 < MAX_FILE_NUMBER ∧
        s.master.getFileNo.1 ∉ s.held) ∧
      (s.master.getFileNo.1 = -1 ↔ ∀ n, n < MAX_FILE_NUMBER → (n : Int) ∈ s.held) ∧
      s.master.currentFileNo ≤ MAX_FILE_NUMBER ∧ s.master.getFileNo.2.currentFileNo ≤ MAX_FILE_NUMBER ∧
      (∀ i ∈ s.held, 0 ≤ i ∧ i < MAX_FILE_NUMBER) ∧
      (∀ pool', (∀ n, n < MAX_FILE_NUMBER → s.master.fileNoPool n = pool' n) →
        ({ s.master with fileNoPool := pool' } : Master).getFileNo.1 = s.master.getFileNo.1) := by
  have hinit : Inv ⟨Master.initial pool masterNumber mountPoint numOfReplica, ∅⟩ := by
    refine ⟨?_, ?_, ?_, Nat.zero_le _⟩
    · have hnone : (Master.initial pool masterNumber mountPoint numOfReplica).usedNumbers = ∅ := by
        apply Finset.filter_false_of_mem
        intro n _
        show ¬ (false = true)
        decide
      rw [hnone]
      rfl
    · intro i hi
      exact absurd hi (Finset.notMem_empty i)
    · intro n
      exact ⟨fun hc => absurd hc (by show ¬ (false = true); decide), fun hc => absurd hc (Finset.notMem_empty _)⟩
  obtain ⟨s, hrun, hinv⟩ := Run.run_progress (fun s call h hcall => Inv.step h call hcall) hinit hcalls
  refine ⟨s, hrun, hinv.count, hinv.pool, ?_, ?_, hinv.cursor, ?_, hinv.range, fun pool' h => Master.getFileNo_reads s.master h⟩
  · intro hne
    rcases hinv.getFileNo with ⟨n, hn, hfree, hget⟩ | ⟨_, c, _, hget⟩
    · rw [hget]
      exact ⟨by omega, by omega, hfree⟩
    · rw [hget] at hne
      exact absurd rfl hne
  · rcases hinv.getFileNo with ⟨n, hn, hfree, hget⟩ | ⟨hall, c, _, hget⟩
    · rw [hget]
      exact ⟨fun hc => absurd hc (by omega), fun hall => absurd (hall n hn) hfree⟩
    · rw [hget]
      exact ⟨fun _ => hall, fun _ => rfl⟩
  · rcases hinv.getFileNo with ⟨n, hn, hfree, hget⟩ | ⟨_, c, hc, hget⟩
    · rw [hget]
      show n + 1 ≤ _
      omega
    · rw [hget]
      exact hc

/-- Two numbers are taken and the first is given back. -/
theorem file_numbers_unique_three :
    ∃ s, Run.run step ⟨Master.initial OrdMap.empty 0 [] 0, ∅⟩ [.get, .get, .release 0] = some s ∧
      s.master.fileNumber = s.master.usedNumbers.card := by
  have hcalls : Run.Guarded step Held ⟨Master.initial OrdMap.empty 0 [] 0, ∅⟩ [.get, .get, .release 0] := by decide
  obtain ⟨s, hrun, hcount, _⟩ := file_numbers_unique OrdMap.empty 0 [] 0 [.get, .get, .release 0] hcalls
  exact ⟨s, hrun, hcount⟩

end Numbers

end HuronFS
