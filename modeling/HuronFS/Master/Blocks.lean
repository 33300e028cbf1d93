import HuronFS.Master.Basic

/-!
# `Master.Blocks` — the block list of an open file

The three functions of `Master.cpp` that walk a block list: `_create_block_list` builds it at open,
`_allocate_new_blocks_for_writing` extends it for a write, `_select_node_block_set` picks the blocks of
a request. The last two walk with a map iterator (`current_block++`, `block++`) while they count offsets
by `BLOCK_SIZE`, so the two agree only while the list has no gap: `Covers bl n` says that the listed
blocks are exactly the first `n` of the file. The results of this file are what each function does to,
or finds in, a list that is `Covers`.
-/

namespace HuronFS

namespace Master

/-! ## The functions -/

/-- The `while` loop of `_create_block_list`. -/
def createBlocks (blockSize : Nat) : (fuel remaining startPoint : Nat) → BlockList → BlockList
  | 0, _, _, bl => bl
  | fuel + 1, remaining, startPoint, bl =>
      if remaining = 0 then bl
      else
        let newBlockSize := min blockSize remaining
        createBlocks blockSize fuel (remaining - newBlockSize) (startPoint + newBlockSize)
          (bl.insert startPoint newBlockSize)

/-- `_create_block_list`: an empty file gets one empty block. -/
def createBlockList (fileSize blockSize : Nat) (bl : BlockList) : BlockList :=
  let bl := if fileSize = 0 then bl.insert 0 0 else bl
  createBlocks blockSize fileSize fileSize 0 bl

/-- The `for` loop of `_allocate_new_blocks_for_writing`; `it` is the iterator `current_block`. -/
def allocateBlocks : (fuel remaining currentPoint : Nat) → (it : Option Nat) → BlockList → BlockList
  | 0, _, _, _, bl => bl
  | fuel + 1, remaining, currentPoint, it, bl =>
      if remaining = 0 then bl
      else
        let blockSize := min remaining BLOCK_SIZE
        match it with
        | none =>
            -- `_append_block`, after which the iterator is reset to `end`
            allocateBlocks fuel (remaining - BLOCK_SIZE) (currentPoint + BLOCK_SIZE) none
              (bl.insert currentPoint blockSize)
        | some k =>
            let bl' := bl.modify k (fun second => max blockSize second)
            allocateBlocks fuel (remaining - BLOCK_SIZE) (currentPoint + BLOCK_SIZE) (bl'.nextKey k) bl'

/-- `_allocate_new_blocks_for_writing`. The two-argument `get_block_start_point` enlarges `size` by the
    offset in the block. -/
def allocateNewBlocksForWriting (bl : BlockList) (startPoint size : Nat) : BlockList :=
  let currentPoint := getBlockStartPoint startPoint
  let size := startPoint - currentPoint + size
  match bl.find? currentPoint with
  | some second =>
      if size + startPoint < currentPoint + second then bl
      else allocateBlocks size size currentPoint (some currentPoint) bl
  | none => allocateBlocks size size currentPoint none bl

/-- The `for` loop of `_select_node_block_set`; a dereference of `end` is `none`. -/
def selectBlocks (bl : BlockList) : (fuel remaining : Nat) → (it : Option Nat) → BlockList → Option BlockList
  | 0, _, _, acc => some acc
  | fuel + 1, remaining, it, acc =>
      if remaining = 0 then some acc
      else
        match it with
        | none => none
        | some k =>
            match bl.find? k with
            | none => none
            | some second => selectBlocks bl fuel (remaining - BLOCK_SIZE) (bl.nextKey k) (acc.insert k second)

/-- `_select_node_block_set`: the blocks of a request. The count runs over the un-adjusted `size`. -/
def selectNodeBlockSet (bl : BlockList) (startPoint size : Nat) : Option BlockList :=
  let blockStartPoint := getBlockStartPoint startPoint
  let it := (bl.find? blockStartPoint).map (fun _ => blockStartPoint)
  selectBlocks bl size size it OrdMap.empty

/-! ## Lists without gaps -/

/-- The listed blocks are the first `n` of the file, each with a recorded size of at most a block. -/
structure Covers (bl : BlockList) (n : Nat) : Prop where
  mem_iff : ∀ k, (∃ v, bl.find? k = some v) ↔ ∃ i < n, k = i * BLOCK_SIZE
  size_le : ∀ k v, bl.find? k = some v → v ≤ BLOCK_SIZE

theorem mul_block_inj {i j : Nat} (h : i * BLOCK_SIZE = j * BLOCK_SIZE) : i = j :=
  Nat.eq_of_mul_eq_mul_right (by decide) h

theorem mul_block_lt {i j : Nat} : i * BLOCK_SIZE < j * BLOCK_SIZE ↔ i < j :=
  Nat.mul_lt_mul_right (by decide)

namespace Covers

variable {bl : BlockList} {n : Nat}

theorem find_of_lt (h : Covers bl n) {i : Nat} (hi : i < n) : ∃ v, bl.find? (i * BLOCK_SIZE) = some v :=
  (h.mem_iff _).mpr ⟨i, hi, rfl⟩

theorem find_none (h : Covers bl n) {i : Nat} (hi : n ≤ i) : bl.find? (i * BLOCK_SIZE) = none := by
  cases hf : bl.find? (i * BLOCK_SIZE) with
  | none => rfl
  | some v =>
      obtain ⟨j, hj, he⟩ := (h.mem_iff _).mp ⟨v, hf⟩
      have hij : i = j := mul_block_inj he
      omega

/-- The iterator steps from one block to the next, and from the last one to `end`. -/
theorem nextKey_eq (h : Covers bl n) {i : Nat} (hi : i < n) :
    bl.nextKey (i * BLOCK_SIZE) = if i + 1 < n then some ((i + 1) * BLOCK_SIZE) else none := by
  by_cases hn : i + 1 < n
  · rw [if_pos hn]
    obtain ⟨v, hv⟩ := h.find_of_lt hn
    refine OrdMap.nextKey_eq_of hv (mul_block_lt.mpr (Nat.lt_succ_self i)) ?_
    intro j hj hlt
    obtain ⟨q, _, rfl⟩ := (h.mem_iff j).mp (OrdMap.mem_keys.mp hj)
    exact Nat.mul_le_mul_right _ (mul_block_lt.mp hlt)
  · rw [if_neg hn]
    refine OrdMap.nextKey_none.mpr ?_
    intro j hj
    obtain ⟨q, hq, rfl⟩ := (h.mem_iff j).mp (OrdMap.mem_keys.mp hj)
    exact Nat.mul_le_mul_right _ (by omega)

theorem modify_size (h : Covers bl n) (k b : Nat) (hb : b ≤ BLOCK_SIZE) :
    Covers (bl.modify k (fun second => max b second)) n := by
  refine ⟨?_, ?_⟩
  · intro j
    rw [← h.mem_iff j, OrdMap.find?_modify]
    by_cases hj : j = k
    · subst hj; rw [if_pos rfl]; simp
    · rw [if_neg hj]
  · intro j v hv
    rw [OrdMap.find?_modify] at hv
    by_cases hj : j = k
    · rw [if_pos hj] at hv
      obtain ⟨w, hw, rfl⟩ := Option.map_eq_some_iff.mp hv
      exact max_le hb (h.size_le k w hw)
    · rw [if_neg hj] at hv
      exact h.size_le j v hv

/-- Appending the block after the last one. -/
theorem append_block (h : Covers bl n) (b : Nat) (hb : b ≤ BLOCK_SIZE) :
    Covers (bl.insert (n * BLOCK_SIZE) b) (n + 1) := by
  rw [OrdMap.insert_of_none (h.find_none (le_refl n))]
  refine ⟨?_, ?_⟩
  · intro j
    rw [OrdMap.find?_put]
    by_cases hj : j = n * BLOCK_SIZE
    · rw [if_pos hj]
      exact ⟨fun _ => ⟨n, Nat.lt_succ_self n, hj⟩, fun _ => ⟨b, rfl⟩⟩
    · rw [if_neg hj, h.mem_iff j]
      constructor
      · rintro ⟨i, hi, he⟩; exact ⟨i, Nat.lt_succ_of_lt hi, he⟩
      · rintro ⟨i, hi, he⟩
        have hin : i ≠ n := fun hc => hj (by rw [he, hc])
        exact ⟨i, by omega, he⟩
  · intro j v hv
    rw [OrdMap.find?_put] at hv
    by_cases hj : j = n * BLOCK_SIZE
    · rw [if_pos hj] at hv; injection hv with hv; omega
    · rw [if_neg hj] at hv; exact h.size_le j v hv

end Covers

theorem covers_empty : Covers OrdMap.empty 0 := by
  refine ⟨?_, ?_⟩
  · intro k; simp
  · intro k v hv; simp at hv

/-! ## `_create_block_list` -/

theorem createBlocks_covers {fuel : Nat} : ∀ {remaining n : Nat} {bl : BlockList},
    Covers bl n → remaining ≤ fuel →
    Covers (createBlocks BLOCK_SIZE fuel remaining (n * BLOCK_SIZE) bl) (n + blockCount remaining) := by
  induction fuel with
  | zero =>
      intro remaining n bl h hr
      obtain rfl : remaining = 0 := by omega
      simpa [createBlocks, blockCount_zero] using h
  | succ fuel ih =>
      intro remaining n bl h hr
      unfold createBlocks
      by_cases hz : remaining = 0
      · subst hz; simpa [blockCount_zero] using h
      · rw [if_neg hz]
        have happ := h.append_block (min BLOCK_SIZE remaining) (min_le_left _ _)
        by_cases hfull : BLOCK_SIZE ≤ remaining
        · have hmin : min BLOCK_SIZE remaining = BLOCK_SIZE := min_eq_left hfull
          simp only [hmin] at happ ⊢
          have hrec := ih happ (show remaining - BLOCK_SIZE ≤ fuel by unfold BLOCK_SIZE; omega)
          rw [Nat.succ_mul] at hrec
          rw [blockCount_step (Nat.pos_of_ne_zero hz)]
          rw [show n + (blockCount (remaining - BLOCK_SIZE) + 1)
            = n + 1 + blockCount (remaining - BLOCK_SIZE) from by omega]
          exact hrec
        · -- the last, partial block: nothing remains after it
          have hmin : min BLOCK_SIZE remaining = remaining := min_eq_right (by omega)
          simp only [hmin, Nat.sub_self] at happ ⊢
          have hstop : ∀ s b, createBlocks BLOCK_SIZE fuel 0 s b = b := by
            intro s b; cases fuel <;> simp [createBlocks]
          rw [hstop]
          have hcount : blockCount remaining = 1 := by
            rw [blockCount_step (Nat.pos_of_ne_zero hz), Nat.sub_eq_zero_of_le (by omega), blockCount_zero]
          rw [hcount]; exact happ

/-- A fresh block list covers its file, with one block even when the file is empty. -/
theorem createBlockList_covers (fileSize : Nat) :
    Covers (createBlockList fileSize BLOCK_SIZE OrdMap.empty) (max 1 (blockCount fileSize)) := by
  unfold createBlockList
  by_cases hz : fileSize = 0
  · subst hz
    have h := covers_empty.append_block 0 (Nat.zero_le _)
    simpa [createBlocks, blockCount_zero] using h
  · rw [if_neg hz]
    have h := createBlocks_covers covers_empty (le_refl fileSize)
    have hpos : 1 ≤ blockCount fileSize := by
      rw [blockCount_step (Nat.pos_of_ne_zero hz)]; omega
    rw [max_eq_right hpos]
    simpa using h

/-- What is listed before the loop's position stays. -/
theorem createBlocks_below {blockSize k : Nat} {fuel : Nat} : ∀ {remaining startPoint : Nat} {bl : BlockList}, k < startPoint →
    (createBlocks blockSize fuel remaining startPoint bl).find? k = bl.find? k := by
  induction fuel with
  | zero => exact fun _ => rfl
  | succ fuel ih =>
      intro remaining startPoint bl hk
      unfold createBlocks
      by_cases hz : remaining = 0
      · rw [if_pos hz]
      · rw [if_neg hz]
        dsimp only
        rw [ih (Nat.lt_add_right _ hk), OrdMap.find?_insert, if_neg (Nat.ne_of_lt hk)]

/-- Each block of a fresh list is recorded with the bytes of the file that are in it. -/
theorem createBlocks_find {blockSize : Nat} (hpos : 0 < blockSize) {fuel : Nat} : ∀ {remaining startPoint i : Nat}
    {bl : BlockList}, remaining ≤ fuel → (∀ k, startPoint ≤ k → bl.find? k = none) → i * blockSize < remaining →
    (createBlocks blockSize fuel remaining startPoint bl).find? (startPoint + i * blockSize)
      = some (min blockSize (remaining - i * blockSize)) := by
  induction fuel with
  | zero =>
      intro remaining startPoint i bl hr _ hi
      omega
  | succ fuel ih =>
      intro remaining startPoint i bl hr hfresh hi
      unfold createBlocks
      rw [if_neg (by omega)]
      dsimp only
      cases i with
      | zero =>
          rw [Nat.zero_mul, Nat.add_zero, Nat.sub_zero, createBlocks_below (by omega), OrdMap.find?_insert, if_pos rfl,
            hfresh startPoint (Nat.le_refl _)]
          rfl
      | succ i =>
          rw [Nat.succ_mul] at hi ⊢
          have hfull : min blockSize remaining = blockSize := by omega
          rw [hfull, show startPoint + (i * blockSize + blockSize) = startPoint + blockSize + i * blockSize by omega,
            show remaining - (i * blockSize + blockSize) = remaining - blockSize - i * blockSize by omega]
          refine ih (by omega) ?_ (by omega)
          intro k hk
          rw [OrdMap.find?_insert, if_neg (by omega)]
          exact hfresh k (by omega)

theorem createBlockList_find {fileSize i : Nat} (hi : i * BLOCK_SIZE < fileSize) :
    (createBlockList fileSize BLOCK_SIZE OrdMap.empty).find? (i * BLOCK_SIZE) = some (min BLOCK_SIZE (fileSize - i * BLOCK_SIZE)) := by
  unfold createBlockList
  rw [if_neg (by omega)]
  have hpos : 0 < BLOCK_SIZE := by decide
  have hfresh : ∀ k, 0 ≤ k → (OrdMap.empty : BlockList).find? k = none := fun k _ => OrdMap.find?_empty k
  have hfind := createBlocks_find hpos (Nat.le_refl fileSize) hfresh hi
  rwa [Nat.zero_add] at hfind

/-! ## `_allocate_new_blocks_for_writing` -/

/-- Where the iterator of the allocation loop stands while it counts block `i`. -/
def blockIter (n i : Nat) : Option Nat := if i < n then some (i * BLOCK_SIZE) else none

theorem allocateBlocks_covers {fuel : Nat} : ∀ {remaining n i : Nat} {bl : BlockList},
    Covers bl n → i ≤ n → remaining ≤ fuel →
    Covers (allocateBlocks fuel remaining (i * BLOCK_SIZE) (blockIter n i) bl)
      (max n (i + blockCount remaining)) := by
  induction fuel with
  | zero =>
      intro remaining n i bl h hin hr
      obtain rfl : remaining = 0 := by omega
      rw [blockCount_zero, Nat.add_zero, max_eq_left hin]
      exact h
  | succ fuel ih =>
      intro remaining n i bl h hin hr
      unfold allocateBlocks
      by_cases hz : remaining = 0
      · subst hz
        rw [if_pos rfl, blockCount_zero, Nat.add_zero, max_eq_left hin]
        exact h
      · rw [if_neg hz]
        have hle : remaining - BLOCK_SIZE ≤ fuel := by unfold BLOCK_SIZE; omega
        have hend : i + blockCount remaining = i + 1 + blockCount (remaining - BLOCK_SIZE) := by
          rw [blockCount_step (Nat.pos_of_ne_zero hz), Nat.add_assoc, Nat.add_comm 1]
        have hpoint : i * BLOCK_SIZE + BLOCK_SIZE = (i + 1) * BLOCK_SIZE := (Nat.succ_mul i BLOCK_SIZE).symm
        by_cases hi : i < n
        · -- the block exists: its recorded size grows and the iterator moves on
          have hbl := h.modify_size (i * BLOCK_SIZE) (min remaining BLOCK_SIZE) (min_le_right _ _)
          have hnext := hbl.nextKey_eq hi
          have hrec := ih hbl (i := i + 1) (by omega) hle
          simp only [blockIter, if_pos hi, hpoint]
          rw [hnext]
          rw [hend]
          exact hrec
        · -- past the last block: append
          obtain rfl : i = n := by omega
          have hbl := h.append_block (min remaining BLOCK_SIZE) (min_le_right _ _)
          have hrec := ih hbl (i := i + 1) (le_refl _) hle
          simp only [blockIter, lt_irrefl, if_false] at hrec ⊢
          rw [hpoint]
          have hmax : ∀ c, max i (i + 1 + c) = max (i + 1) (i + 1 + c) := fun c => by omega
          rw [hend, hmax]
          exact hrec

/-- A write that starts at most one block past the listed ones leaves no gap, and the list reaches to
    the end of the written range. -/
theorem allocateNewBlocksForWriting_covers {bl : BlockList} {n startPoint : Nat} (h : Covers bl n)
    (hstart : getBlockStartPoint startPoint ≤ n * BLOCK_SIZE) (size : Nat) :
    Covers (allocateNewBlocksForWriting bl startPoint size)
      (max n (startPoint / BLOCK_SIZE + blockCount (startPoint % BLOCK_SIZE + size))) := by
  have hsub : startPoint - getBlockStartPoint startPoint = startPoint % BLOCK_SIZE := by
    unfold getBlockStartPoint BLOCK_SIZE; omega
  have hin : startPoint / BLOCK_SIZE ≤ n := by
    unfold getBlockStartPoint at hstart
    exact Nat.le_of_mul_le_mul_right hstart (by decide)
  have hcov := allocateBlocks_covers h hin (le_refl (startPoint % BLOCK_SIZE + size))
  unfold allocateNewBlocksForWriting
  simp only [hsub]
  by_cases hi : startPoint / BLOCK_SIZE < n
  · obtain ⟨second, hsec⟩ := h.find_of_lt hi
    have hsec' : bl.find? (getBlockStartPoint startPoint) = some second := hsec
    simp only [hsec']
    split
    · -- the early return: the range ends inside the block, which is listed
      rename_i hlt
      have hs := h.size_le _ _ hsec
      have hone : blockCount (startPoint % BLOCK_SIZE + size) ≤ 1 := by
        unfold getBlockStartPoint BLOCK_SIZE at hlt
        unfold BLOCK_SIZE at hs
        unfold blockCount BLOCK_SIZE
        omega
      rw [max_eq_left (by omega)]
      exact h
    · rw [blockIter, if_pos hi] at hcov
      exact hcov
  · have hnone : bl.find? (getBlockStartPoint startPoint) = none := h.find_none (by omega)
    simp only [hnone]
    rw [blockIter, if_neg hi] at hcov
    exact hcov

/-! ## `_select_node_block_set` -/

/-- `k` is the start of a block from `i` on, `count` of them. -/
def InBlockRange (i count k : Nat) : Prop := ∃ j, i ≤ j ∧ j < i + count ∧ k = j * BLOCK_SIZE

/-- The blocks `selectBlocks` adds are the listed ones from block `i` on, one per `BLOCK_SIZE` bytes. -/
theorem selectBlocks_covers {bl : BlockList} {n : Nat} (h : Covers bl n) {fuel : Nat} :
    ∀ {remaining i : Nat} {acc : BlockList}, i + blockCount remaining ≤ n → remaining ≤ fuel →
    (∀ j, i ≤ j → acc.find? (j * BLOCK_SIZE) = none) →
    ∃ r, selectBlocks bl fuel remaining (blockIter n i) acc = some r ∧
      (∀ k, InBlockRange i (blockCount remaining) k → r.find? k = bl.find? k) ∧
      (∀ k, ¬ InBlockRange i (blockCount remaining) k → r.find? k = acc.find? k) := by
  induction fuel with
  | zero =>
      intro remaining i acc hn hr hacc
      obtain rfl : remaining = 0 := by omega
      refine ⟨acc, rfl, ?_, fun k _ => rfl⟩
      rintro k ⟨j, h1, h2, _⟩
      rw [blockCount_zero] at h2; omega
  | succ fuel ih =>
      intro remaining i acc hn hr hacc
      unfold selectBlocks
      by_cases hz : remaining = 0
      · subst hz
        refine ⟨acc, by rw [if_pos rfl], ?_, fun k _ => rfl⟩
        rintro k ⟨j, h1, h2, _⟩
        rw [blockCount_zero] at h2; omega
      · rw [if_neg hz]
        have hcount := blockCount_step (Nat.pos_of_ne_zero hz)
        have hi : i < n := by omega
        obtain ⟨v, hv⟩ := h.find_of_lt hi
        have hins : ∀ k, (acc.insert (i * BLOCK_SIZE) v).find? k
            = if k = i * BLOCK_SIZE then some v else acc.find? k := by
          intro k
          rw [OrdMap.find?_insert, hacc i (le_refl i)]; rfl
        have hacc' : ∀ j, i + 1 ≤ j → (acc.insert (i * BLOCK_SIZE) v).find? (j * BLOCK_SIZE) = none := by
          intro j hj
          have hne : j * BLOCK_SIZE ≠ i * BLOCK_SIZE := fun hc => by have := mul_block_inj hc; omega
          rw [hins, if_neg hne]
          exact hacc j (by omega)
        obtain ⟨r, hr', hin, hout⟩ := ih
          (show i + 1 + blockCount (remaining - BLOCK_SIZE) ≤ n by omega)
          (show remaining - BLOCK_SIZE ≤ fuel by unfold BLOCK_SIZE; omega) hacc'
        -- block `i` itself is outside the rest of the range, where the accumulator decides
        have hself : ¬ InBlockRange (i + 1) (blockCount (remaining - BLOCK_SIZE)) (i * BLOCK_SIZE) := by
          rintro ⟨j, h1, _, h3⟩
          have := mul_block_inj h3
          omega
        refine ⟨r, ?_, ?_, ?_⟩
        · simp only [blockIter, if_pos hi, hv]
          rw [h.nextKey_eq hi]
          exact hr'
        · rintro k ⟨j, h1, h2, rfl⟩
          by_cases hj : j = i
          · subst hj
            rw [hout _ hself, hins, if_pos rfl, hv]
          · exact hin _ ⟨j, by omega, by omega, rfl⟩
        · intro k hk
          have hki : k ≠ i * BLOCK_SIZE := fun hc => hk ⟨i, le_refl i, by omega, hc⟩
          have hk' : ¬ InBlockRange (i + 1) (blockCount (remaining - BLOCK_SIZE)) k := by
            rintro ⟨j, h1, h2, h3⟩
            exact hk ⟨j, by omega, by omega, h3⟩
          rw [hout k hk', hins, if_neg hki]

/-- The selection succeeds and returns the listed entries from the block of `startPoint` on. -/
theorem selectNodeBlockSet_covers {bl : BlockList} {n startPoint size : Nat} (h : Covers bl n)
    (hn : startPoint / BLOCK_SIZE + blockCount size ≤ n) (hpos : 0 < size) :
    ∃ r, selectNodeBlockSet bl startPoint size = some r ∧
      r.keys = (List.range (blockCount size)).map (fun k => getBlockStartPoint startPoint + k * BLOCK_SIZE) ∧
      ∀ k ∈ r.keys, r.find? k = bl.find? k := by
  have hi : startPoint / BLOCK_SIZE < n := by
    have := blockCount_step hpos
    omega
  obtain ⟨r, hr, hin, hout⟩ := selectBlocks_covers h hn (le_refl size) (fun j _ => OrdMap.find?_empty _)
  obtain ⟨v, hv⟩ := h.find_of_lt hi
  have hmem : ∀ k, k ∈ r.keys ↔ InBlockRange (startPoint / BLOCK_SIZE) (blockCount size) k := by
    intro k
    rw [OrdMap.mem_keys]
    constructor
    · rintro ⟨w, hw⟩
      by_contra hk
      rw [hout k hk, OrdMap.find?_empty] at hw
      exact absurd hw (by simp)
    · intro hk
      rw [hin k hk]
      obtain ⟨j, _, h2, rfl⟩ := hk
      exact h.find_of_lt (by omega)
  refine ⟨r, ?_, ?_, ?_⟩
  · unfold selectNodeBlockSet
    have hv' : bl.find? (getBlockStartPoint startPoint) = some v := hv
    simp only [hv', Option.map_some]
    rw [blockIter, if_pos hi] at hr
    exact hr
  · refine List.Perm.eq_of_pairwise' (r := (· < ·)) (OrdMap.keys_ordered r) ?_ ?_
    · refine List.pairwise_map.mpr (List.pairwise_lt_range.imp ?_)
      intro a b hab
      exact Nat.add_lt_add_left (mul_block_lt.mpr hab) _
    · refine (List.perm_ext_iff_of_nodup (OrdMap.keys_nodup r) ?_).mpr ?_
      · refine List.Nodup.map ?_ List.nodup_range
        intro a b hab
        exact mul_block_inj (Nat.add_left_cancel hab)
      · intro k
        rw [hmem k, List.mem_map]
        constructor
        · rintro ⟨j, h1, h2, rfl⟩
          refine ⟨j - startPoint / BLOCK_SIZE, List.mem_range.mpr (by omega), ?_⟩
          unfold getBlockStartPoint
          rw [← Nat.add_mul]; congr 1; omega
        · rintro ⟨j, hj, rfl⟩
          have hj' := List.mem_range.mp hj
          refine ⟨startPoint / BLOCK_SIZE + j, by omega, by omega, ?_⟩
          unfold getBlockStartPoint
          rw [Nat.add_mul]
  · intro k hk
    exact hin k ((hmem k).mp hk)

/-- No block of the listing is past its end: the loop meets `end` exactly when the list is too short. -/
theorem selectNodeBlockSet_none {bl : BlockList} {startPoint size : Nat}
    (hmiss : bl.find? (getBlockStartPoint startPoint) = none) (hpos : 0 < size) :
    selectNodeBlockSet bl startPoint size = none := by
  unfold selectNodeBlockSet
  simp only [hmiss, Option.map_none]
  obtain ⟨s, rfl⟩ : ∃ s, size = s + 1 := ⟨size - 1, by omega⟩
  simp [selectBlocks]

/-! ## Any block list -/

theorem selectBlocks_keeps {bl : BlockList} {fuel remaining : Nat} {it : Option Nat} {acc res : BlockList}
    (h : selectBlocks bl fuel remaining it acc = some res) {k : Nat} (hk : k ∈ acc.keys) : k ∈ res.keys := by
  induction fuel generalizing remaining it acc with
  | zero =>
      cases h
      exact hk
  | succ fuel ih =>
      unfold selectBlocks at h
      split at h
      · cases h
        exact hk
      · split at h
        · cases h
        · split at h
          · cases h
          · exact ih h (OrdMap.mem_keys_insert.mpr (Or.inr hk))

/-- What is selected was there before, or is an entry of the list. -/
theorem selectBlocks_find {bl : BlockList} {fuel remaining : Nat} {it : Option Nat} {acc res : BlockList}
    (h : selectBlocks bl fuel remaining it acc = some res) {k v : Nat} (hk : res.find? k = some v) :
    acc.find? k = some v ∨ bl.find? k = some v := by
  induction fuel generalizing remaining it acc with
  | zero =>
      cases h
      exact Or.inl hk
  | succ fuel ih =>
      unfold selectBlocks at h
      split at h
      · cases h
        exact Or.inl hk
      · split at h
        · cases h
        · rename_i k'
          split at h
          · cases h
          · rename_i second hsecond
            rcases ih h with hacc | hbl
            · rw [OrdMap.find?_insert] at hacc
              by_cases hkk : k = k'
              · rw [if_pos hkk] at hacc
                cases hold : acc.find? k' with
                | none =>
                    rw [hold] at hacc
                    cases hacc
                    exact Or.inr (by rw [hkk]; exact hsecond)
                | some w =>
                    rw [hold] at hacc
                    cases hacc
                    exact Or.inl (by rw [hkk]; exact hold)
              · rw [if_neg hkk] at hacc
                exact Or.inl hacc
            · exact Or.inr hbl

theorem selectBlocks_done {bl : BlockList} (fuel : Nat) (it : Option Nat) (acc : BlockList) :
    selectBlocks bl fuel 0 it acc = some acc := by
  cases fuel with
  | zero => rfl
  | succ fuel => simp only [selectBlocks, if_true]

/-- A selection starts at the block of its start point, which has to be there. -/
theorem selectNodeBlockSet_step {bl : BlockList} {startPoint size : Nat} (hsize : 0 < size) :
    selectNodeBlockSet bl startPoint size =
      match bl.find? (getBlockStartPoint startPoint) with
      | none => none
      | some second => selectBlocks bl (size - 1) (size - BLOCK_SIZE) (bl.nextKey (getBlockStartPoint startPoint))
          (OrdMap.empty.insert (getBlockStartPoint startPoint) second) := by
  obtain ⟨fuel, rfl⟩ : ∃ fuel, size = fuel + 1 := ⟨size - 1, by omega⟩
  simp only [selectNodeBlockSet]
  cases hb : bl.find? (getBlockStartPoint startPoint) with
  | none => simp only [Option.map_none, selectBlocks, if_neg (Nat.succ_ne_zero _)]
  | some second =>
      simp only [Option.map_some, selectBlocks, if_neg (Nat.succ_ne_zero _), hb, Nat.add_sub_cancel]

/-- One block is enough for a request of at most a block. -/
theorem selectNodeBlockSet_one {bl : BlockList} {startPoint size second : Nat} (hsize : 0 < size) (hone : size ≤ BLOCK_SIZE)
    (hb : bl.find? (getBlockStartPoint startPoint) = some second) :
    selectNodeBlockSet bl startPoint size = some (OrdMap.empty.insert (getBlockStartPoint startPoint) second) := by
  rw [selectNodeBlockSet_step hsize, hb]
  simp only [Nat.sub_eq_zero_of_le hone]
  exact selectBlocks_done _ _ _

theorem selectNodeBlockSet_first {bl res : BlockList} {startPoint size : Nat} (hsize : 0 < size)
    (h : selectNodeBlockSet bl startPoint size = some res) : getBlockStartPoint startPoint ∈ res.keys := by
  rw [selectNodeBlockSet_step hsize] at h
  split at h
  · cases h
  · exact selectBlocks_keeps h (OrdMap.mem_keys_insert.mpr (Or.inl rfl))

/-- A longer request takes a second block. -/
theorem selectNodeBlockSet_more {bl res : BlockList} {startPoint size : Nat} (hsize : BLOCK_SIZE < size)
    (h : selectNodeBlockSet bl startPoint size = some res) : ∃ k ∈ res.keys, k ≠ getBlockStartPoint startPoint := by
  have hB : 0 < BLOCK_SIZE := by decide
  rw [selectNodeBlockSet_step (by omega)] at h
  split at h
  · cases h
  · obtain ⟨fuel, hfuel⟩ : ∃ fuel, size - 1 = fuel + 1 := ⟨size - 2, by omega⟩
    rw [hfuel] at h
    unfold selectBlocks at h
    rw [if_neg (by omega)] at h
    cases hnext : bl.nextKey (getBlockStartPoint startPoint) with
    | none =>
        rw [hnext] at h
        cases h
    | some k =>
        rw [hnext] at h
        simp only at h
        split at h
        · cases h
        · exact ⟨k, selectBlocks_keeps h (OrdMap.mem_keys_insert.mpr (Or.inl rfl)), ne_of_gt (OrdMap.nextKey_gt hnext)⟩

/-- Allocating blocks keeps those that are there. -/
theorem allocateBlocks_keeps {fuel remaining currentPoint : Nat} {it : Option Nat} {bl : BlockList} {k : Nat}
    (hk : k ∈ bl.keys) : k ∈ (allocateBlocks fuel remaining currentPoint it bl).keys := by
  induction fuel generalizing remaining currentPoint it bl with
  | zero => exact hk
  | succ fuel ih =>
      unfold allocateBlocks
      split
      · exact hk
      · cases it with
        | none => exact ih (OrdMap.mem_keys_insert.mpr (Or.inr hk))
        | some j =>
            apply ih
            rw [OrdMap.mem_keys] at hk ⊢
            obtain ⟨v, hv⟩ := hk
            rw [OrdMap.find?_modify]
            by_cases hj : k = j
            · subst hj
              rw [if_pos rfl, hv]
              exact ⟨_, rfl⟩
            · rw [if_neg hj]
              exact ⟨v, hv⟩

theorem allocateNewBlocksForWriting_keeps {bl : BlockList} {startPoint size k : Nat} (hk : k ∈ bl.keys) :
    k ∈ (allocateNewBlocksForWriting bl startPoint size).keys := by
  unfold allocateNewBlocksForWriting
  dsimp only
  split
  · split
    · exact hk
    · exact allocateBlocks_keeps hk
  · exact allocateBlocks_keeps hk

/-- No recorded size exceeds a block. -/
def SizesFit (bl : BlockList) : Prop := ∀ k v, bl.find? k = some v → v ≤ BLOCK_SIZE

theorem SizesFit.allocateBlocks {fuel remaining currentPoint : Nat} {it : Option Nat} {bl : BlockList} (h : SizesFit bl) :
    SizesFit (allocateBlocks fuel remaining currentPoint it bl) := by
  induction fuel generalizing remaining currentPoint it bl with
  | zero => exact h
  | succ fuel ih =>
      unfold Master.allocateBlocks
      split
      · exact h
      · cases it with
        | none =>
            apply ih
            intro k v hv
            rcases OrdMap.find?_foldl_insert (l := [(currentPoint, min remaining BLOCK_SIZE)]) hv with hv | hv
            · exact h k v hv
            · cases List.mem_singleton.mp hv
              exact Nat.min_le_right _ _
        | some j =>
            apply ih
            intro k v hv
            rw [OrdMap.find?_modify] at hv
            by_cases hj : k = j
            · rw [if_pos hj] at hv
              obtain ⟨w, hw, rfl⟩ := Option.map_eq_some_iff.mp hv
              exact max_le (Nat.min_le_right _ _) (h j w hw)
            · rw [if_neg hj] at hv
              exact h k v hv

theorem SizesFit.allocateNewBlocksForWriting {bl : BlockList} (h : SizesFit bl) (startPoint size : Nat) :
    SizesFit (allocateNewBlocksForWriting bl startPoint size) := by
  unfold Master.allocateNewBlocksForWriting
  dsimp only
  split
  · split
    · exact h
    · exact h.allocateBlocks
  · exact h.allocateBlocks

end Master

end HuronFS
