import HuronFS.Master.Blocks

/-!
# `Master.WriteAllocation` — the blocks of a write, when the list has gaps

A write past the end of a file lists its own blocks and leaves the ones before them out. `_allocate_new_blocks_for_writing` then
walks a list with gaps: its iterator jumps over a gap while its position does not, and `insert` leaves a block that is listed as it is.
-/

namespace HuronFS

namespace Master

/-- `k` is a block that `[p, p + r)` reaches into, `p` being the start of a block. -/
def Reaches (p r k : Nat) : Prop := getBlockStartPoint k = k ∧ p ≤ k ∧ k < p + r

instance (p r k : Nat) : Decidable (Reaches p r k) := inferInstanceAs (Decidable (_ ∧ _ ∧ _))

/-- The size a block needs to have for `[p, p + r)`. -/
def needed (p r k : Nat) : Nat := min (r - (k - p)) BLOCK_SIZE

/-- Every listed block starts where a block starts. -/
def Aligned (bl : BlockList) : Prop := ∀ k v, bl.find? k = some v → getBlockStartPoint k = k

section Walk

variable {bl : BlockList} {p r k : Nat}

/-- The first block of a range and those of the rest. -/
theorem reaches_step (hp : getBlockStartPoint p = p) (hr : r ≠ 0) :
    Reaches p r k ↔ k = p ∨ Reaches (p + BLOCK_SIZE) (r - BLOCK_SIZE) k := by
  unfold Reaches
  constructor
  · rintro ⟨hk, hle, hlt⟩
    by_cases hkp : k = p
    · exact Or.inl hkp
    · have := block_le_of_lt hp hk (by omega)
      exact Or.inr ⟨hk, this, by omega⟩
  · rintro (rfl | ⟨hk, hle, hlt⟩)
    · exact ⟨hp, Nat.le_refl _, by omega⟩
    · exact ⟨hk, by omega, by omega⟩

theorem needed_step (h : Reaches (p + BLOCK_SIZE) (r - BLOCK_SIZE) k) :
    needed (p + BLOCK_SIZE) (r - BLOCK_SIZE) k = needed p r k := by
  obtain ⟨-, hle, -⟩ := h
  unfold needed
  rw [show r - BLOCK_SIZE - (k - (p + BLOCK_SIZE)) = r - (k - p) by omega]

theorem needed_self : needed p r p = min r BLOCK_SIZE := by
  unfold needed
  rw [Nat.sub_self, Nat.sub_zero]

theorem not_reaches_zero : ¬ Reaches p 0 k := by
  rintro ⟨-, hle, hlt⟩
  omega

theorem not_reaches_self : ¬ Reaches (p + BLOCK_SIZE) (r - BLOCK_SIZE) p := by
  rintro ⟨-, hle, -⟩
  have : 0 < BLOCK_SIZE := by decide
  omega

/-! ## Appending -/

/-- **With the iterator at the end** the missing blocks of the range are listed, and the others are left as they are. -/
theorem allocateBlocks_append {fuel : Nat} : ∀ {p r : Nat} {bl : BlockList}, getBlockStartPoint p = p → r ≤ fuel → ∀ k,
    (allocateBlocks fuel r p none bl).find? k
      = if bl.find? k = none ∧ Reaches p r k then some (needed p r k) else bl.find? k := by
  induction fuel with
  | zero =>
      intro p r bl _ hr k
      obtain rfl : r = 0 := by omega
      rw [if_neg (fun hc => not_reaches_zero hc.2)]
      rfl
  | succ fuel ih =>
      intro p r bl hp hr k
      unfold allocateBlocks
      by_cases hz : r = 0
      · rw [if_pos hz, hz, if_neg (fun hc => not_reaches_zero hc.2)]
      · rw [if_neg hz]
        dsimp only
        have hB : 0 < BLOCK_SIZE := by decide
        rw [ih (getBlockStartPoint_next hp) (by omega)]
        have hinsert := OrdMap.find?_insert bl p k (min r BLOCK_SIZE)
        by_cases hkp : k = p
        · -- the block just inserted
          subst hkp
          rw [if_neg (fun hc => not_reaches_self hc.2), hinsert, if_pos rfl]
          cases hf : bl.find? k with
          | none => rw [if_pos ⟨rfl, (reaches_step hp hz).mpr (Or.inl rfl)⟩, needed_self]; rfl
          | some v => rw [if_neg (fun hc => Option.some_ne_none v hc.1)]; rfl
        · rw [if_neg hkp] at hinsert
          rw [hinsert]
          by_cases hrest : Reaches (p + BLOCK_SIZE) (r - BLOCK_SIZE) k
          · have hall : Reaches p r k := (reaches_step hp hz).mpr (Or.inr hrest)
            rw [needed_step hrest]
            simp only [hrest, hall]
          · have hall : ¬ Reaches p r k := fun hc => ((reaches_step hp hz).mp hc).elim hkp hrest
            rw [if_neg (fun hc => hrest hc.2), if_neg (fun hc => hall hc.2)]

/-! ## In step with the iterator -/

/-- No block of the range is missing, unless nothing is listed after it. -/
def NoGap (bl : BlockList) (p r : Nat) : Prop := ∀ q, Reaches p r q → bl.find? q = none → ∀ k ∈ bl.keys, k < q

/-- Growing a listed block. -/
theorem find?_grow {b second : Nat} (hf : bl.find? p = some second) (k : Nat) :
    (bl.modify p (fun second => max b second)).find? k = if k = p then some (max b second) else bl.find? k := by
  rw [OrdMap.find?_modify]
  split
  · rw [hf]
    rfl
  · rfl

theorem mem_keys_grow {f : Nat → Nat} : k ∈ (bl.modify p f).keys ↔ k ∈ bl.keys := by
  rw [OrdMap.mem_keys, OrdMap.mem_keys, OrdMap.find?_modify]
  by_cases hk : k = p
  · rw [if_pos hk, hk]
    simp
  · rw [if_neg hk]

theorem Aligned.grow {f : Nat → Nat} (h : Aligned bl) : Aligned (bl.modify p f) := by
  intro k v hv
  obtain ⟨w, hw⟩ := OrdMap.mem_keys.mp (mem_keys_grow.mp (OrdMap.mem_keys.mpr ⟨v, hv⟩))
  exact h k w hw

/-- The iterator goes to the next block if that is listed. -/
theorem nextKey_in_step (h : Aligned bl) (hp : getBlockStartPoint p = p) {v : Nat} (hv : bl.find? (p + BLOCK_SIZE) = some v) :
    bl.nextKey p = some (p + BLOCK_SIZE) := by
  refine OrdMap.nextKey_eq_of hv (Nat.lt_add_of_pos_right (by decide)) ?_
  intro j hj hlt
  obtain ⟨w, hw⟩ := OrdMap.mem_keys.mp hj
  exact block_le_of_lt hp (h j w hw) hlt

theorem nextKey_at_end (hnone : ∀ j ∈ bl.keys, j < p + BLOCK_SIZE) (h : Aligned bl) (hp : getBlockStartPoint p = p) :
    bl.nextKey p = none := by
  apply OrdMap.nextKey_none.mpr
  intro j hj
  by_contra hlt
  obtain ⟨w, hw⟩ := OrdMap.mem_keys.mp hj
  have := block_le_of_lt hp (h j w hw) (by omega)
  have := hnone j hj
  omega

/-- What the list has after the walk: the blocks of the range as large as they need to be, the others as they were. -/
def Allocated (bl bl' : BlockList) (p r : Nat) : Prop :=
  ∀ k, bl'.find? k = if Reaches p r k then some (max (needed p r k) ((bl.find? k).getD 0)) else bl.find? k

theorem NoGap.rest (h : NoGap bl p r) (hp : getBlockStartPoint p = p) (hr : r ≠ 0) {f : Nat → Nat} :
    NoGap (bl.modify p f) (p + BLOCK_SIZE) (r - BLOCK_SIZE) := by
  intro q hq hnone k hk
  have hqp : q ≠ p := by
    rintro rfl
    exact not_reaches_self hq
  rw [OrdMap.find?_modify, if_neg hqp] at hnone
  exact h q ((reaches_step hp hr).mpr (Or.inr hq)) hnone k (mem_keys_grow.mp hk)

/-- **With the iterator in step** and no gap, every block of the range is there and large enough. -/
theorem allocateBlocks_in_step {fuel : Nat} : ∀ {p r second : Nat} {bl : BlockList}, Aligned bl → getBlockStartPoint p = p →
    r ≤ fuel → bl.find? p = some second → NoGap bl p r → Allocated bl (allocateBlocks fuel r p (some p) bl) p r := by
  induction fuel with
  | zero =>
      intro p r second bl _ _ hr _ _ k
      obtain rfl : r = 0 := by omega
      rw [if_neg not_reaches_zero]
      rfl
  | succ fuel ih =>
      intro p r second bl hal hp hr hf hgap k
      unfold allocateBlocks
      by_cases hz : r = 0
      · rw [if_pos hz, hz, if_neg not_reaches_zero]
      · rw [if_neg hz]
        dsimp only
        have hB : 0 < BLOCK_SIZE := by decide
        have hgrow := find?_grow (b := min r BLOCK_SIZE) hf
        have hgrown := hal.grow (p := p) (f := fun second => max (min r BLOCK_SIZE) second)
        have hrest := hgap.rest hp hz (f := fun second => max (min r BLOCK_SIZE) second)
        generalize bl.modify p (fun second => max (min r BLOCK_SIZE) second) = bl' at hgrow hgrown hrest ⊢
        -- what the rest of the walk does to the list
        have hwalk : Allocated bl' (allocateBlocks fuel (r - BLOCK_SIZE) (p + BLOCK_SIZE) (bl'.nextKey p) bl')
            (p + BLOCK_SIZE) (r - BLOCK_SIZE) := by
          cases hnext : bl'.find? (p + BLOCK_SIZE) with
          | some v =>
              rw [nextKey_in_step hgrown hp hnext]
              exact ih hgrown (getBlockStartPoint_next hp) (by omega) hnext hrest
          | none =>
              intro j
              by_cases hmore : r ≤ BLOCK_SIZE
              · have hdone : r - BLOCK_SIZE = 0 := by omega
                rw [hdone, if_neg not_reaches_zero]
                cases fuel <;> rfl
              · have hfirst : Reaches (p + BLOCK_SIZE) (r - BLOCK_SIZE) (p + BLOCK_SIZE) :=
                  ⟨getBlockStartPoint_next hp, Nat.le_refl _, by omega⟩
                have hend := hrest _ hfirst hnext
                rw [nextKey_at_end hend hgrown hp, allocateBlocks_append (getBlockStartPoint_next hp) (by omega)]
                by_cases hj : Reaches (p + BLOCK_SIZE) (r - BLOCK_SIZE) j
                · have habsent : bl'.find? j = none := by
                    apply OrdMap.find?_none_iff_not_mem_keys.mpr
                    intro hmem
                    have := hend j hmem
                    have := hj.2.1
                    omega
                  rw [if_pos ⟨habsent, hj⟩, if_pos hj, habsent, Option.getD_none, Nat.max_zero]
                · rw [if_neg (fun hc => hj hc.2), if_neg hj]
        rw [hwalk k, hgrow]
        by_cases hkp : k = p
        · subst hkp
          rw [if_neg not_reaches_self, if_pos rfl, if_pos ((reaches_step hp hz).mpr (Or.inl rfl)), needed_self, hf,
            Option.getD_some]
        · rw [if_neg hkp]
          by_cases hj : Reaches (p + BLOCK_SIZE) (r - BLOCK_SIZE) k
          · rw [if_pos hj, if_pos ((reaches_step hp hz).mpr (Or.inr hj)), needed_step hj]
          · rw [if_neg hj, if_neg (fun hc => ((reaches_step hp hz).mp hc).elim hkp hj)]

/-! ## Past a gap -/

/-- The walk lists nothing behind itself. -/
theorem allocateBlocks_behind {fuel : Nat} : ∀ {p r q : Nat} {it : Option Nat} {bl : BlockList}, bl.find? q = none → q < p →
    (allocateBlocks fuel r p it bl).find? q = none := by
  induction fuel with
  | zero => exact fun hq _ => hq
  | succ fuel ih =>
      intro p r q it bl hq hlt
      unfold allocateBlocks
      split
      · exact hq
      · cases it with
        | none =>
            apply ih _ (by omega)
            rw [OrdMap.find?_insert_ne bl _ (by omega)]
            exact hq
        | some j =>
            apply ih _ (by omega)
            rw [OrdMap.find?_modify]
            split
            · rename_i hj
              rw [← hj, hq]
              rfl
            · exact hq

/-- **A gap stays**: a missing block of the range, with something listed after it, is never listed. -/
theorem allocateBlocks_gap {fuel : Nat} : ∀ {p r second : Nat} {bl : BlockList}, Aligned bl → getBlockStartPoint p = p →
    r ≤ fuel → bl.find? p = some second → ¬ NoGap bl p r →
    ∃ q, Reaches p r q ∧ (allocateBlocks fuel r p (some p) bl).find? q = none := by
  induction fuel with
  | zero =>
      intro p r second bl _ _ hr _ hgap
      obtain rfl : r = 0 := by omega
      exact absurd (fun q hq => absurd hq not_reaches_zero) hgap
  | succ fuel ih =>
      intro p r second bl hal hp hr hf hgap
      have hB : 0 < BLOCK_SIZE := by decide
      have hz : r ≠ 0 := by
        rintro rfl
        exact hgap (fun q hq => absurd hq not_reaches_zero)
      unfold allocateBlocks
      rw [if_neg hz]
      dsimp only
      have hgrow := find?_grow (b := min r BLOCK_SIZE) hf
      have hgrown := hal.grow (p := p) (f := fun second => max (min r BLOCK_SIZE) second)
      have hkeys : ∀ k, k ∈ (bl.modify p (fun second => max (min r BLOCK_SIZE) second)).keys ↔ k ∈ bl.keys :=
        fun k => mem_keys_grow
      generalize bl.modify p (fun second => max (min r BLOCK_SIZE) second) = bl' at hgrow hgrown hkeys ⊢
      -- the missing block is not the first one
      have hrest : ¬ NoGap bl' (p + BLOCK_SIZE) (r - BLOCK_SIZE) := by
        intro hno
        apply hgap
        intro q hq hnone k hk
        rcases (reaches_step hp hz).mp hq with rfl | hq'
        · rw [hf] at hnone
          cases hnone
        · have hqp : q ≠ p := by
            rintro rfl
            exact not_reaches_self hq'
          exact hno q hq' (by rw [hgrow, if_neg hqp]; exact hnone) k ((hkeys k).mpr hk)
      cases hnext : bl'.find? (p + BLOCK_SIZE) with
      | some v =>
          rw [nextKey_in_step hgrown hp hnext]
          obtain ⟨q, hq, hnone⟩ := ih hgrown (getBlockStartPoint_next hp) (by omega) hnext hrest
          exact ⟨q, (reaches_step hp hz).mpr (Or.inr hq), hnone⟩
      | none =>
          -- the iterator is ahead: something is listed after the missing block
          obtain ⟨k, hk⟩ : ∃ k, bl'.nextKey p = some k := by
            cases hn : bl'.nextKey p with
            | some k => exact ⟨k, rfl⟩
            | none =>
                exfalso
                apply hrest
                intro q hq _ k hk
                have := OrdMap.nextKey_none.mp hn k hk
                have := hq.2.1
                omega
          have hmore : BLOCK_SIZE < r := by
            by_contra hle
            apply hrest
            rw [show r - BLOCK_SIZE = 0 by omega]
            exact fun q hq => absurd hq not_reaches_zero
          refine ⟨p + BLOCK_SIZE, ⟨getBlockStartPoint_next hp, by omega, by omega⟩, ?_⟩
          rw [hk]
          obtain ⟨fuel', rfl⟩ : ∃ fuel', fuel = fuel' + 1 := ⟨fuel - 1, by omega⟩
          unfold allocateBlocks
          rw [if_neg (by omega)]
          apply allocateBlocks_behind _ (by omega)
          rw [OrdMap.find?_modify]
          split
          · rename_i hj
            rw [← hj, hnext]
            rfl
          · exact hnext

end Walk

/-! ## The written range -/

/-- What a write can expect of the list. -/
structure WriteCovered (bl bl' : BlockList) (startPoint size : Nat) : Prop where
  covered : ∀ x, startPoint ≤ x → x < startPoint + size →
    ∃ v, bl'.find? (getBlockStartPoint x) = some v ∧ x - getBlockStartPoint x < v
  others : ∀ k, (∀ x, startPoint ≤ x → x < startPoint + size → getBlockStartPoint x ≠ k) → bl'.find? k = bl.find? k
  grows : ∀ k v, bl.find? k = some v → ∃ v', bl'.find? k = some v' ∧ v ≤ v'
  fits : SizesFit bl'

section Range

variable {bl bl' : BlockList} {startPoint size : Nat}

/-- The blocks of the written range are those the walk is to reach. -/
theorem reaches_iff (hsize : 0 < size) {k : Nat} :
    Reaches (getBlockStartPoint startPoint) (startPoint - getBlockStartPoint startPoint + size) k ↔
      ∃ x, startPoint ≤ x ∧ x < startPoint + size ∧ getBlockStartPoint x = k := by
  have hle := getBlockStartPoint_le startPoint
  have hlt := lt_getBlockStartPoint_add startPoint
  constructor
  · rintro ⟨hk, hge, hend⟩
    by_cases hfirst : startPoint ≤ k
    · exact ⟨k, hfirst, by omega, hk⟩
    · -- the block the range starts in
      refine ⟨startPoint, Nat.le_refl _, by omega, ?_⟩
      by_contra hne
      have := block_le_of_lt (getBlockStartPoint_self startPoint) hk (by omega)
      omega
  · rintro ⟨x, hge, hend, rfl⟩
    have hx := getBlockStartPoint_le x
    refine ⟨getBlockStartPoint_self x, Nat.mul_le_mul_right _ (Nat.div_le_div_right hge), by omega⟩

/-- A byte of the range is inside what its block needs to have. -/
theorem offset_lt_needed {x : Nat} (hge : startPoint ≤ x) (hlt : x < startPoint + size) :
    x - getBlockStartPoint x
      < needed (getBlockStartPoint startPoint) (startPoint - getBlockStartPoint startPoint + size) (getBlockStartPoint x) := by
  have hle := getBlockStartPoint_le startPoint
  have hx := getBlockStartPoint_le x
  have hxlt := lt_getBlockStartPoint_add x
  have hmono : getBlockStartPoint startPoint ≤ getBlockStartPoint x := Nat.mul_le_mul_right _ (Nat.div_le_div_right hge)
  unfold needed
  exact Nat.lt_min.mpr ⟨by omega, by omega⟩

/-- The last byte of the range in a block needs all of that. -/
theorem needed_le_of_covered (hsize : 0 < size)
    (hcovered : ∀ x, startPoint ≤ x → x < startPoint + size →
      ∃ v, bl'.find? (getBlockStartPoint x) = some v ∧ x - getBlockStartPoint x < v) {k : Nat}
    (hk : Reaches (getBlockStartPoint startPoint) (startPoint - getBlockStartPoint startPoint + size) k) :
    ∃ v, bl'.find? k = some v ∧
      needed (getBlockStartPoint startPoint) (startPoint - getBlockStartPoint startPoint + size) k ≤ v := by
  have hle := getBlockStartPoint_le startPoint
  have hlt := lt_getBlockStartPoint_add startPoint
  obtain ⟨halign, hge, hend⟩ := hk
  obtain ⟨y, hy, hyend, hyk⟩ := (reaches_iff hsize).mp ⟨halign, hge, hend⟩
  have hylt := lt_getBlockStartPoint_add y
  rw [hyk] at hylt
  -- the last byte of the range in the block is just before `e`
  obtain ⟨e, hke, hse, hend', heq⟩ : ∃ e, k < e ∧ startPoint < e ∧ (e ≤ startPoint + size ∧ e ≤ k + BLOCK_SIZE) ∧
      (e = startPoint + size ∨ e = k + BLOCK_SIZE) := by
    by_cases hshort : startPoint + size ≤ k + BLOCK_SIZE
    · exact ⟨startPoint + size, by omega, by omega, ⟨Nat.le_refl _, hshort⟩, Or.inl rfl⟩
    · exact ⟨k + BLOCK_SIZE, Nat.lt_add_of_pos_right (by decide), by omega, ⟨by omega, Nat.le_refl _⟩, Or.inr rfl⟩
  have hlast : getBlockStartPoint (e - 1) = k := by
    obtain ⟨d, hd⟩ : ∃ d, e - 1 = k + d := ⟨e - 1 - k, by omega⟩
    have hdlt : d < BLOCK_SIZE := by omega
    rw [hd, getBlockStartPoint_add halign, getBlockStartPoint_of_lt hdlt, Nat.add_zero]
  obtain ⟨v, hv, hin⟩ := hcovered (e - 1) (by omega) (by omega)
  rw [hlast] at hv hin
  refine ⟨v, hv, ?_⟩
  unfold needed
  rcases heq with rfl | rfl
  · exact Nat.le_trans (Nat.min_le_left _ _) (by omega)
  · exact Nat.le_trans (Nat.min_le_right _ _) (by omega)

/-- The list covers what is written: the first block is listed, and large enough for the early return or followed by no gap; or it is
    not listed, and what is listed of the range is large enough already. -/
def WriteCoverable (bl : BlockList) (startPoint size : Nat) : Prop :=
  let p := getBlockStartPoint startPoint
  let r := startPoint - p + size
  match bl.find? p with
  | some second => r + startPoint < p + second ∨ NoGap bl p r
  | none => ∀ q v, Reaches p r q → bl.find? q = some v → needed p r q ≤ v

theorem WriteCovered.of_allocated (hsize : 0 < size) (hfits : SizesFit bl)
    (h : Allocated bl bl' (getBlockStartPoint startPoint) (startPoint - getBlockStartPoint startPoint + size)) :
    WriteCovered bl bl' startPoint size := by
  refine ⟨?_, ?_, ?_, ?_⟩
  · intro x hge hlt
    refine ⟨_, (h _).trans (if_pos ((reaches_iff hsize).mpr ⟨x, hge, hlt, rfl⟩)), ?_⟩
    exact Nat.lt_of_lt_of_le (offset_lt_needed hge hlt) (Nat.le_max_left _ _)
  · intro k hk
    refine (h k).trans (if_neg ?_)
    intro hreach
    obtain ⟨x, hge, hlt, hx⟩ := (reaches_iff hsize).mp hreach
    exact hk x hge hlt hx
  · intro k v hv
    rw [h k]
    split
    · exact ⟨_, rfl, by rw [hv]; exact Nat.le_max_right _ _⟩
    · exact ⟨v, hv, Nat.le_refl v⟩
  · intro k v hv
    rw [h k] at hv
    split at hv
    · cases hv
      apply Nat.max_le.mpr
      refine ⟨Nat.min_le_right _ _, ?_⟩
      cases hf : bl.find? k with
      | none => exact Nat.zero_le _
      | some w => exact hfits k w hf
    · exact hfits k v hv

end Range

/-- **The list covers a write exactly when it is `WriteCoverable`**, for any list of aligned blocks of at most a block's size. -/
theorem allocate_covers_write_iff {bl : BlockList} {startPoint size : Nat} (haligned : Aligned bl) (hfits : SizesFit bl)
    (hsize : 0 < size) :
    WriteCovered bl (allocateNewBlocksForWriting bl startPoint size) startPoint size ↔ WriteCoverable bl startPoint size := by
  have hp := getBlockStartPoint_self startPoint
  have hle := getBlockStartPoint_le startPoint
  unfold allocateNewBlocksForWriting WriteCoverable
  dsimp only
  cases hf : bl.find? (getBlockStartPoint startPoint) with
  | some second =>
      dsimp only
      by_cases hearly : startPoint - getBlockStartPoint startPoint + size + startPoint < getBlockStartPoint startPoint + second
      · rw [if_pos hearly]
        have hsecond := hfits _ second hf
        -- the range ends inside its first block
        have hone : ∀ x, startPoint ≤ x → x < startPoint + size → getBlockStartPoint x = getBlockStartPoint startPoint := by
          intro x hge hlt
          obtain ⟨d, rfl⟩ : ∃ d, x = getBlockStartPoint startPoint + d := ⟨x - getBlockStartPoint startPoint, by omega⟩
          have hd : d < BLOCK_SIZE := by omega
          rw [getBlockStartPoint_add hp, getBlockStartPoint_of_lt hd, Nat.add_zero]
        refine ⟨fun _ => Or.inl hearly, fun _ => ⟨?_, fun _ _ => rfl, fun _ v hv => ⟨v, hv, Nat.le_refl v⟩, hfits⟩⟩
        intro x hge hlt
        rw [hone x hge hlt]
        exact ⟨second, hf, by omega⟩
      · rw [if_neg hearly]
        constructor
        · intro h
          apply Or.inr
          by_contra hgap
          obtain ⟨q, hq, hnone⟩ := allocateBlocks_gap haligned hp (Nat.le_refl _) hf hgap
          obtain ⟨v, hv, -⟩ := needed_le_of_covered hsize h.covered hq
          rw [hnone] at hv
          cases hv
        · rintro (hc | hgap)
          · exact absurd hc hearly
          · exact WriteCovered.of_allocated hsize hfits (allocateBlocks_in_step haligned hp (Nat.le_refl _) hf hgap)
  | none =>
      dsimp only
      constructor
      · intro h q v hq hv
        obtain ⟨w, hw, hneed⟩ := needed_le_of_covered hsize h.covered hq
        rw [allocateBlocks_append hp (Nat.le_refl _), if_neg (by rw [hv]; exact fun hc => (nomatch hc.1)), hv] at hw
        obtain rfl := Option.some.inj hw
        exact hneed
      · intro hlarge
        apply WriteCovered.of_allocated hsize hfits
        intro k
        rw [allocateBlocks_append hp (Nat.le_refl _)]
        by_cases hk : Reaches (getBlockStartPoint startPoint) (startPoint - getBlockStartPoint startPoint + size) k
        · cases hv : bl.find? k with
          | none => rw [if_pos ⟨rfl, hk⟩, if_pos hk, Option.getD_none, Nat.max_zero]
          | some v =>
              rw [if_neg (fun hc => (nomatch hc.1)), if_pos hk, Option.getD_some, Nat.max_eq_right (hlarge k v hk hv)]
        · rw [if_neg (fun hc => hk hc.2), if_neg hk]

/-- The list of a new file, after a byte was written into its third block. -/
def gappedList : BlockList := allocateNewBlocksForWriting (createBlockList 0 BLOCK_SIZE OrdMap.empty) (2 * BLOCK_SIZE) 1

theorem gappedList_entry {k v : Nat} (h : gappedList.find? k = some v) : k = 0 ∧ v = 0 ∨ k = 2 * BLOCK_SIZE ∧ v = 1 := by
  have hentries : gappedList.entries = [(0, 0), (2 * BLOCK_SIZE, 1)] := by decide +kernel
  have hmem := OrdMap.mem_entries.mpr h
  rw [hentries] at hmem
  simpa using hmem

theorem gappedList_aligned : Aligned gappedList := by
  intro k v hv
  rcases gappedList_entry hv with ⟨rfl, -⟩ | ⟨rfl, -⟩
  · rfl
  · exact getBlockStartPoint_mul_add 2 0 (by decide)

theorem gappedList_fits : SizesFit gappedList := by
  intro k v hv
  rcases gappedList_entry hv with ⟨-, rfl⟩ | ⟨-, rfl⟩
  · exact Nat.zero_le _
  · decide

/-- A write inside the first block is covered, the gap being behind it. -/
theorem allocate_covers_write_before_gap :
    Aligned gappedList ∧ SizesFit gappedList ∧
      WriteCovered gappedList (allocateNewBlocksForWriting gappedList 0 5) 0 5 := by
  refine ⟨gappedList_aligned, gappedList_fits, ?_⟩
  apply (allocate_covers_write_iff gappedList_aligned gappedList_fits (by decide)).mpr
  have hfirst : gappedList.find? (getBlockStartPoint 0) = some 0 := by decide +kernel
  unfold WriteCoverable
  dsimp only
  rw [hfirst]
  apply Or.inr
  intro q hq hnone
  -- the range reaches into no other block
  obtain ⟨halign, -, hlt⟩ := hq
  have hlt' : q < 5 := by simpa [getBlockStartPoint] using hlt
  have hzero : q = 0 := halign.symm.trans (getBlockStartPoint_of_lt (Nat.lt_trans hlt' (by decide)))
  rw [hzero] at hnone
  have hfirst' : gappedList.find? 0 = some 0 := hfirst
  rw [hfirst'] at hnone
  cases hnone

/-- A write across the gap is not: the second block is missing afterwards. -/
theorem write_across_gap_not_covered :
    Aligned gappedList ∧ SizesFit gappedList ∧
      ¬ WriteCovered gappedList (allocateNewBlocksForWriting gappedList 0 (BLOCK_SIZE + 1)) 0 (BLOCK_SIZE + 1) := by
  refine ⟨gappedList_aligned, gappedList_fits, ?_⟩
  intro h
  obtain ⟨v, hv, -⟩ := h.covered BLOCK_SIZE (Nat.zero_le _) (by decide)
  have hnone : (allocateNewBlocksForWriting gappedList 0 (BLOCK_SIZE + 1)).find? (getBlockStartPoint BLOCK_SIZE) = none := by
    decide +kernel
  rw [hnone] at hv
  cases hv

end Master

end HuronFS
