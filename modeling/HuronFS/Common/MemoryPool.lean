import Mathlib.Algebra.Ring.Nat
import Mathlib.Data.Finset.Card
import HuronFS.Lib.Run

/-!
# `Common.MemoryPool` — the pool of memory elements (`CBB_memory_pool.cpp`)

A pool hands out elements of one size from a list of free ones, and grows by a step when the list is empty.
Three byte counters stand beside the list, all `size_t`. `malloc` is outside this repository: a call of
`allocate` is given how many times it succeeds before it returns null. A null list that is dereferenced
is undefined behaviour, and has no result.
-/

namespace HuronFS

/-- The range of `size_t`. -/
def SIZE_T : Nat := 2 ^ 64

/-- `memory_pool`, machine arithmetic included. An element is its address; `nextElem` is an address `new` has not returned yet. -/
structure ElementPool where
  freeList : List Nat
  availableMemory : Nat
  allocatedSize : Nat
  blockSize : Nat
  stepSize : Nat
  totalSize : Nat
  nextElem : Nat
deriving DecidableEq, Repr

/-- What `allocate` returns or throws. -/
inductive Allocation
  | elem (address : Nat)
  | badAlloc
deriving DecidableEq, Repr

namespace ElementPool

/-- `setup`, on a pool just constructed. -/
def setup (sizeOfElem totalCount preAllocCount : Nat) : ElementPool :=
  let preAllocCount := if preAllocCount > totalCount then totalCount else preAllocCount
  { freeList := [], availableMemory := 0, allocatedSize := 0, blockSize := sizeOfElem,
    stepSize := preAllocCount * sizeOfElem % SIZE_T, totalSize := sizeOfElem * totalCount % SIZE_T, nextElem := 0 }

/-- `has_memory_left`. -/
def hasMemoryLeft (p : ElementPool) (size : Nat) : Bool :=
  p.availableMemory ≥ size || p.totalSize ≥ (p.allocatedSize + p.blockSize) % SIZE_T

/-- The loop of `allocate_more_memory`: `false` when `malloc` fails. Every turn takes the size of an element
    off `tmp`, which gives the fuel. -/
def pushElems : (fuel tmp mallocs : Nat) → ElementPool → Bool × ElementPool
  | 0, _, _, p => (true, p)
  | fuel + 1, tmp, mallocs, p =>
      if p.blockSize ≤ tmp then
        match mallocs with
        | 0 => (false, p)
        | mallocs + 1 =>
            pushElems fuel (tmp - p.blockSize) mallocs { p with freeList := p.nextElem :: p.freeList, nextElem := p.nextElem + 1 }
      else (true, p)

/-- `allocate_more_memory`: `false` when it throws. -/
def allocateMoreMemory (p : ElementPool) (mallocs : Nat) : Bool × ElementPool :=
  if p.totalSize ≥ (p.allocatedSize + p.blockSize) % SIZE_T then
    let allocationSize := min ((p.totalSize + SIZE_T - p.allocatedSize) % SIZE_T) p.stepSize
    match pushElems (allocationSize + 1) allocationSize mallocs p with
    | (false, p) => (false, p)
    | (true, p) =>
        (true, { p with
          availableMemory := (p.availableMemory + allocationSize) % SIZE_T
          allocatedSize := (p.allocatedSize + allocationSize) % SIZE_T })
  else (false, p)

/-- Take the first element of the list. -/
def takeHead (p : ElementPool) : Option (Allocation × ElementPool) :=
  match p.freeList with
  | [] => none
  | e :: rest =>
      some (.elem e, { p with freeList := rest, availableMemory := (p.availableMemory + SIZE_T - p.blockSize) % SIZE_T })

/-- `allocate`. -/
def allocate (p : ElementPool) (mallocs : Nat) : Option (Allocation × ElementPool) :=
  match p.freeList with
  | [] =>
      match p.allocateMoreMemory mallocs with
      | (false, p) => some (.badAlloc, p)
      | (true, p) => p.takeHead
  | _ :: _ => p.takeHead

/-- `free`. -/
def free (p : ElementPool) (e : Nat) : ElementPool :=
  { p with freeList := e :: p.freeList, availableMemory := (p.availableMemory + p.blockSize) % SIZE_T }

/-- How often the next `allocate` calls `malloc`. -/
def mallocsNeeded (p : ElementPool) : Nat :=
  match p.freeList with
  | [] => if p.totalSize ≥ (p.allocatedSize + p.blockSize) % SIZE_T
      then min ((p.totalSize + SIZE_T - p.allocatedSize) % SIZE_T) p.stepSize / p.blockSize else 0
  | _ :: _ => 0

end ElementPool

/-! ## Runs -/

/-- A pool with the elements that are out. -/
structure PoolUse where
  pool : ElementPool
  outstanding : Finset Nat

/-- A call on the pool. -/
inductive PoolCall
  | allocate (mallocs : Nat)
  | free (address : Nat)
deriving DecidableEq, Repr

namespace PoolUse

/-- One call. -/
def step (s : PoolUse) : PoolCall → Option PoolUse
  | .allocate mallocs =>
      match s.pool.allocate mallocs with
      | none => none
      | some (.elem e, p) => some ⟨p, insert e s.outstanding⟩
      | some (.badAlloc, p) => some ⟨p, s.outstanding⟩
  | .free e => some ⟨s.pool.free e, s.outstanding.erase e⟩

/-- Only elements that are out are freed, and `malloc` gives what a call asks for. -/
def Allowed (s : PoolUse) : PoolCall → Prop
  | .allocate mallocs => s.pool.mallocsNeeded ≤ mallocs
  | .free e => e ∈ s.outstanding

instance (s : PoolUse) : (call : PoolCall) → Decidable (s.Allowed call)
  | .allocate mallocs => inferInstanceAs (Decidable (s.pool.mallocsNeeded ≤ mallocs))
  | .free e => inferInstanceAs (Decidable (e ∈ s.outstanding))

/-- **The pool accounts for every element**: the counters are those of the list and of what is out, no
    element is both, and `allocate` succeeds just when there is an element left. -/
structure Accounts (s : PoolUse) (totalCount : Nat) : Prop where
  available : s.pool.availableMemory = s.pool.blockSize * s.pool.freeList.length
  allocated : s.pool.allocatedSize = s.pool.blockSize * (s.pool.freeList.length + s.outstanding.card)
  total : s.pool.allocatedSize ≤ s.pool.totalSize
  apart : ∀ e ∈ s.pool.freeList, e ∉ s.outstanding
  left : s.pool.hasMemoryLeft s.pool.blockSize = true ↔ s.outstanding.card < totalCount
  allocates : ∀ mallocs, s.pool.mallocsNeeded ≤ mallocs → s.outstanding.card < totalCount →
    ∃ e p, s.pool.allocate mallocs = some (.elem e, p) ∧ e ∉ s.outstanding
  refuses : ∀ mallocs, ¬ s.outstanding.card < totalCount → s.pool.allocate mallocs = some (.badAlloc, s.pool)

end PoolUse

/-! ## Growth -/

namespace ElementPool

/-- `n` new elements at the head of the list. -/
def pushN (p : ElementPool) : Nat → ElementPool
  | 0 => p
  | n + 1 => pushN { p with freeList := p.nextElem :: p.freeList, nextElem := p.nextElem + 1 } n

/-- The pool once it has grown by `n` elements. -/
def grown (p : ElementPool) (n : Nat) : ElementPool :=
  { p.pushN n with availableMemory := p.availableMemory + p.blockSize * n, allocatedSize := p.allocatedSize + p.blockSize * n }

/-- The elements and the list after `n` pushes. -/
theorem pushN_list (n : Nat) : ∀ p : ElementPool, (p.pushN n).freeList.length = p.freeList.length + n ∧
    (p.pushN n).nextElem = p.nextElem + n ∧
    (∀ e, e ∈ (p.pushN n).freeList ↔ e ∈ p.freeList ∨ (p.nextElem ≤ e ∧ e < p.nextElem + n)) ∧
    ((∀ e ∈ p.freeList, e < p.nextElem) → p.freeList.Nodup → (p.pushN n).freeList.Nodup) := by
  induction n with
  | zero =>
      intro p
      refine ⟨rfl, rfl, ?_, fun _ h => h⟩
      intro e
      refine ⟨Or.inl, ?_⟩
      rintro (h | h)
      · exact h
      · omega
  | succ n ih =>
      intro p
      obtain ⟨hlen, hnext, hmem, hnodup⟩ := ih { p with freeList := p.nextElem :: p.freeList, nextElem := p.nextElem + 1 }
      refine ⟨?_, ?_, ?_, ?_⟩
      · apply hlen.trans
        show (p.nextElem :: p.freeList).length + n = _
        rw [List.length_cons]
        omega
      · apply hnext.trans
        show p.nextElem + 1 + n = _
        omega
      · intro e
        apply (hmem e).trans
        show e ∈ p.nextElem :: p.freeList ∨ (p.nextElem + 1 ≤ e ∧ e < p.nextElem + 1 + n) ↔ _
        rw [List.mem_cons]
        constructor
        · rintro ((rfl | h) | h)
          · exact Or.inr (by omega)
          · exact Or.inl h
          · exact Or.inr (by omega)
        · rintro (h | h)
          · exact Or.inl (Or.inr h)
          · by_cases he : e = p.nextElem
            · exact Or.inl (Or.inl he)
            · exact Or.inr (by omega)
      · intro hlt hnd
        apply hnodup
        · intro e he
          show e < p.nextElem + 1
          rcases List.mem_cons.mp he with rfl | he
          · omega
          · have := hlt e he
            omega
        · exact List.nodup_cons.mpr ⟨fun hc => absurd (hlt _ hc) (lt_irrefl _), hnd⟩

/-- The counters do not change while elements are pushed. -/
theorem pushN_counters (n : Nat) : ∀ p : ElementPool, (p.pushN n).availableMemory = p.availableMemory ∧
    (p.pushN n).allocatedSize = p.allocatedSize ∧ (p.pushN n).blockSize = p.blockSize ∧
    (p.pushN n).stepSize = p.stepSize ∧ (p.pushN n).totalSize = p.totalSize := by
  induction n with
  | zero =>
      intro p
      exact ⟨rfl, rfl, rfl, rfl, rfl⟩
  | succ n ih =>
      intro p
      exact ih { p with freeList := p.nextElem :: p.freeList, nextElem := p.nextElem + 1 }

/-- **The loop** makes as many elements as fit, when `malloc` gives them. -/
theorem pushElems_eq (n : Nat) : ∀ {fuel mallocs : Nat} {p : ElementPool}, 0 < p.blockSize → n < fuel → n ≤ mallocs →
    pushElems fuel (p.blockSize * n) mallocs p = (true, p.pushN n) := by
  induction n with
  | zero =>
      intro fuel mallocs p hpos hfuel _
      obtain ⟨fuel, rfl⟩ := Nat.exists_eq_succ_of_ne_zero (Nat.ne_of_gt hfuel)
      unfold pushElems
      rw [if_neg (by rw [Nat.mul_zero]; omega)]
      rfl
  | succ n ih =>
      intro fuel mallocs p hpos hfuel hm
      obtain ⟨fuel, rfl⟩ := Nat.exists_eq_succ_of_ne_zero (Nat.ne_of_gt (Nat.lt_of_le_of_lt (Nat.zero_le _) hfuel))
      obtain ⟨mallocs, rfl⟩ := Nat.exists_eq_succ_of_ne_zero (Nat.ne_of_gt (Nat.lt_of_lt_of_le (Nat.succ_pos n) hm))
      unfold pushElems
      have hle : p.blockSize ≤ p.blockSize * (n + 1) := Nat.le_mul_of_pos_right _ (Nat.succ_pos n)
      have hsub : p.blockSize * (n + 1) - p.blockSize = p.blockSize * n := by
        rw [Nat.mul_add, Nat.mul_one, Nat.add_sub_cancel]
      rw [if_pos hle, hsub]
      exact ih (p := { p with freeList := p.nextElem :: p.freeList, nextElem := p.nextElem + 1 }) hpos (by omega) (by omega)

end ElementPool

/-! ## The invariant -/

namespace PoolUse

section

variable {size total pre : Nat}

/-- A pool of `total` elements of `size` bytes that grows by `pre` of them. -/
structure Inv (size total pre : Nat) (s : PoolUse) : Prop where
  block : s.pool.blockSize = size
  step : s.pool.stepSize = size * pre
  totalSize : s.pool.totalSize = size * total
  available : s.pool.availableMemory = size * s.pool.freeList.length
  allocated : s.pool.allocatedSize = size * (s.pool.freeList.length + s.outstanding.card)
  count : s.pool.freeList.length + s.outstanding.card ≤ total
  apart : ∀ e ∈ s.pool.freeList, e ∉ s.outstanding
  nodup : s.pool.freeList.Nodup
  freeFresh : ∀ e ∈ s.pool.freeList, e < s.pool.nextElem
  outFresh : ∀ e ∈ s.outstanding, e < s.pool.nextElem

variable {s : PoolUse}

/-- What the sum of two sizes is, when all elements and one more fit `size_t`. -/
theorem Inv.sum_eq (h : Inv size total pre s) (hfits : size * (total + 1) < SIZE_T) :
    (s.pool.allocatedSize + s.pool.blockSize) % SIZE_T = size * (s.pool.freeList.length + s.outstanding.card + 1) := by
  have hle : size * (s.pool.freeList.length + s.outstanding.card + 1) ≤ size * (total + 1) :=
    Nat.mul_le_mul_left _ (by have := h.count; omega)
  have hsum : size * (s.pool.freeList.length + s.outstanding.card) + size =
      size * (s.pool.freeList.length + s.outstanding.card + 1) := (Nat.mul_succ _ _).symm
  rw [h.allocated, h.block, hsum, Nat.mod_eq_of_lt (by omega)]

/-- There is room to grow just when fewer elements exist than may. -/
theorem Inv.room_iff (h : Inv size total pre s) (hpos : 0 < size) (hfits : size * (total + 1) < SIZE_T) :
    s.pool.totalSize ≥ (s.pool.allocatedSize + s.pool.blockSize) % SIZE_T ↔
      s.pool.freeList.length + s.outstanding.card < total := by
  rw [h.sum_eq hfits, h.totalSize, ge_iff_le, Nat.mul_le_mul_left_iff hpos]
  exact Nat.succ_le_iff

/-- The bytes of a growth are those of whole elements. -/
theorem Inv.growth_eq (h : Inv size total pre s) (hfits : size * (total + 1) < SIZE_T) :
    min ((s.pool.totalSize + SIZE_T - s.pool.allocatedSize) % SIZE_T) s.pool.stepSize =
      size * min (total - (s.pool.freeList.length + s.outstanding.card)) pre := by
  have hcount := h.count
  have hle : size * (s.pool.freeList.length + s.outstanding.card) ≤ size * total := Nat.mul_le_mul_left _ hcount
  have htotal : size * total < SIZE_T := lt_of_le_of_lt (Nat.mul_le_mul_left _ (Nat.le_succ total)) hfits
  have hdiff : size * total + SIZE_T - size * (s.pool.freeList.length + s.outstanding.card) =
      size * (total - (s.pool.freeList.length + s.outstanding.card)) + SIZE_T := by
    rw [Nat.mul_sub]
    omega
  have hsmall : size * (total - (s.pool.freeList.length + s.outstanding.card)) < SIZE_T :=
    lt_of_le_of_lt (Nat.mul_le_mul_left _ (Nat.sub_le _ _)) htotal
  rw [h.totalSize, h.allocated, h.step, hdiff, Nat.add_mod_right, Nat.mod_eq_of_lt hsmall, Nat.mul_min_mul_left]

/-- **The first element is taken.** -/
theorem Inv.takeHead (h : Inv size total pre s) (hfits : size * (total + 1) < SIZE_T) (hne : s.pool.freeList ≠ []) :
    ∃ e p, s.pool.takeHead = some (.elem e, p) ∧ e ∉ s.outstanding ∧ Inv size total pre ⟨p, insert e s.outstanding⟩ := by
  obtain ⟨e, rest, hlist⟩ := List.exists_cons_of_ne_nil hne
  have hcount := h.count
  have hlen : s.pool.freeList.length = rest.length + 1 := by rw [hlist, List.length_cons]
  have hmem : e ∈ s.pool.freeList := by rw [hlist]; exact List.mem_cons_self
  have hout : e ∉ s.outstanding := h.apart e hmem
  have hnodup := h.nodup
  rw [hlist] at hnodup
  obtain ⟨hnot, hnd⟩ := List.nodup_cons.mp hnodup
  refine ⟨e, { s.pool with freeList := rest, availableMemory := (s.pool.availableMemory + SIZE_T - s.pool.blockSize) % SIZE_T },
    ?_, hout, h.block, h.step, h.totalSize, ?_, ?_, ?_, ?_, hnd, ?_, ?_⟩
  · unfold ElementPool.takeHead
    rw [hlist]
  · show (s.pool.availableMemory + SIZE_T - s.pool.blockSize) % SIZE_T = size * rest.length
    have hle : size * rest.length ≤ size * (total + 1) := Nat.mul_le_mul_left _ (by omega)
    have hdiff : size * (rest.length + 1) + SIZE_T - size = size * rest.length + SIZE_T := by
      rw [Nat.mul_succ]
      omega
    rw [h.available, h.block, hlen, hdiff, Nat.add_mod_right, Nat.mod_eq_of_lt (by omega)]
  · show s.pool.allocatedSize = size * (rest.length + (insert e s.outstanding).card)
    rw [h.allocated, hlen, Finset.card_insert_of_notMem hout]
    congr 1
    omega
  · show rest.length + (insert e s.outstanding).card ≤ total
    rw [Finset.card_insert_of_notMem hout]
    omega
  · intro e' he' hc
    rcases Finset.mem_insert.mp hc with rfl | hc
    · exact hnot he'
    · exact h.apart e' (by rw [hlist]; exact List.mem_cons_of_mem _ he') hc
  · intro e' he'
    exact h.freeFresh e' (by rw [hlist]; exact List.mem_cons_of_mem _ he')
  · intro e' he'
    rcases Finset.mem_insert.mp he' with rfl | he'
    · exact h.freeFresh e' hmem
    · exact h.outFresh e' he'

/-- **`allocate_more_memory`** makes whole elements. -/
theorem Inv.allocateMoreMemory (h : Inv size total pre s) (hpos : 0 < size) (hfits : size * (total + 1) < SIZE_T)
    (hroom : s.pool.freeList.length + s.outstanding.card < total) {mallocs : Nat}
    (hm : min (total - (s.pool.freeList.length + s.outstanding.card)) pre ≤ mallocs) :
    s.pool.allocateMoreMemory mallocs = (true, s.pool.grown (min (total - (s.pool.freeList.length + s.outstanding.card)) pre)) := by
  have hgrowth := h.growth_eq hfits
  generalize hn : min (total - (s.pool.freeList.length + s.outstanding.card)) pre = n at hm hgrowth
  have hpush : ElementPool.pushElems (size * n + 1) (size * n) mallocs s.pool = (true, s.pool.pushN n) := by
    have hfuel : n < size * n + 1 := Nat.lt_succ_of_le (Nat.le_mul_of_pos_left _ hpos)
    have := ElementPool.pushElems_eq n (p := s.pool) (by rw [h.block]; exact hpos) hfuel hm
    rwa [h.block] at this
  obtain ⟨hav, hal, _, _, _⟩ := ElementPool.pushN_counters n s.pool
  have hbound : ∀ k, k ≤ total → size * k < SIZE_T := by
    intro k hk
    exact lt_of_le_of_lt (Nat.mul_le_mul_left _ (by omega)) hfits
  have hav' : (s.pool.availableMemory + size * n) % SIZE_T = s.pool.availableMemory + s.pool.blockSize * n := by
    rw [h.available, h.block, ← Nat.mul_add, Nat.mod_eq_of_lt (hbound _ (by omega))]
  have hal' : (s.pool.allocatedSize + size * n) % SIZE_T = s.pool.allocatedSize + s.pool.blockSize * n := by
    rw [h.allocated, h.block, ← Nat.mul_add, Nat.mod_eq_of_lt (hbound _ (by omega))]
  unfold ElementPool.allocateMoreMemory ElementPool.grown
  rw [if_pos ((h.room_iff hpos hfits).mpr hroom)]
  simp only [hgrowth, hpush, hav, hal, hav', hal']

/-- **The pool grows** by elements none of which is out. -/
theorem Inv.grown (h : Inv size total pre s) {n : Nat} (hcount : s.pool.freeList.length + s.outstanding.card + n ≤ total) :
    Inv size total pre ⟨s.pool.grown n, s.outstanding⟩ := by
  obtain ⟨hlen, hnext, hmem, hnodup⟩ := ElementPool.pushN_list n s.pool
  obtain ⟨_, _, hbl, hst, hto⟩ := ElementPool.pushN_counters n s.pool
  refine ⟨hbl.trans h.block, hst.trans h.step, hto.trans h.totalSize, ?_, ?_, ?_, ?_, hnodup h.freeFresh h.nodup, ?_, ?_⟩
  · show s.pool.availableMemory + s.pool.blockSize * n = size * (s.pool.pushN n).freeList.length
    rw [h.available, h.block, hlen, ← Nat.mul_add]
  · show s.pool.allocatedSize + s.pool.blockSize * n = size * ((s.pool.pushN n).freeList.length + s.outstanding.card)
    rw [h.allocated, h.block, hlen, ← Nat.mul_add, Nat.add_right_comm]
  · show (s.pool.pushN n).freeList.length + s.outstanding.card ≤ total
    omega
  · intro e he hc
    rcases (hmem e).mp he with he | he
    · exact h.apart e he hc
    · have := h.outFresh e hc
      omega
  · intro e he
    show e < (s.pool.pushN n).nextElem
    rcases (hmem e).mp he with he | he
    · have := h.freeFresh e he
      omega
    · omega
  · intro e he
    show e < (s.pool.pushN n).nextElem
    have := h.outFresh e he
    omega

/-- How many elements the next growth needs. -/
theorem Inv.mallocsNeeded_eq (h : Inv size total pre s) (hpos : 0 < size) (hfits : size * (total + 1) < SIZE_T)
    (hnil : s.pool.freeList = []) (hroom : s.pool.freeList.length + s.outstanding.card < total) :
    s.pool.mallocsNeeded = min (total - (s.pool.freeList.length + s.outstanding.card)) pre := by
  have hroom' := (h.room_iff hpos hfits).mpr hroom
  unfold ElementPool.mallocsNeeded
  split
  · rw [if_pos hroom', h.growth_eq hfits, h.block, Nat.mul_div_cancel_left _ hpos]
  · rename_i hcons
    rw [hnil] at hcons
    cases hcons

/-- **`allocate`** hands out an element that is not out, while there is one. -/
theorem Inv.allocate (h : Inv size total pre s) (hpos : 0 < size) (hfits : size * (total + 1) < SIZE_T) (hpre : 0 < pre)
    (hleft : s.outstanding.card < total) {mallocs : Nat} (hm : s.pool.mallocsNeeded ≤ mallocs) :
    ∃ e p, s.pool.allocate mallocs = some (.elem e, p) ∧ e ∉ s.outstanding ∧ Inv size total pre ⟨p, insert e s.outstanding⟩ := by
  cases hlist : s.pool.freeList with
  | nil =>
      have hroom : s.pool.freeList.length + s.outstanding.card < total := by
        rw [hlist, List.length_nil]
        omega
      rw [h.mallocsNeeded_eq hpos hfits hlist hroom] at hm
      have hmore := h.allocateMoreMemory hpos hfits hroom hm
      generalize hn : min (total - (s.pool.freeList.length + s.outstanding.card)) pre = n at hmore
      have hinv : Inv size total pre ⟨s.pool.grown n, s.outstanding⟩ := h.grown (by omega)
      have hne : (s.pool.grown n).freeList ≠ [] := by
        intro hc
        have hlen := (ElementPool.pushN_list n s.pool).1
        rw [show (s.pool.pushN n).freeList = [] from hc, List.length_nil] at hlen
        omega
      obtain ⟨e, p', htake, hout, hinv'⟩ := hinv.takeHead hfits hne
      refine ⟨e, p', ?_, hout, hinv'⟩
      unfold ElementPool.allocate
      simp only [hlist, hmore]
      exact htake
  | cons e0 rest =>
      obtain ⟨e, p, htake, hout, hinv⟩ := h.takeHead hfits (by rw [hlist]; exact List.cons_ne_nil _ _)
      refine ⟨e, p, ?_, hout, hinv⟩
      unfold ElementPool.allocate
      simp only [hlist]
      exact htake

/-- `allocate` throws and changes nothing when every element is out. -/
theorem Inv.allocate_refused (h : Inv size total pre s) (hpos : 0 < size) (hfits : size * (total + 1) < SIZE_T)
    (hfull : ¬ s.outstanding.card < total) (mallocs : Nat) : s.pool.allocate mallocs = some (.badAlloc, s.pool) := by
  have hcount := h.count
  have hnil : s.pool.freeList = [] := List.length_eq_zero_iff.mp (by omega)
  have hroom := mt (h.room_iff hpos hfits).mp (by omega)
  unfold ElementPool.allocate ElementPool.allocateMoreMemory
  simp only [hnil, if_neg hroom]

/-- **An element is given back.** -/
theorem Inv.free (h : Inv size total pre s) (hfits : size * (total + 1) < SIZE_T) {e : Nat} (he : e ∈ s.outstanding) :
    Inv size total pre ⟨s.pool.free e, s.outstanding.erase e⟩ := by
  have hcount := h.count
  have hcard : 0 < s.outstanding.card := Finset.card_pos.mpr ⟨e, he⟩
  have herase := Finset.card_erase_of_mem he
  refine ⟨h.block, h.step, h.totalSize, ?_, ?_, ?_, ?_, ?_, ?_, ?_⟩
  · show (s.pool.availableMemory + s.pool.blockSize) % SIZE_T = size * (e :: s.pool.freeList).length
    have hsum : size * s.pool.freeList.length + size = size * (s.pool.freeList.length + 1) := (Nat.mul_succ _ _).symm
    have hle : size * (s.pool.freeList.length + 1) ≤ size * (total + 1) := Nat.mul_le_mul_left _ (by omega)
    rw [h.available, h.block, hsum, List.length_cons, Nat.mod_eq_of_lt (by omega)]
  · show s.pool.allocatedSize = size * ((e :: s.pool.freeList).length + (s.outstanding.erase e).card)
    rw [h.allocated, herase, List.length_cons]
    congr 1
    omega
  · show (e :: s.pool.freeList).length + (s.outstanding.erase e).card ≤ total
    rw [herase, List.length_cons]
    omega
  · intro e' he' hc
    obtain ⟨hne, hc⟩ := Finset.mem_erase.mp hc
    rcases List.mem_cons.mp he' with rfl | he'
    · exact hne rfl
    · exact h.apart e' he' hc
  · exact List.nodup_cons.mpr ⟨fun hc => h.apart e hc he, h.nodup⟩
  · intro e' he'
    rcases List.mem_cons.mp he' with rfl | he'
    · exact h.outFresh e' he
    · exact h.freeFresh e' he'
  · intro e' he'
    exact h.outFresh e' (Finset.mem_of_mem_erase he')

/-- **One call** has a result and keeps the invariant. -/
theorem Inv.call (h : Inv size total pre s) (hpos : 0 < size) (hfits : size * (total + 1) < SIZE_T) (hpre : total = 0 ∨ 0 < pre)
    (call : PoolCall) (hcall : s.Allowed call) : ∃ s', s.step call = some s' ∧ Inv size total pre s' := by
  cases call with
  | allocate mallocs =>
      by_cases hleft : s.outstanding.card < total
      · obtain ⟨e, p, hal, _, hinv⟩ := h.allocate hpos hfits (by omega) hleft hcall
        refine ⟨⟨p, insert e s.outstanding⟩, ?_, hinv⟩
        unfold PoolUse.step
        simp only [hal]
      · refine ⟨s, ?_, h⟩
        unfold PoolUse.step
        simp only [h.allocate_refused hpos hfits hleft]
  | free e => exact ⟨_, rfl, h.free hfits hcall⟩

/-- What the invariant says of the counters and of the next call. -/
theorem Inv.accounts (h : Inv size total pre s) (hpos : 0 < size) (hfits : size * (total + 1) < SIZE_T)
    (hpre : total = 0 ∨ 0 < pre) : s.Accounts total := by
  have hcount := h.count
  refine ⟨by rw [h.block]; exact h.available, by rw [h.block]; exact h.allocated, ?_, h.apart, ?_, ?_, ?_⟩
  · rw [h.allocated, h.totalSize]
    exact Nat.mul_le_mul_left _ hcount
  · unfold ElementPool.hasMemoryLeft
    rw [Bool.or_eq_true, decide_eq_true_iff, decide_eq_true_iff, h.room_iff hpos hfits, h.available, h.block]
    constructor
    · rintro (hav | hroom)
      · have hone : 1 ≤ s.pool.freeList.length := Nat.pos_of_ne_zero (by
          intro hc
          rw [hc, Nat.mul_zero] at hav
          omega)
        omega
      · omega
    · intro hleft
      by_cases hnil : s.pool.freeList.length = 0
      · right
        omega
      · left
        exact Nat.le_mul_of_pos_right _ (Nat.pos_of_ne_zero hnil)
  · intro mallocs hm hleft
    obtain ⟨e, p, hal, hout, _⟩ := h.allocate hpos hfits (by omega) hleft hm
    exact ⟨e, p, hal, hout⟩
  · intro mallocs hfull
    exact h.allocate_refused hpos hfits hfull mallocs

end

/-- A pool as it is set up, with its growth step cut down to the whole pool. -/
theorem Inv.setup {sizeOfElem totalCount : Nat} (preAllocCount : Nat) (hfits : sizeOfElem * (totalCount + 1) < SIZE_T) :
    Inv sizeOfElem totalCount (if preAllocCount > totalCount then totalCount else preAllocCount)
      ⟨ElementPool.setup sizeOfElem totalCount preAllocCount, ∅⟩ := by
  have htotal : sizeOfElem * totalCount < SIZE_T :=
    lt_of_le_of_lt (Nat.mul_le_mul_left _ (Nat.le_succ totalCount)) hfits
  have hclip : (if preAllocCount > totalCount then totalCount else preAllocCount) ≤ totalCount := by
    split
    · exact le_refl _
    · omega
  refine ⟨rfl, ?_, Nat.mod_eq_of_lt htotal, ?_, ?_, ?_, ?_, List.nodup_nil, ?_, ?_⟩
  · show (if preAllocCount > totalCount then totalCount else preAllocCount) * sizeOfElem % SIZE_T = _
    rw [Nat.mul_comm, Nat.mod_eq_of_lt (lt_of_le_of_lt (Nat.mul_le_mul_left _ hclip) htotal)]
  · exact (Nat.mul_zero _).symm
  · exact (Nat.mul_zero _).symm
  · exact Nat.zero_le _
  · intro e he
    cases he
  · intro e he
    cases he
  · intro e he
    exact absurd he (Finset.notMem_empty e)

/-- **The pool accounts for every element** in every run of `allocate` and `free`, when a growth step holds an
    element, all elements and one more fit `size_t`, and `malloc` does not fail. -/
theorem pool_accounts (sizeOfElem totalCount preAllocCount : Nat) (hpos : 0 < sizeOfElem)
    (hpre : totalCount = 0 ∨ 0 < preAllocCount) (hfits : sizeOfElem * (totalCount + 1) < SIZE_T) (calls : List PoolCall)
    (hcalls : Run.Guarded step Allowed ⟨ElementPool.setup sizeOfElem totalCount preAllocCount, ∅⟩ calls) :
    ∃ s, Run.run step ⟨ElementPool.setup sizeOfElem totalCount preAllocCount, ∅⟩ calls = some s ∧ s.Accounts totalCount := by
  have hstep : totalCount = 0 ∨ 0 < (if preAllocCount > totalCount then totalCount else preAllocCount) := by
    split
    · omega
    · exact hpre
  have hinit := Inv.setup preAllocCount hfits
  obtain ⟨s, hrun, hinv⟩ := Run.run_progress (fun s call h hcall => Inv.call h hpos hfits hstep call hcall) hinit hcalls
  exact ⟨s, hrun, hinv.accounts hpos hfits hstep⟩

/-- A pool of three elements that grows by two: all are taken, one is given back. -/
theorem pool_accounts_three : ∃ s, Run.run step ⟨ElementPool.setup 8 3 2, ∅⟩
      [.allocate 2, .allocate 0, .allocate 1, .free 1] = some s ∧ s.Accounts 3 :=
  pool_accounts 8 3 2 (by decide) (by decide) (by decide) _ (by decide)

/-- The pool of the multi-threaded client grows by nothing: its first `allocate` dereferences a null list. -/
theorem pool_step_zero : Run.run step ⟨ElementPool.setup 8 3 0, ∅⟩ [.allocate 3] = none ∧
    ¬ (⟨ElementPool.setup 8 3 0, ∅⟩ : PoolUse).Accounts 3 := by
  refine ⟨rfl, ?_⟩
  intro h
  obtain ⟨e, p, hal, _⟩ := h.allocates 3 (by decide) (by decide)
  cases hal

end PoolUse

end HuronFS
