import Mathlib.Data.List.TakeWhile
import HuronFS.Common.MemoryPool
import HuronFS.IOnode.Basic

/-!
# `IOnode.MemoryLimit` — the memory limit an IOnode is started with (`IOnode::_set_memory_limit`)

The text of `HUFS_IONODE_MEMORY_LIMIT` is matched against `^(\d+)( ?(KB|MB|GB|KiB|MiB|GiB))?$`, the number is
converted by `atoi` and then multiplied by what the suffix stands for. Two details decide which texts are read as
they are meant:

* the suffix that is compared is group 2, which holds the optional space as well, so a suffix after a space is
  equal to none of the six texts and the number stays as it is;
* `atoi` gives an `int`; what it does with a larger number is undefined, and is an outcome of its own here.

`suffix` is a pointer into a temporary that is gone when it is compared. The model compares the text the
temporary held, which is the most the code can have meant.
-/

namespace HuronFS.MemoryLimit

/-! ## The pattern -/

/-- `\d` -/
def isDigit (c : Byte) : Bool := 48 ≤ c.val && c.val ≤ 57

/-- Group 3 of the pattern. -/
inductive Suffix
  | KB
  | MB
  | GB
  | KiB
  | MiB
  | GiB
deriving DecidableEq, Repr

namespace Suffix

def text : Suffix → Str
  | .KB => [75, 66]
  | .MB => [77, 66]
  | .GB => [71, 66]
  | .KiB => [75, 105, 66]
  | .MiB => [77, 105, 66]
  | .GiB => [71, 105, 66]

/-- What a suffix stands for. -/
def multiplier : Suffix → Nat
  | .KB => HuronFS.KB
  | .MB => HuronFS.MB
  | .GB => HuronFS.GB
  | .KiB => HuronFS.KiB
  | .MiB => HuronFS.MiB
  | .GiB => HuronFS.GiB

end Suffix

/-- The groups of a match: group 1, and for a suffix whether a space stands before it. -/
structure Groups where
  digits : Str
  suffix : Option (Bool × Suffix)
deriving DecidableEq, Repr

/-- The text of group 2. -/
def suffixText : Option (Bool × Suffix) → Str
  | none => []
  | some (false, u) => u.text
  | some (true, u) => 32 :: u.text

namespace Groups

/-- The text of the whole match. -/
def text (m : Groups) : Str := m.digits ++ suffixText m.suffix

/-- What the pattern asks of group 1; the other groups have no other values. -/
def Valid (m : Groups) : Prop := m.digits ≠ [] ∧ ∀ c ∈ m.digits, isDigit c = true

end Groups

/-- Every way group 2 can match. -/
def suffixes : List (Option (Bool × Suffix)) :=
  none :: ([.KB, .MB, .GB, .KiB, .MiB, .GiB].map fun u => some (false, u)) ++
    [.KB, .MB, .GB, .KiB, .MiB, .GiB].map fun u => some (true, u)

/-- `regex_match(limit_string, matches, regex_text)` -/
def regexMatch (limitString : Str) : Option Groups :=
  if limitString.takeWhile isDigit = [] then none
  else (suffixes.find? fun g => suffixText g == limitString.dropWhile isDigit).map
    fun g => ⟨limitString.takeWhile isDigit, g⟩

theorem mem_suffixes (g : Option (Bool × Suffix)) : g ∈ suffixes := by
  obtain _ | ⟨space, u⟩ := g
  · decide
  · cases space <;> cases u <;> decide

theorem suffixText_injective : ∀ g ∈ suffixes, ∀ g' ∈ suffixes, suffixText g = suffixText g' → g = g' := by decide

/-- No suffix begins with a digit, so group 1 is as long as it can be. -/
theorem suffixText_dropWhile : ∀ g ∈ suffixes, (suffixText g).dropWhile isDigit = suffixText g ∧
    (suffixText g).takeWhile isDigit = [] := by decide

theorem find_suffixText (g : Option (Bool × Suffix)) (rest : Str) :
    (suffixes.find? fun g => suffixText g == rest) = some g ↔ suffixText g = rest := by
  constructor
  · intro h
    have heq : (suffixText g == rest) = true := by
      simpa only using List.find?_some h
    exact eq_of_beq heq
  · rintro rfl
    cases hfound : suffixes.find? fun g' => suffixText g' == suffixText g with
    | none =>
      have hnot := List.find?_eq_none.mp hfound g (mem_suffixes g)
      exact absurd (beq_self_eq_true _) hnot
    | some g' =>
      have heq : (suffixText g' == suffixText g) = true := by
        simpa only using List.find?_some hfound
      rw [suffixText_injective g' (mem_suffixes g') g (mem_suffixes g) (eq_of_beq heq)]

/-- The groups of a match are the one way to read the text along the pattern. -/
theorem regexMatch_eq_some {s : Str} {m : Groups} : regexMatch s = some m ↔ m.Valid ∧ m.text = s := by
  constructor
  · intro h
    unfold regexMatch at h
    split at h
    · cases h
    · rename_i hne
      obtain ⟨g, hfound, rfl⟩ := Option.map_eq_some_iff.mp h
      have hrest := (find_suffixText g _).mp hfound
      refine ⟨⟨hne, fun c hc => List.mem_takeWhile_imp hc⟩, ?_⟩
      show s.takeWhile isDigit ++ suffixText g = s
      rw [hrest, List.takeWhile_append_dropWhile]
  · rintro ⟨⟨hne, hdigits⟩, rfl⟩
    obtain ⟨hdrop, htake⟩ := suffixText_dropWhile m.suffix (mem_suffixes _)
    have hgroup : m.text.takeWhile isDigit = m.digits := by
      rw [Groups.text, List.takeWhile_append_of_pos hdigits, htake, List.append_nil]
    have hrest : m.text.dropWhile isDigit = suffixText m.suffix := by
      rw [Groups.text, List.dropWhile_append_of_pos hdigits, hdrop]
    unfold regexMatch
    rw [hgroup, hrest, if_neg hne, (find_suffixText m.suffix _).mpr rfl]
    rfl

/-! ## The conversion -/

/-- The number a run of digits denotes. -/
def decimal (digits : Str) : Nat := digits.foldl (fun n c => 10 * n + (c.val - 48)) 0

/-- `isspace` in the C locale. -/
def isSpace (c : Byte) : Bool := c.val == 32 || (9 ≤ c.val && c.val ≤ 13)

/-- The number at the head of a text: white space, a sign, and the digits up to the first other character. -/
def signedDecimal (s : Str) : Int :=
  match s.dropWhile isSpace with
  | 45 :: rest => -decimal (rest.takeWhile isDigit)
  | 43 :: rest => decimal (rest.takeWhile isDigit)
  | rest => decimal (rest.takeWhile isDigit)

/-- `atoi`. `none` where the number is not an `int`, where the behaviour is undefined. -/
def atoi (s : Str) : Option Int :=
  if -2 ^ 31 ≤ signedDecimal s ∧ signedDecimal s < 2 ^ 31 then some (signedDecimal s) else none

/-- What a call of `_set_memory_limit` comes to. -/
inductive Outcome
  | returned (totalMemory : Nat)
  | runtimeError
  | undefined
deriving DecidableEq, Repr

/-- The `strcmp`s: the first suffix that is equal multiplies. -/
def scale (totalMemory : Nat) (suffix : Str) : Nat :=
  if suffix = Suffix.KB.text then totalMemory * HuronFS.KB % SIZE_T
  else if suffix = Suffix.MB.text then totalMemory * HuronFS.MB % SIZE_T
  else if suffix = Suffix.GB.text then totalMemory * HuronFS.GB % SIZE_T
  else if suffix = Suffix.KiB.text then totalMemory * HuronFS.KiB % SIZE_T
  else if suffix = Suffix.MiB.text then totalMemory * HuronFS.MiB % SIZE_T
  else if suffix = Suffix.GiB.text then totalMemory * HuronFS.GiB % SIZE_T
  else totalMemory

/-- `_set_memory_limit` -/
def setMemoryLimit (limitString : Str) : Outcome :=
  match regexMatch limitString with
  | none => .runtimeError
  | some m =>
    match atoi m.text with
    | none => .undefined
    | some n => .returned (scale (n % SIZE_T).toNat (suffixText m.suffix))

/-! ## What a limit denotes -/

namespace Groups

/-- The number, times what its suffix stands for. -/
def value (m : Groups) : Nat :=
  match m.suffix with
  | none => decimal m.digits
  | some (_, u) => decimal m.digits * u.multiplier

/-- Whether a space stands before the suffix. -/
def spaced (m : Groups) : Bool :=
  match m.suffix with
  | some (true, _) => true
  | _ => false

end Groups

/-- A text along the pattern whose value a `size_t` holds gives that value, every other text is refused. -/
structure ReadAsMeant (limitString : Str) (r : Outcome) : Prop where
  accepted : ∀ m : Groups, m.Valid → m.text = limitString → m.value < SIZE_T → r = .returned m.value
  rejected : (¬ ∃ m : Groups, m.Valid ∧ m.text = limitString ∧ m.value < SIZE_T) → r = .runtimeError

/-! ## The pieces of the conversion on a match -/

/-- A digit is neither white space nor a sign, so `atoi` reads group 1 and stops at group 2. -/
theorem signedDecimal_text {m : Groups} (h : m.Valid) : signedDecimal m.text = decimal m.digits := by
  obtain ⟨hne, hdigits⟩ := h
  have htake : m.text.takeWhile isDigit = m.digits := by
    rw [Groups.text, List.takeWhile_append_of_pos hdigits, (suffixText_dropWhile _ (mem_suffixes _)).2, List.append_nil]
  obtain ⟨c, ds, hcons⟩ := List.exists_cons_of_ne_nil hne
  have hc : isDigit c = true := hdigits c (by rw [hcons]; exact List.mem_cons_self)
  have hrange : 48 ≤ c.val ∧ c.val ≤ 57 := by simpa [isDigit] using hc
  have hhead : m.text = c :: (ds ++ suffixText m.suffix) := by rw [Groups.text, hcons, List.cons_append]
  have hspace : isSpace c = false := by simp [isSpace]; omega
  unfold signedDecimal
  rw [hhead, List.dropWhile_cons_of_neg (by simp [hspace]), ← hhead]
  split
  · rename_i heq
    rw [hhead] at heq
    obtain ⟨rfl, -⟩ := List.cons.inj heq
    exact absurd hrange.1 (by decide)
  · rename_i heq
    rw [hhead] at heq
    obtain ⟨rfl, -⟩ := List.cons.inj heq
    exact absurd hrange.1 (by decide)
  · rw [htake]

theorem atoi_text {m : Groups} (h : m.Valid) :
    atoi m.text = if decimal m.digits < 2 ^ 31 then some (decimal m.digits : Int) else none := by
  unfold atoi
  rw [signedDecimal_text h]
  by_cases hlt : decimal m.digits < 2 ^ 31
  · rw [if_pos hlt, if_pos (by omega)]
  · rw [if_neg hlt, if_neg (by omega)]

/-- After a space the suffix is equal to none of the texts. -/
theorem scale_spaced (n : Nat) (u : Suffix) : scale n (32 :: u.text) = n := by
  cases u <;> rfl

theorem scale_text (n : Nat) (u : Suffix) : scale n u.text = n * u.multiplier % SIZE_T := by
  cases u <;> simp [scale, Suffix.text, Suffix.multiplier]

theorem multiplier_range (u : Suffix) : 1 < u.multiplier ∧ u.multiplier ≤ 2 ^ 30 := by
  cases u <;> decide

/-- The value of an `int` is far from overflow in every unit. -/
theorem value_lt {m : Groups} (hlt : decimal m.digits < 2 ^ 31) : m.value < 2 ^ 62 := by
  obtain ⟨digits, _ | ⟨space, u⟩⟩ := m
  · exact hlt.trans (by decide)
  · calc decimal digits * u.multiplier < 2 ^ 31 * 2 ^ 31 :=
          Nat.mul_lt_mul'' hlt ((multiplier_range u).2.trans_lt (by decide))
      _ = 2 ^ 62 := by decide

theorem value_lt_size {m : Groups} (hlt : decimal m.digits < 2 ^ 31) : m.value < SIZE_T :=
  (value_lt hlt).trans (by decide)

/-- A unit changes every number but zero. -/
theorem value_eq_decimal_iff {m : Groups} (h : m.spaced = true) : m.value = decimal m.digits ↔ decimal m.digits = 0 := by
  obtain ⟨digits, _ | ⟨space, u⟩⟩ := m
  · cases h
  · show decimal digits * u.multiplier = decimal digits ↔ decimal digits = 0
    have hunit := (multiplier_range u).1
    constructor
    · intro heq
      by_contra hne
      have hgrows := Nat.mul_lt_mul_of_pos_left hunit (Nat.pos_of_ne_zero hne)
      omega
    · intro hzero
      rw [hzero, Nat.zero_mul]

/-- The number is left alone after a space, and multiplied otherwise. -/
theorem scale_suffixText {m : Groups} (hlt : decimal m.digits < 2 ^ 31) :
    scale (decimal m.digits) (suffixText m.suffix) = if m.spaced then decimal m.digits else m.value := by
  have hfits := value_lt_size hlt
  obtain ⟨digits, _ | ⟨_ | _, u⟩⟩ := m
  · rfl
  · show scale (decimal digits) u.text = decimal digits * u.multiplier
    rw [scale_text]
    exact Nat.mod_eq_of_lt hfits
  · exact scale_spaced _ u

theorem setMemoryLimit_of_valid {m : Groups} (h : m.Valid) :
    setMemoryLimit m.text =
      if decimal m.digits < 2 ^ 31 then .returned (if m.spaced then decimal m.digits else m.value) else .undefined := by
  have hmatch : regexMatch m.text = some m := regexMatch_eq_some.mpr ⟨h, rfl⟩
  unfold setMemoryLimit
  simp only [hmatch, atoi_text h]
  by_cases hlt : decimal m.digits < 2 ^ 31
  · have hsize : ((decimal m.digits : Int) % SIZE_T).toNat = decimal m.digits := by
      rw [Int.emod_eq_of_lt (Int.natCast_nonneg _) ?_, Int.toNat_natCast]
      exact Int.ofNat_lt.mpr (hlt.trans (by decide))
    rw [if_pos hlt, if_pos hlt]
    simp only [hsize, scale_suffixText hlt]
  · rw [if_neg hlt, if_neg hlt]

/-! ## The limit -/

theorem readAsMeant_of_no_match {s : Str} (h : regexMatch s = none) : ReadAsMeant s (setMemoryLimit s) := by
  have hnone : ∀ m : Groups, m.Valid → m.text ≠ s := by
    intro m hvalid htext
    rw [regexMatch_eq_some.mpr ⟨hvalid, htext⟩] at h
    cases h
  refine ⟨fun m hvalid htext _ => absurd htext (hnone m hvalid), fun _ => ?_⟩
  unfold setMemoryLimit
  rw [h]

/-- Read the way it is meant, a match gives its value if it is small enough to have one. -/
theorem readAsMeant_iff_of_valid {m : Groups} (h : m.Valid) (r : Outcome) :
    ReadAsMeant m.text r ↔ r = if m.value < SIZE_T then .returned m.value else .runtimeError := by
  -- the match is the only one
  have hunique : ∀ m' : Groups, m'.Valid → m'.text = m.text → m' = m := by
    intro m' hvalid htext
    have hmatch := regexMatch_eq_some.mpr ⟨hvalid, htext⟩
    rw [regexMatch_eq_some.mpr ⟨h, rfl⟩] at hmatch
    exact (Option.some.inj hmatch).symm
  by_cases hfits : m.value < SIZE_T
  · rw [if_pos hfits]
    constructor
    · intro hread
      exact hread.accepted m h rfl hfits
    · rintro rfl
      refine ⟨fun m' hvalid htext _ => ?_, fun hnone => absurd ⟨m, h, rfl, hfits⟩ hnone⟩
      rw [hunique m' hvalid htext]
  · rw [if_neg hfits]
    have hnone : ¬ ∃ m' : Groups, m'.Valid ∧ m'.text = m.text ∧ m'.value < SIZE_T := by
      rintro ⟨m', hvalid, htext, hlt⟩
      rw [hunique m' hvalid htext] at hlt
      exact hfits hlt
    constructor
    · intro hread
      exact hread.rejected hnone
    · rintro rfl
      exact ⟨fun m' hvalid htext hlt => absurd ⟨m', hvalid, htext, hlt⟩ hnone, fun _ => rfl⟩

/-- A limit is read as it is meant exactly when its number is an `int` and no space stands before its suffix (a
number of nothing is nothing in every unit). -/
theorem memory_limit_exact (limitString : Str) :
    ReadAsMeant limitString (setMemoryLimit limitString) ↔
      ∀ m : Groups, m.Valid → m.text = limitString →
        decimal m.digits < 2 ^ 31 ∧ (m.spaced = true → decimal m.digits = 0) := by
  cases hmatch : regexMatch limitString with
  | none =>
    refine iff_of_true (readAsMeant_of_no_match hmatch) ?_
    intro m hvalid htext
    rw [regexMatch_eq_some.mpr ⟨hvalid, htext⟩] at hmatch
    cases hmatch
  | some m =>
    obtain ⟨hvalid, rfl⟩ := regexMatch_eq_some.mp hmatch
    rw [readAsMeant_iff_of_valid hvalid, setMemoryLimit_of_valid hvalid]
    constructor
    · intro h m' hvalid' htext
      have hmatch' := regexMatch_eq_some.mpr ⟨hvalid', htext⟩
      obtain rfl : m = m' := Option.some.inj (hmatch.symm.trans hmatch')
      have hlt : decimal m.digits < 2 ^ 31 := by
        by_contra hlt
        rw [if_neg hlt] at h
        split at h <;> cases h
      refine ⟨hlt, fun hspace => ?_⟩
      rw [if_pos hlt, if_pos hspace, if_pos (value_lt_size hlt)] at h
      exact (value_eq_decimal_iff hspace).mp (Outcome.returned.inj h).symm
    · intro h
      obtain ⟨hlt, hzero⟩ := h m hvalid rfl
      rw [if_pos hlt, if_pos (value_lt_size hlt)]
      split
      · rename_i hspace
        rw [(value_eq_decimal_iff hspace).mpr (hzero hspace)]
      · rfl

/-- `1 KB` is one byte. -/
theorem space_drops_suffix : ¬ ReadAsMeant [49, 32, 75, 66] (setMemoryLimit [49, 32, 75, 66]) := by
  intro h
  have hvalid : Groups.Valid ⟨[49], some (true, .KB)⟩ := ⟨by decide, List.forall_mem_singleton.mpr rfl⟩
  have hvalue := h.accepted _ hvalid rfl (value_lt_size (by decide))
  exact absurd hvalue (by decide)

/-! ## The pool of a started IOnode -/

def MEMORY : Nat := 10000

/-- The pool the constructor of `IOnode` sets up; it does not get there when the limit is refused. -/
def memoryPoolForBlocks : (limit : Option Str) → Option ElementPool
  | none => some (.setup BLOCK_SIZE (MEMORY / BLOCK_SIZE) IOnode.IONODE_PRE_ALLOCATE_MEMORY_COUNT)
  | some limitString =>
    match setMemoryLimit limitString with
    | .returned totalMemory => some (.setup BLOCK_SIZE (totalMemory / BLOCK_SIZE) IOnode.IONODE_PRE_ALLOCATE_MEMORY_COUNT)
    | .runtimeError => none
    | .undefined => none

/-- A limit that is returned leaves room above it, whatever text it was read from. -/
theorem returned_lt {s : Str} {totalMemory : Nat} (h : setMemoryLimit s = .returned totalMemory) : totalMemory < 2 ^ 62 := by
  cases hmatch : regexMatch s with
  | none =>
    unfold setMemoryLimit at h
    rw [hmatch] at h
    cases h
  | some m =>
    obtain ⟨hvalid, rfl⟩ := regexMatch_eq_some.mp hmatch
    rw [setMemoryLimit_of_valid hvalid] at h
    split at h
    · rename_i hlt
      have hvalue : m.value < 2 ^ 62 := value_lt hlt
      obtain rfl := Outcome.returned.inj h
      split
      · omega
      · exact hvalue
    · cases h

/-- The blocks of a started IOnode come out of a pool that accounts for them from the first call on. -/
theorem memoryPoolForBlocks_inv {limit : Option Str} {p : ElementPool} (h : memoryPoolForBlocks limit = some p) :
    ∃ blocks step, BLOCK_SIZE * (blocks + 1) < SIZE_T ∧ PoolUse.Inv BLOCK_SIZE blocks step ⟨p, ∅⟩ := by
  have hroom : ∀ totalMemory < 2 ^ 62, BLOCK_SIZE * (totalMemory / BLOCK_SIZE + 1) < SIZE_T := by
    intro totalMemory hlt
    have hdown := Nat.mul_div_le totalMemory BLOCK_SIZE
    have hsum : BLOCK_SIZE + 2 ^ 62 < SIZE_T := by decide
    rw [Nat.mul_add, Nat.mul_one]
    omega
  obtain _ | limitString := limit
  · obtain rfl := Option.some.inj h
    exact ⟨_, _, hroom MEMORY (by decide), .setup _ (hroom MEMORY (by decide))⟩
  · simp only [memoryPoolForBlocks] at h
    split at h
    · rename_i totalMemory hread
      obtain rfl := Option.some.inj h
      exact ⟨_, _, hroom _ (returned_lt hread), .setup _ (hroom _ (returned_lt hread))⟩
    · cases h
    · cases h

end HuronFS.MemoryLimit
