import HuronFS.IOnode.Basic

/-!
# `IOnode.StorageCalls` — `_read_from_storage` and `_write_to_storage`, whatever the system calls return

`IOnode.Basic` has these functions as they are when every call does all of its work. Here a list says what each `readv` or `write`
returns, one after the other; a function that is still in its loop when the list ends has not returned, and has no result.
-/

namespace HuronFS

open Region

/-! ## Reading a block back -/

/-- What a `readv` returns: a number of bytes, or `-1` with `EINTR` or another error. -/
inductive ReadvResult
  | got (n : Nat)
  | interrupted
  | failed
deriving DecidableEq, Repr

/-- The `while` loop of `_read_from_storage`: what is left to read and the block's memory. `base` is where `iov_base` points, from the
    start of the memory: after each piece it is set to the length of that piece. -/
def readvLoop (F : ByteFile Byte) : List ReadvResult → (base size pos : Nat) → (Nat → Byte) → Option (Nat × (Nat → Byte))
  | [], _, size, _, memory => if size = 0 then some (0, memory) else none
  | r :: rest, base, size, pos, memory =>
      if size = 0 then some (0, memory)
      else
        match r with
        | .interrupted => readvLoop F rest base size pos memory
        | .failed => some (size, memory)
        | .got n =>
            let bytes := F.read pos (min n size)
            if bytes = [] then some (size, memory)
            else readvLoop F rest bytes.length (size - bytes.length) (pos + bytes.length) (patch memory base bytes)

/-- `_read_from_storage`, once the file is open and positioned: the bytes read and the block's memory. -/
def readFromStorageCalls (F : ByteFile Byte) (startPoint dataSize : Nat) (results : List ReadvResult) (memory : Nat → Byte) :
    Option (Nat × (Nat → Byte)) :=
  (readvLoop F results 0 dataSize startPoint memory).map (fun (size, memory) => (dataSize - size, memory))

/-- The lengths of the pieces. -/
def pieceLengths : List ReadvResult → List Nat
  | [] => []
  | .got n :: rest => n :: pieceLengths rest
  | _ :: rest => pieceLengths rest

/-- The pieces are `d` bytes together, and nothing but `EINTR` comes between them. -/
structure Splits (d : Nat) (results : List ReadvResult) : Prop where
  calls : ∀ r ∈ results, r ≠ .failed ∧ r ≠ .got 0
  total : (pieceLengths results).sum = d

namespace Splits

variable {d n : Nat} {rest : List ReadvResult}

theorem of_interrupted (h : Splits d (.interrupted :: rest)) : Splits d rest :=
  ⟨fun r hr => h.calls r (List.mem_cons_of_mem _ hr), h.total⟩

theorem of_got (h : Splits d (.got n :: rest)) : 0 < n ∧ n ≤ d ∧ Splits (d - n) rest := by
  have htotal : n + (pieceLengths rest).sum = d := by
    have := h.total
    rwa [pieceLengths, List.sum_cons] at this
  refine ⟨?_, by omega, fun r hr => h.calls r (List.mem_cons_of_mem _ hr), by omega⟩
  apply Nat.pos_of_ne_zero
  rintro rfl
  exact (h.calls _ List.mem_cons_self).2 rfl

theorem not_failed (h : Splits d (.failed :: rest)) : False := (h.calls _ List.mem_cons_self).1 rfl

/-- There is a piece as long as something is left. -/
theorem pos_of_pieces : ∀ {results : List ReadvResult} {d : Nat}, Splits d results → 0 < (pieceLengths results).length → 0 < d
  | [], _, _, hlen => absurd hlen (Nat.lt_irrefl 0)
  | .interrupted :: _, _, h, hlen => pos_of_pieces h.of_interrupted hlen
  | .failed :: _, _, h, _ => h.not_failed.elim
  | .got _ :: _, _, h, _ => by
      obtain ⟨hpos, hle, -⟩ := h.of_got
      omega

end Splits

section Reading

variable {F : ByteFile Byte}

theorem readvLoop_done (results : List ReadvResult) (base pos : Nat) (memory : Nat → Byte) :
    readvLoop F results base 0 pos memory = some (0, memory) := by
  cases results with
  | nil => rfl
  | cons r rest => rfl

theorem readvLoop_interrupted {rest : List ReadvResult} {base size pos : Nat} {memory : Nat → Byte} (hsize : size ≠ 0) :
    readvLoop F (.interrupted :: rest) base size pos memory = readvLoop F rest base size pos memory := by
  conv_lhs => unfold readvLoop
  rw [if_neg hsize]

/-- A piece that the file has. -/
theorem readvLoop_got {rest : List ReadvResult} {base size pos n : Nat} {memory : Nat → Byte} (hn : 0 < n) (hle : n ≤ size)
    (hfile : pos + size ≤ F.size) :
    readvLoop F (.got n :: rest) base size pos memory
      = readvLoop F rest n (size - n) (pos + n) (patch memory base (slice F.cell pos n)) := by
  have hread : F.read pos (min n size) = slice F.cell pos n := by
    rw [show min n size = n by omega]
    exact ByteFile.read_within (by omega)
  have hne : slice F.cell pos n ≠ [] := by
    intro hc
    have := length_slice F.cell pos n
    rw [hc, List.length_nil] at this
    omega
  conv_lhs => unfold readvLoop
  rw [if_neg (by omega)]
  simp only [hread, hne, if_false, length_slice]

/-- **All is read**, however it comes. -/
theorem readvLoop_returns : ∀ {results : List ReadvResult} {base size pos : Nat} {memory : Nat → Byte}, Splits size results →
    pos + size ≤ F.size → ∃ memory', readvLoop F results base size pos memory = some (0, memory') := by
  intro results
  induction results with
  | nil =>
      intro base size pos memory h _
      obtain rfl : 0 = size := h.total
      exact ⟨memory, rfl⟩
  | cons r rest ih =>
      intro base size pos memory h hfile
      by_cases hsize : size = 0
      · rw [hsize]
        exact ⟨memory, readvLoop_done _ _ _ _⟩
      · cases r with
        | interrupted =>
            rw [readvLoop_interrupted hsize]
            exact ih h.of_interrupted hfile
        | failed => exact h.not_failed.elim
        | got n =>
            obtain ⟨hpos, hle, hrest⟩ := h.of_got
            rw [readvLoop_got hpos hle hfile]
            exact ih hrest (by omega)

/-- The last piece goes where the pointer is. -/
theorem readvLoop_last : ∀ {results : List ReadvResult} {base size pos : Nat} {memory : Nat → Byte}, Splits size results →
    pos + size ≤ F.size → (pieceLengths results).length ≤ 1 →
    readvLoop F results base size pos memory = some (0, patch memory base (slice F.cell pos size)) := by
  intro results
  induction results with
  | nil =>
      intro base size pos memory h _ _
      obtain rfl : 0 = size := h.total
      rw [slice_zero, patch_nil]
      rfl
  | cons r rest ih =>
      intro base size pos memory h hfile hlen
      by_cases hsize : size = 0
      · rw [hsize, readvLoop_done, slice_zero, patch_nil]
      · cases r with
        | interrupted =>
            rw [readvLoop_interrupted hsize]
            exact ih h.of_interrupted hfile hlen
        | failed => exact h.not_failed.elim
        | got n =>
            obtain ⟨hpos, hle, hrest⟩ := h.of_got
            have hnone : (pieceLengths rest).length = 0 := Nat.le_zero.mp (Nat.le_of_succ_le_succ hlen)
            have hall : size - n = 0 := by
              rw [← hrest.total, List.eq_nil_of_length_eq_zero hnone]
              rfl
            rw [readvLoop_got hpos hle hfile, hall, readvLoop_done, show n = size by omega]

/-- Of two pieces the first sets the pointer right for the second. -/
theorem readvLoop_two : ∀ {results : List ReadvResult} {size pos : Nat} {memory : Nat → Byte}, Splits size results →
    pos + size ≤ F.size → (pieceLengths results).length ≤ 2 →
    readvLoop F results 0 size pos memory = some (0, patch memory 0 (slice F.cell pos size)) := by
  intro results
  induction results with
  | nil =>
      intro size pos memory h hfile hlen
      exact readvLoop_last h hfile (Nat.le_trans (Nat.zero_le _) (Nat.zero_le _))
  | cons r rest ih =>
      intro size pos memory h hfile hlen
      by_cases hsize : size = 0
      · rw [hsize, readvLoop_done, slice_zero, patch_nil]
      · cases r with
        | interrupted =>
            rw [readvLoop_interrupted hsize]
            exact ih h.of_interrupted hfile hlen
        | failed => exact h.not_failed.elim
        | got n =>
            obtain ⟨hpos, hle, hrest⟩ := h.of_got
            rw [readvLoop_got hpos hle hfile, readvLoop_last hrest (by omega) (Nat.le_of_succ_le_succ hlen)]
            have hsplit : slice F.cell pos size = slice F.cell pos n ++ slice F.cell (pos + n) (size - n) := by
              rw [← slice_add, Nat.add_sub_cancel' hle]
            rw [hsplit, patch_append, length_slice, Nat.zero_add]

/-- Nothing beyond the pointer and what is left is written. -/
theorem readvLoop_untouched : ∀ {results : List ReadvResult} {base size pos left m : Nat} {memory memory' : Nat → Byte},
    Splits size results → pos + size ≤ F.size → base + size ≤ m →
    readvLoop F results base size pos memory = some (left, memory') → ∀ i, m ≤ i → memory' i = memory i := by
  intro results
  induction results with
  | nil =>
      intro base size pos left m memory memory' h _ _ hloop i _
      obtain rfl : 0 = size := h.total
      cases hloop
      rfl
  | cons r rest ih =>
      intro base size pos left m memory memory' h hfile hm hloop i hi
      by_cases hsize : size = 0
      · rw [hsize, readvLoop_done] at hloop
        cases hloop
        rfl
      · cases r with
        | interrupted =>
            rw [readvLoop_interrupted hsize] at hloop
            exact ih h.of_interrupted hfile hm hloop i hi
        | failed => exact h.not_failed.elim
        | got n =>
            obtain ⟨hpos, hle, hrest⟩ := h.of_got
            rw [readvLoop_got hpos hle hfile] at hloop
            have hnext := ih hrest (by omega) (show n + (size - n) ≤ m by omega) hloop i hi
            rw [hnext]
            exact patch_outside (Or.inr (by rw [length_slice]; omega))

/-- With two pieces to come, neither the first nor what follows it gets as far as they should together. -/
theorem readvLoop_falls_behind : ∀ {results : List ReadvResult} {base size pos left m : Nat} {memory memory' : Nat → Byte},
    Splits size results → pos + size ≤ F.size → 2 ≤ (pieceLengths results).length → base + size ≤ m + 1 → size ≤ m →
    readvLoop F results base size pos memory = some (left, memory') → ∀ i, m ≤ i → memory' i = memory i := by
  intro results
  induction results with
  | nil => exact fun _ _ hlen => absurd hlen (by decide)
  | cons r rest ih =>
      intro base size pos left m memory memory' h hfile hlen hm hsm hloop i hi
      have hsize : size ≠ 0 := Nat.pos_iff_ne_zero.mp (h.pos_of_pieces (by omega))
      cases r with
      | interrupted =>
          rw [readvLoop_interrupted hsize] at hloop
          exact ih h.of_interrupted hfile hlen hm hsm hloop i hi
      | failed => exact h.not_failed.elim
      | got n =>
          obtain ⟨hpos, hle, hrest⟩ := h.of_got
          have hmore : 0 < size - n := hrest.pos_of_pieces (Nat.le_of_succ_le_succ hlen)
          rw [readvLoop_got hpos hle hfile] at hloop
          have hnext := readvLoop_untouched hrest (by omega) (show n + (size - n) ≤ m by omega) hloop i hi
          rw [hnext]
          exact patch_outside (Or.inr (by rw [length_slice]; omega))

/-- With three pieces the last byte is never written. -/
theorem readvLoop_three : ∀ {results : List ReadvResult} {size pos left : Nat} {memory memory' : Nat → Byte},
    Splits size results → pos + size ≤ F.size → 3 ≤ (pieceLengths results).length →
    readvLoop F results 0 size pos memory = some (left, memory') → memory' (size - 1) = memory (size - 1) := by
  intro results
  induction results with
  | nil => exact fun _ _ hlen => absurd hlen (by decide)
  | cons r rest ih =>
      intro size pos left memory memory' h hfile hlen hloop
      have hsize : size ≠ 0 := Nat.pos_iff_ne_zero.mp (h.pos_of_pieces (by omega))
      cases r with
      | interrupted =>
          rw [readvLoop_interrupted hsize] at hloop
          exact ih h.of_interrupted hfile hlen hloop
      | failed => exact h.not_failed.elim
      | got n =>
          obtain ⟨hpos, hle, hrest⟩ := h.of_got
          have htwo : 2 ≤ (pieceLengths rest).length := Nat.le_of_succ_le_succ hlen
          have hmore : 0 < size - n := hrest.pos_of_pieces (by omega)
          rw [readvLoop_got hpos hle hfile] at hloop
          have hnext := readvLoop_falls_behind hrest (by omega) htwo (show n + (size - n) ≤ size - 1 + 1 by omega)
            (show size - n ≤ size - 1 by omega) hloop (size - 1) (Nat.le_refl _)
          rw [hnext]
          exact patch_outside (Or.inr (by rw [length_slice]; omega))

end Reading

/-- **A block is read back right, whatever storage and memory have, exactly when the read comes in one piece or two.** The number of
    bytes is right in any case. -/
theorem reload_right_iff {d : Nat} {results : List ReadvResult} (hsplit : Splits d results) :
    (∀ (F : ByteFile Byte) (startPoint : Nat) (memory : Nat → Byte), startPoint + d ≤ F.size →
      ∃ memory', readFromStorageCalls F startPoint d results memory = some (d, memory') ∧
        slice memory' 0 d = slice F.cell startPoint d) ↔ (pieceLengths results).length ≤ 2 := by
  constructor
  · intro h
    by_contra hlen
    have hpos : 0 < d := hsplit.pos_of_pieces (by omega)
    -- a file of ones, and memory of zeros: the last byte stays zero
    have hone : (List.replicate d (1 : Byte)) ≠ [] := by
      intro hc
      have := congrArg List.length hc
      rw [List.length_replicate, List.length_nil] at this
      omega
    have hfile : 0 + d ≤ ((ByteFile.empty : ByteFile Byte).write 0 (List.replicate d 1)).size := by
      rw [ByteFile.size_write _ _ hone, List.length_replicate]
      omega
    obtain ⟨memory', hread, hbytes⟩ := h _ 0 (fun _ => 0) hfile
    obtain ⟨⟨left, memory''⟩, hloop, heq⟩ := Option.map_eq_some_iff.mp hread
    have hsame : memory'' = memory' := congrArg Prod.snd heq
    have hlast := readvLoop_three hsplit hfile (by omega) hloop
    have hget := congrArg (fun l : List Byte => l[d - 1]?) hbytes
    rw [getElem?_slice (by omega), getElem?_slice (by omega), ← hsame, Nat.zero_add, hlast, ByteFile.cell_write] at hget
    have hcell : patch (ByteFile.empty : ByteFile Byte).cell 0 (List.replicate d (1 : Byte)) (0 + (d - 1)) = 1 := by
      rw [patch_at (by rw [List.length_replicate]; omega), List.getElem_replicate]
    rw [Nat.zero_add] at hcell
    rw [hcell] at hget
    exact absurd (Option.some.inj hget) (by decide)
  · intro hlen F startPoint memory hfile
    refine ⟨patch memory 0 (slice F.cell startPoint d), ?_, ?_⟩
    · unfold readFromStorageCalls
      rw [readvLoop_two hsplit hfile hlen]
      rfl
    · have hread := slice_patch memory 0 (slice F.cell startPoint d)
      rwa [length_slice] at hread

/-- Three bytes in two pieces, with an interruption between them. -/
theorem reload_right_in_two_pieces :
    Splits 3 [.got 1, .interrupted, .got 2] ∧
    ∀ (F : ByteFile Byte) (startPoint : Nat) (memory : Nat → Byte), startPoint + 3 ≤ F.size →
      ∃ memory', readFromStorageCalls F startPoint 3 [.got 1, .interrupted, .got 2] memory = some (3, memory') ∧
        slice memory' 0 3 = slice F.cell startPoint 3 := by
  have hsplit : Splits 3 [.got 1, .interrupted, .got 2] := ⟨by decide, rfl⟩
  exact ⟨hsplit, (reload_right_iff hsplit).mpr (by decide)⟩

/-- Three bytes in three pieces: the second is overwritten by the third, whose place keeps what it had. -/
theorem reload_wrong_in_three_pieces :
    Splits 3 [.got 1, .got 1, .got 1] ∧
    ∃ memory', readFromStorageCalls ((ByteFile.empty : ByteFile Byte).write 0 [1, 2, 3]) 0 3 [.got 1, .got 1, .got 1] (fun _ => 0)
        = some (3, memory') ∧ slice memory' 0 3 = [1, 3, 0] ∧
      slice ((ByteFile.empty : ByteFile Byte).write 0 [1, 2, 3]).cell 0 3 = [1, 2, 3] :=
  ⟨⟨by decide, rfl⟩, _, rfl, by decide, by decide⟩

/-! ## Writing a block back -/

/-- What a `write` returns: a number of bytes, or `-1` with an `errno` after which the loop goes on (`EINVAL`, `EAGAIN`) or not. -/
inductive WriteResult
  | wrote (n : Nat)
  | again
  | failed
deriving DecidableEq, Repr

/-- What the system calls of one `_write_to_storage` return: whether `_open_remote_file` and `lseek64` succeed, and each `write`. -/
structure WriteCalls where
  opened : Bool
  positioned : Bool
  writes : List WriteResult
deriving DecidableEq, Repr

/-- The `while` loop of `_write_to_storage`: the bytes left, and the file. `buf` and `pos` go on with what was written. -/
def writeCallsLoop (data : Nat → Byte) : List WriteResult → (buf len pos : Nat) → ByteFile Byte → Option (Nat × ByteFile Byte)
  | [], _, len, _, F => if len = 0 then some (0, F) else none
  | r :: rest, buf, len, pos, F =>
      if len = 0 then some (0, F)
      else
        match r with
        | .again => writeCallsLoop data rest buf len pos F
        | .failed => some (len, F)
        | .wrote n =>
            let ret := min n len
            if ret = 0 then some (len, F)
            else writeCallsLoop data rest (buf + ret) (len - ret) (pos + ret) (F.write pos (slice data buf ret))

/-- The block and the file when `_write_to_storage` returns or throws, and the bytes it has put down. -/
structure WriteOutcome where
  block : Block
  stored : Option (ByteFile Byte)
  written : Nat

/-- `_write_to_storage` for a block at `startPoint` with `data` in its memory. The flag is cleared first. -/
def writeToStorageCalls (b : Block) (startPoint : Nat) (data : Nat → Byte) (stored : Option (ByteFile Byte)) (calls : WriteCalls) :
    Option WriteOutcome :=
  if b.receivingData then some ⟨b, stored, 0⟩
  else
    let b := { b with dirtyFlag := false }
    if !calls.opened then some ⟨b, stored, 0⟩
    else
      let F := stored.getD ByteFile.empty
      if b.toBeDeleted then some ⟨b, some F, 0⟩
      else if !calls.positioned then some ⟨b, some F, 0⟩
      else (writeCallsLoop data calls.writes 0 b.dataSize startPoint F).map (fun (len, F) => ⟨b, some F, b.dataSize - len⟩)

/-- What the writes put down before one of them does nothing or fails. -/
def putDown : List WriteResult → Nat
  | [] => 0
  | .again :: rest => putDown rest
  | .failed :: _ => 0
  | .wrote n :: rest => if n = 0 then 0 else n + putDown rest

/-- A clean block is being deleted or is on storage, all of it; a dirty one keeps its memory in `free_data`. -/
structure CleanOnlyWhenStored (b : Block) (startPoint : Nat) (data : Nat → Byte) (o : WriteOutcome) : Prop where
  clean : o.block.dirtyFlag = false → b.toBeDeleted = true ∨ (o.written = b.dataSize ∧
    ∀ i < b.dataSize, ∃ F, o.stored = some F ∧ startPoint + i < F.size ∧ F.cell (startPoint + i) = data i)
  dirty : o.block.dirtyFlag = true → ∀ pool, (o.block.freeMemory pool).2.1.elem = b.elem

section Writing

variable {data : Nat → Byte}

theorem writeCallsLoop_done (results : List WriteResult) (buf pos : Nat) (F : ByteFile Byte) :
    writeCallsLoop data results buf 0 pos F = some (0, F) := by
  cases results with
  | nil => rfl
  | cons r rest => rfl

/-- **The loop** puts the block down if the writes add up to it, and leaves something otherwise. -/
theorem writeCallsLoop_spec : ∀ {results : List WriteResult} {buf len pos left : Nat} {F F' : ByteFile Byte},
    writeCallsLoop data results buf len pos F = some (left, F') →
    (len ≤ putDown results → left = 0 ∧ F' = F.write pos (slice data buf len)) ∧ (putDown results < len → 0 < left ∧ left ≤ len) := by
  intro results
  induction results with
  | nil =>
      intro buf len pos left F F' hloop
      unfold writeCallsLoop at hloop
      split at hloop
      · rename_i hlen
        cases hloop
        subst hlen
        exact ⟨fun _ => ⟨rfl, (ByteFile.write_nil F pos).symm⟩, fun hc => absurd hc (Nat.lt_irrefl 0)⟩
      · cases hloop
  | cons r rest ih =>
      intro buf len pos left F F' hloop
      by_cases hlen : len = 0
      · subst hlen
        rw [writeCallsLoop_done] at hloop
        cases hloop
        exact ⟨fun _ => ⟨rfl, (ByteFile.write_nil F pos).symm⟩, fun hc => absurd hc (Nat.not_lt_zero _)⟩
      · unfold writeCallsLoop at hloop
        rw [if_neg hlen] at hloop
        cases r with
        | again => exact ih hloop
        | failed =>
            cases hloop
            exact ⟨fun hle => absurd (Nat.le_zero.mp hle) hlen, fun _ => ⟨by omega, Nat.le_refl _⟩⟩
        | wrote n =>
            dsimp only at hloop
            by_cases hn : n = 0
            · rw [if_pos (by omega)] at hloop
              cases hloop
              rw [putDown, if_pos hn]
              exact ⟨fun hle => absurd (Nat.le_zero.mp hle) hlen, fun _ => ⟨by omega, Nat.le_refl _⟩⟩
            · rw [if_neg (by omega)] at hloop
              rw [putDown, if_neg hn]
              obtain ⟨hall, hsome⟩ := ih hloop
              constructor
              · intro hle
                obtain ⟨hleft, hF⟩ := hall (by omega)
                refine ⟨hleft, ?_⟩
                have hne : slice data buf (min n len) ≠ [] := by
                  intro hc
                  have := length_slice data buf (min n len)
                  rw [hc, List.length_nil] at this
                  omega
                -- what was written and what is left are the block
                have happ := ByteFile.write_append F pos (slice data (buf + min n len) (len - min n len)) hne
                rw [← slice_add, length_slice, show min n len + (len - min n len) = len by omega] at happ
                rw [hF, happ]
              · intro hlt
                have := hsome (by omega)
                omega

end Writing

/-- A call that put nothing down, and left the block clean. -/
theorem cleanOnlyWhenStored_nothing {b : Block} {startPoint : Nat} {data : Nat → Byte} {o : WriteOutcome}
    (hclean : o.block.dirtyFlag = false) (hwritten : o.written = 0) :
    CleanOnlyWhenStored b startPoint data o ↔ b.toBeDeleted = true ∨ b.dataSize = 0 := by
  constructor
  · intro h
    rcases h.clean hclean with hdel | ⟨hall, -⟩
    · exact Or.inl hdel
    · exact Or.inr (hall.symm.trans hwritten)
  · intro hor
    refine ⟨fun _ => ?_, fun hdirty => absurd (hclean.symm.trans hdirty) (by decide)⟩
    rcases hor with hdel | hzero
    · exact Or.inl hdel
    · refine Or.inr ⟨hwritten.trans hzero.symm, ?_⟩
      intro i hi
      rw [hzero] at hi
      exact absurd hi (Nat.not_lt_zero i)

/-- A call that went through its loop. -/
theorem cleanOnlyWhenStored_loop {b b' : Block} {startPoint left : Nat} {data : Nat → Byte} {F F' : ByteFile Byte}
    {writes : List WriteResult} (hclean : b'.dirtyFlag = false)
    (hloop : writeCallsLoop data writes 0 b.dataSize startPoint F = some (left, F')) :
    CleanOnlyWhenStored b startPoint data ⟨b', some F', b.dataSize - left⟩ ↔
      b.toBeDeleted = true ∨ b.dataSize ≤ putDown writes := by
  obtain ⟨hall, hsome⟩ := writeCallsLoop_spec hloop
  constructor
  · intro h
    rcases h.clean hclean with hdel | ⟨hwritten, -⟩
    · exact Or.inl hdel
    · apply Or.inr
      by_contra hlt
      have := hsome (by omega)
      have hwritten' : b.dataSize - left = b.dataSize := hwritten
      omega
  · intro hor
    refine ⟨fun _ => ?_, fun hdirty => absurd (hclean.symm.trans hdirty) (by decide)⟩
    rcases hor with hdel | hle
    · exact Or.inl hdel
    · obtain ⟨rfl, rfl⟩ := hall hle
      refine Or.inr ⟨Nat.sub_zero _, ?_⟩
      intro i hi
      refine ⟨_, rfl, ?_, ?_⟩
      · rw [ByteFile.size_write_slice, if_neg (by omega)]
        omega
      · rw [ByteFile.cell_write_slice, if_pos hi]

/-- **A block is clean only when its data is on storage, exactly when nothing goes wrong.** It is being deleted or has no data; or it
    is dirty and refused because it is receiving; or the file can be opened and positioned and the writes add up to the block. -/
theorem clean_only_when_stored_iff {b : Block} {startPoint : Nat} {data : Nat → Byte} {stored : Option (ByteFile Byte)}
    {calls : WriteCalls} {o : WriteOutcome} (hcall : writeToStorageCalls b startPoint data stored calls = some o) :
    CleanOnlyWhenStored b startPoint data o ↔
      (b.toBeDeleted = true ∨ b.dataSize = 0 ∨ (b.receivingData = true ∧ b.dirtyFlag = true) ∨
        (b.receivingData = false ∧ calls.opened = true ∧ calls.positioned = true ∧ b.dataSize ≤ putDown calls.writes)) := by
  unfold writeToStorageCalls at hcall
  cases hreceiving : b.receivingData with
  | true =>
      rw [if_pos hreceiving] at hcall
      cases hcall
      cases hdirty : b.dirtyFlag with
      | true =>
          -- refused, and still dirty
          simp only [and_self, true_or, or_true, iff_true]
          refine ⟨fun hc => absurd (hdirty.symm.trans hc) (by decide), ?_⟩
          intro _ pool
          unfold Block.freeMemory
          rw [if_pos hdirty]
      | false =>
          rw [cleanOnlyWhenStored_nothing hdirty rfl]
          simp
  | false =>
      rw [if_neg (by rw [hreceiving]; decide)] at hcall
      cases hopened : calls.opened with
      | false =>
          simp only [hopened, Bool.not_false, if_true] at hcall
          cases hcall
          rw [cleanOnlyWhenStored_nothing rfl rfl]
          simp
      | true =>
          simp only [hopened, Bool.not_true, Bool.false_eq_true, if_false] at hcall
          cases hdel : b.toBeDeleted with
          | true =>
              rw [if_pos hdel] at hcall
              cases hcall
              rw [cleanOnlyWhenStored_nothing rfl rfl]
              simp [hdel]
          | false =>
              rw [if_neg (by rw [hdel]; decide)] at hcall
              cases hpositioned : calls.positioned with
              | false =>
                  simp only [hpositioned, Bool.not_false, if_true] at hcall
                  cases hcall
                  rw [cleanOnlyWhenStored_nothing rfl rfl]
                  simp [hdel]
              | true =>
                  simp only [hpositioned, Bool.not_true, Bool.false_eq_true, if_false] at hcall
                  obtain ⟨⟨left, F'⟩, hloop, rfl⟩ := Option.map_eq_some_iff.mp hcall
                  rw [cleanOnlyWhenStored_loop rfl hloop]
                  simp only [hdel, Bool.false_eq_true, false_or, false_and, true_and]
                  constructor
                  · exact Or.inr
                  · rintro (hzero | hle)
                    · omega
                    · exact hle

/-- A dirty block of two bytes. -/
def dirtyBlock : Block := { Block.create 2 .notExist with dirtyFlag := true, valid := true, elem := some 0 }

/-- Two writes, with a refusal between them, put the block down. -/
theorem clean_only_when_stored_in_two_writes :
    ∃ o, writeToStorageCalls dirtyBlock 0 (fun i => if i = 0 then 7 else 8) none ⟨true, true, [.wrote 1, .again, .wrote 1]⟩ = some o ∧
      CleanOnlyWhenStored dirtyBlock 0 (fun i => if i = 0 then 7 else 8) o := by
  obtain ⟨o, ho⟩ : ∃ o, writeToStorageCalls dirtyBlock 0 (fun i => if i = 0 then 7 else 8) none
      ⟨true, true, [.wrote 1, .again, .wrote 1]⟩ = some o := ⟨_, rfl⟩
  exact ⟨o, ho, (clean_only_when_stored_iff ho).mpr (by decide)⟩

/-- The disk is full after one byte: the block is clean, its second byte is nowhere, and `free_data` takes its memory. -/
theorem clean_block_not_stored :
    ∃ o, writeToStorageCalls dirtyBlock 0 (fun i => if i = 0 then 7 else 8) none ⟨true, true, [.wrote 1, .failed]⟩ = some o ∧
      o.block.dirtyFlag = false ∧ o.written = 1 ∧ ¬ CleanOnlyWhenStored dirtyBlock 0 (fun i => if i = 0 then 7 else 8) o ∧
      ∀ pool, (o.block.freeMemory pool).2.1.elem = none := by
  refine ⟨_, rfl, rfl, rfl, ?_, fun _ => rfl⟩
  intro h
  rcases h.clean rfl with hdel | ⟨hwritten, -⟩
  · cases hdel
  · cases hwritten

/-- When all goes well the call does what `writeToStorage` does. -/
theorem writeToStorageCalls_complete {b : Block} {startPoint : Nat} {data : Nat → Byte} {stored : Option (ByteFile Byte)}
    {writes : List WriteResult} {o : WriteOutcome} (hreceiving : b.receivingData = false) (hdel : b.toBeDeleted = false)
    (hle : b.dataSize ≤ putDown writes) (hcall : writeToStorageCalls b startPoint data stored ⟨true, true, writes⟩ = some o) :
    o.block = { b with dirtyFlag := false } ∧
      o.stored = some ((stored.getD ByteFile.empty).write startPoint (slice data 0 b.dataSize)) := by
  unfold writeToStorageCalls at hcall
  rw [if_neg (by rw [hreceiving]; decide)] at hcall
  dsimp only [Bool.not_true] at hcall
  rw [if_neg (by decide), if_neg (by rw [hdel]; decide), if_neg (by decide)] at hcall
  obtain ⟨⟨left, F'⟩, hloop, rfl⟩ := Option.map_eq_some_iff.mp hcall
  obtain ⟨-, rfl⟩ := (writeCallsLoop_spec hloop).1 hle
  exact ⟨rfl, rfl⟩

/-- A write-back in which every call does its work is the one of `IOnode.Basic`. -/
theorem IOnode.writeToStorage_eq_calls {n : IOnode} {k : BlockKey} {file : IOFile} {b : Block} {e : Nat} {writes : List WriteResult}
    {o : WriteOutcome} (hfile : n.files.find? k.1 = some file) (hb : n.block? k = some b) (he : b.elem = some e)
    (hreceiving : b.receivingData = false) (hdel : b.toBeDeleted = false) (hle : b.dataSize ≤ putDown writes)
    (hcall : writeToStorageCalls b k.2 (n.memory e) (n.storage file.filePath) ⟨true, true, writes⟩ = some o) :
    n.writeToStorage k = { n.setBlock k o.block with storage := Function.update n.storage file.filePath o.stored } := by
  obtain ⟨hblock, hstored⟩ := writeToStorageCalls_complete hreceiving hdel hle hcall
  unfold IOnode.writeToStorage
  rw [hfile, hb, hblock, hstored]
  simp only [hreceiving, hdel, he, Bool.false_eq_true, if_false, IOnode.openForWriting, IOnode.writeAt, Function.update_self,
    Option.getD_some, Function.update_idem]
  rfl

/-- And so is a read that comes in one piece or two, from a file that has the whole block. -/
theorem IOnode.readFromStorage_eq_calls {n : IOnode} {path : Str} {k : BlockKey} {b : Block} {e : Nat} {F : ByteFile Byte}
    {results : List ReadvResult} (hF : n.storage path = some F) (he : b.elem = some e) (hsize : k.2 + b.dataSize ≤ F.size)
    (hsplit : Splits b.dataSize results) (hlen : (pieceLengths results).length ≤ 2) :
    n.readFromStorage path k b = (readFromStorageCalls F k.2 b.dataSize results (n.memory e)).map (fun (count, memory) =>
      (count, { n with memory := Function.update n.memory e memory })) := by
  unfold readFromStorageCalls IOnode.readFromStorage
  rw [readvLoop_two hsplit hsize hlen, hF, he]
  simp only [ByteFile.read_within hsize, length_slice, Option.map_some, Nat.sub_zero]

end HuronFS
