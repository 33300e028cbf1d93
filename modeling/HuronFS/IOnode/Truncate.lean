import HuronFS.Common.Task
import HuronFS.IOnode.Requests

/-!
# `IOnode.Truncate` — the end of a file is cut off (`IOnode::_truncate_file`)

The block that contains the new end gets a smaller size; the blocks after it are deleted. Nothing is written: neither to the memory of
the block behind its new size, nor to the storage, where the file keeps the length it had.
-/

namespace HuronFS

namespace IOnode

/-- The start points of the blocks after one. -/
def laterStarts (n : IOnode) (fileNo : Int) (startPoint : Nat) : List Nat :=
  match n.files.find? fileNo with
  | none => []
  | some file => file.blocks.keys.filter (fun s => startPoint < s)

/-- `_truncate_file`. A number that is not there raises an exception nobody catches; a block that is not there is the end iterator. -/
def truncateFile (n : IOnode) (fileNo : Int) (startPoint avaliableSize : Nat) : Option IOnode :=
  match n.block? (fileNo, startPoint) with
  | none => none
  | some b =>
      some ((n.laterStarts fileNo startPoint).foldl (fun n s => n.deleteBlock (fileNo, s))
        (n.setBlock (fileNo, startPoint) { b with dataSize := avaliableSize }))

/-- The pops of `_truncate_file`, the request code in front of them. -/
def popTruncate : List Field → Option (Int × Nat × Nat)
  | [.w32 request, .w64 fd, .w64 startPoint, .w64 avaliableSize] =>
      if request.toInt = TRUNCATE then some (fd.toInt, startPoint.toNat, avaliableSize.toNat) else none
  | _ => none

/-- A `TRUNCATE` message. -/
def receiveTruncate (n : IOnode) (message : List Field) : Option IOnode :=
  (popTruncate message).bind (fun (fd, startPoint, avaliableSize) => n.truncateFile fd startPoint avaliableSize)

variable {n n' : IOnode} {f : Int} {s size : Nat}

/-! ## The blocks that are left -/

theorem block?_deleteBlock (n : IOnode) (j k : BlockKey) : (n.deleteBlock j).block? k = if k = j then none else n.block? k := by
  unfold deleteBlock
  cases hb : n.block? j with
  | none =>
      by_cases hk : k = j
      · rw [if_pos hk, hk]
        exact hb
      · rw [if_neg hk]
  | some b =>
      obtain ⟨file, hfile, -⟩ := block?_some_iff.mp hb
      show ((n.files.modify j.1 (fun file => { file with blocks := file.blocks.erase j.2 })).find? k.1).bind _ = _
      rw [OrdMap.find?_modify]
      by_cases hk : k = j
      · subst hk
        rw [if_pos rfl, if_pos rfl, hfile]
        exact OrdMap.find?_erase_self _ _
      · rw [if_neg hk]
        by_cases hk1 : k.1 = j.1
        · have hk2 : k.2 ≠ j.2 := fun he => hk (Prod.ext hk1 he)
          have hfile' : n.files.find? k.1 = some file := by rw [hk1, hfile]
          rw [if_pos hk1, hfile, block?_of_file hfile']
          exact OrdMap.find?_erase_ne _ hk2
        · rw [if_neg hk1]
          rfl

theorem block?_deleteBlocks (starts : List Nat) : ∀ (n : IOnode) (k : BlockKey),
    (starts.foldl (fun n s => n.deleteBlock (f, s)) n).block? k = if k.1 = f ∧ k.2 ∈ starts then none else n.block? k := by
  induction starts with
  | nil =>
      intro n k
      rw [if_neg (fun hc => nomatch hc.2)]
      rfl
  | cons s starts ih =>
      intro n k
      rw [List.foldl_cons, ih, block?_deleteBlock]
      by_cases hin : k.1 = f ∧ k.2 ∈ starts
      · rw [if_pos hin, if_pos ⟨hin.1, List.mem_cons_of_mem _ hin.2⟩]
      · rw [if_neg hin]
        by_cases hk : k = (f, s)
        · subst hk
          rw [if_pos rfl, if_pos ⟨rfl, List.mem_cons_self⟩]
        · rw [if_neg hk, if_neg]
          rintro ⟨h1, h2⟩
          rcases List.mem_cons.mp h2 with h2 | h2
          · exact hk (Prod.ext h1 h2)
          · exact hin ⟨h1, h2⟩

theorem mem_laterStarts {k : Nat} : k ∈ n.laterStarts f s ↔ s < k ∧ n.block? (f, k) ≠ none := by
  unfold laterStarts block?
  cases hfile : n.files.find? f with
  | none => simp
  | some file =>
      dsimp only
      rw [List.mem_filter, decide_eq_true_eq, and_comm, Option.bind_some, Ne, OrdMap.find?_none_iff_not_mem_keys, not_not]

/-- **The blocks after a truncate**: those behind the new end are gone, the one that contains it has the size that is left. -/
theorem truncateFile_some : n.truncateFile f s size = some n' ↔
    ∃ b, n.block? (f, s) = some b ∧ n' = (n.laterStarts f s).foldl (fun n s => n.deleteBlock (f, s))
      (n.setBlock (f, s) { b with dataSize := size }) := by
  unfold truncateFile
  cases hb : n.block? (f, s) with
  | none => simp
  | some b => simp [eq_comm]

theorem block?_truncateFile (h : n.truncateFile f s size = some n') (k : Nat) :
    n'.block? (f, k) = if s < k then none else if k = s then (n.block? (f, s)).map (fun b => { b with dataSize := size })
      else n.block? (f, k) := by
  obtain ⟨b, hb, rfl⟩ := truncateFile_some.mp h
  obtain ⟨file, hfile, -⟩ := block?_some_iff.mp hb
  rw [block?_deleteBlocks, block?_setBlock hfile, hb]
  by_cases hlater : s < k
  · rw [if_pos hlater]
    by_cases hmem : k ∈ n.laterStarts f s
    · rw [if_pos ⟨rfl, hmem⟩]
    · have hnone : n.block? (f, k) = none := by
        by_contra hne
        exact hmem (mem_laterStarts.mpr ⟨hlater, hne⟩)
      have hks : (f, k) ≠ (f, s) := fun hc => absurd (congrArg Prod.snd hc) (Nat.ne_of_gt hlater)
      rw [if_neg (fun hc => hmem hc.2), if_neg hks, hnone]
  · have hnot : ¬ ((f, k).1 = f ∧ (f, k).2 ∈ n.laterStarts f s) := fun hc => hlater (mem_laterStarts.mp hc.2).1
    rw [if_neg hlater, if_neg hnot]
    by_cases hk : k = s
    · subst hk
      rw [if_pos rfl, if_pos rfl]
      rfl
    · rw [if_neg (fun hc => hk (congrArg Prod.snd hc)), if_neg hk]

end IOnode

end HuronFS
