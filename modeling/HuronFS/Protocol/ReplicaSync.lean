import HuronFS.Common.Const
import HuronFS.Lib.ByteFile
import HuronFS.Lib.OrdMap

/-!
# `Protocol.ReplicaSync` — a file on its primary and on a replica

The primary sends the blocks of a file from a start point on, one after the other, each with the `data_size` bytes it has, until
the blocks it has sent are as long as the write was. The replica cuts what it gets into pieces of `BLOCK_SIZE` and stores them
from the same start point on.

The blocks of both are given by their contents; that a block may be in memory or on storage is the subject of `IOnode.Basic`.
-/

namespace HuronFS

open Region

abbrev MAX_BLOCK_NUMBER : Nat := 1000
def MAX_FILE_SIZE : Nat := BLOCK_SIZE * MAX_BLOCK_NUMBER

/-- `block`: `data_size` bytes of its memory count. -/
structure SyncBlock where
  data : Nat → Byte
  dataSize : Nat

/-- The blocks of a file, by their start point. -/
abbrev SyncBlocks := OrdMap Nat SyncBlock

/-- `file`, on its primary. -/
structure Primary where
  fileNo : Int
  dirtyFlag : Bool
  blocks : SyncBlocks
  aligned : ∀ k b, blocks.find? k = some b → getBlockStartPoint k = k
  le : ∀ k b, blocks.find? k = some b → b.dataSize ≤ BLOCK_SIZE

/-- The byte at a position of the file, if there is one. -/
def contents (blocks : SyncBlocks) (p : Nat) : Option Byte :=
  (blocks.find? (getBlockStartPoint p)).bind (fun b =>
    if p - getBlockStartPoint p < b.dataSize then some (b.data (p - getBlockStartPoint p)) else none)

/-! ## The two sides -/

/-- The message of `_send_sync_data`: its fields, and the bytes that follow it. -/
structure SyncMessage where
  fileNo : Int
  startPoint : Nat
  offset : Nat
  size : Nat
  bytes : List Byte

/-- The `while` loop of `_send_sync_data`, over the blocks from the start point on. -/
def sendSyncLoop : List (Nat × SyncBlock) → (size : Int) → List Byte
  | [], _ => []
  | (_, b) :: rest, size => if 0 < size then slice b.data 0 b.dataSize ++ sendSyncLoop rest (size - b.dataSize) else []

/-- `_send_sync_data`. -/
def sendSyncData (f : Primary) (startPoint offset : Nat) (size : Int) : SyncMessage :=
  let bytes :=
    match f.blocks.find? startPoint with
    | none => []
    | some _ => sendSyncLoop (f.blocks.entries.dropWhile (fun e => e.1 < startPoint)) size
  ⟨f.fileNo, startPoint, offset, bytes.length, bytes⟩

/-- `update_block_data`, on the contents. -/
def updateSyncBlock (blocks : SyncBlocks) (startPoint offset size : Nat) (bytes : List Byte) : Nat × SyncBlocks :=
  let b := (blocks.find? startPoint).getD ⟨fun _ => 0, size⟩
  let size := if offset + size > BLOCK_SIZE then BLOCK_SIZE - offset else size
  (size, blocks.put startPoint
    { data := patch b.data offset (bytes.take size)
      dataSize := if b.dataSize < offset + size then offset + size else b.dataSize })

/-- The `while` loop of `_get_sync_data`; each turn takes at least a byte, which gives the fuel. -/
def getSyncLoop : (fuel size startPoint : Nat) → List Byte → SyncBlocks → SyncBlocks
  | 0, _, _, _, blocks => blocks
  | fuel + 1, size, startPoint, bytes, blocks =>
      if size = 0 then blocks
      else
        let IOsize := min size BLOCK_SIZE
        let (count, blocks) := updateSyncBlock blocks startPoint 0 IOsize bytes
        getSyncLoop fuel (size - count) (startPoint + IOsize) (bytes.drop count) blocks

/-- `_get_sync_data`, on a node with the files `files`. -/
def getSyncData (files : OrdMap Int SyncBlocks) (m : SyncMessage) : Int × OrdMap Int SyncBlocks :=
  match files.find? m.fileNo with
  | none => (FAILURE, files)
  | some blocks => (SUCCESS, files.put m.fileNo (getSyncLoop m.size m.size m.startPoint m.bytes blocks))

/-! ## What the replica stores -/

/-- A position of the block at `k`. -/
theorem contents_block {blocks : SyncBlocks} {k r : Nat} (hk : getBlockStartPoint k = k) (hr : r < BLOCK_SIZE) :
    contents blocks (k + r) = (blocks.find? k).bind (fun b => if r < b.dataSize then some (b.data r) else none) := by
  unfold contents
  rw [getBlockStartPoint_add hk, getBlockStartPoint_of_lt hr, Nat.add_zero, Nat.add_sub_cancel_left]

/-- **One piece**, stored from the start of a block on. -/
theorem contents_updateSyncBlock {blocks : SyncBlocks} {k size : Nat} {bytes : List Byte} (hk : getBlockStartPoint k = k)
    (hsize : size ≤ BLOCK_SIZE) (hlength : size ≤ bytes.length) (p : Nat) :
    contents (updateSyncBlock blocks k 0 size bytes).2 p =
      if k ≤ p ∧ p < k + size then bytes[p - k]? else contents blocks p := by
  have hclamp : (if size > BLOCK_SIZE then BLOCK_SIZE - 0 else size) = size := if_neg (by omega)
  by_cases hp : getBlockStartPoint p = k
  · -- a position of this block
    have hle := getBlockStartPoint_le p
    have hlt := lt_getBlockStartPoint_add p
    rw [hp] at hle hlt
    obtain ⟨r, rfl⟩ := Nat.exists_eq_add_of_le hle
    have hr : r < BLOCK_SIZE := by omega
    rw [contents_block hk hr, contents_block hk hr, Nat.add_sub_cancel_left]
    unfold updateSyncBlock
    simp only [hclamp, OrdMap.find?_put_self, Option.bind_some, Nat.zero_add]
    have htake : (bytes.take size).length = size := by
      rw [List.length_take]
      omega
    by_cases hin : r < size
    · have hdata : r < (if ((blocks.find? k).getD ⟨fun _ => 0, size⟩).dataSize < size then size
          else ((blocks.find? k).getD ⟨fun _ => 0, size⟩).dataSize) := by
        split <;> omega
      have hlt : r < (bytes.take size).length := by
        rw [htake]
        exact hin
      have hpatch : patch ((blocks.find? k).getD ⟨fun _ => 0, size⟩).data 0 (bytes.take size) (0 + r) = (bytes.take size)[r] := patch_at hlt
      rw [Nat.zero_add] at hpatch
      have hpos : k ≤ k + r ∧ k + r < k + size := by omega
      rw [if_pos hdata, if_pos hpos, hpatch, List.getElem_take, List.getElem?_eq_getElem (by omega)]
    · have hpos : ¬ (k ≤ k + r ∧ k + r < k + size) := by omega
      rw [if_neg hpos, patch_outside (Or.inr (by rw [htake]; omega))]
      cases hfind : blocks.find? k with
      | none =>
          simp only [Option.getD_none, Option.bind_none]
          rw [if_neg (by simpa using hin)]
      | some b =>
          simp only [Option.getD_some, Option.bind_some]
          by_cases hb : b.dataSize < size
          · rw [if_pos hb, if_neg (by omega), if_neg (by omega)]
          · rw [if_neg hb]
  · -- another block
    have hout : ¬ (k ≤ p ∧ p < k + size) := by
      rintro ⟨hle, hlt⟩
      apply hp
      obtain ⟨r, rfl⟩ := Nat.exists_eq_add_of_le hle
      rw [getBlockStartPoint_add hk, getBlockStartPoint_of_lt (by omega), Nat.add_zero]
    rw [if_neg hout]
    unfold contents updateSyncBlock
    simp only [OrdMap.find?_put_ne _ _ hp]

theorem updateSyncBlock_count (blocks : SyncBlocks) (k : Nat) {size : Nat} (bytes : List Byte) (h : size ≤ BLOCK_SIZE) :
    (updateSyncBlock blocks k 0 size bytes).1 = size := by
  have hclamp : ¬ 0 + size > BLOCK_SIZE := by omega
  exact if_neg hclamp

theorem getSyncLoop_none (fuel k : Nat) (bytes : List Byte) (blocks : SyncBlocks) : getSyncLoop fuel 0 k bytes blocks = blocks := by
  cases fuel with
  | zero => rfl
  | succ fuel => exact if_pos rfl

/-- The last piece. -/
theorem getSyncLoop_last {bytes : List Byte} (fuel k : Nat) (blocks : SyncBlocks) (hpos : 0 < bytes.length) (hle : bytes.length ≤ BLOCK_SIZE) :
    getSyncLoop (fuel + 1) bytes.length k bytes blocks = (updateSyncBlock blocks k 0 bytes.length bytes).2 := by
  have hcount := updateSyncBlock_count blocks k bytes hle
  unfold getSyncLoop
  rw [if_neg (Nat.ne_of_gt hpos)]
  simp only [Nat.min_eq_left hle, hcount, Nat.sub_self]
  exact getSyncLoop_none ..

/-- A piece with more behind it. -/
theorem getSyncLoop_more {bytes : List Byte} (fuel k : Nat) (blocks : SyncBlocks) (hlt : BLOCK_SIZE < bytes.length) :
    getSyncLoop (fuel + 1) bytes.length k bytes blocks = getSyncLoop fuel (bytes.drop BLOCK_SIZE).length (k + BLOCK_SIZE)
      (bytes.drop BLOCK_SIZE) (updateSyncBlock blocks k 0 BLOCK_SIZE bytes).2 := by
  have hcount := updateSyncBlock_count blocks k bytes (Nat.le_refl BLOCK_SIZE)
  have hne : bytes.length ≠ 0 := by omega
  rw [List.length_drop]
  conv_lhs => unfold getSyncLoop
  rw [if_neg hne]
  simp only [Nat.min_eq_right (Nat.le_of_lt hlt), hcount]

theorem drop_block_length {bytes : List Byte} {fuel : Nat} (hfuel : bytes.length ≤ fuel + 1) (hlt : BLOCK_SIZE < bytes.length) :
    (bytes.drop BLOCK_SIZE).length ≤ fuel := by
  have hpos : 0 < BLOCK_SIZE := by decide
  rw [List.length_drop]
  omega

/-- **The loop of the replica** stores the bytes one after the other. -/
theorem contents_getSyncLoop {fuel : Nat} : ∀ {k : Nat} {bytes : List Byte} {blocks : SyncBlocks}, getBlockStartPoint k = k →
    bytes.length ≤ fuel → ∀ p, contents (getSyncLoop fuel bytes.length k bytes blocks) p =
      if k ≤ p ∧ p < k + bytes.length then bytes[p - k]? else contents blocks p := by
  induction fuel with
  | zero =>
      intro k bytes blocks _ hfuel p
      rw [if_neg (by omega)]
      rfl
  | succ fuel ih =>
      intro k bytes blocks hk hfuel p
      rcases Nat.eq_zero_or_pos bytes.length with hzero | hpos
      · rw [hzero, getSyncLoop_none, if_neg (by omega)]
      · by_cases hle : bytes.length ≤ BLOCK_SIZE
        · rw [getSyncLoop_last fuel k blocks hpos hle]
          exact contents_updateSyncBlock hk hle (Nat.le_refl _) p
        · have hlt : BLOCK_SIZE < bytes.length := Nat.lt_of_not_le hle
          have hlength : (bytes.drop BLOCK_SIZE).length = bytes.length - BLOCK_SIZE := List.length_drop
          rw [getSyncLoop_more fuel k blocks hlt, ih (getBlockStartPoint_next hk) (drop_block_length hfuel hlt) p,
            contents_updateSyncBlock hk (Nat.le_refl _) (Nat.le_of_lt hlt)]
          by_cases h1 : k ≤ p ∧ p < k + BLOCK_SIZE
          · rw [if_neg (by omega), if_pos h1, if_pos (by omega)]
          · by_cases h2 : k + BLOCK_SIZE ≤ p ∧ p < k + BLOCK_SIZE + (bytes.drop BLOCK_SIZE).length
            · have hindex : BLOCK_SIZE + (p - (k + BLOCK_SIZE)) = p - k := by omega
              rw [if_pos h2, if_pos (by omega), List.getElem?_drop, hindex]
            · rw [if_neg h2, if_neg h1, if_neg (by omega)]

namespace Primary

variable {f : Primary}

/-- A byte at a position is in the block there. -/
theorem block_of_contents {k r : Nat} (hk : getBlockStartPoint k = k) (hr : r < BLOCK_SIZE) (h : (contents f.blocks (k + r)).isSome) :
    ∃ b, f.blocks.find? k = some b ∧ r < b.dataSize ∧ contents f.blocks (k + r) = some (b.data r) := by
  rw [contents_block hk hr] at h ⊢
  cases hb : f.blocks.find? k with
  | none =>
      rw [hb] at h
      cases h
  | some b =>
      rw [hb, Option.bind_some] at h
      rw [Option.bind_some]
      by_cases hlt : r < b.dataSize
      · exact ⟨b, rfl, hlt, if_pos hlt⟩
      · rw [if_neg hlt] at h
        cases h

/-- The blocks from `k` on: the one at `k`, and those from the next on. -/
theorem from_block {k : Nat} {b : SyncBlock} (hb : f.blocks.find? k = some b) (size : Int) :
    sendSyncLoop (f.blocks.entries.dropWhile (fun e => e.1 < k)) size = if 0 < size then
      slice b.data 0 b.dataSize ++ sendSyncLoop (f.blocks.entries.dropWhile (fun e => e.1 < k + BLOCK_SIZE)) (size - b.dataSize) else [] := by
  obtain ⟨rest, hfrom, hrest⟩ := OrdMap.dropWhile_from hb
  have hnext : rest = f.blocks.entries.dropWhile (fun e => e.1 < k + BLOCK_SIZE) := by
    refine hrest (k + BLOCK_SIZE) (Nat.lt_add_of_pos_right (by decide)) ?_
    intro j c hc hlt
    exact block_le_of_lt (f.aligned k b hb) (f.aligned j c hc) hlt
  rw [hfrom, ← hnext]
  rfl

/-- A block that the bytes go past is full. -/
theorem full_of_contents {k off n : Nat} (hk : getBlockStartPoint k = k) (hoff : off < BLOCK_SIZE) (hn : BLOCK_SIZE < n)
    (hbytes : ∀ q, off ≤ q → q < n → (contents f.blocks (k + q)).isSome) :
    ∃ b, f.blocks.find? k = some b ∧ b.dataSize = BLOCK_SIZE := by
  have hpos : 0 < BLOCK_SIZE := by decide
  obtain ⟨b, hb, hlt, -⟩ := block_of_contents hk (show BLOCK_SIZE - 1 < BLOCK_SIZE by omega) (hbytes (BLOCK_SIZE - 1) (by omega) (by omega))
  have hle := f.le k b hb
  exact ⟨b, hb, by omega⟩

/-- **All that is asked for is sent**, when the block of the last byte starts before `size`. -/
theorem send_covers {n : Nat} : ∀ {k : Nat} (off : Nat) (size : Int), getBlockStartPoint k = k → off < BLOCK_SIZE → off < n →
    (∀ q, off ≤ q → q < n → (contents f.blocks (k + q)).isSome) → (getBlockStartPoint (n - 1) : Int) < size →
    n ≤ (sendSyncLoop (f.blocks.entries.dropWhile (fun e => e.1 < k)) size).length ∧
    ∀ q, off ≤ q → q < n → (sendSyncLoop (f.blocks.entries.dropWhile (fun e => e.1 < k)) size)[q]? = contents f.blocks (k + q) := by
  induction n using Nat.strong_induction_on with
  | _ n ih =>
      intro k off size hk hoff hn hbytes hsize
      have hpos : 0 < BLOCK_SIZE := by decide
      have hsize0 : 0 < size := by
        have : (0 : Int) ≤ (getBlockStartPoint (n - 1) : Int) := Int.natCast_nonneg _
        omega
      by_cases hle : n ≤ BLOCK_SIZE
      · -- the range ends in the first block
        obtain ⟨b, hb, hlt, -⟩ := block_of_contents hk (show n - 1 < BLOCK_SIZE by omega) (hbytes (n - 1) (by omega) (by omega))
        rw [from_block hb, if_pos hsize0]
        have hlength : (slice b.data 0 b.dataSize).length = b.dataSize := length_slice ..
        refine ⟨by rw [List.length_append]; omega, ?_⟩
        intro q hq hqn
        obtain ⟨b', hb', -, hcontents⟩ := block_of_contents hk (show q < BLOCK_SIZE by omega) (hbytes q hq hqn)
        rw [hb] at hb'
        cases hb'
        rw [List.getElem?_append_left (by omega), getElem?_slice (by omega), hcontents, Nat.zero_add]
      · -- the first block is full, and the rest is asked for from the next on
        have hlt : BLOCK_SIZE < n := Nat.lt_of_not_le hle
        obtain ⟨b, hb, hfull⟩ := full_of_contents hk hoff hlt hbytes
        have hbytes' : ∀ q, 0 ≤ q → q < n - BLOCK_SIZE → (contents f.blocks (k + BLOCK_SIZE + q)).isSome := by
          intro q _ hq
          rw [Nat.add_assoc]
          exact hbytes (BLOCK_SIZE + q) (by omega) (by omega)
        have hstart := getBlockStartPoint_add_block (n - BLOCK_SIZE - 1)
        rw [show n - BLOCK_SIZE - 1 + BLOCK_SIZE = n - 1 by omega] at hstart
        obtain ⟨hlength, hget⟩ := ih (n - BLOCK_SIZE) (by omega) 0 (size - b.dataSize) (getBlockStartPoint_next hk) hpos
          (by omega) hbytes' (by rw [hfull]; omega)
        rw [from_block hb, if_pos hsize0]
        have hslice : (slice b.data 0 b.dataSize).length = BLOCK_SIZE := by rw [length_slice, hfull]
        refine ⟨by rw [List.length_append]; omega, ?_⟩
        intro q hq hqn
        by_cases hqb : q < BLOCK_SIZE
        · obtain ⟨b', hb', -, hcontents⟩ := block_of_contents hk hqb (hbytes q hq hqn)
          rw [hb] at hb'
          cases hb'
          rw [List.getElem?_append_left (by omega), getElem?_slice (by omega), hcontents, Nat.zero_add]
        · have hindex : k + BLOCK_SIZE + (q - BLOCK_SIZE) = k + q := by omega
          rw [List.getElem?_append_right (by omega), hslice, hget (q - BLOCK_SIZE) (Nat.zero_le _) (by omega), hindex]

/-- The file has no hole: all before a byte is there too. -/
def NoHole (f : Primary) : Prop := ∀ p q, p ≤ q → (contents f.blocks q).isSome → (contents f.blocks p).isSome

/-- Every block has a byte. -/
def NoEmptyBlock (f : Primary) : Prop := ∀ k b, f.blocks.find? k = some b → 0 < b.dataSize

theorem contents_start {k : Nat} {b : SyncBlock} (hb : f.blocks.find? k = some b) (hpos : 0 < b.dataSize) :
    contents f.blocks k = some (b.data 0) := by
  have hblock : contents f.blocks (k + 0) = _ := contents_block (f.aligned k b hb) (by decide)
  rw [Nat.add_zero, hb, Option.bind_some, if_pos hpos] at hblock
  exact hblock

/-- Where blocks follow, there is a block. -/
theorem block_of_later (hhole : f.NoHole) (hempty : f.NoEmptyBlock) {k : Nat} (hk : getBlockStartPoint k = k)
    (hlater : f.blocks.entries.dropWhile (fun e => e.1 < k) ≠ []) : ∃ b, f.blocks.find? k = some b := by
  obtain ⟨e, rest, hcons⟩ := List.exists_cons_of_ne_nil hlater
  have hmem : e ∈ f.blocks.entries.dropWhile (fun e => e.1 < k) := by
    rw [hcons]
    exact List.mem_cons_self
  have hfind : f.blocks.find? e.1 = some e.2 := OrdMap.mem_entries.mp ((List.dropWhile_sublist _).mem hmem)
  have hle : k ≤ e.1 := by
    have hhead := List.head?_dropWhile_not (fun e : Nat × SyncBlock => decide (e.1 < k)) f.blocks.entries
    rw [hcons] at hhead
    simpa using hhead
  have hbyte := hhole k e.1 hle (by rw [contents_start hfind (hempty _ _ hfind)]; rfl)
  obtain ⟨b, hb, -⟩ := block_of_contents (r := 0) hk (by decide) (by rw [Nat.add_zero]; exact hbyte)
  exact ⟨b, hb⟩

end Primary

/-! ## The replica afterwards -/

/-- A write: `start_point` is the start of a block, `offset` is in it. -/
structure WriteRange where
  startPoint : Nat
  offset : Nat
  size : Nat
  aligned : getBlockStartPoint startPoint = startPoint
  offset_lt : offset < BLOCK_SIZE

/-- The contents are the same where the write was. -/
def WriteRange.Same (r : WriteRange) (primary replica : SyncBlocks) : Prop :=
  ∀ p, r.startPoint + r.offset ≤ p → p < r.startPoint + r.offset + r.size → contents replica p = contents primary p

/-- The primary has what was written. -/
def Primary.Has (f : Primary) (r : WriteRange) : Prop :=
  ∀ p, r.startPoint + r.offset ≤ p → p < r.startPoint + r.offset + r.size → (contents f.blocks p).isSome

section

variable {f : Primary} {startPoint offset : Nat} {size : Int}

theorem sent_of_block (offset : Nat) (size : Int) {b : SyncBlock} (hb : f.blocks.find? startPoint = some b) :
    (sendSyncData f startPoint offset size).bytes = sendSyncLoop (f.blocks.entries.dropWhile (fun e => e.1 < startPoint)) size := by
  unfold sendSyncData
  rw [hb]

theorem sent_of_none (hb : f.blocks.find? startPoint = none) : (sendSyncData f startPoint offset size).bytes = [] := by
  unfold sendSyncData
  rw [hb]

end

end HuronFS
