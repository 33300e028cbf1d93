import HuronFS.Lib.ByteFile
import HuronFS.Master.Basic

/-!
# `Client.Transfer` — the transfers of a read or a write (`_read_from_IOnode`, `_write_to_IOnode`)

Once a client knows the blocks of a range it sends the IOnode one query after another, each for at most
`MAX_TRANSFER_SIZE` bytes: the start of a block, an offset from it, a size. Between two queries `find_start_point`
looks the next block up in the list, and only its start points are ever used. What the IOnode does with a query is a
parameter of the loops.
-/

namespace HuronFS

/-- One query to an IOnode. The offset is an `off64_t`. -/
structure Transfer where
  startPoint : Nat
  offset : Int
  size : Nat
deriving DecidableEq, Repr

/-- An IOnode as a client sees it: its answers to the two kinds of query, which may not come. -/
structure NodeIo (σ : Type) where
  write : (node : Int) → Transfer → List Byte → σ → Option σ
  read : (node : Int) → Transfer → σ → Option (List Byte × σ)

/-- The loop of `find_start_point`. -/
def findStartLoop (endStartPoint : Nat) : List Nat → (ret : Nat) → Nat
  | [], ret => ret
  | k :: ks, ret => if endStartPoint < k then ret else findStartLoop endStartPoint ks k

/-- `find_start_point`; `first` is `begin(blocks)->first`. -/
def findStartPoint (blocks : BlockList) (first startPoint updateSize : Nat) : Nat :=
  findStartLoop (startPoint + updateSize) blocks.keys first

/-- The size of the next query. -/
def transferSize (remaining : Nat) : Nat := if MAX_TRANSFER_SIZE > remaining then remaining else MAX_TRANSFER_SIZE

theorem transferSize_eq (remaining : Nat) : transferSize remaining = min MAX_TRANSFER_SIZE remaining := by
  unfold transferSize
  split
  · omega
  · omega

section Loops

variable {σ : Type} (io : NodeIo σ) (node : Int) (blocks : BlockList) (first : Nat)

/-- The loop of `_write_to_IOnode`: the bytes sent so far, and the IOnode after them. -/
def writeLoop : (fuel currentPoint startPoint : Nat) → List Byte → (ans : Nat) → σ → Option (Nat × σ)
  | 0, _, _, data, ans, s => if data = [] then some (ans, s) else none
  | fuel + 1, currentPoint, startPoint, data, ans, s =>
      if data = [] then some (ans, s)
      else
        let size := transferSize data.length
        match io.write node ⟨startPoint, (currentPoint : Int) - startPoint, size⟩ (data.take size) s with
        | none => none
        | some s =>
            writeLoop fuel (currentPoint + size) (findStartPoint blocks first startPoint size) (data.drop size)
              (ans + size) s

/-- The loop of `_read_from_IOnode`: the bytes received so far. A reply without a byte is asked for again, for ever. -/
def readLoop : (fuel currentPoint startPoint readSize : Nat) → List Byte → σ → Option (List Byte × σ)
  | 0, _, _, readSize, buffer, s => if readSize = 0 then some (buffer, s) else none
  | fuel + 1, currentPoint, startPoint, readSize, buffer, s =>
      if readSize = 0 then some (buffer, s)
      else
        match io.read node ⟨startPoint, (currentPoint : Int) - startPoint, transferSize readSize⟩ s with
        | none => none
        | some (bytes, s) =>
            readLoop fuel (currentPoint + bytes.length) (findStartPoint blocks first startPoint bytes.length)
              (readSize - bytes.length) (buffer ++ bytes) s

end Loops

/-- `_write_to_IOnode`; an empty list of blocks or of nodes has no first element to take. -/
def writeToIOnode {σ : Type} (io : NodeIo σ) (blocks : BlockList) (nodes : OrdSet Int) (offset : Nat) (data : List Byte)
    (s : σ) : Option (Nat × σ) :=
  match blocks.firstKey, nodes.firstKey with
  | some first, some node => writeLoop io node blocks first data.length offset first data 0 s
  | _, _ => none

/-- `_read_from_IOnode`, for a client that takes the file to have `stSize` bytes. -/
def readFromIOnode {σ : Type} (io : NodeIo σ) (blocks : BlockList) (nodes : OrdSet Int) (stSize offset size : Nat) (s : σ) :
    Option (List Byte × σ) :=
  match blocks.firstKey, nodes.firstKey with
  | some first, some node =>
      if size + offset > stSize then
        if stSize > offset then readLoop io node blocks first (stSize - offset) offset first (stSize - offset) [] s
        else some ([], s)
      else readLoop io node blocks first size offset first size [] s
  | _, _ => none

/-! ## Only the start points matter -/

theorem findStartPoint_congr {blocks blocks' : BlockList} (h : blocks.keys = blocks'.keys) :
    findStartPoint blocks = findStartPoint blocks' := by
  funext first startPoint updateSize
  simp only [findStartPoint, h]

theorem firstKey_congr {blocks blocks' : BlockList} (h : blocks.keys = blocks'.keys) :
    blocks.firstKey = blocks'.firstKey := by simp only [OrdMap.firstKey, h]

theorem writeLoop_congr {σ : Type} (io : NodeIo σ) (node : Int) {blocks blocks' : BlockList} (h : blocks.keys = blocks'.keys)
    (first fuel : Nat) : writeLoop io node blocks first fuel = writeLoop io node blocks' first fuel := by
  induction fuel with
  | zero => rfl
  | succ fuel ih =>
      funext currentPoint startPoint data ans s
      simp only [writeLoop, ih, findStartPoint_congr h]

theorem readLoop_congr {σ : Type} (io : NodeIo σ) (node : Int) {blocks blocks' : BlockList} (h : blocks.keys = blocks'.keys)
    (first fuel : Nat) : readLoop io node blocks first fuel = readLoop io node blocks' first fuel := by
  induction fuel with
  | zero => rfl
  | succ fuel ih =>
      funext currentPoint startPoint readSize buffer s
      simp only [readLoop, ih, findStartPoint_congr h]

theorem writeToIOnode_congr {σ : Type} (io : NodeIo σ) {blocks blocks' : BlockList} (h : blocks.keys = blocks'.keys)
    (nodes : OrdSet Int) (offset : Nat) (data : List Byte) (s : σ) :
    writeToIOnode io blocks nodes offset data s = writeToIOnode io blocks' nodes offset data s := by
  simp only [writeToIOnode, firstKey_congr h, writeLoop_congr io _ h]

theorem readFromIOnode_congr {σ : Type} (io : NodeIo σ) {blocks blocks' : BlockList} (h : blocks.keys = blocks'.keys)
    (nodes : OrdSet Int) (stSize offset size : Nat) (s : σ) :
    readFromIOnode io blocks nodes stSize offset size s = readFromIOnode io blocks' nodes stSize offset size s := by
  simp only [readFromIOnode, firstKey_congr h, readLoop_congr io _ h]

/-! ## Whole ranges

The blocks of a range are listed one `BLOCK_SIZE` after the other, and every query but the last moves as many bytes: so
each query starts at its own block, and the offset from it stays what it was for the first. -/

theorem findStartLoop_mem {e : Nat} : ∀ {l : List Nat} {ret : Nat}, l.Pairwise (· < ·) → e ∈ l → findStartLoop e l ret = e
  | [], _, _, hmem => nomatch hmem
  | k :: ks, ret, hord, hmem => by
      obtain ⟨hfirst, hrest⟩ := List.pairwise_cons.mp hord
      unfold findStartLoop
      rcases List.mem_cons.mp hmem with rfl | htail
      · rw [if_neg (Nat.lt_irrefl e)]
        cases ks with
        | nil => rfl
        | cons k ks => exact if_pos (hfirst k List.mem_cons_self)
      · rw [if_neg (Nat.lt_asymm (hfirst e htail))]
        exact findStartLoop_mem hrest htail

/-- A block that starts where the last query ended is found. -/
theorem findStartPoint_mem {blocks : BlockList} {first startPoint updateSize : Nat}
    (h : startPoint + updateSize ∈ blocks.keys) : findStartPoint blocks first startPoint updateSize = startPoint + updateSize :=
  findStartLoop_mem (OrdMap.keys_ordered blocks) h

/-- The blocks of a range of `size` bytes, the first of them at `start`. -/
def Lists (blocks : BlockList) (start size : Nat) : Prop :=
  blocks.keys = (List.range (blockCount size)).map (fun k => start + k * BLOCK_SIZE)

theorem Lists.mem {blocks : BlockList} {start size i : Nat} (h : Lists blocks start size) (hi : i * BLOCK_SIZE < size) :
    start + i * BLOCK_SIZE ∈ blocks.keys := by
  rw [h]
  exact List.mem_map.mpr ⟨i, List.mem_range.mpr (lt_blockCount_iff.mpr hi), rfl⟩

theorem Lists.firstKey {blocks : BlockList} {start size : Nat} (h : Lists blocks start size) (hsize : 0 < size) :
    blocks.firstKey = some start := by
  unfold OrdMap.firstKey
  rw [h, blockCount_step hsize, List.range_succ_eq_map]
  simp

section Ranges

variable {σ : Type} {io : NodeIo σ} {node : Int} {blocks : BlockList} {start offset : Nat}

/-- The offset of a query from its block. -/
theorem queryOffset (done : Nat) : ((start + offset + done : Nat) : Int) - (start + done : Nat) = offset := by
  omega

/-- Where the next query starts, when there is one. -/
theorem nextPoints (first offset : Nat) {size : Nat} (hblocks : Lists blocks start size) (i : Nat) (hmore : (i + 1) * BLOCK_SIZE < size) :
    start + offset + i * BLOCK_SIZE + min BLOCK_SIZE (size - i * BLOCK_SIZE) = start + offset + (i + 1) * BLOCK_SIZE ∧
      findStartPoint blocks first (start + i * BLOCK_SIZE) (min BLOCK_SIZE (size - i * BLOCK_SIZE))
        = start + (i + 1) * BLOCK_SIZE := by
  have hmem := hblocks.mem hmore
  rw [Nat.succ_mul] at hmore hmem ⊢
  have hfull : min BLOCK_SIZE (size - i * BLOCK_SIZE) = BLOCK_SIZE := by omega
  rw [hfull, ← Nat.add_assoc, ← Nat.add_assoc] at *
  exact ⟨rfl, findStartPoint_mem hmem⟩

/-- **The transfers of a write.** `I i` is what holds after `i` of them. -/
theorem writeLoop_spec (first : Nat) {data : List Byte} {I : Nat → σ → Prop} (hblocks : Lists blocks start data.length)
    (hstep : ∀ i s, i * BLOCK_SIZE < data.length → I i s → ∃ s',
      io.write node ⟨start + i * BLOCK_SIZE, offset, min BLOCK_SIZE (data.length - i * BLOCK_SIZE)⟩
        ((data.drop (i * BLOCK_SIZE)).take BLOCK_SIZE) s = some s' ∧ I (i + 1) s') :
    ∀ {fuel i : Nat} (ans : Nat) {currentPoint startPoint : Nat} {s : σ}, data.length - i * BLOCK_SIZE ≤ fuel →
      i ≤ blockCount data.length →
      (i * BLOCK_SIZE < data.length → currentPoint = start + offset + i * BLOCK_SIZE ∧ startPoint = start + i * BLOCK_SIZE) →
      I i s → ∃ s', writeLoop io node blocks first fuel currentPoint startPoint (data.drop (i * BLOCK_SIZE)) ans s
        = some (ans + (data.length - i * BLOCK_SIZE), s') ∧ I (blockCount data.length) s' := by
  have hpos : 0 < BLOCK_SIZE := by decide
  have hcount : ∀ i, i < blockCount data.length ↔ i * BLOCK_SIZE < data.length := fun _ => lt_blockCount_iff
  have hnext := nextPoints first offset hblocks
  have htransfer : ∀ n, transferSize n = min BLOCK_SIZE n := transferSize_eq
  -- the value of a block's size plays no part
  generalize BLOCK_SIZE = B at hpos hcount hnext htransfer hstep ⊢
  -- when nothing is left, all the blocks are behind
  have hdone : ∀ {i : Nat} {s : σ}, i ≤ blockCount data.length → data.length ≤ i * B → I i s →
      I (blockCount data.length) s := by
    intro i s hle hend hI
    have hi : blockCount data.length ≤ i := Nat.le_of_not_lt (fun hlt => Nat.not_lt.mpr hend ((hcount i).mp hlt))
    rw [Nat.le_antisymm hi hle]
    exact hI
  intro fuel
  induction fuel with
  | zero =>
      intro i ans currentPoint startPoint s hfuel hle _ hI
      have hend : data.length ≤ i * B := by omega
      refine ⟨s, ?_, hdone hle hend hI⟩
      rw [List.drop_eq_nil_of_le hend, Nat.sub_eq_zero_of_le hend]
      rfl
  | succ fuel ih =>
      intro i ans currentPoint startPoint s hfuel hle hpoints hI
      by_cases hend : data.length ≤ i * B
      · refine ⟨s, ?_, hdone hle hend hI⟩
        rw [List.drop_eq_nil_of_le hend, Nat.sub_eq_zero_of_le hend]
        rfl
      · have hi : i * B < data.length := by omega
        obtain ⟨rfl, rfl⟩ := hpoints hi
        obtain ⟨s1, hwrite, hI1⟩ := hstep i s hi hI
        have hlength : (data.drop (i * B)).length = data.length - i * B := List.length_drop
        have hne : data.drop (i * B) ≠ [] := by
          intro hnil
          rw [hnil, List.length_nil] at hlength
          omega
        have htake : (data.drop (i * B)).take (min B (data.length - i * B)) = (data.drop (i * B)).take B := by
          rw [← hlength, ← List.take_eq_take_min]
        have hdrop : (data.drop (i * B)).drop (min B (data.length - i * B)) = data.drop ((i + 1) * B) := by
          rw [List.drop_drop, Nat.succ_mul]
          by_cases hlast : data.length ≤ i * B + B
          · rw [List.drop_eq_nil_of_le hlast, List.drop_eq_nil_of_le (by omega)]
          · rw [show min B (data.length - i * B) = B by omega]
        have hfuel' : data.length - (i + 1) * B ≤ fuel := by
          rw [Nat.succ_mul]
          omega
        have hans : ans + min B (data.length - i * B) + (data.length - (i + 1) * B) = ans + (data.length - i * B) := by
          rw [Nat.succ_mul]
          omega
        obtain ⟨s', hrest, hI'⟩ := ih (ans + min B (data.length - i * B)) hfuel'
          (Nat.succ_le_of_lt ((hcount i).mpr hi)) (hnext i) hI1
        refine ⟨s', ?_, hI'⟩
        unfold writeLoop
        rw [if_neg hne]
        dsimp only
        rw [htransfer, hlength, htake, hdrop, queryOffset, hwrite]
        dsimp only
        rw [hrest, hans]

/-- **The transfers of a read**, when each returns what it was asked for. -/
theorem readLoop_spec (first : Nat) {size : Nat} {cell : Nat → Byte} {I : σ → Prop} (hblocks : Lists blocks start size)
    (hstep : ∀ i s, i * BLOCK_SIZE < size → I s → ∃ s',
      io.read node ⟨start + i * BLOCK_SIZE, offset, min BLOCK_SIZE (size - i * BLOCK_SIZE)⟩ s
        = some (Region.slice cell (start + offset + i * BLOCK_SIZE) (min BLOCK_SIZE (size - i * BLOCK_SIZE)), s') ∧ I s') :
    ∀ {fuel i currentPoint startPoint : Nat} (buffer : List Byte) {s : σ}, size - i * BLOCK_SIZE ≤ fuel →
      (i * BLOCK_SIZE < size → currentPoint = start + offset + i * BLOCK_SIZE ∧ startPoint = start + i * BLOCK_SIZE) →
      I s → ∃ s', readLoop io node blocks first fuel currentPoint startPoint (size - i * BLOCK_SIZE) buffer s
        = some (buffer ++ Region.slice cell (start + offset + i * BLOCK_SIZE) (size - i * BLOCK_SIZE), s') ∧ I s' := by
  have hpos : 0 < BLOCK_SIZE := by decide
  have hnext := nextPoints first offset hblocks
  have htransfer : ∀ n, transferSize n = min BLOCK_SIZE n := transferSize_eq
  generalize BLOCK_SIZE = B at hpos hnext htransfer hstep ⊢
  intro fuel
  induction fuel with
  | zero =>
      intro i currentPoint startPoint buffer s hfuel _ hI
      have hend : size - i * B = 0 := by omega
      refine ⟨s, ?_, hI⟩
      rw [hend, Region.slice_zero, List.append_nil]
      rfl
  | succ fuel ih =>
      intro i currentPoint startPoint buffer s hfuel hpoints hI
      by_cases hend : size - i * B = 0
      · refine ⟨s, ?_, hI⟩
        rw [hend, Region.slice_zero, List.append_nil]
        rfl
      · have hi : i * B < size := by omega
        obtain ⟨rfl, rfl⟩ := hpoints hi
        obtain ⟨s1, hread, hI1⟩ := hstep i s hi hI
        have hfuel' : size - (i + 1) * B ≤ fuel := by
          rw [Nat.succ_mul]
          omega
        obtain ⟨s', hrest, hI'⟩ := ih
          (buffer ++ Region.slice cell (start + offset + i * B) (min B (size - i * B))) hfuel' (hnext i) hI1
        have hleft : size - i * B - min B (size - i * B) = size - (i + 1) * B := by
          rw [Nat.succ_mul]
          omega
        -- the bytes of this query and those of the rest
        have hbytes : Region.slice cell (start + offset + i * B) (size - i * B)
            = Region.slice cell (start + offset + i * B) (min B (size - i * B))
              ++ Region.slice cell (start + offset + (i + 1) * B) (size - (i + 1) * B) := by
          rw [Nat.succ_mul, ← Nat.add_assoc]
          by_cases hlast : size ≤ i * B + B
          · rw [Nat.sub_eq_zero_of_le hlast, Region.slice_zero, List.append_nil, min_eq_right (by omega)]
          · rw [min_eq_left (by omega), ← Region.slice_add]
            congr 1
            omega
        refine ⟨s', ?_, hI'⟩
        unfold readLoop
        rw [if_neg hend, htransfer, queryOffset, hread]
        dsimp only
        rw [Region.length_slice, hleft, hrest, List.append_assoc, hbytes]

/-- **A whole write.** -/
theorem writeToIOnode_spec {nodes : OrdSet Int} {data : List Byte} {I : Nat → σ → Prop} {s : σ} (hdata : 0 < data.length)
    (hblocks : Lists blocks start data.length) (hnode : nodes.firstKey = some node)
    (hstep : ∀ i s, i * BLOCK_SIZE < data.length → I i s → ∃ s',
      io.write node ⟨start + i * BLOCK_SIZE, offset, min BLOCK_SIZE (data.length - i * BLOCK_SIZE)⟩
        ((data.drop (i * BLOCK_SIZE)).take BLOCK_SIZE) s = some s' ∧ I (i + 1) s') (hI : I 0 s) :
    ∃ s', writeToIOnode io blocks nodes (start + offset) data s = some (data.length, s') ∧
      I (blockCount data.length) s' := by
  have hfuel : data.length - 0 * BLOCK_SIZE ≤ data.length := Nat.sub_le _ _
  have hpoints : 0 * BLOCK_SIZE < data.length → start + offset = start + offset + 0 * BLOCK_SIZE ∧
      start = start + 0 * BLOCK_SIZE := fun _ => ⟨by omega, by omega⟩
  obtain ⟨s', hloop, hI'⟩ := writeLoop_spec start hblocks hstep 0 hfuel (Nat.zero_le _) hpoints hI
  refine ⟨s', ?_, hI'⟩
  rw [Nat.zero_mul, List.drop_zero, Nat.zero_add, Nat.sub_zero] at hloop
  simp only [writeToIOnode, hblocks.firstKey hdata, hnode, hloop]

/-- **A whole read**, of bytes the client knows to be in the file. -/
theorem readFromIOnode_spec {nodes : OrdSet Int} {size stSize : Nat} {cell : Nat → Byte} {I : σ → Prop} {s : σ}
    (hsize : 0 < size) (hend : start + offset + size ≤ stSize) (hblocks : Lists blocks start size)
    (hnode : nodes.firstKey = some node)
    (hstep : ∀ i s, i * BLOCK_SIZE < size → I s → ∃ s',
      io.read node ⟨start + i * BLOCK_SIZE, offset, min BLOCK_SIZE (size - i * BLOCK_SIZE)⟩ s
        = some (Region.slice cell (start + offset + i * BLOCK_SIZE) (min BLOCK_SIZE (size - i * BLOCK_SIZE)), s') ∧ I s')
    (hI : I s) :
    ∃ s', readFromIOnode io blocks nodes stSize (start + offset) size s
      = some (Region.slice cell (start + offset) size, s') ∧ I s' := by
  have hfuel : size - 0 * BLOCK_SIZE ≤ size := Nat.sub_le _ _
  have hpoints : 0 * BLOCK_SIZE < size → start + offset = start + offset + 0 * BLOCK_SIZE ∧
      start = start + 0 * BLOCK_SIZE := fun _ => ⟨by omega, by omega⟩
  obtain ⟨s', hloop, hI'⟩ := readLoop_spec start hblocks hstep [] hfuel hpoints hI
  refine ⟨s', ?_, hI'⟩
  rw [Nat.zero_mul, Nat.sub_zero, Nat.add_zero, List.nil_append] at hloop
  simp only [readFromIOnode, hblocks.firstKey hsize, hnode]
  rw [if_neg (by omega), hloop]

end Ranges

end HuronFS
