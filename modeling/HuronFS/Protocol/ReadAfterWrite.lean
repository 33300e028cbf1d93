import HuronFS.Client.BlockCache
import HuronFS.IOnode.Serving
import HuronFS.Master.Coverage

/-!
# `Protocol.ReadAfterWrite` — what a client reads is what was written

One client works on one file through `CBB_client::read` and `write`, without the block cache: the Master lists and
selects blocks, the client sends queries of at most `MAX_TRANSFER_SIZE` bytes, the IOnode splits them at block ends.
Each of the loops counts in its own way. Beside the system stands a byte array with the same calls made to it;
`Synced` relates the two, and every call keeps it.
-/

namespace HuronFS

open ClientFile Region

/-! ## The system -/

/-- An IOnode as the server of one file. A query with a negative offset would reach outside the block, and
    `FILE_NOT_FOUND` makes the client ask again for ever: neither has an answer. -/
def IOnode.nodeIo (fileNo : Int) : NodeIo IOnode where
  write _ t data n :=
    match t.offset with
    | .ofNat offset =>
        match n.handle (.writeFile fileNo t.startPoint offset t.size data) with
        | some (.status code, n) => if code = SUCCESS then some n else none
        | _ => none
    | .negSucc _ => none
  read _ t n :=
    match t.offset with
    | .ofNat offset =>
        match n.handle (.readFile fileNo t.startPoint offset t.size) with
        | some (.bytes l, n) => some (l, n)
        | _ => none
    | .negSucc _ => none

/-- The client's `file_meta`, with the Master's view of the file, and the IOnode. -/
structure OneClient where
  file : ClientFile
  node : IOnode

/-- What a call returns: a count, and the bytes it put into the buffer. -/
structure Returned where
  count : Int
  bytes : List Byte
deriving DecidableEq, Repr

theorem ClientFile.IOCall.in_range_trim (c : IOCall) (stSize : Nat) (hstart : c.startPoint < stSize)
    (hend : stSize < c.size + c.startPoint) : c.startPoint + (stSize - c.startPoint) < 2 ^ 63 := by
  have := c.in_range
  omega

/-- The call a read that goes past the end of the file is cut to. -/
def ClientFile.IOCall.trim (c : IOCall) (stSize : Nat) (hstart : c.startPoint < stSize) (hend : stSize < c.size + c.startPoint) :
    IOCall :=
  { mode := .read, startPoint := c.startPoint, size := stSize - c.startPoint, data := []
    size_pos := Nat.sub_pos_of_lt hstart
    in_range := in_range_trim c stSize hstart hend
    data_length := fun h => nomatch h }

namespace OneClient

/-- `remote_IO`. -/
def remoteIo (s : OneClient) (fileNo : Int) (c : IOCall) : Option (Nat × List Byte × OneClient) :=
  (s.file.prepare false c).bind (fun p =>
    (transfer (IOnode.nodeIo fileNo) c p s.node).map (fun (count, bytes, node) => (count, bytes, ⟨p.file, node⟩)))

/-- `_read`. -/
def read (s : OneClient) (fileNo : Int) (c : IOCall) : Option (Returned × OneClient) :=
  if hend : s.file.stSize < c.size + c.startPoint then
    if hstart : c.startPoint < s.file.stSize then
      (s.remoteIo fileNo (c.trim s.file.stSize hstart hend)).map (fun (count, bytes, s) => (⟨count, bytes⟩, s))
    else some (⟨0, []⟩, s)
  else (s.remoteIo fileNo c).map (fun (count, bytes, s) => (⟨count, bytes⟩, s))

/-- `_write`, which returns the count through an `int`. -/
def write (s : OneClient) (fileNo : Int) (c : IOCall) : Option (Returned × OneClient) :=
  -- `_update_access_time`
  let s := { s with file := { s.file with needUpdate := true } }
  (s.remoteIo fileNo c).map (fun (count, bytes, s) => (⟨(count : Int).bmod (2 ^ 32), bytes⟩, s))

def call (s : OneClient) (fileNo : Int) (c : IOCall) : Option (Returned × OneClient) :=
  match c.mode with
  | .read => s.read fileNo c
  | .write => s.write fileNo c

/-- The calls of a history, one after the other. -/
def history (fileNo : Int) : List IOCall → OneClient → Option (List Returned × OneClient)
  | [], s => some ([], s)
  | c :: cs, s => (s.call fileNo c).bind (fun (r, s) => (history fileNo cs s).map (fun (rs, s) => (r :: rs, s)))

/-- The bytes of a file when it is opened: those on storage, if it is there. -/
def initial (n : IOnode) (existFlag : ExistFlag) (path : Str) : ByteFile Byte :=
  match existFlag with
  | .notExist => ByteFile.empty
  | .existing => (n.storage path).getD ByteFile.empty

/-- The file opened for the first time: the Master lists its blocks and tells the IOnode, which has nothing else to do. -/
def opened (n : IOnode) (fileNo : Int) (existFlag : ExistFlag) (path : Str) (primary : Int) : OneClient :=
  let view := OpenView.opened (initial n existFlag path).size primary
  ⟨ClientFile.opened view, n.openFile fileNo existFlag path view.blocks.entries⟩

end OneClient

/-! ## The byte array -/

namespace Reference

/-- The array after a call. -/
def after (F : ByteFile Byte) (c : IOCall) : ByteFile Byte :=
  match c.mode with
  | .read => F
  | .write => F.write c.startPoint c.data

/-- What a call on the array returns: `[off, min (off + n) size)` for a read. -/
def returned (F : ByteFile Byte) (c : IOCall) : Returned :=
  match c.mode with
  | .read => ⟨(F.read c.startPoint c.size).length, F.read c.startPoint c.size⟩
  | .write => ⟨(c.size : Int).bmod (2 ^ 32), []⟩

def history : List IOCall → ByteFile Byte → List Returned × ByteFile Byte
  | [], F => ([], F)
  | c :: cs, F => (returned F c :: (history cs (after F c)).1, (history cs (after F c)).2)

/-- The bytes of the array. -/
def bytes (F : ByteFile Byte) (pos : Nat) : Option Byte := if pos < F.size then some (F.cell pos) else none

theorem bytes_of_lt {F : ByteFile Byte} {pos : Nat} (h : pos < F.size) : bytes F pos = some (F.cell pos) := if_pos h

/-- No write leaves a hole, and there is memory for the blocks of the file beside `inUse` others. -/
def Permitted (cap inUse : Nat) (F : ByteFile Byte) (c : IOCall) : Prop :=
  (c.mode = .write → c.startPoint ≤ F.size) ∧ inUse + blockCount (after F c).size ≤ cap

end Reference

/-! ## Where the bytes are -/

/-- The byte of a block, in memory or on storage. -/
def IOnode.contentAt (n : IOnode) (file : IOFile) (startPoint : Nat) (b : Block) (i : Nat) : Option Byte :=
  match b.elem with
  | some e => some (n.memory e i)
  | none => n.stored file.filePath (startPoint + i)

/-- One block of the file, and no other, reaches over `pos`; the byte there is `v`, and no other block of any file
    has its memory. -/
def IOnode.InOneBlock (n : IOnode) (fileNo : Int) (pos : Nat) (v : Byte) : Prop :=
  ∃ file s b, n.files.find? fileNo = some file ∧ file.blocks.find? s = some b ∧ s ≤ pos ∧ pos < s + b.dataSize ∧
    n.contentAt file s b (pos - s) = some v ∧
    (∀ s' b', file.blocks.find? s' = some b' → s' ≤ pos → pos < s' + b'.dataSize → s' = s) ∧
    ∀ k e, b.elem = some e → n.elemOf k = some e → k = (fileNo, s)

theorem IOnode.Inv.inOneBlock {cap : Nat} {n : IOnode} {ref : Ref} (h : Inv cap [] n ref) {f : Int} {pos : Nat} {v : Byte}
    (hlive : n.Live f) (hv : ref f pos = some v) : n.InOneBlock f pos v := by
  obtain ⟨file, hfile, hdel⟩ := hlive
  obtain ⟨b, hb, hholds⟩ := h.bytes f file pos v hfile hdel hv
  have hle := getBlockStartPoint_le pos
  have hlt := hholds.lt
  have hblock : n.block? (f, getBlockStartPoint pos) = some b := block?_some_iff.mpr ⟨file, hfile, hb⟩
  refine ⟨file, getBlockStartPoint pos, b, hfile, hb, hle, by omega, ?_, ?_, ?_⟩
  · unfold contentAt
    cases he : b.elem with
    | some e => exact congrArg some (hholds.inMemory e he)
    | none =>
        dsimp only
        rw [Nat.add_sub_cancel' hle]
        exact hholds.onStorage (Or.inl he)
  · -- blocks start at multiples of the block size and are not longer
    intro s' b' hb' hs' hpos'
    have hok := h.blockOk f file s' b' hfile hb'
    by_contra hne
    have hout := outside_block hok.aligned (fun hc => hne hc.symm)
    have hsize := hok.size_le
    omega
  · intro k e he hk
    refine h.frames.owner_inj k _ e hk ?_
    rw [elemOf_of_block hblock]
    exact he

/-! ## Arithmetic of blocks -/

/-- The blocks of a file of `size` bytes. -/
def fileBlocks (fileNo : Int) (size : Nat) : List BlockKey := (List.range (blockCount size)).map (fun i => (fileNo, i * BLOCK_SIZE))

theorem mem_fileBlocks {fileNo : Int} {size pos : Nat} (h : pos < size) : (fileNo, getBlockStartPoint pos) ∈ fileBlocks fileNo size := by
  refine List.mem_map.mpr ⟨pos / BLOCK_SIZE, List.mem_range.mpr (lt_blockCount_iff.mpr ?_), rfl⟩
  exact Nat.lt_of_le_of_lt (Nat.div_mul_le_self pos BLOCK_SIZE) h

theorem fileBlocks_mono {fileNo : Int} {a b : Nat} (h : a ≤ b) : fileBlocks fileNo a ⊆ fileBlocks fileNo b := by
  refine List.map_subset _ ?_
  intro i hi
  exact List.mem_range.mpr (Nat.lt_of_lt_of_le (List.mem_range.mp hi) (blockCount_mono h))

theorem blockStart_add (off i : Nat) :
    getBlockStartPoint (getBlockStartPoint off + i * BLOCK_SIZE) = getBlockStartPoint off + i * BLOCK_SIZE := by
  have h := getBlockStartPoint_mul_add (off / BLOCK_SIZE + i) 0 (by decide)
  rw [Nat.add_zero, Nat.add_mul] at h
  exact h

/-- A write without a hole keeps the list of blocks up to the end of the file. -/
theorem Master.Covered.write {bl : BlockList} {stSize startPoint size : Nat} (h : Covered bl stSize) (hstart : startPoint ≤ stSize) :
    Covered (allocateNewBlocksForWriting bl startPoint size) (max stSize (startPoint + size)) := by
  obtain ⟨n, hcov, hle⟩ := h
  refine ⟨_, allocateNewBlocksForWriting_covers hcov ?_ size, ?_⟩
  · exact Nat.le_trans (getBlockStartPoint_le startPoint) (Nat.le_trans hstart hle)
  · have hend : startPoint + size ≤ (startPoint / BLOCK_SIZE + blockCount (startPoint % BLOCK_SIZE + size)) * BLOCK_SIZE := by
      unfold blockCount BLOCK_SIZE
      omega
    rw [← Nat.mul_max_mul_right]
    omega

theorem Master.Covered.selects {bl : BlockList} {stSize startPoint size : Nat} (h : Covered bl stSize) (hpos : 0 < size)
    (hend : startPoint + size ≤ stSize) :
    ∃ sel, selectNodeBlockSet bl startPoint size = some sel ∧ Lists sel (getBlockStartPoint startPoint) size := by
  obtain ⟨n, hcov, hle⟩ := h
  exact hcov.selects hpos (Nat.le_trans hend hle)

theorem Reference.bytes_write {F : ByteFile Byte} {off : Nat} {data : List Byte} (hoff : off ≤ F.size) (hdata : data ≠ []) :
    patch (bytes F) off (data.map some) = bytes (F.write off data) := by
  funext pos
  unfold bytes
  rw [ByteFile.size_write F off hdata, ByteFile.cell_write]
  by_cases hin : off ≤ pos ∧ pos < off + data.length
  · obtain ⟨i, rfl⟩ : ∃ i, pos = off + i := ⟨pos - off, by omega⟩
    have hi : i < data.length := by omega
    rw [patch_at (by rw [List.length_map]; exact hi), patch_at hi, List.getElem_map, if_pos (by omega)]
  · have hout : pos < off ∨ off + data.length ≤ pos := by omega
    rw [patch_outside (by rw [List.length_map]; exact hout), patch_outside hout]
    by_cases hpos : pos < F.size
    · rw [if_pos hpos, if_pos (by omega)]
    · rw [if_neg hpos, if_neg (by omega)]

/-! ## The relation -/

namespace OneClient

/-- The system and the array: the client and the Master know the size, the listed blocks reach up to it, the IOnode has
    the bytes, and only the blocks of the file have memory beside those that had it before. -/
structure Synced (cap : Nat) (fileNo : Int) (held : List BlockKey) (s : OneClient) (F : ByteFile Byte) : Prop where
  node : IOnode.Serves cap fileNo (Reference.bytes F) (held ++ fileBlocks fileNo F.size) s.node
  size_eq : s.file.stSize = F.size
  view_size : s.file.view.size = F.size
  covered : Master.Covered s.file.view.blocks F.size

variable {cap : Nat} {fileNo : Int} {held : List BlockKey} {s : OneClient} {F : ByteFile Byte}

theorem room_length (held : List BlockKey) (fileNo : Int) (size : Nat) :
    (held ++ fileBlocks fileNo size).length = held.length + blockCount size := by
  unfold fileBlocks
  rw [List.length_append, List.length_map, List.length_range]

/-- The position of the query `i` of a range. -/
theorem query_pos (off i : Nat) :
    getBlockStartPoint off + i * BLOCK_SIZE + (off - getBlockStartPoint off) = off + i * BLOCK_SIZE := by
  have := getBlockStartPoint_le off
  omega

theorem offset_lt (off : Nat) : off - getBlockStartPoint off < BLOCK_SIZE := by
  have hlt := lt_getBlockStartPoint_add off
  have hpos : 0 < BLOCK_SIZE := by decide
  omega

/-- **The transfer of a read** that ends in the file. -/
theorem Synced.readTransfer (h : Synced cap fileNo held s F) (hcap : 0 < cap) (hroom : held.length + blockCount F.size ≤ cap)
    {blocks : BlockList} {nodes : OrdSet Int} {node : Int} {off size : Nat} (hsize : 0 < size) (hend : off + size ≤ F.size)
    (hblocks : Lists blocks (getBlockStartPoint off) size) (hnode : nodes.firstKey = some node) :
    ∃ n', readFromIOnode (IOnode.nodeIo fileNo) blocks nodes F.size off size s.node = some (slice F.cell off size, n') ∧
      IOnode.Serves cap fileNo (Reference.bytes F) (held ++ fileBlocks fileNo F.size) n' := by
  have hoff : getBlockStartPoint off + (off - getBlockStartPoint off) = off := Nat.add_sub_cancel' (getBlockStartPoint_le off)
  have hlength : (held ++ fileBlocks fileNo F.size).length ≤ cap := by
    rw [room_length]
    exact hroom
  have hstep : ∀ i n, i * BLOCK_SIZE < size →
      IOnode.Serves cap fileNo (Reference.bytes F) (held ++ fileBlocks fileNo F.size) n → ∃ n',
      (IOnode.nodeIo fileNo).read node ⟨getBlockStartPoint off + i * BLOCK_SIZE, (off - getBlockStartPoint off : Nat),
        min BLOCK_SIZE (size - i * BLOCK_SIZE)⟩ n
        = some (slice F.cell (getBlockStartPoint off + (off - getBlockStartPoint off) + i * BLOCK_SIZE)
          (min BLOCK_SIZE (size - i * BLOCK_SIZE)), n') ∧
      IOnode.Serves cap fileNo (Reference.bytes F) (held ++ fileBlocks fileNo F.size) n' := by
    intro i n hi hn
    have hpos : ∀ j < min BLOCK_SIZE (size - i * BLOCK_SIZE), off + i * BLOCK_SIZE + j < F.size := by
      intro j hj
      have hle : j < size - i * BLOCK_SIZE := Nat.lt_of_lt_of_le hj (Nat.min_le_right _ _)
      generalize i * BLOCK_SIZE = m at hle ⊢
      omega
    have hrange : IOnode.InRange (held ++ fileBlocks fileNo F.size) fileNo
        (getBlockStartPoint off + i * BLOCK_SIZE + (off - getBlockStartPoint off)) (min BLOCK_SIZE (size - i * BLOCK_SIZE)) := by
      intro j hj
      rw [query_pos]
      exact List.mem_append.mpr (Or.inr (mem_fileBlocks (hpos j hj)))
    have hbytes : ∀ j < min BLOCK_SIZE (size - i * BLOCK_SIZE), Reference.bytes F
        (getBlockStartPoint off + i * BLOCK_SIZE + (off - getBlockStartPoint off) + j)
        = some (F.cell (getBlockStartPoint off + i * BLOCK_SIZE + (off - getBlockStartPoint off) + j)) := by
      intro j hj
      rw [query_pos]
      exact Reference.bytes_of_lt (hpos j hj)
    obtain ⟨n', hhandle, hn'⟩ := hn.readFile hcap hlength (blockStart_add off i) (offset_lt off) hrange hbytes
    refine ⟨n', ?_, hn'⟩
    rw [query_pos] at hhandle
    rw [hoff]
    simp only [IOnode.nodeIo, hhandle]
  have hend' : getBlockStartPoint off + (off - getBlockStartPoint off) + size ≤ F.size := by
    rw [hoff]
    exact hend
  have hread := readFromIOnode_spec hsize hend' hblocks hnode hstep h.node
  rwa [hoff] at hread

/-- The array with the first `written` bytes of a write. -/
theorem patch_more (g : Nat → Option Byte) (off : Nat) (data : List Byte) {i : Nat} (hi : i * BLOCK_SIZE < data.length) :
    patch (patch g off ((data.take (i * BLOCK_SIZE)).map some)) (off + i * BLOCK_SIZE)
        (((data.drop (i * BLOCK_SIZE)).take BLOCK_SIZE).map some)
      = patch g off ((data.take ((i + 1) * BLOCK_SIZE)).map some) := by
  have hlength : ((data.take (i * BLOCK_SIZE)).map some).length = i * BLOCK_SIZE := by
    rw [List.length_map, List.length_take]
    omega
  rw [Nat.succ_mul, List.take_add, List.map_append, patch_append, hlength]

/-- **The transfer of a write** that starts in the file. -/
theorem Synced.writeTransfer (h : Synced cap fileNo held s F) (hcap : 0 < cap) {blocks : BlockList} {nodes : OrdSet Int}
    {node : Int} {off : Nat} {data : List Byte} (hdata : 0 < data.length) (hoff : off ≤ F.size)
    (hroom : held.length + blockCount (F.write off data).size ≤ cap)
    (hblocks : Lists blocks (getBlockStartPoint off) data.length) (hnode : nodes.firstKey = some node) :
    ∃ n', writeToIOnode (IOnode.nodeIo fileNo) blocks nodes off data s.node = some (data.length, n') ∧
      IOnode.Serves cap fileNo (Reference.bytes (F.write off data)) (held ++ fileBlocks fileNo (F.write off data).size) n' := by
  have hne : data ≠ [] := List.length_pos_iff.mp hdata
  have hstart : getBlockStartPoint off + (off - getBlockStartPoint off) = off := Nat.add_sub_cancel' (getBlockStartPoint_le off)
  have hsize : (F.write off data).size = max F.size (off + data.length) := ByteFile.size_write F off hne
  have hlength : (held ++ fileBlocks fileNo (F.write off data).size).length ≤ cap := by
    rw [room_length]
    exact hroom
  have hstep : ∀ i n, i * BLOCK_SIZE < data.length →
      IOnode.Serves cap fileNo (patch (Reference.bytes F) off ((data.take (i * BLOCK_SIZE)).map some))
        (held ++ fileBlocks fileNo (F.write off data).size) n → ∃ n',
      (IOnode.nodeIo fileNo).write node ⟨getBlockStartPoint off + i * BLOCK_SIZE, (off - getBlockStartPoint off : Nat),
        min BLOCK_SIZE (data.length - i * BLOCK_SIZE)⟩ ((data.drop (i * BLOCK_SIZE)).take BLOCK_SIZE) n = some n' ∧
      IOnode.Serves cap fileNo (patch (Reference.bytes F) off ((data.take ((i + 1) * BLOCK_SIZE)).map some))
        (held ++ fileBlocks fileNo (F.write off data).size) n' := by
    intro i n hi hn
    have hchunk : ((data.drop (i * BLOCK_SIZE)).take BLOCK_SIZE).length = min BLOCK_SIZE (data.length - i * BLOCK_SIZE) := by
      rw [List.length_take, List.length_drop]
    have hrange : IOnode.InRange (held ++ fileBlocks fileNo (F.write off data).size) fileNo
        (getBlockStartPoint off + i * BLOCK_SIZE + (off - getBlockStartPoint off))
        ((data.drop (i * BLOCK_SIZE)).take BLOCK_SIZE).length := by
      intro j hj
      rw [hchunk] at hj
      have hle : j < data.length - i * BLOCK_SIZE := Nat.lt_of_lt_of_le hj (Nat.min_le_right _ _)
      have hin : off + i * BLOCK_SIZE + j < (F.write off data).size := by
        generalize i * BLOCK_SIZE = m at hle ⊢
        omega
      rw [query_pos]
      exact List.mem_append.mpr (Or.inr (mem_fileBlocks hin))
    obtain ⟨n', hhandle, hn'⟩ := hn.writeFile hcap hlength (blockStart_add off i) (offset_lt off) hrange
    rw [query_pos, patch_more _ _ _ hi] at hn'
    refine ⟨n', ?_, hn'⟩
    rw [hchunk] at hhandle
    simp only [IOnode.nodeIo, hhandle, if_true]
  have hzero : IOnode.Serves cap fileNo (patch (Reference.bytes F) off ((data.take (0 * BLOCK_SIZE)).map some))
      (held ++ fileBlocks fileNo (F.write off data).size) s.node := by
    rw [Nat.zero_mul, List.take_zero, List.map_nil, patch_nil]
    refine ⟨h.node.inv, h.node.live, h.node.idle, ?_⟩
    intro j e he
    rcases List.mem_append.mp (h.node.within j e he) with hheld | hfile
    · exact List.mem_append.mpr (Or.inl hheld)
    · exact List.mem_append.mpr (Or.inr (fileBlocks_mono (by omega) hfile))
  have hwrite := writeToIOnode_spec hdata hblocks hnode hstep hzero
  have hall : data.length ≤ blockCount data.length * BLOCK_SIZE := by
    unfold blockCount BLOCK_SIZE
    omega
  rwa [hstart, List.take_of_length_le hall, Reference.bytes_write hoff hne] at hwrite

/-! ## The calls -/

theorem firstKey_single (node : Int) : OrdMap.firstKey (OrdSet.add OrdMap.empty node) = some node := rfl

/-- What `remote_IO` knows for a read inside the file. -/
theorem prepare_read {f : ClientFile} {c : IOCall} (hmode : c.mode = .read) (hview : f.view.size = f.stSize)
    (hcovered : Master.Covered f.view.blocks f.stSize) (hend : c.startPoint + c.size ≤ f.stSize) :
    ∃ f' sel, f.prepare false c = some ⟨f', sel, OrdSet.add OrdMap.empty f.view.primary, true⟩ ∧
      Lists sel (getBlockStartPoint c.startPoint) c.size ∧ f'.stSize = f.stSize ∧ f'.view = f.view := by
  obtain ⟨sel, hsel, hlists⟩ := hcovered.selects c.size_pos hend
  refine ⟨f.parseBlocks false ⟨f.view.size, f.view.primary, sel⟩, sel, ?_, hlists, ?_, rfl⟩
  · simp only [prepare, ClientFile.getBlocksFromMaster, askMaster, hmode, OpenView.readFile, hsel, Option.map_some, Bool.false_eq_true,
      if_false]
  · show (if f.view.size > f.stSize then f.view.size else f.stSize) = f.stSize
    rw [hview, if_neg (Nat.lt_irrefl _)]

/-- What `remote_IO` knows for a write that starts in the file: the client has sent the larger size, and the Master keeps it. -/
theorem prepare_write {f : ClientFile} {c : IOCall} (hmode : c.mode = .write) (hview : f.view.size = f.stSize)
    (hcovered : Master.Covered f.view.blocks f.stSize) (hstart : c.startPoint ≤ f.stSize) :
    ∃ f' sel, f.prepare false c = some ⟨f', sel, OrdSet.add OrdMap.empty f.view.primary, true⟩ ∧
      Lists sel (getBlockStartPoint c.startPoint) c.size ∧ f'.stSize = max f.stSize (c.startPoint + c.size) ∧
      f'.view.size = max f.stSize (c.startPoint + c.size) ∧
      Master.Covered f'.view.blocks (max f.stSize (c.startPoint + c.size)) := by
  have hwritten : Master.Covered (Master.allocateNewBlocksForWriting f.view.blocks c.startPoint c.size)
      (max f.stSize (c.startPoint + c.size)) := hcovered.write hstart
  obtain ⟨sel, hsel, hlists⟩ := hwritten.selects c.size_pos (Nat.le_max_right _ _)
  have hmax : max f.stSize (max f.stSize (c.startPoint + c.size)) = max f.stSize (c.startPoint + c.size) := by omega
  simp only [prepare, ClientFile.getBlocksFromMaster, askMaster, hmode, writeUpdateFileSize_eq, OpenView.writeFile, OpenView.written,
    OpenView.updateMeta, OpenView.readFile, hsel, Option.map_some, Bool.false_eq_true, if_false]
  refine ⟨_, sel, rfl, hlists, ?_, ?_, hwritten⟩
  · show (if max f.view.size (max f.stSize (c.startPoint + c.size)) > max f.stSize (c.startPoint + c.size) then _ else _) = _
    rw [hview, hmax, if_neg (Nat.lt_irrefl _)]
  · show max f.view.size (max f.stSize (c.startPoint + c.size)) = _
    rw [hview, hmax]

/-- **A read inside the file.** -/
theorem Synced.remoteRead (h : Synced cap fileNo held s F) (hcap : 0 < cap) (hroom : held.length + blockCount F.size ≤ cap)
    {c : IOCall} (hmode : c.mode = .read) (hend : c.startPoint + c.size ≤ F.size) :
    ∃ s', s.remoteIo fileNo c = some (c.size, slice F.cell c.startPoint c.size, s') ∧ Synced cap fileNo held s' F := by
  obtain ⟨f', sel, hprepare, hlists, hsize, hview⟩ := prepare_read hmode (h.view_size.trans h.size_eq.symm)
    (by rw [h.size_eq]; exact h.covered) (by rw [h.size_eq]; exact hend)
  rw [h.size_eq] at hsize
  obtain ⟨n', hread, hn'⟩ := h.readTransfer hcap hroom c.size_pos hend hlists (firstKey_single s.file.view.primary)
  refine ⟨⟨f', n'⟩, ?_, hn', hsize, by rw [hview]; exact h.view_size, by rw [hview]; exact h.covered⟩
  unfold OneClient.remoteIo
  rw [hprepare]
  simp only [Option.bind_some, transfer, if_true, hmode, hsize, hread, Option.map_some, length_slice]

/-- **A write that starts in the file.** -/
theorem Synced.remoteWrite (h : Synced cap fileNo held s F) (hcap : 0 < cap) {c : IOCall} (hmode : c.mode = .write)
    (hoff : c.startPoint ≤ F.size) (hroom : held.length + blockCount (F.write c.startPoint c.data).size ≤ cap) :
    ∃ s', s.remoteIo fileNo c = some (c.size, [], s') ∧ Synced cap fileNo held s' (F.write c.startPoint c.data) := by
  have hlength := c.data_length hmode
  have hdata : 0 < c.data.length := by
    rw [hlength]
    exact c.size_pos
  have hsize : (F.write c.startPoint c.data).size = max F.size (c.startPoint + c.size) := by
    rw [ByteFile.size_write F c.startPoint (List.length_pos_iff.mp hdata), hlength]
  obtain ⟨f', sel, hprepare, hlists, hstSize, hview, hcovered⟩ := prepare_write hmode (h.view_size.trans h.size_eq.symm)
    (by rw [h.size_eq]; exact h.covered) (by rw [h.size_eq]; exact hoff)
  rw [h.size_eq, ← hsize] at hstSize hview hcovered
  obtain ⟨n', hwrite, hn'⟩ := h.writeTransfer hcap hdata hoff hroom (hlength ▸ hlists) (firstKey_single s.file.view.primary)
  refine ⟨⟨f', n'⟩, ?_, hn', hstSize, hview, hcovered⟩
  unfold OneClient.remoteIo
  rw [hprepare]
  simp only [Option.bind_some, transfer, if_true, hmode, hwrite, Option.map_some, hlength]

/-- **One call** answers as the array does and keeps the relation. -/
theorem Synced.call (h : Synced cap fileNo held s F) (hcap : 0 < cap) {c : IOCall}
    (hc : Reference.Permitted cap held.length F c) :
    ∃ s', s.call fileNo c = some (Reference.returned F c, s') ∧ Synced cap fileNo held s' (Reference.after F c) := by
  obtain ⟨hstart, hroom⟩ := hc
  unfold OneClient.call Reference.returned Reference.after
  cases hmode : c.mode with
  | read =>
      have hroom' : held.length + blockCount F.size ≤ cap := by
        simpa only [Reference.after, hmode] using hroom
      dsimp only
      unfold OneClient.read
      by_cases hend : s.file.stSize < c.size + c.startPoint
      · rw [dif_pos hend]
        rw [h.size_eq] at hend
        by_cases hin : c.startPoint < s.file.stSize
        · rw [dif_pos hin]
          have hcut := hin
          rw [h.size_eq] at hcut
          -- the read is cut at the end of the file
          have htrim : (c.trim s.file.stSize hin (h.size_eq ▸ hend)).size = F.size - c.startPoint :=
            congrArg (· - c.startPoint) h.size_eq
          obtain ⟨s', hio, hs'⟩ := h.remoteRead hcap hroom' (c := c.trim s.file.stSize hin (h.size_eq ▸ hend)) rfl
            (by rw [htrim]; show c.startPoint + _ ≤ _; omega)
          refine ⟨s', ?_, hs'⟩
          rw [hio, htrim]
          have hread : F.read c.startPoint c.size = slice F.cell c.startPoint (F.size - c.startPoint) := by
            unfold ByteFile.read
            rw [min_eq_right (by omega)]
          rw [hread, length_slice]
          rfl
        · rw [dif_neg hin]
          rw [h.size_eq] at hin
          refine ⟨s, ?_, h⟩
          rw [ByteFile.read_of_ge (by omega)]
          rfl
      · rw [dif_neg hend]
        rw [h.size_eq] at hend
        have hle : c.startPoint + c.size ≤ F.size := by omega
        obtain ⟨s', hio, hs'⟩ := h.remoteRead hcap hroom' hmode hle
        refine ⟨s', ?_, hs'⟩
        rw [hio, ByteFile.read_within hle, length_slice]
        rfl
  | write =>
      have hroom' : held.length + blockCount (F.write c.startPoint c.data).size ≤ cap := by
        simpa only [Reference.after, hmode] using hroom
      -- the touch of the access time is not seen here
      have htouched : Synced cap fileNo held { s with file := { s.file with needUpdate := true } } F :=
        ⟨h.node, h.size_eq, h.view_size, h.covered⟩
      obtain ⟨s', hio, hs'⟩ := htouched.remoteWrite hcap hmode (hstart hmode) hroom'
      refine ⟨s', ?_, hs'⟩
      unfold OneClient.write
      dsimp only
      rw [hio]
      rfl

/-- **Any history.** -/
theorem Synced.history (hcap : 0 < cap) : ∀ {calls : List IOCall} {s : OneClient} {F : ByteFile Byte},
    Synced cap fileNo held s F →
    Run.Guarded (fun F c => some (Reference.after F c)) (Reference.Permitted cap held.length) F calls →
    ∃ s', OneClient.history fileNo calls s = some ((Reference.history calls F).1, s') ∧
      Synced cap fileNo held s' (Reference.history calls F).2 := by
  intro calls
  induction calls with
  | nil => exact fun h _ => ⟨_, rfl, h⟩
  | cons c cs ih =>
      intro s F h hg
      obtain ⟨hc, hrest⟩ := hg
      obtain ⟨s1, hcall, h1⟩ := h.call hcap hc
      obtain ⟨s', hhistory, h'⟩ := ih h1 (hrest _ rfl)
      refine ⟨s', ?_, h'⟩
      simp only [OneClient.history, hcall, Option.bind_some, hhistory, Option.map_some, Reference.history]

theorem openedBytes_eq {n : IOnode} {existFlag : ExistFlag} {path : Str}
    (hpresent : existFlag = .existing → (n.storage path).isSome) :
    n.openedBytes existFlag path = Reference.bytes (initial n existFlag path) := by
  funext pos
  cases existFlag with
  | notExist => rfl
  | existing =>
      obtain ⟨F, hF⟩ := Option.isSome_iff_exists.mp (hpresent rfl)
      simp only [IOnode.openedBytes, IOnode.stored, initial, Reference.bytes, hF, Option.bind_some, Option.getD_some]

/-- What the Master sends with an open is what the IOnode relies on. -/
theorem opened_openable {n : IOnode} {existFlag : ExistFlag} {path : Str} (primary : Int)
    (hfresh : ∀ e ∈ n.files.entries, e.2.filePath ≠ path) (hpresent : existFlag = .existing → (n.storage path).isSome) :
    IOnode.Openable n existFlag path (OpenView.opened (initial n existFlag path).size primary).blocks.entries := by
  have hcov := Master.createBlockList_covers (initial n existFlag path).size
  refine ⟨hfresh, ?_, hpresent, ?_⟩
  · intro e he
    have hfind := OrdMap.mem_entries.mp he
    obtain ⟨i, -, hi⟩ := (hcov.mem_iff e.1).mp ⟨e.2, hfind⟩
    refine ⟨?_, hcov.size_le e.1 e.2 hfind⟩
    rw [hi]
    have haligned := getBlockStartPoint_mul_add i 0 (by decide)
    rwa [Nat.add_zero] at haligned
  · intro hexist pos hpos
    subst hexist
    obtain ⟨F, hF⟩ := Option.isSome_iff_exists.mp (hpresent rfl)
    rw [hF] at hpos
    have hsize : pos < F.size := hpos
    have hle := getBlockStartPoint_le pos
    have hlt := lt_getBlockStartPoint_add pos
    have hfind : (Master.createBlockList F.size BLOCK_SIZE OrdMap.empty).find? (getBlockStartPoint pos)
        = some (min BLOCK_SIZE (F.size - getBlockStartPoint pos)) :=
      Master.createBlockList_find (Nat.lt_of_le_of_lt hle hsize)
    have hinitial : initial n .existing path = F := by
      simp only [initial, hF, Option.getD_some]
    rw [hinitial]
    refine ⟨_, IOnode.openedBlocks_find hfind, ?_⟩
    show pos - getBlockStartPoint pos < min BLOCK_SIZE (F.size - getBlockStartPoint pos)
    omega

/-- **A file that has just been opened.** -/
theorem opened_synced {n : IOnode} {ref : IOnode.Ref} (h : IOnode.Inv cap [] n ref) (hidle : n.removeFileList = [])
    {existFlag : ExistFlag} {path : Str} (primary : Int) (hnew : n.files.find? fileNo = none)
    (hfresh : ∀ e ∈ n.files.entries, e.2.filePath ≠ path) (hpresent : existFlag = .existing → (n.storage path).isSome) :
    Synced cap fileNo n.queue (opened n fileNo existFlag path primary) (initial n existFlag path) := by
  have hinv := h.openFile hidle hnew (opened_openable primary hfresh hpresent)
  have hopened : (opened n fileNo existFlag path primary).node = { n with files := n.files.put fileNo ⟨path, existFlag, false,
      IOnode.openedBlocks existFlag (OpenView.opened (initial n existFlag path).size primary).blocks.entries⟩ } :=
    IOnode.openFile_unknown hnew existFlag path _
  refine ⟨⟨⟨_, hinv, ?_⟩, ?_, ?_, ?_⟩, rfl, rfl, Master.createBlockList_covered _⟩
  · rw [Function.update_self]
    exact openedBytes_eq hpresent
  · rw [hopened]
    exact ⟨_, OrdMap.find?_put_self .., rfl⟩
  · rw [hopened]
    exact hidle
  · intro j e he
    have hmem : j ∈ [] ++ (opened n fileNo existFlag path primary).node.queue := (hinv.frames.mem_held j).mpr ⟨e, he⟩
    rw [hopened] at hmem
    exact List.mem_append.mpr (Or.inl hmem)

/-- **What is read is what was written.** A file, new or on storage, is opened on an IOnode that has served any requests.
    Whatever calls follow, as long as no write leaves a hole and the blocks of the file fit in memory beside those in use,
    every call returns what it returns on the byte array, and each byte of the array is in one block of the file. -/
theorem read_after_write (hcap : 0 < cap) (memory : Nat → Nat → Byte) (storage : Str → Option (ByteFile Byte))
    {requests : List IOnode.Request} {t : IOnode.Tracked}
    (hrequests : Run.Guarded IOnode.Tracked.step IOnode.Tracked.Permitted
      ⟨IOnode.start cap memory storage, fun _ _ => none⟩ requests)
    (hrun : Run.run IOnode.Tracked.step ⟨IOnode.start cap memory storage, fun _ _ => none⟩ requests = some t)
    {existFlag : ExistFlag} {path : Str} (primary : Int) (hnew : t.node.intervalProcess.files.find? fileNo = none)
    (hfresh : ∀ e ∈ t.node.intervalProcess.files.entries, e.2.filePath ≠ path)
    (hpresent : existFlag = .existing → (t.node.intervalProcess.storage path).isSome) {calls : List IOCall}
    (hcalls : Run.Guarded (fun F c => some (Reference.after F c))
      (Reference.Permitted cap t.node.intervalProcess.queue.length) (initial t.node.intervalProcess existFlag path) calls) :
    ∃ s, OneClient.history fileNo calls (opened t.node.intervalProcess fileNo existFlag path primary)
        = some ((Reference.history calls (initial t.node.intervalProcess existFlag path)).1, s) ∧
      ∀ pos < (Reference.history calls (initial t.node.intervalProcess existFlag path)).2.size,
        s.node.InOneBlock fileNo pos ((Reference.history calls (initial t.node.intervalProcess existFlag path)).2.cell pos) := by
  have hstep : ∀ (t : IOnode.Tracked) r, IOnode.Inv cap [] t.node t.ref → t.Permitted r →
      ∃ t', IOnode.Tracked.step t r = some t' ∧ IOnode.Inv cap [] t'.node t'.ref := fun t r h hr => h.handle hcap hr
  obtain ⟨t', hrun', hinv⟩ := Run.run_progress hstep (IOnode.start_inv hcap memory storage _) hrequests
  rw [hrun] at hrun'
  obtain rfl := Option.some.inj hrun'
  obtain ⟨hidle, hlist⟩ := hinv.intervalProcess
  obtain ⟨s, hhistory, hs⟩ := (opened_synced hidle hlist primary hnew hfresh hpresent).history hcap hcalls
  refine ⟨s, hhistory, ?_⟩
  intro pos hpos
  obtain ⟨ref, hinv', href⟩ := hs.node.inv
  apply hinv'.inOneBlock hs.node.live
  rw [href]
  exact Reference.bytes_of_lt hpos

/-- A file on storage that ends one byte before the end of its first block. -/
def almostFull : Str → Option (ByteFile Byte) :=
  fun path => if path = [98] then some ((ByteFile.empty.grow (BLOCK_SIZE - 1)).write 0 [5, 6, 7]) else none

/-- Three bytes over the end of the first block. -/
def writeThree : IOCall := ⟨.write, BLOCK_SIZE - 1, 3, [9, 8, 4], by decide, by decide, fun _ => rfl⟩

def readTwo (startPoint : Nat) (h : startPoint + 2 < 2 ^ 63) : IOCall :=
  ⟨.read, startPoint, 2, [], by decide, h, fun h => nomatch h⟩

/-- A write over the end of the block, and two reads. -/
def overTheEnd : List IOCall :=
  [writeThree, ⟨.read, BLOCK_SIZE - 2, 100, [], by decide, by decide, fun h => nomatch h⟩, readTwo 1 (by decide)]

theorem read_after_write_over_the_end :
    ∃ s, OneClient.history 0 overTheEnd (opened (IOnode.start 2 (fun _ _ => 0) almostFull) 0 .existing [98] 7)
        = some ([⟨3, []⟩, ⟨4, [0, 9, 8, 4]⟩, ⟨2, [6, 7]⟩], s) ∧
      s.node.InOneBlock 0 (BLOCK_SIZE - 1 + 1) 8 := by
  have hcalls : Run.Guarded (fun F c => some (Reference.after F c)) (Reference.Permitted 2 0)
      (initial (IOnode.start 2 (fun _ _ => 0) almostFull) .existing [98]) overTheEnd := by
    refine Run.Guarded.cons ⟨?_, ?_⟩ rfl (Run.Guarded.cons ⟨?_, ?_⟩ rfl (Run.Guarded.cons ⟨?_, ?_⟩ rfl trivial)) <;> decide
  have hrun : Run.run IOnode.Tracked.step ⟨IOnode.start 2 (fun _ _ => 0) almostFull, fun _ _ => none⟩ []
      = some ⟨IOnode.start 2 (fun _ _ => 0) almostFull, fun _ _ => none⟩ := rfl
  have hrequests : Run.Guarded IOnode.Tracked.step IOnode.Tracked.Permitted
      ⟨IOnode.start 2 (fun _ _ => 0) almostFull, fun _ _ => none⟩ [] := trivial
  have hnew : (IOnode.start 2 (fun _ _ => 0) almostFull).intervalProcess.files.find? 0 = none := rfl
  have hreturned : (Reference.history overTheEnd (initial (IOnode.start 2 (fun _ _ => 0) almostFull) .existing [98])).1
      = [⟨3, []⟩, ⟨4, [0, 9, 8, 4]⟩, ⟨2, [6, 7]⟩] := by decide +kernel
  have hcell : (Reference.history overTheEnd (initial (IOnode.start 2 (fun _ _ => 0) almostFull) .existing [98])).2.cell
      (BLOCK_SIZE - 1 + 1) = 8 := by decide +kernel
  obtain ⟨s, hs, hbytes⟩ := read_after_write (by decide) _ _ hrequests hrun 7 hnew (fun _ h => nomatch h) (fun _ => rfl) hcalls
  refine ⟨s, ?_, ?_⟩
  · rw [← hreturned]
    exact hs
  · rw [← hcell]
    exact hbytes _ (by decide)

end OneClient

end HuronFS
