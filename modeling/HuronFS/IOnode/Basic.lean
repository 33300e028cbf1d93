import HuronFS.Common.Const
import HuronFS.Lib.ByteFile
import HuronFS.Lib.OrdMap

/-!
# `IOnode.Basic` — the IOnode's blocks, their memory and the swap queue

The IOnode as built without `ASYNC` over TCP: one thread handles one request after the other, and a block
leaves memory only when the next one needs its place. A block is named by its file and its start point; a
`memory_elem` is the number it was created under, its bytes are in `memory`. The swap queue, a ring of
pages in the source, is the list of the pages between `tail` and `head`, the oldest first. `none` is a C++
exception (`bad_alloc`, a file that is not on storage) or a null dereference.
-/

namespace HuronFS

open Region

/-! ## The memory pool (`CBB_memory_pool.cpp`) -/

/-- `memory_pool`; `created` counts the elements made so far. -/
structure MemoryPool where
  head : List Nat
  created : Nat
  availableMemory : Nat
  allocatedSize : Nat
  blockSize : Nat
  stepSize : Nat
  totalSize : Nat
deriving DecidableEq, Repr

namespace MemoryPool

/-- `setup`. -/
def setup (sizeOfElem totalCount preAllocCount : Nat) : MemoryPool :=
  let preAllocCount := if preAllocCount > totalCount then totalCount else preAllocCount
  { head := [], created := 0, availableMemory := 0, allocatedSize := 0, blockSize := sizeOfElem
    stepSize := preAllocCount * sizeOfElem, totalSize := sizeOfElem * totalCount }

/-- `has_memory_left`. -/
def hasMemoryLeft (p : MemoryPool) (size : Nat) : Bool :=
  decide (p.availableMemory ≥ size) || decide (p.totalSize ≥ p.allocatedSize + p.blockSize)

/-- The `while` loop of `allocate_more_memory`. -/
def newElems : (fuel tmp : Nat) → MemoryPool → MemoryPool
  | 0, _, p => p
  | fuel + 1, tmp, p =>
      if p.blockSize ≤ tmp then
        newElems fuel (tmp - p.blockSize) { p with head := p.created :: p.head, created := p.created + 1 }
      else p

/-- `allocate_more_memory`. -/
def allocateMoreMemory (p : MemoryPool) : Option MemoryPool :=
  if p.totalSize ≥ p.allocatedSize + p.blockSize then
    let allocationSize := min (p.totalSize - p.allocatedSize) p.stepSize
    let p := newElems allocationSize allocationSize p
    some { p with
      availableMemory := p.availableMemory + allocationSize
      allocatedSize := p.allocatedSize + allocationSize }
  else none

/-- The first free element. -/
def takeHead (p : MemoryPool) : Option (Nat × MemoryPool) :=
  match p.head with
  | [] => none
  | e :: next => some (e, { p with head := next, availableMemory := p.availableMemory - p.blockSize })

/-- `allocate`. -/
def allocate (p : MemoryPool) : Option (Nat × MemoryPool) :=
  if p.head = [] then p.allocateMoreMemory.bind takeHead else p.takeHead

/-- `free`. -/
def free (p : MemoryPool) (e : Nat) : MemoryPool :=
  { p with head := e :: p.head, availableMemory := p.availableMemory + p.blockSize }

end MemoryPool

/-! ## Blocks and files (`IOnode_basic.cpp`) -/

/-- `block`. `elem` is `_elem`, and with it the pointer `data`: the two are set and cleared together.
    `swappedOut` is `swapout_flag == SWAPPED_OUT`, `toBeDeleted` is `postponed_operation == TO_BE_DELETED`,
    `writebackPage` says whether the block has a page in the swap queue. -/
structure Block where
  dataSize : Nat
  dirtyFlag : Bool
  valid : Bool
  swappedOut : Bool
  receivingData : Bool
  existFlag : ExistFlag
  toBeDeleted : Bool
  writebackPage : Bool
  elem : Option Nat
deriving DecidableEq, Repr

namespace Block

/-- The constructor, for the blocks the IOnode creates: clean, and with no memory yet. -/
def create (dataSize : Nat) (existFlag : ExistFlag) : Block :=
  { dataSize := dataSize, dirtyFlag := false, valid := false, swappedOut := false, receivingData := false
    existFlag := existFlag, toBeDeleted := false, writebackPage := false, elem := none }

/-- `need_allocation`. -/
def needAllocation (b : Block) : Bool := !b.valid || b.elem.isNone

/-- `allocate_memory`. -/
def allocateMemory (b : Block) (p : MemoryPool) : Option (Block × MemoryPool) :=
  let p := match b.elem with
    | some e => p.free e
    | none => p
  p.allocate.map (fun (e, p) => ({ b with elem := some e, valid := true }, p))

/-- The memory of a block that is deleted goes back to the pool. -/
def release (b : Block) (p : MemoryPool) : MemoryPool :=
  match b.elem with
  | some e => p.free e
  | none => p

/-- `free_memory`: the bytes freed. -/
def freeMemory (b : Block) (p : MemoryPool) : Nat × Block × MemoryPool :=
  if b.dirtyFlag then (0, b, p)
  else if !b.valid then (0, b, p)
  else
    match b.elem with
    | none => (0, b, p)
    | some e => (BLOCK_SIZE, { b with elem := none, writebackPage := false }, p.free e)

end Block

/-- `file`. -/
structure IOFile where
  filePath : Str
  existFlag : ExistFlag
  toBeDeleted : Bool
  blocks : OrdMap Nat Block

/-- The name of a block: its file and its start point. -/
abbrev BlockKey := Int × Nat

/-- The file with a block stored in its map. -/
def IOFile.setBlock (file : IOFile) (startPoint : Nat) (b : Block) : IOFile :=
  { file with blocks := file.blocks.put startPoint b }

/-- `IOnode`. `storage` is the shared file system, under the mount point. -/
structure IOnode where
  files : OrdMap Int IOFile
  queue : List BlockKey
  pool : MemoryPool
  memory : Nat → Nat → Byte
  storage : Str → Option (ByteFile Byte)
  removeFileList : List Int

namespace IOnode

def IONODE_PRE_ALLOCATE_MEMORY_COUNT : Nat := 100

/-- The constructor, with memory for `count` blocks. -/
def start (count : Nat) (memory : Nat → Nat → Byte) (storage : Str → Option (ByteFile Byte)) : IOnode :=
  { files := OrdMap.empty, queue := [], pool := .setup BLOCK_SIZE count IONODE_PRE_ALLOCATE_MEMORY_COUNT
    memory := memory, storage := storage, removeFileList := [] }

def block? (n : IOnode) (k : BlockKey) : Option Block :=
  (n.files.find? k.1).bind (fun file => file.blocks.find? k.2)

def setBlock (n : IOnode) (k : BlockKey) (b : Block) : IOnode :=
  { n with files := n.files.modify k.1 (fun file => file.setBlock k.2 b) }

/-! ## Storage -/

/-- `_open_remote_file` for writing, which creates the file. -/
def openForWriting (n : IOnode) (path : Str) : IOnode :=
  { n with storage := Function.update n.storage path (some ((n.storage path).getD ByteFile.empty)) }

/-- The `write` of a list of bytes at a position. -/
def writeAt (n : IOnode) (path : Str) (pos : Nat) (bytes : List Byte) : IOnode :=
  { n with storage := Function.update n.storage path (some (((n.storage path).getD ByteFile.empty).write pos bytes)) }

/-- `_write_to_storage`. -/
def writeToStorage (n : IOnode) (k : BlockKey) : IOnode :=
  match n.files.find? k.1, n.block? k with
  | some file, some b =>
      if b.receivingData then n
      else
        let n := (n.setBlock k { b with dirtyFlag := false }).openForWriting file.filePath
        if b.toBeDeleted then n
        else
          match b.elem with
          | none => n
          | some e => n.writeAt file.filePath k.2 (slice (n.memory e) 0 b.dataSize)
  | _, _ => n

/-- `_read_from_storage`: up to `data_size` bytes, and how many there were. -/
def readFromStorage (n : IOnode) (path : Str) (k : BlockKey) (b : Block) : Option (Nat × IOnode) :=
  match n.storage path, b.elem with
  | some stored, some e =>
      let bytes := stored.read k.2 b.dataSize
      some (bytes.length, { n with memory := Function.update n.memory e (patch (n.memory e) 0 bytes) })
  | _, _ => none

/-! ## The swap queue (`CBB_basic_swap.h`) -/

/-- `need_writeback`. -/
def needWriteback (n : IOnode) (k : BlockKey) : Bool :=
  match n.block? k with
  | none => false
  | some b => b.dirtyFlag

/-- `writeback`. -/
def writeback (n : IOnode) (k : BlockKey) : IOnode := if n.needWriteback k then n.writeToStorage k else n

/-- `free_data`: the flag is set whether or not memory was freed. -/
def freeData (n : IOnode) (k : BlockKey) : Nat × IOnode :=
  match n.block? k with
  | none => (0, n)
  | some b =>
      let (ret, b, pool) := b.freeMemory n.pool
      (ret, { n.setBlock k { b with swappedOut := true } with pool := pool })

/-- The `while` loop of `swap_out`, down the queue from its oldest page. -/
def swapOutLoop : List BlockKey → (size : Nat) → IOnode → IOnode
  | [], _, n => n
  | k :: rest, size, n =>
      if size = 0 then n
      else
        let n := { n with queue := rest }
        let n := if n.needWriteback k then n.writeback k else n
        let (freed, n) := n.freeData k
        swapOutLoop rest (size - freed) n

/-- `swap_out`. -/
def swapOut (n : IOnode) (size : Nat) : IOnode := swapOutLoop n.queue size n

/-- `update_access_order`: `touch` moves the page to the young end of the queue, `push` adds one there. -/
def updateAccessOrder (n : IOnode) (k : BlockKey) : IOnode :=
  match n.block? k with
  | none => n
  | some b =>
      if b.writebackPage then { n with queue := n.queue.erase k ++ [k] }
      else { n.setBlock k { b with writebackPage := true } with queue := n.queue ++ [k] }

/-- `allocate_memory_for_block`. -/
def allocateMemoryForBlock (n : IOnode) (k : BlockKey) : Option IOnode :=
  let n := if n.pool.hasMemoryLeft BLOCK_SIZE then n else n.swapOut BLOCK_SIZE
  match n.block? k with
  | none => none
  | some b => (b.allocateMemory n.pool).map (fun (b, pool) => { n.setBlock k b with pool := pool })

/-! ## Writing into a block -/

/-- The block of `update_block_data`, created when the file has none there. -/
def blockForWriting (n : IOnode) (k : BlockKey) (size : Nat) : IOnode :=
  match n.files.find? k.1 with
  | none => n
  | some file => if (file.blocks.find? k.2).isSome then n else n.setBlock k (Block.create size file.existFlag)

/-- `update_block_data`, when the block has no memory: it is read back if the file is on storage or the
    block was swapped out, and then has as many bytes as could be read. -/
def loadForWriting (n : IOnode) (k : BlockKey) : Option IOnode :=
  match n.allocateMemoryForBlock k with
  | none => none
  | some n =>
      match n.files.find? k.1, n.block? k with
      | some file, some b =>
          if file.existFlag = .existing ∨ b.swappedOut = true then
            match n.readFromStorage file.filePath k b with
            | none => none
            | some (count, n) => some (n.setBlock k { b with dataSize := count, swappedOut := false, valid := true })
          else some (n.setBlock k { b with valid := true })
      | _, _ => none

/-- The rest of `update_block_data`: the bytes are copied into the block. `receiving_data` is set before the
    copy and cleared after it. -/
def receiveInto (n : IOnode) (k : BlockKey) (offset size : Nat) (data : List Byte) : Option (Nat × IOnode) :=
  match n.block? k with
  | none => none
  | some b =>
      let size := if offset + size > BLOCK_SIZE then BLOCK_SIZE - offset else size
      let dataSize := if b.dataSize < offset + size then offset + size else b.dataSize
      match b.elem with
      | none => none
      | some e =>
          if data.length < size then none
          else
            let n := n.setBlock k { b with dataSize := dataSize, dirtyFlag := true, receivingData := false }
            let n := { n with memory := Function.update n.memory e (patch (n.memory e) offset (data.take size)) }
            some (size, n.updateAccessOrder k)

/-- `update_block_data`: the bytes taken from the message. -/
def updateBlockData (n : IOnode) (k : BlockKey) (offset size : Nat) (data : List Byte) : Option (Nat × IOnode) :=
  let n := n.blockForWriting k size
  match n.block? k with
  | none => none
  | some b =>
      if b.needAllocation then (n.loadForWriting k).bind (fun n => n.receiveInto k offset size data)
      else n.receiveInto k offset size data

/-- The `while` loop of `_receive_data`. Each turn but the first, whose offset may be the end of the block, takes at least a byte, which
    gives the fuel. -/
def receiveLoop (fileNo : Int) :
    (fuel startPoint offset receiveSize remaining : Nat) → (data : List Byte) → IOnode → Option IOnode
  | 0, _, _, _, remaining, _, n => if remaining = 0 then some n else none
  | fuel + 1, startPoint, offset, receiveSize, remaining, data, n =>
      if remaining = 0 then some n
      else
        match n.updateBlockData (fileNo, startPoint) offset receiveSize data with
        | none => none
        | some (IOsize, n) =>
            receiveLoop fileNo fuel (startPoint + (IOsize + offset)) 0 (min (remaining - IOsize) BLOCK_SIZE)
              (remaining - IOsize) (data.drop IOsize) n

/-! ## Reading from a block -/

/-- `_send_data`, when the block has no memory. Its size stays what it was. -/
def loadForSending (n : IOnode) (k : BlockKey) : Option IOnode :=
  match n.allocateMemoryForBlock k with
  | none => none
  | some n =>
      match n.files.find? k.1, n.block? k with
      | some file, some b =>
          if b.existFlag = .existing ∨ b.swappedOut = true then
            match n.readFromStorage file.filePath k b with
            | none => none
            | some (_, n) => some (n.setBlock k { b with swappedOut := false })
          else some n
      | _, _ => none

/-- A piece of a reply: an element, an offset in it and a length (`push_send_buffer`). -/
structure SendBuffer where
  elem : Nat
  offset : Nat
  size : Nat
deriving DecidableEq, Repr

/-- One turn of `_send_data`: the block is loaded and a pointer into it is pushed. -/
def sendBlock (n : IOnode) (k : BlockKey) (b : Block) (offset IOsize : Nat) : Option (SendBuffer × IOnode) :=
  match if b.needAllocation then n.loadForSending k else some n with
  | none => none
  | some n =>
      match (n.block? k).bind Block.elem with
      | none => none
      | some e => some (⟨e, offset, IOsize⟩, n.updateAccessOrder k)

/-- The `while` loop of `_send_data`; a block that is not there ends it. -/
def sendLoop (fileNo : Int) :
    (fuel startPoint offset IOsize remaining : Nat) → List SendBuffer → IOnode → Option (List SendBuffer × IOnode)
  | 0, _, _, _, remaining, acc, n => if remaining = 0 then some (acc, n) else none
  | fuel + 1, startPoint, offset, IOsize, remaining, acc, n =>
      if remaining = 0 then some (acc, n)
      else
        match n.block? (fileNo, startPoint) with
        | none => some (acc, n)
        | some b =>
            match n.sendBlock (fileNo, startPoint) b offset IOsize with
            | none => none
            | some (piece, n) =>
                sendLoop fileNo fuel (startPoint + BLOCK_SIZE) 0 (min (remaining - IOsize) BLOCK_SIZE)
                  (remaining - IOsize) (acc ++ [piece]) n

/-! ## Requests -/

/-- What the Master and the clients send. `existFlag`, `path` and the block list of an open come from the
    Master, the other values from the client. -/
inductive Request
  | openFile (fileNo : Int) (existFlag : ExistFlag) (path : Str) (blocks : List (Nat × Nat))
  | writeFile (fileNo : Int) (startPoint offset size : Nat) (data : List Byte)
  | readFile (fileNo : Int) (startPoint offset size : Nat)
  | unlink (fileNo : Int)
deriving DecidableEq, Repr

/-- What is sent back. The pieces of a reply are pointers: the bytes are those in memory when it is sent,
    which is after the handler returned. -/
inductive Reply
  | nothing
  | status (code : Int)
  | bytes (l : List Byte)
deriving DecidableEq, Repr

/-- `_open_file`: a file that is known already is only marked open. -/
def openFile (n : IOnode) (fileNo : Int) (existFlag : ExistFlag) (path : Str) (blocks : List (Nat × Nat)) : IOnode :=
  if (n.files.find? fileNo).isSome then n
  else
    -- `_append_block`, once for each listed block
    let blocks := blocks.foldl (fun m (startPoint, dataSize) => m.insert startPoint (Block.create dataSize existFlag))
      OrdMap.empty
    { n with files := n.files.put fileNo ⟨path, existFlag, false, blocks⟩ }

/-- `_receive_data`. -/
def receiveData (n : IOnode) (fileNo : Int) (startPoint offset size : Nat) (data : List Byte) :
    Option (Reply × IOnode) :=
  if (n.files.find? fileNo).isNone then some (.status FILE_NOT_FOUND, n)
  else
    let receiveSize := if offset + size > BLOCK_SIZE then BLOCK_SIZE - offset else size
    (receiveLoop fileNo (size + 1) startPoint offset receiveSize size data n).map (fun n => (.status SUCCESS, n))

/-- `_send_data`. -/
def sendData (n : IOnode) (fileNo : Int) (startPoint offset size : Nat) : Option (Reply × IOnode) :=
  if (n.files.find? fileNo).isNone then some (.status FILE_NOT_FOUND, n)
  else
    let IOsize := if offset + size > BLOCK_SIZE then BLOCK_SIZE - offset else size
    (sendLoop fileNo (size + 1) startPoint offset IOsize size [] n).map (fun (pieces, n) =>
      (.bytes (pieces.flatMap (fun piece => slice (n.memory piece.elem) piece.offset piece.size)), n))

/-- `_remove_file`: the file goes when the handler is next between two requests. -/
def removeFile (n : IOnode) (fileNo : Int) : IOnode :=
  match n.files.find? fileNo with
  | none => n
  | some file =>
      if file.toBeDeleted then n
      else
        let blocks := file.blocks.mapValues (fun b => { b with toBeDeleted := true })
        { n with
          files := n.files.put fileNo { file with blocks := blocks, toBeDeleted := true }
          removeFileList := n.removeFileList ++ [fileNo] }

/-- `~block`: its page leaves the queue and its memory goes back to the pool. -/
def deleteBlock (n : IOnode) (k : BlockKey) : IOnode :=
  match n.block? k with
  | none => n
  | some b =>
      { n with
        files := n.files.modify k.1 (fun file => { file with blocks := file.blocks.erase k.2 })
        queue := if b.writebackPage then n.queue.erase k else n.queue
        pool := b.release n.pool }

/-- The removal of a file from `_files`, with `~file`. -/
def eraseFile (n : IOnode) (fileNo : Int) : IOnode :=
  match n.files.find? fileNo with
  | none => n
  | some file =>
      let n := file.blocks.keys.foldl (fun n startPoint => n.deleteBlock (fileNo, startPoint)) n
      { n with files := n.files.erase fileNo }

/-- `interval_process`: `remove_files`. Without `ASYNC` no write-back is ever on its way. -/
def intervalProcess (n : IOnode) : IOnode :=
  { n.removeFileList.foldl eraseFile n with removeFileList := [] }

/-- `_parse_request`. -/
def parseRequest (n : IOnode) : Request → Option (Reply × IOnode)
  | .openFile fileNo existFlag path blocks => some (.nothing, n.openFile fileNo existFlag path blocks)
  | .writeFile fileNo startPoint offset size data => n.receiveData fileNo startPoint offset size data
  | .readFile fileNo startPoint offset size => n.sendData fileNo startPoint offset size
  | .unlink fileNo => some (.nothing, n.removeFile fileNo)

/-- One turn of `handle_routine`. -/
def handle (n : IOnode) (r : Request) : Option (Reply × IOnode) := n.intervalProcess.parseRequest r

end IOnode

end HuronFS
