import HuronFS.Common.AccessQueue
import HuronFS.IOnode.Basic
import HuronFS.Lib.Run

/-!
# `IOnode.WriteBack` — blocks, their pages and the background write-back

The IOnode as built with `ASYNC`, as far as pointers go. A block is an object on the heap, named by the
address it was created under; files, the write-back queue, the pages of the LRU ring and the passes of the
remote task thread hold addresses. Bytes, sizes and the storage file decide no pointer and are left out: they
are in `IOnode.Basic`.

Two threads take steps in any order. The handler's turn is cut where the other thread can come in: the two
halves of `interval_process`, and then a request, a `READ` or `WRITE` block by block. The remote task thread
starts a pass, writes back one block of the queue after the other, and ends the pass. `none` is a step that is
not enabled, an exception, or the use of a deleted block.
-/

namespace HuronFS

/-- `block`, without its data. -/
structure PagedBlock where
  dirtyFlag : Bool
  valid : Bool
  writebackPage : Option Nat
  elem : Option Nat
deriving DecidableEq, Repr

namespace PagedBlock

/-- The constructor. -/
def create : PagedBlock := { dirtyFlag := false, valid := false, writebackPage := none, elem := none }

/-- `need_allocation`. -/
def needAllocation (b : PagedBlock) : Bool := !b.valid || b.elem.isNone

/-- The memory of a block goes back to the pool. -/
def release (b : PagedBlock) (p : MemoryPool) : MemoryPool :=
  match b.elem with
  | some e => p.free e
  | none => p

/-- `allocate_memory`. -/
def allocateMemory (b : PagedBlock) (p : MemoryPool) : Option (PagedBlock × MemoryPool) :=
  (b.release p).allocate.map (fun (e, p) => ({ b with elem := some e, valid := true }, p))

/-- `free_memory`: the bytes freed. -/
def freeMemory (b : PagedBlock) (p : MemoryPool) : Nat × PagedBlock × MemoryPool :=
  if b.dirtyFlag then (0, b, p)
  else if !b.valid then (0, b, p)
  else
    match b.elem with
    | none => (0, b, p)
    | some e => (BLOCK_SIZE, { b with elem := none, writebackPage := none }, p.free e)

end PagedBlock

/-- `file`: whether `postponed_operation` is `TO_BE_DELETED`, and the address of each block. -/
structure PagedFile where
  toBeDeleted : Bool
  blocks : OrdMap Nat Nat

/-- `writeback_status`; while a pass is on its way, the place of its next block in the queue. -/
inductive WritebackStatus
  | idle
  | onGoing (next : Nat)
deriving DecidableEq, Repr

/-- The IOnode. `heap` has the blocks that are not deleted, `created` counts those ever made. `passes` are the
    remote tasks that have not ended, the oldest first, each with the blocks it was scheduled for. -/
structure AsyncNode where
  heap : OrdMap Nat PagedBlock
  created : Nat
  files : OrdMap Int PagedFile
  queue : AccessQueue Nat
  pool : MemoryPool
  removeFileList : List Int
  writebackQueue : List Nat
  status : WritebackStatus
  passes : List (List Nat)

namespace AsyncNode

def WRITEBACK_COUNTS : Nat := 2

/-- The constructor, with memory for `count` blocks. -/
def start (count : Nat) : AsyncNode :=
  { heap := OrdMap.empty, created := 0, files := OrdMap.empty, queue := AccessQueue.start
    pool := .setup BLOCK_SIZE count IOnode.IONODE_PRE_ALLOCATE_MEMORY_COUNT, removeFileList := []
    writebackQueue := [], status := .idle, passes := [] }

/-- The block a page points to, with its address. -/
def pageBlock (n : AsyncNode) (p : Nat) : Option (Nat × PagedBlock) :=
  (n.queue.data p).bind (fun a => (n.heap.find? a).map (fun b => (a, b)))

def setBlock (n : AsyncNode) (a : Nat) (b : PagedBlock) : AsyncNode := { n with heap := n.heap.put a b }

/-! ## Eviction and access order -/

/-- The body of the loop of `swap_out`, for a page that was popped: `writeback` clears the dirty flag, and
    `free_data` frees the memory. The page of a clean block is left in the dirty list. -/
def evict (n : AsyncNode) (p a : Nat) (b : PagedBlock) : Nat × AsyncNode :=
  let queue := if b.dirtyFlag then n.queue.delDirtyPage p else n.queue
  let (freed, b, pool) := ({ b with dirtyFlag := false } : PagedBlock).freeMemory n.pool
  (freed, { n.setBlock a b with queue := queue, pool := pool })

/-- The `while` loop of `swap_out`; each turn takes a page out of the ring, which gives the fuel. -/
def swapOutLoop : (fuel size : Nat) → AsyncNode → Option AsyncNode
  | 0, _, n => some n
  | fuel + 1, size, n =>
      if size = 0 then some n
      else
        match n.queue.pop with
        | none => some n
        | some (p, queue) =>
            match n.pageBlock p with
            | none => none
            | some (a, b) =>
                let (freed, n) := { n with queue := queue }.evict p a b
                swapOutLoop fuel (size - freed) n

/-- `swap_out`. -/
def swapOut (n : AsyncNode) (size : Nat) : Option AsyncNode := swapOutLoop n.queue.tracked.length size n

/-- `allocate_memory_for_block`. -/
def allocateMemoryForBlock (n : AsyncNode) (a : Nat) : Option AsyncNode :=
  match if n.pool.hasMemoryLeft BLOCK_SIZE then some n else n.swapOut BLOCK_SIZE with
  | none => none
  | some n =>
      match n.heap.find? a with
      | none => none
      | some b => (b.allocateMemory n.pool).map (fun (b, pool) => { n.setBlock a b with pool := pool })

/-- A block that is read or written has memory. -/
def load (n : AsyncNode) (a : Nat) : Option AsyncNode :=
  match n.heap.find? a with
  | none => none
  | some b => if b.needAllocation then n.allocateMemoryForBlock a else some n

/-- `update_access_order`. -/
def updateAccessOrder (n : AsyncNode) (a : Nat) (dirty : Bool) : Option AsyncNode :=
  match n.heap.find? a with
  | none => none
  | some b =>
      match b.writebackPage with
      | some p => some { n with queue := n.queue.touch p dirty }
      | none =>
          let (p, queue) := n.queue.push a dirty
          some { n.setBlock a { b with writebackPage := some p } with queue := queue }

/-! ## Requests -/

/-- `create_new_block`, and its place in the file's map. -/
def createNewBlock (n : AsyncNode) (fileNo : Int) (startPoint : Nat) : AsyncNode :=
  { n with
    heap := n.heap.put n.created PagedBlock.create
    created := n.created + 1
    files := n.files.modify fileNo (fun file => { file with blocks := file.blocks.insert startPoint n.created }) }

/-- `_open_file`: `_append_block` for each block the Master lists. -/
def openFile (n : AsyncNode) (fileNo : Int) (startPoints : List Nat) : AsyncNode :=
  if (n.files.find? fileNo).isSome then n
  else
    startPoints.foldl (fun n startPoint => n.createNewBlock fileNo startPoint)
      { n with files := n.files.put fileNo ⟨false, OrdMap.empty⟩ }

/-- The address of a block of a file. -/
def address (n : AsyncNode) (fileNo : Int) (startPoint : Nat) : Option Nat :=
  (n.files.find? fileNo).bind (fun file => file.blocks.find? startPoint)

/-- A block that was written is dirty, and the youngest. -/
def markDirty (n : AsyncNode) (a : Nat) : Option AsyncNode :=
  match n.heap.find? a with
  | none => none
  | some b => (n.setBlock a { b with dirtyFlag := true }).updateAccessOrder a true

/-- `update_block_data`, for one block of a `WRITE`. -/
def updateBlockData (n : AsyncNode) (fileNo : Int) (startPoint : Nat) : Option AsyncNode :=
  if (n.files.find? fileNo).isNone then some n
  else
    let n := if (n.address fileNo startPoint).isSome then n else n.createNewBlock fileNo startPoint
    match n.address fileNo startPoint with
    | none => none
    | some a => (n.load a).bind (fun n => n.markDirty a)

/-- The body of the loop of `_send_data`, for one block of a `READ`. -/
def sendBlock (n : AsyncNode) (fileNo : Int) (startPoint : Nat) : Option AsyncNode :=
  match n.address fileNo startPoint with
  | none => some n
  | some a => (n.load a).bind (fun n => n.updateAccessOrder a false)

/-- `_remove_file`. -/
def removeFile (n : AsyncNode) (fileNo : Int) : AsyncNode :=
  match n.files.find? fileNo with
  | none => n
  | some file =>
      if file.toBeDeleted then n
      else
        { n with
          files := n.files.put fileNo { file with toBeDeleted := true }
          removeFileList := n.removeFileList ++ [fileNo] }

/-- `~block`. -/
def deleteBlock (n : AsyncNode) (a : Nat) : AsyncNode :=
  match n.heap.find? a with
  | none => n
  | some b =>
      { n with
        heap := n.heap.erase a
        queue := match b.writebackPage with
          | some p => n.queue.erase p
          | none => n.queue
        pool := b.release n.pool }

/-- The addresses of a file's blocks from a start point on, that one left out. -/
def laterBlocks (file : PagedFile) (startPoint : Nat) : List (Nat × Nat) :=
  file.blocks.entries.filter (fun e => startPoint < e.1)

/-- `_truncate_file`: the blocks after the one at `startPoint` are deleted at once. -/
def truncateFile (n : AsyncNode) (fileNo : Int) (startPoint : Nat) : Option AsyncNode :=
  match n.files.find? fileNo with
  | none => none
  | some file =>
      if (file.blocks.find? startPoint).isNone then none
      else
        let later := laterBlocks file startPoint
        let n := (later.map Prod.snd).foldl deleteBlock n
        some { n with
          files := n.files.put fileNo { file with blocks := later.foldl (fun m e => m.erase e.1) file.blocks } }

/-! ## `interval_process` -/

/-- The removal of a file from `_files`, with `~file`. -/
def eraseFile (n : AsyncNode) (fileNo : Int) : AsyncNode :=
  match n.files.find? fileNo with
  | none => n
  | some file =>
      let n := (file.blocks.entries.map Prod.snd).foldl deleteBlock n
      { n with files := n.files.erase fileNo }

/-- `remove_files`. -/
def removeFiles (n : AsyncNode) : AsyncNode :=
  if n.status = .idle then { n.removeFileList.foldl eraseFile n with removeFileList := [] } else n

/-- The loop of `check_writeback_page`: the page of a block that was written back leaves the dirty list. -/
def checkWritebackPage : List Nat → AsyncNode → Option AsyncNode
  | [], n => some n
  | a :: rest, n =>
      match n.heap.find? a with
      | none => none
      | some b =>
          match b.dirtyFlag, b.writebackPage with
          | false, some p => checkWritebackPage rest { n with queue := n.queue.delDirtyPage p }
          | _, _ => checkWritebackPage rest n

/-- The loop of `prepare_writeback_page` down the dirty list: the blocks it takes. -/
def prepareWritebackPage (n : AsyncNode) : (count : Nat) → List Nat → Option (List Nat)
  | 0, _ => some []
  | _, [] => some []
  | count + 1, p :: rest =>
      match n.pageBlock p with
      | none => none
      | some (a, b) =>
          if b.dirtyFlag then (n.prepareWritebackPage count rest).map (a :: ·)
          else n.prepareWritebackPage (count + 1) rest

/-- `add_write_back`. -/
def addWriteBack (n : AsyncNode) : Option AsyncNode :=
  if n.status = .idle then
    match checkWritebackPage n.writebackQueue n with
    | none => none
    | some n =>
        match n.prepareWritebackPage WRITEBACK_COUNTS n.queue.dirty with
        | none => none
        | some blocks =>
            some { n with writebackQueue := blocks, passes := if blocks = [] then n.passes else n.passes ++ [blocks] }
  else some n

/-! ## The background pass (`remote_task_handler`) -/

def startPass (n : AsyncNode) : Option AsyncNode :=
  match n.status, n.passes with
  | .idle, _ :: _ => some { n with status := .onGoing 0 }
  | _, _ => none

/-- `writeback` of the next block of the queue; `receiving` if the handler is filling it just then, and it is
    left for later. -/
def writeNext (n : AsyncNode) (receiving : Bool) : Option AsyncNode :=
  match n.status with
  | .idle => none
  | .onGoing next =>
      match n.writebackQueue[next]? with
      | none => none
      | some a =>
          match n.heap.find? a with
          | none => none
          | some b =>
              let n := if b.dirtyFlag && !receiving then n.setBlock a { b with dirtyFlag := false } else n
              some { n with status := .onGoing (next + 1) }

def endPass (n : AsyncNode) : Option AsyncNode :=
  match n.status with
  | .idle => none
  | .onGoing next =>
      if next < n.writebackQueue.length then none else some { n with status := .idle, passes := n.passes.tail }

/-! ## Steps -/

inductive Event
  | removeFiles
  | addWriteBack
  | openFile (fileNo : Int) (startPoints : List Nat)
  | writeBlock (fileNo : Int) (startPoint : Nat)
  | readBlock (fileNo : Int) (startPoint : Nat)
  | truncate (fileNo : Int) (startPoint : Nat)
  | unlink (fileNo : Int)
  | startPass
  | writeNext (receiving : Bool)
  | endPass
deriving DecidableEq, Repr

def step (n : AsyncNode) : Event → Option AsyncNode
  | .removeFiles => some n.removeFiles
  | .addWriteBack => n.addWriteBack
  | .openFile fileNo startPoints => some (n.openFile fileNo startPoints)
  | .writeBlock fileNo startPoint => n.updateBlockData fileNo startPoint
  | .readBlock fileNo startPoint => n.sendBlock fileNo startPoint
  | .truncate fileNo startPoint => n.truncateFile fileNo startPoint
  | .unlink fileNo => some (n.removeFile fileNo)
  | .startPass => n.startPass
  | .writeNext receiving => n.writeNext receiving
  | .endPass => n.endPass

/-! ## What is to hold -/

/-- A block that has not been deleted. -/
def Live (n : AsyncNode) (a : Nat) : Prop := (n.heap.find? a).isSome

instance (n : AsyncNode) (a : Nat) : Decidable (n.Live a) := inferInstanceAs (Decidable (_ = true))

/-- Every pointer the write-back follows is to a live block, and no block of a pass that has not ended is
    deleted, or scheduled for another pass. -/
structure Safe (n : AsyncNode) : Prop where
  writebackQueue : ∀ a ∈ n.writebackQueue, n.Live a
  dirty : ∀ p ∈ n.queue.dirty, ∃ a ∈ n.queue.data p, n.Live a
  tracked : ∀ p ∈ n.queue.tracked, ∃ a ∈ n.queue.data p, n.Live a
  notDeleted : ∀ pass ∈ n.passes, ∀ a ∈ pass, n.Live a
  notRescheduled : n.passes.Pairwise List.Disjoint

/-- The page a block names. -/
def page (n : AsyncNode) (a : Nat) : Option Nat := (n.heap.find? a).bind PagedBlock.writebackPage

/-- No list but the ring and its own place in the dirty list leads to the block. -/
def Deletable (n : AsyncNode) (a : Nat) : Prop :=
  a ∉ n.writebackQueue ∧ (∀ pass ∈ n.passes, a ∉ pass) ∧ ∀ p ∈ n.queue.dirty, n.queue.data p = some a → n.page a = some p

instance (n : AsyncNode) (a : Nat) : Decidable (n.Deletable a) := by
  unfold Deletable
  infer_instance

/-- The block of a page, if it is dirty. -/
def dirtyBlock? (n : AsyncNode) (p : Nat) : Option Nat :=
  (n.pageBlock p).bind (fun e => if e.2.dirtyFlag then some e.1 else none)

/-- The dirty blocks, in the order of the dirty list. -/
def dirtyBlocks (n : AsyncNode) : List Nat := n.queue.dirty.filterMap n.dirtyBlock?

/-- The condition on a step: a block is deleted only when nothing of the write-back leads to it, and blocks
    are scheduled only when they are not yet in a pass. -/
def Permitted (n : AsyncNode) : Event → Prop
  | .removeFiles => n.status = .idle →
      ∀ fileNo ∈ n.removeFileList, ∀ file ∈ n.files.find? fileNo, ∀ e ∈ file.blocks.entries, n.Deletable e.2
  | .truncate fileNo startPoint =>
      ∀ file ∈ n.files.find? fileNo, ∀ e ∈ laterBlocks file startPoint, n.Deletable e.2
  | .addWriteBack => n.status = .idle → ∀ a ∈ n.dirtyBlocks.take WRITEBACK_COUNTS, ∀ pass ∈ n.passes, a ∉ pass
  | _ => True

instance (n : AsyncNode) (e : Event) : Decidable (n.Permitted e) := by
  cases e <;> unfold Permitted <;> infer_instance

end AsyncNode

end HuronFS
