import HuronFS.IOnode.Invariant
import HuronFS.Lib.Run
import HuronFS.Master.Config
import HuronFS.Master.NodeFiles

/-!
# `Protocol.Storage` — the Master, its remote-task thread and an IOnode over one storage

Four parties work on the shared storage through two queues: the Master's handler puts storage operations into the
queue of the remote-task thread and messages into the FIFO channel of the IOnode; the thread serves the one, the
IOnode takes the other; and the IOnode writes its dirty blocks back, on demand or in the background. A step of the
system is one step of one of them.

A transfer of the IOnode is one turn of the loop of `_receive_data` or `_send_data`, with memory at hand; the turns
of `swap_out` that get it are steps of their own.
-/

namespace HuronFS

namespace IOnode

/-- One turn of the `while` loop of `swap_out`, for the oldest page `k`. -/
def evictPage (n : IOnode) (k : BlockKey) (rest : List BlockKey) : Nat × IOnode :=
  let n := { n with queue := rest }
  let n := if n.needWriteback k then n.writeback k else n
  n.freeData k

theorem swapOutLoop_cons (k : BlockKey) (rest : List BlockKey) (size : Nat) (n : IOnode) :
    swapOutLoop (k :: rest) size n
      = if size = 0 then n else swapOutLoop rest (size - (n.evictPage k rest).1) (n.evictPage k rest).2 := rfl

/-- A transfer to or from the block needs memory that is not there yet. -/
def lacksMemory (n : IOnode) (k : BlockKey) : Bool :=
  (match n.block? k with
    | none => true
    | some b => b.needAllocation) && !n.pool.hasMemoryLeft BLOCK_SIZE

/-! ## What storage a step of the IOnode changes -/

variable {n n' : IOnode} {k : BlockKey}

theorem deleteBlock_frame (n : IOnode) (k : BlockKey) :
    (n.deleteBlock k).storage = n.storage ∧ (n.deleteBlock k).memory = n.memory := by
  unfold deleteBlock
  split <;> exact ⟨rfl, rfl⟩

theorem eraseFile_frame (n : IOnode) (f : Int) :
    (n.eraseFile f).storage = n.storage ∧ (n.eraseFile f).memory = n.memory := by
  have hfold : ∀ (starts : List Nat) (m : IOnode),
      (starts.foldl (fun n startPoint => n.deleteBlock (f, startPoint)) m).storage = m.storage ∧
        (starts.foldl (fun n startPoint => n.deleteBlock (f, startPoint)) m).memory = m.memory := by
    intro starts
    induction starts with
    | nil => exact fun _ => ⟨rfl, rfl⟩
    | cons start starts ih =>
        intro m
        obtain ⟨hstorage, hmemory⟩ := deleteBlock_frame m (f, start)
        rw [List.foldl_cons, (ih _).1, (ih _).2]
        exact ⟨hstorage, hmemory⟩
  unfold eraseFile
  split
  · exact ⟨rfl, rfl⟩
  · exact hfold _ n

/-- The removal of files touches neither storage nor what is in memory. -/
theorem intervalProcess_frame (n : IOnode) :
    n.intervalProcess.storage = n.storage ∧ n.intervalProcess.memory = n.memory := by
  have hfold : ∀ (l : List Int) (m : IOnode),
      (l.foldl eraseFile m).storage = m.storage ∧ (l.foldl eraseFile m).memory = m.memory := by
    intro l
    induction l with
    | nil => exact fun _ => ⟨rfl, rfl⟩
    | cons f l ih =>
        intro m
        obtain ⟨hstorage, hmemory⟩ := eraseFile_frame m f
        rw [List.foldl_cons, (ih _).1, (ih _).2]
        exact ⟨hstorage, hmemory⟩
  exact hfold n.removeFileList n

theorem intervalProcess_storage (n : IOnode) : n.intervalProcess.storage = n.storage := (intervalProcess_frame n).1

theorem receive_storage (n : IOnode) (message : List Field) : (n.receive message).storage = n.storage := by
  rw [← intervalProcess_storage n]
  unfold receive
  split
  · unfold openFile
    split <;> rfl
  · unfold removeFile
    split
    · rfl
    · split <;> rfl
  · rfl
  · rfl

theorem updateAccessOrder_storage (n : IOnode) (k : BlockKey) : (n.updateAccessOrder k).storage = n.storage := by
  unfold updateAccessOrder
  split
  · rfl
  · split <;> rfl

theorem blockForWriting_storage (n : IOnode) (k : BlockKey) (size : Nat) :
    (n.blockForWriting k size).storage = n.storage := by
  unfold blockForWriting
  split
  · rfl
  · split <;> rfl

/-- With memory left nothing is swapped out. -/
theorem allocateMemoryForBlock_storage (hleft : n.pool.hasMemoryLeft BLOCK_SIZE = true)
    (h : n.allocateMemoryForBlock k = some n') : n'.storage = n.storage := by
  unfold allocateMemoryForBlock at h
  rw [if_pos hleft] at h
  simp only at h
  split at h
  · cases h
  · obtain ⟨⟨b, pool⟩, -, rfl⟩ := Option.map_eq_some_iff.mp h
    rfl

theorem readFromStorage_storage {path : Str} {b : Block} {count : Nat}
    (h : n.readFromStorage path k b = some (count, n')) : n'.storage = n.storage := by
  unfold readFromStorage at h
  split at h
  · cases h
    rfl
  · cases h

theorem loadForWriting_storage (hleft : n.pool.hasMemoryLeft BLOCK_SIZE = true) (h : n.loadForWriting k = some n') :
    n'.storage = n.storage := by
  unfold loadForWriting at h
  split at h
  · cases h
  · rename_i m halloc
    rw [← allocateMemoryForBlock_storage hleft halloc]
    split at h
    · split at h
      · split at h
        · cases h
        · rename_i count m' hread
          cases h
          show m'.storage = m.storage
          exact readFromStorage_storage hread
      · cases h
        rfl
    · cases h

theorem receiveInto_storage {offset size count : Nat} {data : List Byte}
    (h : n.receiveInto k offset size data = some (count, n')) : n'.storage = n.storage := by
  unfold receiveInto at h
  split at h
  · cases h
  · simp only at h
    generalize (if offset + size > BLOCK_SIZE then BLOCK_SIZE - offset else size) = taken at h
    split at h
    · cases h
    · split at h
      · cases h
      · obtain ⟨-, rfl⟩ := Prod.mk.inj (Option.some.inj h)
        rw [updateAccessOrder_storage]
        rfl

theorem blockForWriting_pool (n : IOnode) (k : BlockKey) (size : Nat) : (n.blockForWriting k size).pool = n.pool := by
  unfold blockForWriting
  split
  · rfl
  · split <;> rfl

/-- A block that is there stays the one it was; a new one has no memory. -/
theorem needAllocation_blockForWriting {b : Block} (size : Nat) (hb : (n.blockForWriting k size).block? k = some b)
    (hneed : b.needAllocation = true) (hk : n.lacksMemory k = false) : n.pool.hasMemoryLeft BLOCK_SIZE = true := by
  unfold lacksMemory at hk
  cases hblock : n.block? k with
  | none =>
      rw [hblock] at hk
      simpa using hk
  | some b' =>
      have hsame : (n.blockForWriting k size).block? k = some b' := by
        obtain ⟨file, hfile, hs⟩ := block?_some_iff.mp hblock
        unfold blockForWriting
        rw [hfile]
        simp only [hs, Option.isSome_some, if_true]
        exact hblock
      rw [hsame] at hb
      cases hb
      rw [hblock] at hk
      simpa [hneed] using hk

theorem updateBlockData_storage {offset size count : Nat} {data : List Byte} (hk : n.lacksMemory k = false)
    (h : n.updateBlockData k offset size data = some (count, n')) : n'.storage = n.storage := by
  unfold updateBlockData at h
  simp only at h
  rw [← blockForWriting_storage n k size]
  split at h
  · cases h
  · rename_i b hb
    split at h
    · rename_i hneed
      obtain ⟨m, hload, hinto⟩ := Option.bind_eq_some_iff.mp h
      have hleft : (n.blockForWriting k size).pool.hasMemoryLeft BLOCK_SIZE = true := by
        rw [blockForWriting_pool]
        exact needAllocation_blockForWriting size hb hneed hk
      rw [receiveInto_storage hinto, loadForWriting_storage hleft hload]
    · exact receiveInto_storage h

theorem loadForSending_storage (hleft : n.pool.hasMemoryLeft BLOCK_SIZE = true) (h : n.loadForSending k = some n') :
    n'.storage = n.storage := by
  unfold loadForSending at h
  split at h
  · cases h
  · rename_i m halloc
    rw [← allocateMemoryForBlock_storage hleft halloc]
    split at h
    · split at h
      · split at h
        · cases h
        · rename_i count m' hread
          cases h
          show m'.storage = m.storage
          exact readFromStorage_storage hread
      · cases h
        rfl
    · cases h

theorem sendBlock_storage {b : Block} {offset size : Nat} {piece : SendBuffer} (hb : n.block? k = some b)
    (hk : n.lacksMemory k = false) (h : n.sendBlock k b offset size = some (piece, n')) : n'.storage = n.storage := by
  obtain ⟨m, e, hm, -, -, rfl⟩ := sendBlock_some h
  rw [updateAccessOrder_storage]
  split at hm
  · rename_i hneed
    refine loadForSending_storage ?_ hm
    unfold lacksMemory at hk
    rw [hb] at hk
    simpa [hneed] using hk
  · cases hm
    rfl

/-- The block is dirty and at rest: `writeback` opens its file for writing. -/
def WritesBack (n : IOnode) (k : BlockKey) (path : Str) : Prop :=
  ∃ file b, n.files.find? k.1 = some file ∧ n.block? k = some b ∧ b.dirtyFlag = true ∧ b.receivingData = false ∧
    file.filePath = path

/-- A write-back touches the path of the block's file alone, and only if the block is dirty and at rest. -/
theorem writeback_storage {path : Str} (h : (n.writeback k).storage path ≠ n.storage path) : n.WritesBack k path := by
  unfold writeback needWriteback at h
  cases hb : n.block? k with
  | none =>
      rw [hb] at h
      exact absurd rfl h
  | some b =>
      rw [hb] at h
      simp only at h
      split at h
      · rename_i hdirty
        unfold writeToStorage at h
        obtain ⟨file, hfile, -⟩ := block?_some_iff.mp hb
        rw [hfile, hb] at h
        simp only at h
        split at h
        · exact absurd rfl h
        · rename_i hidle
          refine ⟨file, b, hfile, hb, hdirty, by simpa using hidle, ?_⟩
          by_contra hne
          have hother : ∀ F, Function.update n.storage file.filePath F path = n.storage path := by
            intro F
            rw [Function.update_of_ne (Ne.symm hne)]
          apply h
          split
          · exact hother _
          · split
            · exact hother _
            · show Function.update (Function.update n.storage file.filePath _) file.filePath _ path = _
              rw [Function.update_of_ne (Ne.symm hne)]
              exact hother _
      · exact absurd rfl h

theorem freeData_storage (n : IOnode) (k : BlockKey) : (n.freeData k).2.storage = n.storage := by
  unfold freeData
  split <;> rfl

theorem evictPage_storage {rest : List BlockKey} {path : Str} (h : (n.evictPage k rest).2.storage path ≠ n.storage path) :
    n.WritesBack k path := by
  unfold evictPage at h
  simp only [freeData_storage] at h
  split at h
  · exact writeback_storage (n := { n with queue := rest }) h
  · exact absurd rfl h

end IOnode

/-! ## The system -/

/-- `remote_task_handler` of the Master, on the files of the storage mounted at `mountPoint`. The directory
    operations leave files alone: POSIX refuses `mkdir` and `rmdir` on the path of one. -/
def remoteTaskHandler (mountPoint : Str) (t : RemoteTask) (storage : Str → Option (ByteFile Byte)) :
    Str → Option (ByteFile Byte) :=
  if t.taskId = UNLINK then fun path => if mountPoint ++ path = t.fileName then none else storage path
  else storage

/-- The parties and the queues between them; storage is the one the IOnode works on. -/
structure Cluster where
  master : Master
  tasks : List RemoteTask
  channel : List (List Field)
  node : IOnode

namespace Cluster

inductive Event
  /-- The Master handles a request. -/
  | request (ev : Master.Event)
  /-- The remote-task thread serves the next task. -/
  | remoteTask
  /-- The IOnode takes the next message from its channel. -/
  | deliver
  /-- A turn of `_receive_data`. -/
  | receiveData (k : BlockKey) (offset size : Nat) (data : List Byte)
  /-- A turn of `_send_data`. -/
  | sendData (k : BlockKey) (offset size : Nat)
  /-- A turn of `swap_out`, which runs when no memory is left. -/
  | swapOut
  /-- The background write-back of a block. -/
  | writeback (k : BlockKey)
  /-- `remove_files`. -/
  | removeFiles

/-- One step, the IOnode being on `handle`; `none` where the step is not possible or runs into an exception. -/
def step (handle : Handle) (s : Cluster) : Event → Option Cluster
  | .request ev =>
      (s.master.parseRequest ev.env ev.origin ev.request).map (fun out => { s with
        master := out.master, tasks := s.tasks ++ out.remote, channel := s.channel ++ messagesTo handle out.ops })
  | .remoteTask =>
      match s.tasks with
      | [] => none
      | t :: rest => some { s with
          tasks := rest, node := { s.node with storage := remoteTaskHandler s.master.mountPoint t s.node.storage } }
  | .deliver =>
      match s.channel with
      | [] => none
      | message :: rest => some { s with channel := rest, node := s.node.receive message }
  | .receiveData k offset size data =>
      if (s.node.files.find? k.1).isNone then some s
      else if s.node.lacksMemory k then none
      else (s.node.updateBlockData k offset size data).map (fun (_, node) => { s with node := node })
  | .sendData k offset size =>
      match s.node.block? k with
      | none => some s
      | some b =>
          if s.node.lacksMemory k then none
          else (s.node.sendBlock k b offset size).map (fun (_, node) => { s with node := node })
  | .swapOut =>
      match s.node.queue with
      | [] => none
      | k :: rest =>
          if s.node.pool.hasMemoryLeft BLOCK_SIZE then none else some { s with node := (s.node.evictPage k rest).2 }
  | .writeback k => some { s with node := s.node.writeback k }
  | .removeFiles => some { s with node := s.node.intervalProcess }

/-- Every party as constructed. -/
def initial (pool : OrdMap Str FileStat) (masterNumber : Int) (mountPoint : Str) (numOfReplica count : Nat)
    (memory : Nat → Nat → Byte) (storage : Str → Option (ByteFile Byte)) : Cluster :=
  { master := Master.initial pool masterNumber mountPoint numOfReplica, tasks := [], channel := []
    node := IOnode.start count memory storage }

/-- A step of the IOnode that neither writes back nor evicts leaves storage alone. -/
theorem step_receiveData {handle : Handle} {s s' : Cluster} {k : BlockKey} {offset size : Nat} {data : List Byte}
    (h : s.step handle (.receiveData k offset size data) = some s') :
    s' = { s with node := s'.node } ∧ s'.node.storage = s.node.storage := by
  simp only [step] at h
  split at h
  · cases h
    exact ⟨rfl, rfl⟩
  · split at h
    · cases h
    · rename_i hk
      obtain ⟨⟨count, node⟩, hup, rfl⟩ := Option.map_eq_some_iff.mp h
      exact ⟨rfl, IOnode.updateBlockData_storage (by simpa using hk) hup⟩

theorem step_sendData {handle : Handle} {s s' : Cluster} {k : BlockKey} {offset size : Nat}
    (h : s.step handle (.sendData k offset size) = some s') :
    s' = { s with node := s'.node } ∧ s'.node.storage = s.node.storage := by
  simp only [step] at h
  split at h
  · cases h
    exact ⟨rfl, rfl⟩
  · rename_i b hb
    split at h
    · cases h
    · rename_i hk
      obtain ⟨⟨piece, node⟩, hsend, rfl⟩ := Option.map_eq_some_iff.mp h
      exact ⟨rfl, IOnode.sendBlock_storage hb (by simpa using hk) hsend⟩

end Cluster

end HuronFS
