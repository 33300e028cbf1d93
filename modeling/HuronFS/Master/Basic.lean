import HuronFS.Lib.OrdMap
import HuronFS.Common.Task

/-!
# `Master.Basic` — the Master's data model (`Master.h`, `Master_basic.h`)

Objects the source keeps on the heap and compares by address (`node_info*`, `open_file_info*`) live in
two stores indexed by address; a pointer is an address, and a dereference of an address with no object
is undefined behaviour. A pointer into `_file_stat_pool` (`file_status`, the iterator `full_path`) is
the path of the entry it points at: `std::map` never moves an entry. Every function that can meet
undefined behaviour, or an exception nobody catches, returns an `Option`, `none` being that case.
-/

namespace HuronFS

/-- The address of a `node_info`. `std::set<node_info*>` orders nodes by it. -/
abbrev NodeRef := Nat

/-- The address of an `open_file_info`. -/
abbrev FileRef := Nat

/-- `block_list_t`: block start point to recorded data size. -/
abbrev BlockList := OrdMap Nat Nat

/-- `node_info`. -/
structure NodeInfo where
  handle : Handle
  nodeId : Int
  uri : Str
  storedFiles : OrdSet Int
  avaliableMemory : Nat
  totalMemory : Nat

/-- `Master_file_stat`: one entry of the path pool. -/
structure FileStat where
  status : Stat
  name : Str
  externalFlag : ExternalFlag
  externalMaster : Int
  externalName : Str
  existFlag : ExistFlag
  openedFileInfo : Option FileRef
  fullPath : Str

/-- `Master_file_stat::is_external`. -/
def FileStat.isExternal (s : FileStat) : Bool := s.externalFlag == .ext

/-- The entry with other attributes. -/
def FileStat.setStatus (s : FileStat) (st : Stat) : FileStat := { s with status := st }

@[simp] theorem FileStat.setStatus_status (s : FileStat) (st : Stat) : (s.setStatus st).status = st := rfl
@[simp] theorem FileStat.setStatus_opened (s : FileStat) (st : Stat) :
    (s.setStatus st).openedFileInfo = s.openedFileInfo := rfl

/-- `open_file_info`. -/
structure OpenFileInfo where
  fileNo : Int
  blockList : BlockList
  IOnodesSet : OrdSet NodeRef
  primaryReplicaNode : Option NodeRef
  blockSize : Nat
  openCount : Int
  flag : BitVec 32
  fileStatus : Str

/-- The open file with another block list. -/
def OpenFileInfo.setBlocks (f : OpenFileInfo) (bl : BlockList) : OpenFileInfo := { f with blockList := bl }

@[simp] theorem OpenFileInfo.setBlocks_blockList (f : OpenFileInfo) (bl : BlockList) :
    (f.setBlocks bl).blockList = bl := rfl
@[simp] theorem OpenFileInfo.setBlocks_fileStatus (f : OpenFileInfo) (bl : BlockList) :
    (f.setBlocks bl).fileStatus = f.fileStatus := rfl

/-- The state of a Master. `nodes` and `files` are the heap; `nextNode` and `nextFile` are addresses
    never handed out so far. `numOfReplica` is the build constant `NUM_OF_REPLICA`. -/
structure Master where
  registeredIOnodes : OrdMap Int NodeRef
  fileStatPool : OrdMap Str FileStat
  bufferedFiles : OrdMap Int FileRef
  IOnodeHandle : OrdSet NodeRef
  fileNumber : Int
  nodeIdPool : Nat → Bool
  fileNoPool : Nat → Bool
  currentNodeNumber : Nat
  currentFileNo : Nat
  masterNumber : Int
  mountPoint : Str
  currentIOnode : Option Int
  numOfReplica : Nat
  nodes : NodeRef → Option NodeInfo
  files : FileRef → Option OpenFileInfo
  nextNode : NodeRef
  nextFile : FileRef

/-- What a handler reads from the operating system: the clock and the process ids. -/
structure Env where
  now : BitVec 64
  uid : BitVec 32
  gid : BitVec 32
deriving DecidableEq, Repr

/-- The requester: the handle the request came on and the queue id found in its header. -/
structure Origin where
  handle : Handle
  queue : Int
deriving DecidableEq, Repr

/-- `Server::init_response_task`: a reply to the requester. -/
def responseTask (o : Origin) (message : List Field) : OutTask := ⟨o.handle, o.queue, message, []⟩

/-- A task goes to this client queue. -/
def addressedTo (c : Origin) (t : OutTask) : Bool := t.handle == c.handle && t.receiverId == c.queue

/-- `allocate_IOnode_comm_task` with its handle set: a message to a node. -/
def IOnodeTask (n : NodeInfo) (message : List Field) : OutTask := ⟨n.handle, 0, message, []⟩

/-- Allocate, fill and publish a message to a node. -/
def sendIOnode (n : NodeInfo) (message : List Field) : List QueueOp :=
  sendOn IONODE_COMMUNICATE_QUEUE_NUM (IOnodeTask n message)

/-- Allocate, fill and publish a reply. -/
def sendResponse (o : Origin) (message : List Field) : List QueueOp :=
  sendOn SERVER_QUEUE_NUM (responseTask o message)

namespace Master

/-- Rewrite the node at `r`. -/
def setNode (m : Master) (r : NodeRef) (n : NodeInfo) : Master :=
  { m with nodes := Function.update m.nodes r (some n) }

/-- Rewrite the open file at `r`. -/
def setFile (m : Master) (r : FileRef) (f : OpenFileInfo) : Master :=
  { m with files := Function.update m.files r (some f) }

/-- Rewrite the path entry at `p`. -/
def setStat (m : Master) (p : Str) (s : FileStat) : Master :=
  { m with fileStatPool := m.fileStatPool.put p s }

/-- The open file a file number names, as `*_buffered_files.at(file_no)`. -/
def openFileOf (m : Master) (fileNo : Int) : Option (FileRef × OpenFileInfo) :=
  match m.bufferedFiles.find? fileNo with
  | none => none
  | some r => (m.files r).map (fun f => (r, f))

@[simp] theorem setNode_files (m : Master) (r : NodeRef) (n : NodeInfo) : (m.setNode r n).files = m.files := rfl
@[simp] theorem setNode_pool (m : Master) (r : NodeRef) (n : NodeInfo) :
    (m.setNode r n).fileStatPool = m.fileStatPool := rfl
@[simp] theorem setNode_registered (m : Master) (r : NodeRef) (n : NodeInfo) :
    (m.setNode r n).registeredIOnodes = m.registeredIOnodes := rfl
@[simp] theorem setNode_nodes (m : Master) (r : NodeRef) (n : NodeInfo) :
    (m.setNode r n).nodes = Function.update m.nodes r (some n) := rfl
@[simp] theorem setFile_nodes (m : Master) (r : FileRef) (f : OpenFileInfo) : (m.setFile r f).nodes = m.nodes := rfl
@[simp] theorem setFile_pool (m : Master) (r : FileRef) (f : OpenFileInfo) :
    (m.setFile r f).fileStatPool = m.fileStatPool := rfl
@[simp] theorem setFile_buffered (m : Master) (r : FileRef) (f : OpenFileInfo) :
    (m.setFile r f).bufferedFiles = m.bufferedFiles := rfl
@[simp] theorem setFile_files (m : Master) (r : FileRef) (f : OpenFileInfo) :
    (m.setFile r f).files = Function.update m.files r (some f) := rfl
@[simp] theorem setStat_files (m : Master) (p : Str) (s : FileStat) : (m.setStat p s).files = m.files := rfl
@[simp] theorem setStat_nodes (m : Master) (p : Str) (s : FileStat) : (m.setStat p s).nodes = m.nodes := rfl
@[simp] theorem setStat_buffered (m : Master) (p : Str) (s : FileStat) :
    (m.setStat p s).bufferedFiles = m.bufferedFiles := rfl
@[simp] theorem setStat_pool (m : Master) (p : Str) (s : FileStat) :
    (m.setStat p s).fileStatPool = m.fileStatPool.put p s := rfl

end Master

end HuronFS
