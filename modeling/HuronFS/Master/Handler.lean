import HuronFS.Master.Tables

/-!
# `Master.Handler` — the request handlers of `Master.cpp` (`_parse_request` and below)

A request is its code with the values its handler pops. A handler turns a state into an `Outcome`: the
next state, the queue operations in program order, the storage operations handed to the remote-task
thread, and the value it returns.
-/

namespace HuronFS

/-- A request as the Master's handlers decode it. -/
inductive Request
  | register (totalMemory : Nat) (uri : Str)
  | newClient (uri : Str)
  | openFile (path : Str) (flag mode : BitVec 32)
  | readFile (fileNo : Int) (startPoint size : Nat)
  | writeFile (fileNo : Int) (attr : Stat) (startPoint size : Nat)
  | flushFile (fileNo : Int)
  | closeFile (fileNo : Int)
  | getAttr (path : Str)
  | updateMeta (fileNo : Int) (attr : Stat)
  | readDir (path : Str)
  | rmDir (path : Str)
  | unlink (path : Str)
  | access (path : Str) (mode : BitVec 32)
  | rename (oldPath newPath : Str) (newMaster : Int)
  | renameMigrating (path : Str) (oldMaster : Int)
  | mkdir (path : Str) (mode : BitVec 32)
  | truncate (path : Str) (size : Nat)
  | closeClient
  | nodeFailure
  | IOnodeFailure (nodeId : Int)
deriving DecidableEq, Repr

/-- What handling a request does. -/
structure Outcome where
  master : Master
  ops : List QueueOp
  remote : List RemoteTask
  ret : Int

/-- The status `_parse_open_file` sends for each exception of `_open_file`. -/
def OpenError.status : OpenError → Int
  | .runtimeError => UNKNOWN_ERROR
  | .invalidArgument => FILE_NOT_FOUND
  | .badAlloc => TOO_MANY_FILES

namespace Master

/-- A handler that changes nothing and replies. -/
def reply (m : Master) (o : Origin) (message : List Field) (ret : Int) : Outcome :=
  ⟨m, sendResponse o message, [], ret⟩

/-! ## Opening -/

/-- `flag & O_CREAT`. -/
def hasCreate (flag : BitVec 32) : Bool := flag &&& O_CREAT != 0

/-- The flag that `_parse_open_file` hands on: `O_CREAT` and `O_TRUNC` are cleared together. -/
def openFlag (flag : BitVec 32) : BitVec 32 :=
  if hasCreate flag then flag &&& ~~~(O_CREAT ||| O_TRUNC) else flag

/-- The reply of a successful open. -/
def openReply (fileNo : Int) (blockSize : Nat) (st : Stat) : List Field :=
  [.int SUCCESS, .long fileNo, .size blockSize] ++ sendAttr st

/-- `_parse_open_file`, past the check for an external entry. A number missing from `_buffered_files`
    would raise an exception the handler does not catch. -/
def parseOpenLocal (m : Master) (e : Env) (o : Origin) (path : Str) (flag mode : BitVec 32) : Option Outcome :=
  match m.openFile e path (openFlag flag) mode with
  | none => none
  | some (m', ops, .error err) => some ⟨m', ops ++ sendResponse o [.int err.status], [], FAILURE⟩
  | some (m', ops, .ok fileNo) =>
      match m'.openFileOf fileNo with
      | none => none
      | some (_, f) =>
          match m'.fileStatPool.find? f.fileStatus with
          | none => none
          | some st => some ⟨m', ops ++ sendResponse o (openReply fileNo f.blockSize st.status), [], SUCCESS⟩

/-- `_parse_open_file`. -/
def parseOpenFile (m : Master) (e : Env) (o : Origin) (path : Str) (flag mode : BitVec 32) : Option Outcome :=
  match m.fileStatPool.find? path with
  | some s =>
      if s.isExternal then some (m.reply o [.int s.externalMaster] SUCCESS)
      else m.parseOpenLocal e o path flag mode
  | none => m.parseOpenLocal e o path flag mode

/-! ## Reading and writing -/

/-- The message of `_send_block_info` for a pool holding the primary alone. -/
def sendBlockInfo (m : Master) (fileSize : Nat) (primary : Option NodeRef) (bl : BlockList) :
    Option (List Field) :=
  match primary.bind m.nodes with
  | none => none
  | some n =>
      some ([.int SUCCESS, .size fileSize, .int 1, .long n.nodeId, .str n.uri, .int bl.size] ++ blockFields bl)

/-- `_parse_read_file`. -/
def parseReadFile (m : Master) (o : Origin) (fileNo : Int) (startPoint size : Nat) : Option Outcome :=
  match m.bufferedFiles.find? fileNo with
  | none => some (m.reply o [.int OUT_OF_RANGE] FAILURE)
  | some r =>
      match m.files r with
      | none => none
      | some f =>
          match selectNodeBlockSet f.blockList startPoint size, m.fileStatPool.find? f.fileStatus with
          | some bl, some st =>
              (m.sendBlockInfo st.status.stSize f.primaryReplicaNode bl).map (fun msg => m.reply o msg SUCCESS)
          | _, _ => none

/-- `Recv_attr` into a file's attributes, after which the larger of the two sizes stays. -/
def receiveAttr (st attr : Stat) : Stat := { attr with stSize := max st.stSize attr.stSize }

/-- `_parse_write_file`. -/
def parseWriteFile (m : Master) (o : Origin) (fileNo : Int) (attr : Stat) (startPoint size : Nat) :
    Option Outcome :=
  match m.bufferedFiles.find? fileNo with
  | none => some (m.reply o [.int OUT_OF_RANGE] FAILURE)
  | some r =>
      match m.files r with
      | none => none
      | some f =>
          match m.fileStatPool.find? f.fileStatus with
          | none => none
          | some st =>
              let status := receiveAttr st.status attr
              let bl := allocateNewBlocksForWriting f.blockList startPoint size
              let m' := (m.setStat f.fileStatus (st.setStatus status)).setFile r (f.setBlocks bl)
              match selectNodeBlockSet bl startPoint size with
              | none => none
              | some selected =>
                  (m'.sendBlockInfo status.stSize f.primaryReplicaNode selected).map
                    (fun msg => m'.reply o msg SUCCESS)

/-- `_parse_meta_update`: no reply. -/
def parseMetaUpdate (m : Master) (fileNo : Int) (attr : Stat) : Option Outcome :=
  match m.bufferedFiles.find? fileNo with
  | none => some ⟨m, [], [], FAILURE⟩
  | some r =>
      match m.files r with
      | none => none
      | some f =>
          match m.fileStatPool.find? f.fileStatus with
          | none => none
          | some st =>
              some ⟨m.setStat f.fileStatus (st.setStatus (receiveAttr st.status attr)), [], [], SUCCESS⟩

/-- The primary node of an open file, as the flush and close handlers dereference it. -/
def primaryOf (m : Master) (r : FileRef) : Option NodeInfo :=
  match m.files r with
  | none => none
  | some f => f.primaryReplicaNode.bind m.nodes

/-- `_parse_flush_file`: the reply is published in the `try` block and `task_enqueue` is called for it
    once more after it. -/
def parseFlushFile (m : Master) (o : Origin) (fileNo : Int) : Option Outcome :=
  match m.bufferedFiles.find? fileNo with
  | none => some (m.reply o [.int FAILURE] FAILURE)
  | some r =>
      (m.primaryOf r).map (fun n =>
        ⟨m, sendResponse o [.int SUCCESS] ++ sendIOnode n [.int FLUSH_FILE, .long fileNo]
          ++ [.enqueue SERVER_QUEUE_NUM], [], SUCCESS⟩)

/-- `_parse_close_file`. -/
def parseCloseFile (m : Master) (o : Origin) (fileNo : Int) : Option Outcome :=
  match m.bufferedFiles.find? fileNo with
  | none => some (m.reply o [.int FAILURE] FAILURE)
  | some r =>
      (m.primaryOf r).map (fun n =>
        ⟨m, sendResponse o [.int SUCCESS] ++ sendIOnode n [.int CLOSE_FILE, .long fileNo], [], SUCCESS⟩)

/-! ## Paths -/

/-- `_parse_attr`. -/
def parseAttr (m : Master) (o : Origin) (path : Str) : Outcome :=
  match m.fileStatPool.find? path with
  | none => m.reply o [.int m.masterNumber, .int (-ENOENT)] FAILURE
  | some s =>
      if s.isExternal then m.reply o [.int s.externalMaster] SUCCESS
      else m.reply o ([.int m.masterNumber, .int SUCCESS] ++ sendAttr s.status) SUCCESS

/-- `_parse_access`. -/
def parseAccess (m : Master) (o : Origin) (path : Str) : Outcome :=
  match m.fileStatPool.find? path with
  | none => m.reply o [.int m.masterNumber, .int (-ENOENT)] FAILURE
  | some s =>
      if s.isExternal then m.reply o [.int s.externalMaster] SUCCESS
      else m.reply o [.int m.masterNumber, .int SUCCESS] SUCCESS

/-- The byte `'/'`. -/
def slash : Byte := 47

/-- The directory entry that `_get_file_stat_from_dir` inserts for a path under the directory. -/
def dirEntry (startPos : Nat) (fileName : Str) : Str := (fileName.drop startPos).takeWhile (· != slash)

/-- `_get_file_stat_from_dir`: the walk from `lower_bound` ends at the first path without the prefix.
    An empty directory name indexes before the string. -/
def getFileStatFromDir (m : Master) (dir : Str) : Option (OrdSet Str) :=
  match dir.getLast? with
  | none => none
  | some last =>
      let startPos := if last != slash then dir.length + 1 else dir.length
      let walk := (m.fileStatPool.keys.dropWhile (fun p => decide (p < dir))).dropWhile (· == dir)
      let items := (walk.takeWhile (fun p => p.take dir.length == dir)).map (dirEntry startPos)
      some (items.foldl OrdSet.add OrdMap.empty)

/-- `_parse_readdir`. -/
def parseReaddir (m : Master) (o : Origin) (path : Str) : Option Outcome :=
  (m.getFileStatFromDir path).map (fun files =>
    ⟨m, sendOn SERVER_QUEUE_NUM
      { responseTask o [.int SUCCESS, .int files.size] with extended := files.keys }, [], SUCCESS⟩)

/-- `_parse_unlink` and `_parse_rmdir` differ only in the storage operation. -/
def parseRemove (code : Int) (m : Master) (o : Origin) (path : Str) : Option Outcome :=
  match m.removeFile path with
  | none => none
  | some (m', ops, found) =>
      let status := if found then SUCCESS else -ENOENT
      some ⟨m', ops ++ sendResponse o [.int status], [⟨code, m.getRealPath path, 0⟩],
        if found then SUCCESS else FAILURE⟩

/-- `_parse_unlink`. -/
def parseUnlink := parseRemove UNLINK

/-- `_parse_rmdir`. -/
def parseRmdir := parseRemove RM_DIR

/-- `_parse_mkdir`: the reply holds no field. -/
def parseMkdir (m : Master) (e : Env) (o : Origin) (path : Str) (mode : BitVec 32) : Outcome :=
  ⟨m.createNewFileStat e path .notExist (mode ||| S_IFDIR), sendResponse o [],
    [⟨MKDIR, m.getRealPath path, mode ||| S_IFDIR⟩], SUCCESS⟩

/-- The tables part of `_parse_rename`. The iterator `required_file` is taken before `_remove_file`, so
    it dangles when both paths are the one of an existing entry. -/
def renameTables (m : Master) (oldPath newPath : Str) (newMaster : Int) : Option (Master × List QueueOp) :=
  match m.fileStatPool.find? oldPath with
  | none =>
      if newMaster = MYSELF then (m.removeFile newPath).map (fun res => (res.1, res.2.1))
      else some (m, [])
  | some s =>
      if newMaster = MYSELF then
        if oldPath = newPath then none
        else
          match m.removeFile newPath with
          | none => none
          | some (m1, ops, _) =>
              match m1.renameLocalFile s newPath with
              | none => none
              | some (m2, ops') => some ({ m2 with fileStatPool := m2.fileStatPool.erase oldPath }, ops ++ ops')
      else some (m.setStat oldPath { s with externalFlag := .renamed, externalName := newPath }, [])

/-- `_parse_rename`. -/
def parseRename (m : Master) (o : Origin) (oldPath newPath : Str) (newMaster : Int) : Option Outcome :=
  (m.renameTables oldPath newPath newMaster).map (fun (m', ops) =>
    ⟨m', ops ++ sendResponse o [.int SUCCESS], [], SUCCESS⟩)

/-- `_parse_rename_migrating`. -/
def parseRenameMigrating (m : Master) (o : Origin) (path : Str) (oldMaster : Int) : Outcome :=
  let s := (m.fileStatPool.find? path).getD (defaultStat path)
  (m.setStat path { s with externalFlag := .ext, externalMaster := oldMaster }).reply o [.int SUCCESS] SUCCESS

/-- The `while` loop of `_parse_truncate_file`. -/
def truncateBlocks (size : Nat) : (fuel blockStartPoint : Nat) → BlockList → BlockList
  | 0, _, bl => bl
  | fuel + 1, blockStartPoint, bl =>
      if blockStartPoint + BLOCK_SIZE ≤ size then
        truncateBlocks size fuel (blockStartPoint + BLOCK_SIZE) (bl.erase blockStartPoint)
      else bl

/-- The shrinking part of `_parse_truncate_file`. -/
def shrinkFile (m : Master) (r : FileRef) (f : OpenFileInfo) (size : Nat) : Option (Master × List QueueOp) :=
  match f.primaryReplicaNode with
  | none => none
  | some primary =>
      let blockStartPoint := getBlockStartPoint size
      match sendEach (m.sendTruncateRequest f.fileNo blockStartPoint size) (primary :: f.IOnodesSet.keys) with
      | none => none
      | some ops =>
          let bl := truncateBlocks size size (blockStartPoint + BLOCK_SIZE) f.blockList
          some (m.setFile r (f.setBlocks bl), ops)

/-- `_parse_truncate_file` for a path of this Master; a path that is not open has no object to go to. -/
def truncateLocal (m : Master) (s : FileStat) (size : Nat) : Option (Master × List QueueOp) :=
  match s.openedFileInfo with
  | none => none
  | some r =>
      match m.files r with
      | none => none
      | some f =>
          match m.fileStatPool.find? f.fileStatus with
          | none => none
          | some st =>
              let shrunk := if size < st.status.stSize then m.shrinkFile r f size else some (m, [])
              shrunk.map (fun (m1, ops) =>
                (m1.setStat f.fileStatus (st.setStatus { st.status with stSize := size }), ops))

/-- `_parse_truncate_file`. -/
def parseTruncateFile (m : Master) (o : Origin) (path : Str) (size : Nat) : Option Outcome :=
  match m.fileStatPool.find? path with
  | none => some (m.reply o [.int m.masterNumber, .int (-ENOENT)] FAILURE)
  | some s =>
      if s.isExternal then some (m.reply o [.int s.externalMaster] SUCCESS)
      else
        (m.truncateLocal s size).map (fun (m', ops) =>
          ⟨m', ops ++ sendResponse o [.int m.masterNumber, .int SUCCESS], [], SUCCESS⟩)

/-! ## Nodes -/

/-- `_parse_register_IOnode`. -/
def parseRegisterIOnode (m : Master) (o : Origin) (totalMemory : Nat) (uri : Str) : Outcome :=
  let (id, m') := m.addIOnode uri totalMemory o.handle
  m'.reply o [.long id] SUCCESS

/-- `_parse_new_client`. -/
def parseNewClient (m : Master) (o : Origin) : Outcome := m.reply o [.int SUCCESS] SUCCESS

/-- The result of `_IOnode_failure_handler` as an outcome. -/
def failureOutcome (res : Option (Master × List QueueOp × List (Int × Option NodeRef))) : Option Outcome :=
  res.map (fun (m', ops, _) => ⟨m', ops, [], SUCCESS⟩)

/-- `_parse_node_failure`: a handle that is no IOnode's is a client's, which is closed. -/
def parseNodeFailure (m : Master) (o : Origin) : Option Outcome :=
  match m.getNodeInfoFromHandle o.handle with
  | some r => failureOutcome (m.IOnodeFailureHandler r)
  | none => some ⟨m, [], [], SUCCESS⟩

/-- `_parse_IOnode_failure`. -/
def parseIOnodeFailure (m : Master) (nodeId : Int) : Option Outcome :=
  match m.registeredIOnodes.find? nodeId with
  | some r => failureOutcome (m.IOnodeFailureHandler r)
  | none => some ⟨m, [], [], SUCCESS⟩

/-- `_parse_request`. -/
def parseRequest (m : Master) (e : Env) (o : Origin) : Request → Option Outcome
  | .register totalMemory uri => some (m.parseRegisterIOnode o totalMemory uri)
  | .newClient _ => some (m.parseNewClient o)
  | .openFile path flag mode => m.parseOpenFile e o path flag mode
  | .readFile fileNo startPoint size => m.parseReadFile o fileNo startPoint size
  | .writeFile fileNo attr startPoint size => m.parseWriteFile o fileNo attr startPoint size
  | .flushFile fileNo => m.parseFlushFile o fileNo
  | .closeFile fileNo => m.parseCloseFile o fileNo
  | .getAttr path => some (m.parseAttr o path)
  | .updateMeta fileNo attr => m.parseMetaUpdate fileNo attr
  | .readDir path => m.parseReaddir o path
  | .rmDir path => m.parseRmdir o path
  | .unlink path => m.parseUnlink o path
  | .access path _ => some (m.parseAccess o path)
  | .rename oldPath newPath newMaster => m.parseRename o oldPath newPath newMaster
  | .renameMigrating path oldMaster => some (m.parseRenameMigrating o path oldMaster)
  | .mkdir path mode => some (m.parseMkdir e o path mode)
  | .truncate path size => m.parseTruncateFile o path size
  | .closeClient => some ⟨m, [], [], SUCCESS⟩
  | .nodeFailure => m.parseNodeFailure o
  | .IOnodeFailure nodeId => m.parseIOnodeFailure nodeId

/-! ## Runs -/

/-- One request with the environment it is handled in. -/
structure Event where
  env : Env
  origin : Origin
  request : Request

/-- The Master a constructor leaves: no open file, no node, the path entries of the storage. -/
def initial (pool : OrdMap Str FileStat) (masterNumber : Int) (mountPoint : Str) (numOfReplica : Nat) : Master :=
  { registeredIOnodes := OrdMap.empty, fileStatPool := pool, bufferedFiles := OrdMap.empty,
    IOnodeHandle := OrdMap.empty, fileNumber := 0, nodeIdPool := fun _ => false, fileNoPool := fun _ => false,
    currentNodeNumber := 0, currentFileNo := 0, masterNumber := masterNumber, mountPoint := mountPoint,
    currentIOnode := none, numOfReplica := numOfReplica, nodes := fun _ => none, files := fun _ => none,
    nextNode := 0, nextFile := 0 }

/-- The next state, when the request is handled without undefined behaviour. -/
def step (m : Master) (ev : Event) : Option Master :=
  (m.parseRequest ev.env ev.origin ev.request).map Outcome.master

/-! The path `/a` and a request from the client on handle 3, queue 0, at time zero: concrete runs below
are written with them. -/

def pathA : Str := [47, 97]

def eventOf (request : Request) : Event := ⟨⟨0, 0, 0⟩, ⟨3, 0⟩, request⟩

/-- An empty Master once an IOnode has registered on handle 7. -/
def oneNode : Master := ((initial OrdMap.empty 0 [] 0).parseRegisterIOnode ⟨7, 0⟩ 100 pathA).master

end Master

end HuronFS
