import HuronFS.Master.Blocks

/-!
# `Master.Tables` — the helpers of `Master.cpp` that change the Master's tables

File numbers, path entries, the round-robin choice of IOnodes, open files and their removal, rename,
registration of an IOnode and the handling of its failure. Each helper returns the new state together
with the queue operations it performs, in program order.
-/

namespace HuronFS

/-- What `_open_file` can throw to its caller. -/
inductive OpenError
  | runtimeError
  | invalidArgument
  | badAlloc
deriving DecidableEq, Repr

namespace Master

/-! ## File numbers and node ids -/

/-- The scan of a `bool` pool: the first free index at or after `start`, among the next `fuel`. -/
def freeFrom (pool : Nat → Bool) : (fuel start : Nat) → Option Nat
  | 0, _ => none
  | fuel + 1, start => if pool start then freeFrom pool fuel (start + 1) else some start

/-- The two scans of `_get_file_no` and `_get_node_id`: from the cursor to the end, then from zero. -/
def freeSlot (pool : Nat → Bool) (limit cursor : Nat) : Option Nat :=
  match freeFrom pool (limit - cursor) cursor with
  | some n => some n
  | none => freeFrom pool limit 0

/-- `_get_file_no`. -/
def getFileNo (m : Master) : Int × Master :=
  if m.fileNumber = MAX_FILE_NUMBER then (-1, m)
  else
    match freeSlot m.fileNoPool MAX_FILE_NUMBER m.currentFileNo with
    | some n =>
        (n, { m with
          fileNoPool := Function.update m.fileNoPool n true
          fileNumber := m.fileNumber + 1
          currentFileNo := n + 1 })
    | none => (-1, { m with currentFileNo := MAX_FILE_NUMBER })

/-- `_release_file_no`; an index outside the pool is undefined behaviour. -/
def releaseFileNo (m : Master) (fileNo : Int) : Option Master :=
  if 0 ≤ fileNo ∧ fileNo < MAX_FILE_NUMBER then
    some { m with
      fileNumber := m.fileNumber - 1
      fileNoPool := Function.update m.fileNoPool fileNo.toNat false }
  else none

/-- `_get_node_id`; unlike file numbers, the cursor stays on the id handed out. -/
def getNodeId (m : Master) : Int × Master :=
  if m.registeredIOnodes.size = MAX_IONODE then (-1, m)
  else
    match freeSlot m.nodeIdPool MAX_IONODE m.currentNodeNumber with
    | some n =>
        (n, { m with nodeIdPool := Function.update m.nodeIdPool n true, currentNodeNumber := n })
    | none => (-1, { m with currentNodeNumber := MAX_IONODE })

/-! ## Path entries -/

/-- `_get_real_path`. -/
def getRealPath (m : Master) (path : Str) : Str := m.mountPoint ++ path

/-- A default-constructed `Master_file_stat`, as `insert` puts it under `path`. -/
def defaultStat (path : Str) : FileStat :=
  { status := Stat.zero, name := [], externalFlag := .internal, externalMaster := 0, externalName := [],
    existFlag := .notExist, openedFileInfo := none, fullPath := path }

/-- The attributes `_create_new_file_stat` fills in. -/
def freshStatus (e : Env) (mode : BitVec 32) : Stat :=
  { Stat.zero with
    stMtime := e.now, stAtime := e.now, stCtime := e.now
    stSize := 0, stUid := e.uid, stGid := e.gid, stMode := mode
    stBlksize := BitVec.ofNat 64 (1 * MiB) }

/-- `_create_new_file_stat`: `insert` keeps an entry that is already there, whose attributes and
    `exist_flag` are then overwritten. -/
def createNewFileStat (m : Master) (e : Env) (path : Str) (existFlag : ExistFlag) (mode : BitVec 32) : Master :=
  let entry := (m.fileStatPool.find? path).getD (defaultStat path)
  m.setStat path { entry with fullPath := path, existFlag := existFlag, status := freshStatus e mode }

/-! ## The choice of IOnodes -/

/-- Where an iterator into `_registered_IOnodes` stands after the wrap from `end` to `begin`. -/
def wrapIOnode (m : Master) (it : Option Int) : Option Int :=
  match it with
  | some k => some k
  | none => m.registeredIOnodes.firstKey

/-- `_get_next_IOnode`; the inner `none` is the null pointer of an empty registry. -/
def getNextIOnode (m : Master) : Option (Option NodeRef × Master) :=
  if m.registeredIOnodes.size = 0 then some (none, m)
  else
    match m.wrapIOnode m.currentIOnode with
    | none => none
    | some k =>
        match m.registeredIOnodes.find? k with
        | none => none
        | some r => some (some r, { m with currentIOnode := m.registeredIOnodes.nextKey k })

/-- `node->stored_files.insert(file_no)`. -/
def storeFile (m : Master) (r : NodeRef) (fileNo : Int) : Option Master :=
  match m.nodes r with
  | none => none
  | some n => some (m.setNode r { n with storedFiles := OrdSet.add n.storedFiles fileNo })

/-- The replica loop of `_select_IOnode`. -/
def selectReplicas (fileNo : Int) : (num : Nat) → (it : Option Int) → OrdSet NodeRef → Master →
    Option (OrdSet NodeRef × Master)
  | 0, _, pool, m => some (pool, m)
  | num + 1, it, pool, m =>
      match m.wrapIOnode it with
      | none => none
      | some k =>
          match m.registeredIOnodes.find? k with
          | none => none
          | some r =>
              match m.storeFile r fileNo with
              | none => none
              | some m' =>
                  selectReplicas fileNo num (m.registeredIOnodes.nextKey k) (OrdSet.add pool r) m'

/-- `_select_IOnode`: the primary, the replicas, and the state. It throws when no IOnode is registered. -/
def selectIOnode (m : Master) (fileNo : Int) (numOfNodes : Nat) :
    Option (Except OpenError (NodeRef × OrdSet NodeRef × Master)) :=
  if m.registeredIOnodes.size = 0 then some (.error .runtimeError)
  else
    match m.getNextIOnode with
    | none => none
    | some (none, _) => none
    | some (some mainReplica, m1) =>
        match m1.storeFile mainReplica fileNo with
        | none => none
        | some m2 =>
            let num := min (m2.registeredIOnodes.size - 1) numOfNodes
            match selectReplicas fileNo num m2.currentIOnode OrdMap.empty m2 with
            | none => none
            | some (pool, m3) => some (.ok (mainReplica, pool, m3))

/-! ## Messages to IOnodes about a file -/

/-- The replica list of a message: `node_id` and `uri` of each node of the set. -/
def replicaFields (m : Master) : List NodeRef → Option (List Field)
  | [] => some []
  | r :: rs =>
      match m.nodes r, replicaFields m rs with
      | some n, some fs => some (.long n.nodeId :: .str n.uri :: fs)
      | _, _ => none

/-- `_send_replica_nodes_info`. -/
def sendReplicaNodesInfo (m : Master) (nodes : OrdSet NodeRef) : Option (List Field) :=
  match replicaFields m nodes.keys with
  | none => none
  | some fs => some (.int MAIN_REPLICA :: .int nodes.size :: fs)

/-- The block list as it travels: start point and size of each block. -/
def blockFields (bl : BlockList) : List Field :=
  bl.entries.flatMap (fun b => [.size b.1, .size b.2])

/-- The message of `_send_open_request_to_IOnodes`. -/
def openRequest (m : Master) (file : OpenFileInfo) (node : NodeRef) : Option (List Field) :=
  match m.fileStatPool.find? file.fileStatus with
  | none => none
  | some stat =>
      let head := [.int OPEN_FILE, .long file.fileNo, .w32 file.flag, .int stat.existFlag.code,
        .str stat.fullPath, .int file.blockList.size] ++ blockFields file.blockList
      if some node = file.primaryReplicaNode then
        (m.sendReplicaNodesInfo file.IOnodesSet).map (head ++ ·)
      else some (head ++ [.int SUB_REPLICA, .int 0])

/-- `_send_open_request_to_IOnodes`. -/
def sendOpenRequestToIOnodes (m : Master) (file : OpenFileInfo) (node : NodeRef) : Option (List QueueOp) :=
  match m.nodes node, m.openRequest file node with
  | some n, some message => some (sendIOnode n message)
  | _, _ => none

/-- One request to each of several nodes. -/
def sendEach (send : NodeRef → Option (List QueueOp)) : List NodeRef → Option (List QueueOp)
  | [] => some []
  | r :: rs =>
      match send r, sendEach send rs with
      | some ops, some ops' => some (ops ++ ops')
      | _, _ => none

/-- `_send_rename_request`. -/
def sendRenameRequest (m : Master) (fileNo : Int) (newRelativePath : Str) (node : NodeRef) :
    Option (List QueueOp) :=
  (m.nodes node).map (fun n => sendIOnode n [.int RENAME, .long fileNo, .str newRelativePath])

/-- `_send_truncate_request`. -/
def sendTruncateRequest (m : Master) (fd : Int) (blockStartPoint size : Nat) (node : NodeRef) :
    Option (List QueueOp) :=
  (m.nodes node).map (fun n =>
    sendIOnode n [.int TRUNCATE, .long fd, .size blockStartPoint, .long ((size : Int) - blockStartPoint)])

/-! ## Opening -/

/-- A freshly constructed `open_file_info`. -/
def newOpenFileInfo (fileNo : Int) (flag : BitVec 32) (path : Str) : OpenFileInfo :=
  { fileNo := fileNo, blockList := OrdMap.empty, IOnodesSet := OrdMap.empty, primaryReplicaNode := none,
    blockSize := 0, openCount := 1, flag := flag, fileStatus := path }

/-- `_create_new_open_file_info` up to the choice of nodes: the object exists, `_buffered_files` has an
    entry for `fileNo` (an older one wins), and the path entry points at the object. -/
def enterOpenFile (m : Master) (fileNo : Int) (flag : BitVec 32) (path : Str) (stat : FileStat) : Master :=
  { m with
    nextFile := m.nextFile + 1
    files := Function.update m.files m.nextFile
      (some { newOpenFileInfo fileNo flag path with blockSize := getBlockSize stat.status.stSize })
    bufferedFiles := m.bufferedFiles.insert fileNo m.nextFile
    fileStatPool := m.fileStatPool.put path { stat with openedFileInfo := some m.nextFile } }

/-- The object of a file just opened, its nodes chosen and its block list built. -/
def placedFile (fileNo : Int) (flag : BitVec 32) (path : Str) (stSize : Nat) (mainReplica : NodeRef)
    (pool : OrdSet NodeRef) : OpenFileInfo :=
  { newOpenFileInfo fileNo flag path with
    blockSize := getBlockSize stSize
    primaryReplicaNode := some mainReplica
    IOnodesSet := pool
    blockList := createBlockList stSize (getBlockSize stSize) OrdMap.empty }

/-- `_create_new_open_file_info`. When no IOnode can be chosen the file number is released and the
    exception goes on; the entries made before stay. -/
def createNewOpenFileInfo (m : Master) (fileNo : Int) (flag : BitVec 32) (path : Str) :
    Option (Master × List QueueOp × Except OpenError FileRef) :=
  match m.fileStatPool.find? path with
  | none => none
  | some stat =>
      let m1 := m.enterOpenFile fileNo flag path stat
      let r := m.nextFile
      match m1.selectIOnode fileNo (min m.numOfReplica m.registeredIOnodes.size) with
      | none => none
      | some (.error err) =>
          match m1.releaseFileNo fileNo with
          | none => none
          | some m2 => some (m2, [], .error err)
      | some (.ok (mainReplica, pool, m2)) =>
          let file := placedFile fileNo flag path stat.status.stSize mainReplica pool
          let m3 := m2.setFile r file
          match sendEach (m3.sendOpenRequestToIOnodes file) (mainReplica :: pool.keys) with
          | none => none
          | some ops => some (m3, ops, .ok r)

/-- `++file->open_count`. -/
def addOpenCount (m : Master) (r : FileRef) : Option Master :=
  match m.files r with
  | none => none
  | some f => some (m.setFile r { f with openCount := f.openCount + 1 })

/-- `_open_file`; the result is the file number. -/
def openFile (m : Master) (e : Env) (path : Str) (flag mode : BitVec 32) :
    Option (Master × List QueueOp × Except OpenError Int) :=
  match m.fileStatPool.find? path with
  | none =>
      let (fileNo, m1) := m.getFileNo
      if fileNo ≠ -1 then
        match (m1.createNewFileStat e path .notExist (S_IFREG ||| mode)).createNewOpenFileInfo fileNo flag path with
        | none => none
        | some (m2, ops, .error err) => some (m2, ops, .error err)
        | some (m2, ops, .ok _) => some (m2, ops, .ok fileNo)
      else some (m1, [], .error .badAlloc)
  | some fileStat =>
      match fileStat.openedFileInfo with
      | none =>
          -- the number is not checked here: `-1` goes on to the tables
          let (fileNo, m1) := m.getFileNo
          match m1.createNewOpenFileInfo fileNo flag path with
          | none => none
          | some (m2, ops, .error err) => some (m2, ops, .error err)
          | some (m2, ops, .ok r) =>
              match m2.addOpenCount r with
              | none => none
              | some m3 => some (m3, ops, .ok fileNo)
      | some r =>
          match m.files r with
          | none => none
          | some f => some (m.setFile r { f with openCount := f.openCount + 1 }, [], .ok f.fileNo)

/-! ## Removal and rename -/

/-- `_send_remove_request` to each node, which also forgets the file. -/
def sendRemoveRequests (fileNo : Int) : List NodeRef → Master → Option (Master × List QueueOp)
  | [], m => some (m, [])
  | r :: rs, m =>
      match m.nodes r with
      | none => none
      | some n =>
          match sendRemoveRequests fileNo rs (m.setNode r { n with storedFiles := n.storedFiles.erase fileNo }) with
          | none => none
          | some (m', ops) => some (m', sendIOnode n [.int UNLINK, .long fileNo] ++ ops)

/-- `_remove_open_file`. -/
def removeOpenFile (m : Master) (r : FileRef) : Option (Master × List QueueOp) :=
  match m.files r with
  | none => none
  | some f =>
      match f.primaryReplicaNode with
      | none => none
      | some primary =>
          match sendRemoveRequests f.fileNo (primary :: f.IOnodesSet.keys) m with
          | none => none
          | some (m1, ops) =>
              let m2 := { m1 with
                bufferedFiles := m1.bufferedFiles.erase f.fileNo
                files := Function.update m1.files r none }
              match m2.releaseFileNo f.fileNo with
              | none => none
              | some m3 => some (m3, ops)

/-- `_remove_file`; the result is whether the path had an entry. -/
def removeFile (m : Master) (path : Str) : Option (Master × List QueueOp × Bool) :=
  match m.fileStatPool.find? path with
  | none => some (m, [], false)
  | some fileStat =>
      match fileStat.openedFileInfo with
      | none => some ({ m with fileStatPool := m.fileStatPool.erase path }, [], true)
      | some r =>
          match m.removeOpenFile r with
          | none => none
          | some (m', ops) => some ({ m' with fileStatPool := m'.fileStatPool.erase path }, ops, true)

/-- `_rename_local_file`: a copy of the entry goes under the new path, unless one is there. -/
def renameLocalFile (m : Master) (fileStat : FileStat) (newRelativePath : Str) : Option (Master × List QueueOp) :=
  let entry := (m.fileStatPool.find? newRelativePath).getD fileStat
  let m1 := m.setStat newRelativePath { entry with fullPath := newRelativePath }
  match entry.openedFileInfo with
  | none => some (m1, [])
  | some r =>
      match m1.files r with
      | none => none
      | some f =>
          let m2 := m1.setFile r { f with fileStatus := newRelativePath }
          match f.primaryReplicaNode with
          | none => none
          | some primary =>
              match sendEach (m2.sendRenameRequest f.fileNo newRelativePath) (primary :: f.IOnodesSet.keys) with
              | none => none
              | some ops => some (m2, ops)

/-! ## Registration of an IOnode -/

/-- `_find_by_uri`. -/
def findByUri (m : Master) (uri : Str) : Bool :=
  m.registeredIOnodes.entries.any (fun e =>
    match m.nodes e.2 with
    | some n => n.uri == uri
    | none => false)

/-- `_add_IOnode`: an id is taken before the uri is checked. -/
def addIOnode (m : Master) (uri : Str) (totalMemory : Nat) (handle : Handle) : Int × Master :=
  let (id, m1) := m.getNodeId
  if id = -1 then (-1, m1)
  else if m1.findByUri uri then (-1, m1)
  else
    let r := m1.nextNode
    (id, { m1 with
      nextNode := r + 1
      nodes := Function.update m1.nodes r (some
        { handle := handle, nodeId := id, uri := uri, storedFiles := OrdMap.empty,
          avaliableMemory := totalMemory, totalMemory := totalMemory })
      registeredIOnodes := m1.registeredIOnodes.insert id r
      IOnodeHandle := OrdSet.add m1.IOnodeHandle r })

/-- `_get_node_info_from_handle`. -/
def getNodeInfoFromHandle (m : Master) (handle : Handle) : Option NodeRef :=
  m.IOnodeHandle.keys.find? (fun r => (m.nodes r).any (fun n => n.handle == handle))

/-! ## Failure of an IOnode -/

/-- `_send_remove_IOnode_request`. -/
def sendRemoveIOnodeRequest (m : Master) (removed : NodeRef) (nodeId : Int) : Option (List QueueOp) :=
  sendEach (fun r =>
      if r = removed then some []
      else (m.nodes r).map (fun n => sendIOnode n [.int REMOVE_IONODE, .long nodeId]))
    (m.registeredIOnodes.entries.map Prod.snd)

/-- The `do … while` of `_allocate_replace_IOnode`. -/
def replaceLoop (nodePool : OrdSet NodeRef) (oldNode : NodeRef) : (fuel : Nat) → Master →
    Option (Option NodeRef × Master)
  | 0, _ => none
  | fuel + 1, m =>
      match m.getNextIOnode with
      | none => none
      | some (newNode, m') =>
          if newNode = some oldNode ∧ OrdSet.Mem nodePool oldNode then replaceLoop nodePool oldNode fuel m'
          else some (newNode, m')

/-- `_allocate_replace_IOnode`. The loop leaves the old node behind after one turn, so the registry's
    size is fuel enough. -/
def allocateReplaceIOnode (m : Master) (nodePool : OrdSet NodeRef) (oldNode : NodeRef) :
    Option (Option NodeRef × Master) :=
  if nodePool.size < m.numOfReplica then some (none, m)
  else replaceLoop nodePool oldNode m.registeredIOnodes.size m

/-- `_resend_replica_nodes_info_to_new_node`. -/
def resendReplicaNodesInfoToNewNode (m : Master) (file : OpenFileInfo) (primary newNode : NodeRef) :
    Option (List QueueOp) :=
  match m.nodes primary, m.nodes newNode, m.sendReplicaNodesInfo file.IOnodesSet with
  | some p, some n, some fs =>
      some (sendIOnode p ([.int PROMOTED_TO_PRIMARY_REPLICA, .long file.fileNo, .long n.nodeId] ++ fs))
  | _, _, _ => none

/-- `_replace_replica_nodes_info`. -/
def replaceReplicaNodesInfo (m : Master) (file : OpenFileInfo) (newNode replaced : NodeRef) :
    Option (List QueueOp) :=
  match file.primaryReplicaNode.bind m.nodes, m.nodes newNode, m.nodes replaced with
  | some p, some n, some old =>
      some (sendIOnode p [.int REPLACE_REPLICA, .long file.fileNo, .long old.nodeId, .long n.nodeId, .str n.uri])
  | _, _, _ => none

/-- The file once `primary`, taken from the remaining replicas, leads and `new` joins them. -/
def promotedFile (file : OpenFileInfo) (rest : OrdSet NodeRef) (primary new : NodeRef) : OpenFileInfo :=
  { file with primaryReplicaNode := some primary, IOnodesSet := OrdSet.add (rest.erase primary) new }

/-- The file once `new` joins the remaining replicas. -/
def replacedFile (file : OpenFileInfo) (rest : OrdSet NodeRef) (new : NodeRef) : OpenFileInfo :=
  { file with IOnodesSet := OrdSet.add rest new }

/-- The body of the loop of `_recreate_replicas` for one file stored on the failed node. The last
    component is the replacement node, when one was allocated. -/
def recreateReplica (m : Master) (failed : NodeRef) (fileNo : Int) :
    Option (Master × List QueueOp × Option NodeRef) :=
  match m.openFileOf fileNo with
  | none => none
  | some (r, file) =>
      match m.allocateReplaceIOnode file.IOnodesSet failed with
      | none => none
      | some (newIOnode, m1) =>
          let rest := file.IOnodesSet.erase failed
          match newIOnode with
          | some new =>
              if file.primaryReplicaNode = some failed then
                match rest.firstKey with
                | none => none
                | some primary =>
                    let file' := promotedFile file rest primary new
                    let m2 := m1.setFile r file'
                    match m2.resendReplicaNodesInfoToNewNode file' primary new,
                        m2.sendOpenRequestToIOnodes file' new with
                    | some ops, some ops' => some (m2, ops ++ ops', some new)
                    | _, _ => none
              else
                let file' := replacedFile file rest new
                let m2 := m1.setFile r file'
                match m2.replaceReplicaNodesInfo file' new failed, m2.sendOpenRequestToIOnodes file' new with
                | some ops, some ops' => some (m2, ops ++ ops', some new)
                | _, _ => none
          | none =>
              if file.primaryReplicaNode = some failed then
                match rest.firstKey with
                | some primary =>
                    some (m1.setFile r { file with
                      primaryReplicaNode := some primary
                      IOnodesSet := rest.erase primary }, [], none)
                | none => some (m1.setFile r { file with IOnodesSet := rest }, [], none)
              else some (m1.setFile r { file with IOnodesSet := rest }, [], none)

/-- The body of the loop of `_remove_IOnode_buffered_file`. -/
def removeBufferedFile (m : Master) (failed : NodeRef) (fileNo : Int) : Option Master :=
  match m.openFileOf fileNo with
  | none => none
  | some (r, file) =>
      let rest := file.IOnodesSet.erase failed
      if file.primaryReplicaNode = some failed then
        match rest.firstKey with
        | none => none
        | some primary =>
            some (m.setFile r { file with IOnodesSet := rest, primaryReplicaNode := some primary })
      else some (m.setFile r { file with IOnodesSet := rest })

/-- `_remove_IOnode_buffered_file`. -/
def removeIOnodeBufferedFile (failed : NodeRef) : List Int → Master → Option Master
  | [], m => some m
  | fileNo :: rest, m =>
      match m.removeBufferedFile failed fileNo with
      | none => none
      | some m' => removeIOnodeBufferedFile failed rest m'

/-- The loop of `_recreate_replicas`; the last component lists the replacements per file. -/
def recreateEach (failed : NodeRef) : List Int → Master →
    Option (Master × List QueueOp × List (Int × Option NodeRef))
  | [], m => some (m, [], [])
  | fileNo :: rest, m =>
      match m.recreateReplica failed fileNo with
      | none => none
      | some (m1, ops, new) =>
          match recreateEach failed rest m1 with
          | none => none
          | some (m2, ops', news) => some (m2, ops ++ ops', (fileNo, new) :: news)

/-- `_recreate_replicas`. -/
def recreateReplicas (m : Master) (failed : NodeRef) :
    Option (Master × List QueueOp × List (Int × Option NodeRef)) :=
  match m.nodes failed with
  | none => none
  | some node =>
      if m.registeredIOnodes.size = 1 then
        (removeIOnodeBufferedFile failed node.storedFiles.keys m).map (fun m' => (m', [], []))
      else recreateEach failed node.storedFiles.keys m

/-- `_remove_IOnode`: the cursor is dereferenced whenever a node is registered. -/
def removeIOnode (m : Master) (removed : NodeRef) : Option Master :=
  match m.nodes removed with
  | none => none
  | some node =>
      let cursor :=
        if m.registeredIOnodes.size = 0 then some m.currentIOnode
        else
          match m.currentIOnode with
          | none => none
          | some k =>
              match m.registeredIOnodes.find? k with
              | none => none
              | some _ => some (if k = node.nodeId then m.registeredIOnodes.nextKey k else some k)
      match cursor with
      | none => none
      | some it =>
          some { m with
            currentIOnode := it
            registeredIOnodes := m.registeredIOnodes.erase node.nodeId
            nodes := Function.update m.nodes removed none }

/-- `_unregister_IOnode`. -/
def unregisterIOnode (m : Master) (removed : NodeRef) : Option Master :=
  { m with IOnodeHandle := m.IOnodeHandle.erase removed }.removeIOnode removed

/-- `_IOnode_failure_handler`. -/
def IOnodeFailureHandler (m : Master) (failed : NodeRef) :
    Option (Master × List QueueOp × List (Int × Option NodeRef)) :=
  match m.nodes failed with
  | none => none
  | some node =>
      match m.sendRemoveIOnodeRequest failed node.nodeId, m.recreateReplicas failed with
      | some ops, some (m1, ops', news) =>
          match m1.unregisterIOnode failed with
          | none => none
          | some m2 => some (m2, ops ++ ops', news)
      | _, _ => none

end Master

end HuronFS
