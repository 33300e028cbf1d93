import HuronFS.Client.BlockCache
import HuronFS.Client.FileTables
import HuronFS.Client.QueuePool

/-!
# `Client.QueueOps` — the operations of a client and the queues they lock (`CBB_client.cpp`)

Each operation is written as what it does to the communication queues, with the tables of the client that decide which way it goes. A
runtime error ends an attempt, and the tables stay as they are then. What the queries say is in `Client.Calls` and `Client.Transfer`;
what `_get_blocks_from_cache` returns (`Client.BlockCache`) is given with the call.

Most operations are made of one exchange after another, each of which gives its queue back. Two are not. The loops that follow a
redirected path go on only if `response_dequeue` returns other than zero, which it never does, and then give the queue back again; and
a rename between two masters has a second query and a second response under the names of the first, whose response it gives back twice.
-/

namespace HuronFS

/-- What does not change while a client runs. The size in `_get_master_number_from_path` is static. -/
structure ClientEnv where
  hash : Str → Nat
  size : Nat
  masterIps : Nat
  usingCache : Bool

/-- What the operations read and write: the tables of open files, the IOnodes that the client has a connection to, by the master they
    belong to, and the connections to the masters. -/
structure ClientState where
  files : FileTables
  nodes : Nat → OrdSet Int
  masters : Nat
  threadStarted : Bool

/-- An operation, or a part of one; the result is `none` when a runtime error is thrown. -/
def Operation (α : Type) : Type := ClientState → Program (Option α × ClientState)

namespace Operation

variable {α β : Type}

/-- What comes after a part of an operation; nothing, if it has thrown. -/
def andThen (f : α → Operation β) (out : Option α × ClientState) : Program (Option β × ClientState) :=
  match out.1 with
  | some a => f a out.2
  | none => .done (none, out.2)

def bind (m : Operation α) (f : α → Operation β) : Operation β := fun t => (m t).bind (andThen f)

instance : Monad Operation where
  pure a := fun t => .done (some a, t)
  bind := bind

def undefined : Operation α := fun _ => .stuck

def throw : Operation α := fun t => .done (none, t)

def get : Operation ClientState := fun t => .done (some t, t)

def set (t : ClientState) : Operation Unit := fun _ => .done (some (), t)

def ofOption : Option α → Operation α
  | some a => pure a
  | none => undefined

/-- A change of the tables that may be undefined. -/
def updateFiles (f : FileTables → Option FileTables) : Operation Unit := do
  let t ← get
  let files ← ofOption (f t.files)
  set { t with files }

/-! ## Queries -/

/-- `allocate_new_query`. -/
def allocateNewQuery : Operation Nat := fun t => .getNewCommunicationQueue (fun id => .done (some id, t))

/-- `release_communication_queue`, and `response_dequeue`, which returns what it returns: zero. -/
def releaseCommunicationQueue (id : Nat) : Operation Unit := fun t => .releaseCommunicationQueue id (.done (some (), t))

/-- `get_query_response`. -/
def getQueryResponse (id : Nat) : Operation Response := fun t => .getQueryResponse id (fun r => .done (r, t))

/-- A query, its response, what is done with it, and `response_dequeue`. -/
def exchange (body : Response → Operation α) : Operation α := do
  let query ← allocateNewQuery
  let response ← getQueryResponse query
  let a ← body response
  releaseCommunicationQueue query
  pure a

/-- An exchange whose response is a status. -/
def status : Operation Int := exchange (fun response => do
  let (ret, _) ← ofOption (popInt response.fields)
  pure ret)

/-- The loop of `_register_to_master`, and the value it returns. -/
def registerToMaster : Nat → (ret : Int) → Operation Int
  | 0, ret => pure ret
  | n + 1, _ => fun t =>
      (exchange (fun response => do
        let (ret, _) ← ofOption (popInt response.fields)
        let t ← get
        set { t with masters := t.masters + 1 }
        pure ret) t).bind (fun out => match out.1 with
          | some ret => registerToMaster n ret out.2
          | none => .done (some (-1), out.2))

/-- `CHECK_INIT`. -/
def checkInit (env : ClientEnv) : Operation Unit := do
  let t ← get
  if t.threadStarted then pure ()
  else
    let ret ← registerToMaster env.masterIps 0
    let t ← get
    if ret = -1 then pure () else set { t with threadStarted := true }

/-- `_get_master_number_from_path`. -/
def masterNumber (env : ClientEnv) (path : Str) : Nat := getMasterNumberFromPath env.hash env.size path

/-- `_get_master_handle_from_master_number`. An index that is out of range ends the process: the functions declare no such exception. -/
def getMasterHandle (number : Int) : Operation Unit := do
  let t ← get
  if 0 ≤ number ∧ number < t.masters then pure () else undefined

def getMasterHandleFromPath (env : ClientEnv) (path : Str) : Operation Unit :=
  if env.size = 0 then undefined else getMasterHandle (masterNumber env path)

/-! ## Files -/

/-- `remote_open`: what it gets of the file. The loop in it has nothing to go round for, as `ret` is only read after it. -/
def remoteOpen (env : ClientEnv) (path : Str) : Operation (Option (Int × Nat × Stat)) := do
  getMasterHandleFromPath env path
  exchange (fun response => do
    let (ret, rest) ← ofOption (popInt response.fields)
    if ret = SUCCESS then
      let (fileNo, rest) ← ofOption (popLong rest)
      let (blockSize, rest) ← ofOption (popSize rest)
      let (stat, _) ← ofOption (receiveStat rest)
      pure (some (fileNo, blockSize, stat))
    else pure none)

/-- `_open`. A file that is not opened leads to a null pointer. -/
def openOnce (env : ClientEnv) (path : Str) (flag : BitVec 32) : Operation Int := do
  checkInit env
  let t ← get
  match t.files.getFid with
  | none => pure (-1)
  | some (fid, files) =>
      set { t with files }
      match files.pathFileMetaMap.find? path with
      | some ⟨_, none⟩ => undefined
      | some ⟨_, some r⟩ =>
          let (files, fd) ← ofOption (files.attach fid flag r)
          set { t with files }
          pure fd
      | none =>
          match ← remoteOpen env path with
          | none => undefined
          | some (fileNo, blockSize, stat) =>
              let t ← get
              let (files, fd) ← ofOption ((t.files.createMeta path fileNo blockSize stat).attach fid flag t.files.nextMeta)
              set { t with files }
              pure fd

/-- The file of a descriptor. One that is not open ends the process. -/
def fileOf (fd : Int) : Operation (OpenedFile × ClientMeta) := do
  let t ← get
  let file ← ofOption (t.files.fileList.find? (fd - INIT_FD))
  let fileMeta ← ofOption (t.files.metas file.fileMeta)
  pure (file, fileMeta)

/-- `_close`. -/
def closeOnce (env : ClientEnv) (fd : Int) : Operation Int := do
  checkInit env
  let (file, _) ← fileOf fd
  let ret ← status
  if ret = SUCCESS then
    updateFiles (fun files => files.deleteOpenFile (fd - INIT_FD) file)
    pure 0
  else pure (-1)

/-- `_flush`. -/
def flushOnce (env : ClientEnv) (fd : Int) : Operation Int := do
  let _ ← fileOf fd
  checkInit env
  let ret ← status
  if ret = SUCCESS then pure 0 else pure (-1)

/-- The loop of `_close_local_opened_file`. -/
def closeLoop (env : ClientEnv) (r : MetaRef) : List Int → Operation Unit
  | [] => pure ()
  | fd :: rest => do
      let _ ← closeOnce env fd
      let t ← get
      let m ← ofOption (t.files.metas r)
      if (m.openedFd.find? fd).isSome then
        set { t with files := t.files.setMeta r { m with openCount := m.openCount - 1 } }
        closeLoop env r rest
      else undefined

/-- `_close_local_opened_file`. -/
def closeLocalOpenedFile (env : ClientEnv) (path : Str) : Operation Unit := do
  let t ← get
  match t.files.pathFileMetaMap.find? path with
  | none => pure ()
  | some ⟨_, none⟩ => undefined
  | some ⟨_, some r⟩ =>
      let m ← ofOption (t.files.metas r)
      closeLoop env r m.openedFd.keys
      updateFiles (fun files => files.deleteFileMeta r)

/-! ## Paths -/

/-- `_rmdir` and `_mkdir`: one query, and its status. -/
def pathOnce (env : ClientEnv) (path : Str) : Operation Int := do
  checkInit env
  getMasterHandleFromPath env path
  status

def rmdirOnce (env : ClientEnv) (path : Str) : Operation Int := pathOnce env path

def mkdirOnce (env : ClientEnv) (path : Str) : Operation Int := pathOnce env path

/-- `_unlink`. -/
def unlinkOnce (env : ClientEnv) (path : Str) : Operation Int := do
  let ret ← pathOnce env path
  if ret = SUCCESS then
    closeLocalOpenedFile env path
    pure 0
  else pure ret

/-- `_readdir`, over the masters that are left. -/
def readdirLoop : Nat → Operation Int
  | 0 => pure 0
  | n + 1 => do
      let ret ← exchange (fun response => do
        let (ret, rest) ← ofOption (popInt response.fields)
        if ret = SUCCESS then
          let _ ← ofOption (popInt rest)
          pure ret
        else pure ret)
      if ret = SUCCESS then readdirLoop n else pure ret

def readdirOnce (env : ClientEnv) : Operation Int := do
  checkInit env
  let t ← get
  readdirLoop t.masters

/-- The condition of the loops that follow a redirected path: `response_dequeue` returns zero, and the loop is left. -/
def leaveLoop (redirected : Bool) (query : Nat) : Operation Unit := if redirected then releaseCommunicationQueue query else pure ()

/-- `Recv_attr`, in a response that has attributes. -/
def receiveAttr (attr : Bool) (ret : Int) (rest : List Field) : Operation Unit :=
  if attr = true ∧ ret = SUCCESS then do
    let _ ← ofOption (receiveStat rest)
    pure ()
  else pure ()

/-- What comes after the loop. -/
def forwardedEnd (query : Nat) (attr : Bool) (rest : List Field) : Operation Int := do
  let (ret, rest) ← ofOption (popInt rest)
  receiveAttr attr ret rest
  releaseCommunicationQueue query
  pure ret

/-- What is done with the response to a query that may be redirected. -/
def forwardedRest (number query : Nat) (attr : Bool) (response : Response) : Operation Int := do
  let (ret, rest) ← ofOption (popInt response.fields)
  getMasterHandle ret
  leaveLoop ((number : Int) != ret) query
  forwardedEnd query attr rest

/-- `remote_getattr`, `remote_access` and `_truncate`; `attr` says that attributes are received. -/
def forwarded (env : ClientEnv) (path : Str) (attr : Bool) : Operation Int := do
  checkInit env
  getMasterHandleFromPath env path
  let query ← allocateNewQuery
  let response ← getQueryResponse query
  forwardedRest (masterNumber env path) query attr response

/-- `_get_local_attr`, of a path that is in the map. -/
def getLocalAttr (e : PathEntry) : Operation Int :=
  match e.fileMeta with
  | none => undefined
  | some r => do
      let t ← get
      let _ ← ofOption (t.files.metas r)
      pure 0

/-- `_getattr`. -/
def getattrOnce (env : ClientEnv) (path : Str) : Operation Int := do
  checkInit env
  let t ← get
  match t.files.pathFileMetaMap.find? path with
  | some e => getLocalAttr e
  | none => forwarded env path true

/-- `_access`. -/
def accessOnce (env : ClientEnv) (path : Str) : Operation Int := do
  checkInit env
  let t ← get
  match t.files.pathFileMetaMap.find? path with
  | some _ => pure 0
  | none => forwarded env path false

/-- `_truncate`. -/
def truncateOnce (env : ClientEnv) (path : Str) : Operation Int := forwarded env path false

/-- The first query of a `_rename`, and what follows its response. -/
def renameRest (migrating : Bool) (query : Nat) (response : Response) : Operation Int := do
  let (ret, _) ← ofOption (popInt response.fields)
  if migrating then
    releaseCommunicationQueue query
    let newQuery ← allocateNewQuery
    let newResponse ← getQueryResponse newQuery
    let (ret, _) ← ofOption (popInt newResponse.fields)
    -- the response that is in scope is the first one
    releaseCommunicationQueue query
    pure ret
  else
    releaseCommunicationQueue query
    pure ret

/-- `_rename`. -/
def renameOnce (env : ClientEnv) (oldName newName : Str) : Operation Int := do
  checkInit env
  getMasterHandleFromPath env oldName
  getMasterHandleFromPath env newName
  updateFiles (fun files => files.renameLocal oldName newName)
  let query ← allocateNewQuery
  let response ← getQueryResponse query
  renameRest (masterNumber env newName != masterNumber env oldName) query response

/-! ## Transfers -/

/-- What `_get_blocks_from_cache` returns; `none` when a node is not in the list of its master, which throws. -/
abbrev Cached := Option (CacheAnswer × BlockList × OrdSet Int)

/-- `_get_IOnode_handle`: whether there is a handle, or a null pointer. -/
def getIOnodeHandle (master : Nat) (id : Int) : Operation Bool := do
  let t ← get
  if ((t.nodes master).find? id).isSome then pure true
  else exchange (fun response => do
    let (ret, _) ← ofOption (popInt response.fields)
    if ret = SUCCESS then
      let t ← get
      set { t with nodes := Function.update t.nodes master (OrdSet.add (t.nodes master) id) }
      pure true
    else pure false)

/-- The first loop of `_parse_blocks_from_master`. -/
def parseNodes (master : Nat) : Nat → List Field → OrdMap Int Bool → Operation (OrdMap Int Bool × List Field)
  | 0, fields, nodePool => pure (nodePool, fields)
  | n + 1, fields, nodePool => do
      let (id, fields) ← ofOption (popLong fields)
      let (_, fields) ← ofOption (popString fields)
      let handle ← getIOnodeHandle master id
      parseNodes master n fields (nodePool.insert id handle)

/-- The second loop. -/
def parseBlockList : Nat → List Field → BlockList → Option (BlockList × List Field)
  | 0, fields, blocks => some (blocks, fields)
  | n + 1, fields, blocks =>
      match popSize fields with
      | some (startPoint, fields) =>
          match popSize fields with
          | some (size, fields) => parseBlockList n fields (blocks.insert startPoint size)
          | none => none
      | none => none

/-- `_write_update_file_size` and `_update_file_size_from_master`: the size of the file grows. -/
def growFile (r : MetaRef) (size : Nat) : Operation Unit :=
  updateFiles (fun files => (files.metas r).map (fun m =>
    if size > m.fileStat.stSize then files.setMeta r { m with fileStat := { m.fileStat with stSize := size } } else files))

/-- `_get_blocks_from_master`. -/
def getBlocksFromMaster (master : Nat) (r : MetaRef) (mode : IOMode) (startPoint size : Nat) (blocks : BlockList) (nodePool : OrdMap Int Bool) :
    Operation (Option (BlockList × OrdMap Int Bool)) := do
  if mode = .write then growFile r (startPoint + size)
  exchange (fun response => do
    let (ret, rest) ← ofOption (popInt response.fields)
    if ret = SUCCESS then
      let (fileSize, rest) ← ofOption (popSize rest)
      growFile r fileSize
      let (count, rest) ← ofOption (popInt rest)
      let (nodePool, rest) ← parseNodes master count.toNat rest nodePool
      let (count, rest) ← ofOption (popInt rest)
      let (blocks, _) ← ofOption (parseBlockList count.toNat rest blocks)
      pure (some (blocks, nodePool))
    else pure none)

/-- `_update_meta`: no response is waited for. -/
def updateMeta (r : MetaRef) (startPoint size : Nat) : Operation Unit := do
  growFile r (startPoint + size)
  let query ← allocateNewQuery
  releaseCommunicationQueue query

/-- What a query has moved: the bytes that were received, or those that were sent. -/
def transferred (mode : IOMode) (left received : Nat) : Nat :=
  match mode with
  | .read => received
  | .write => transferSize left

/-- The size that is left of a read that starts at `startPoint`, in a file of `stSize` bytes. -/
def limitedSize (mode : IOMode) (stSize startPoint size : Nat) : Nat :=
  match mode with
  | .read => if size + startPoint > stSize then stSize - startPoint else size
  | .write => size

/-- The loops of `_read_from_IOnode` and `_write_to_IOnode`: a file that is not found is asked for again, and so is what another status
    came for. The fuel is the number of queries that are sent at most; with none left it is still going on. -/
def transferLoop (mode : IOMode) : (fuel left ans : Nat) → Operation Nat
  | 0, left, ans => if left = 0 then pure ans else undefined
  | fuel + 1, left, ans =>
      if left = 0 then pure ans
      else do
        let (ret, received) ← exchange (fun response => do
          let (ret, _) ← ofOption (popInt response.fields)
          pure (ret, response.received))
        if ret = SUCCESS then
          transferLoop mode fuel (ClientFile.subSize left (transferred mode left received)) (ans + transferred mode left received)
        else transferLoop mode fuel left ans

/-- `remote_IO` up to the transfer, the caches having answered `cached`: the blocks and the nodes, unless it gives up. -/
def prepareIo (env : ClientEnv) (master : Nat) (r : MetaRef) (mode : IOMode) (startPoint size : Nat) (cached : Cached) :
    Operation (Option (Option (BlockList × OrdMap Int Bool))) :=
  if env.usingCache then
    match cached with
    | none => pure none
    | some (.needUpdate, blocks, nodes) => do
        let prepared ← getBlocksFromMaster master r mode startPoint size blocks (nodes.mapValues (fun _ => true))
        pure (some prepared)
    | some (.updateMetaOnly, blocks, nodes) => do
        updateMeta r startPoint size
        pure (some (some (blocks, nodes.mapValues (fun _ => true))))
    | some (.noNeedUpdate, _, _) => pure (some none)
  else do
    let prepared ← getBlocksFromMaster master r mode startPoint size OrdMap.empty OrdMap.empty
    pure (some prepared)

/-- `_read_from_IOnode` and `_write_to_IOnode`. A null handle is read once a query is filled in. -/
def transfer (fuel : Nat) (r : MetaRef) (mode : IOMode) (startPoint size : Nat) (blocks : BlockList) (nodePool : OrdMap Int Bool) :
    Operation Nat := do
  let t ← get
  let m ← ofOption (t.files.metas r)
  let _ ← ofOption blocks.firstKey
  let node ← ofOption nodePool.firstKey
  if limitedSize mode m.fileStat.stSize startPoint size = 0 then pure 0
  else if nodePool.find? node = some true then transferLoop mode fuel (limitedSize mode m.fileStat.stSize startPoint size) 0
  else undefined

/-- `remote_IO`. -/
def remoteIo (env : ClientEnv) (fuel master : Nat) (r : MetaRef) (mode : IOMode) (startPoint size : Nat) (cached : Cached) : Operation (Option Nat) := do
  match ← prepareIo env master r mode startPoint size cached with
  | none => pure none
  | some none => pure (some 0)
  | some (some (blocks, nodePool)) =>
      let ans ← transfer fuel r mode startPoint size blocks nodePool
      pure (some ans)

/-- `_read` and `_write`. `master` is the number of the master that the file belongs to. -/
def transferOnce (env : ClientEnv) (fuel master : Nat) (mode : IOMode) (fd : Int) (size : Nat) (cached : Cached) : Operation Int := do
  checkInit env
  if size = 0 then pure 0
  else
    let t ← get
    match t.files.fileList.find? (fd - INIT_FD) with
    | none => pure (-1)
    | some file =>
        let m ← ofOption (t.files.metas file.fileMeta)
        if limitedSize mode m.fileStat.stSize file.currentPoint size = 0 then pure 0
        else
          match ← remoteIo env fuel master file.fileMeta mode file.currentPoint
            (limitedSize mode m.fileStat.stSize file.currentPoint size) cached with
          | none => pure (-1)
          | some done =>
              updateFiles (fun files => some { files with
                fileList := files.fileList.modify (fd - INIT_FD) (fun file => { file with currentPoint := file.currentPoint + done }) })
              pure done

/-- `_ftruncate`. -/
def ftruncateOnce (env : ClientEnv) (fd : Int) (size : Nat) : Operation Int := do
  checkInit env
  let (file, m) ← fileOf fd
  updateFiles (fun files => some (files.setMeta file.fileMeta { m with fileStat := { m.fileStat with stSize := size } }))
  let it ← ofOption m.it
  truncateOnce env it.path

/-! ## Calls -/

/-- The loop of every public call. -/
def retry (attempt : Nat → Operation Int) (failure : Int) : (n i : Nat) → Operation Int
  | 0, _ => pure failure
  | n + 1, i => fun t => (attempt i t).bind (fun out => match out.1 with
      | some ret => .done (some ret, out.2)
      | none => retry attempt failure n (i + 1) out.2)

end Operation

/-- A call of a client. For a transfer, what the cache answers in each attempt. -/
inductive QueueCall
  | open (path : Str) (flag : BitVec 32)
  | read (master : Nat) (fd : Int) (size : Nat) (cached : Nat → Operation.Cached)
  | write (master : Nat) (fd : Int) (size : Nat) (cached : Nat → Operation.Cached)
  | close (fd : Int)
  | flush (fd : Int)
  | getattr (path : Str)
  | readdir
  | unlink (path : Str)
  | rmdir (path : Str)
  | access (path : Str)
  | rename (oldName newName : Str)
  | mkdir (path : Str)
  | truncate (path : Str)
  | ftruncate (fd : Int) (size : Nat)

namespace QueueCall

open Operation

def attempt (env : ClientEnv) (fuel : Nat) : QueueCall → Nat → Operation Int
  | .open path flag, _ => openOnce env path flag
  | .read master fd size cached, i => transferOnce env fuel master .read fd size (cached i)
  | .write master fd size cached, i => transferOnce env fuel master .write fd size (cached i)
  | .close fd, _ => closeOnce env fd
  | .flush fd, _ => flushOnce env fd
  | .getattr path, _ => getattrOnce env path
  | .readdir, _ => readdirOnce env
  | .unlink path, _ => unlinkOnce env path
  | .rmdir path, _ => rmdirOnce env path
  | .access path, _ => accessOnce env path
  | .rename oldName newName, _ => renameOnce env oldName newName
  | .mkdir path, _ => mkdirOnce env path
  | .truncate path, _ => truncateOnce env path
  | .ftruncate fd size, _ => ftruncateOnce env fd size

/-- What a call returns when every attempt has failed. -/
def failure : QueueCall → Int
  | .rmdir _ => 0
  | .truncate _ => 0
  | _ => FAILURE

def operation (env : ClientEnv) (fuel : Nat) (c : QueueCall) : Operation Int := retry (c.attempt env fuel) c.failure CBB_COMM_RETRY 0

end QueueCall

end HuronFS
