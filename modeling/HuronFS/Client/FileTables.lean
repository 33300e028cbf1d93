import HuronFS.Common.Task
import HuronFS.Lib.OrdMap
import HuronFS.Lib.Run
import HuronFS.Master.Tables

/-!
# `Client.FileTables` — the tables of open files of a client (`CBB_client.cpp`, `CBB_basic.cpp`)

`_opened_file`, `_file_list` and `_path_file_meta_map`, with the `file_meta` objects they share, and the calls that
change them. The objects live in a store indexed by address. An iterator into `_path_file_meta_map` is the path and
the number of the entry it was taken from: once that entry is erased the iterator dangles, also if a new entry
comes under the path. `none` is undefined behaviour (a null or dangling pointer, a dangling iterator), or the end
of the process by an exception that the function does not declare.

What the servers answer is part of a call: each exchange brings a reply, or is broken off and thrown.
-/

namespace HuronFS

def MAX_FILE : Nat := 10000
def INIT_FD : Int := 1000
def CBB_COMM_RETRY : Nat := 10
def O_APPEND : BitVec 32 := 0x400#32

/-- The address of a `file_meta`. -/
abbrev MetaRef := Nat

/-- `_path_file_meta_map_t::iterator`. -/
structure PathIterator where
  path : Str
  node : Nat
deriving DecidableEq, Repr

/-- An entry of `_path_file_meta_map`: the node it is, and the pointer in it. -/
structure PathEntry where
  node : Nat
  fileMeta : Option MetaRef
deriving DecidableEq, Repr

/-- `file_meta`, without the caches of the transfers; a null `it` is `none`. -/
structure ClientMeta where
  remoteFileNo : Int
  openCount : Int
  blockSize : Nat
  fileStat : Stat
  openedFd : OrdSet Int
  it : Option PathIterator

/-- `opened_file_info`. -/
structure OpenedFile where
  currentPoint : Nat
  fd : Int
  flag : BitVec 32
  fileMeta : MetaRef

/-- What an exchange with a server ends in. -/
inductive Answered (α : Type)
  | reply (a : α)
  | thrown
deriving DecidableEq, Repr

/-- The reply to an `OPEN_FILE`. -/
inductive OpenReply
  | opened (fileNo : Int) (blockSize : Nat) (stat : Stat)
  | refused (status : Int)

/-- The tables of a client. `metas` is the heap; `nextMeta` and `nextNode` were never handed out so far. -/
structure FileTables where
  openedFile : Nat → Bool
  fidNow : Nat
  fileList : OrdMap Int OpenedFile
  pathFileMetaMap : OrdMap Str PathEntry
  metas : MetaRef → Option ClientMeta
  nextMeta : MetaRef
  nextNode : Nat

namespace FileTables

/-- A client that has no file open. -/
def start : FileTables :=
  { openedFile := fun _ => false, fidNow := 0, fileList := OrdMap.empty, pathFileMetaMap := OrdMap.empty
    metas := fun _ => none, nextMeta := 0, nextNode := 0 }

def setMeta (t : FileTables) (r : MetaRef) (m : ClientMeta) : FileTables :=
  { t with metas := Function.update t.metas r (some m) }

/-! ## Opening -/

/-- `_get_fid`: from the cursor to the end, then from zero up to the cursor. -/
def getFid (t : FileTables) : Option (Nat × FileTables) :=
  let slot := match Master.freeFrom t.openedFile (MAX_FILE - t.fidNow) t.fidNow with
    | some i => some i
    | none => Master.freeFrom t.openedFile t.fidNow 0
  slot.map (fun i => (i, { t with openedFile := Function.update t.openedFile i true, fidNow := i }))

/-- `_create_new_file` with the `insert` into `_path_file_meta_map` and the iterator set. -/
def createMeta (t : FileTables) (path : Str) (fileNo : Int) (blockSize : Nat) (stat : Stat) : FileTables :=
  { t with
    metas := Function.update t.metas t.nextMeta (some
      { remoteFileNo := fileNo, openCount := 0, blockSize := blockSize, fileStat := stat, openedFd := OrdMap.empty
        it := some ⟨path, t.nextNode⟩ })
    pathFileMetaMap := t.pathFileMetaMap.put path ⟨t.nextNode, some t.nextMeta⟩
    nextMeta := t.nextMeta + 1
    nextNode := t.nextNode + 1 }

/-- The second half of `_open`: the constructor of `opened_file_info` counts the reference, `insert` keeps an entry
    that is there. -/
def attach (t : FileTables) (fid : Nat) (flag : BitVec 32) (r : MetaRef) : Option (FileTables × Int) :=
  match t.metas r with
  | none => none
  | some m =>
      let fd := (fid : Int) + INIT_FD
      let files := t.fileList.insert fid ⟨0, fd, flag, r⟩
      let files := if flag &&& O_APPEND ≠ 0 then
        files.modify fid (fun file => { file with currentPoint := m.fileStat.stSize }) else files
      some ({ t.setMeta r { m with openCount := m.openCount + 1, openedFd := OrdSet.add m.openedFd fd } with
        fileList := files }, fd)

/-- `_open`; the result is the value returned, `none` when an exception leaves the function. The number stays taken
    then, and a refused open goes on with a null `file_meta`. -/
def openOnce (t : FileTables) (path : Str) (flag : BitVec 32) (exchange : Answered OpenReply) :
    Option (FileTables × Option Int) :=
  match t.getFid with
  | none => some (t, some (-1))
  | some (fid, t1) =>
      match t1.pathFileMetaMap.find? path with
      | some ⟨_, none⟩ => none
      | some ⟨_, some r⟩ => (t1.attach fid flag r).map (fun (t2, fd) => (t2, some fd))
      | none =>
          match exchange with
          | .thrown => some (t1, none)
          | .reply (.refused _) => none
          | .reply (.opened fileNo blockSize stat) =>
              ((t1.createMeta path fileNo blockSize stat).attach fid flag t1.nextMeta).map (fun (t2, fd) => (t2, some fd))

/-! ## Closing -/

/-- `_path_file_meta_map.erase` of an iterator. -/
def erasePath (t : FileTables) (it : Option PathIterator) : Option FileTables :=
  match it with
  | none => none
  | some it =>
      match t.pathFileMetaMap.find? it.path with
      | none => none
      | some e => if e.node = it.node then some { t with pathFileMetaMap := t.pathFileMetaMap.erase it.path } else none

/-- `_delete_file_meta`. -/
def deleteFileMeta (t : FileTables) (r : MetaRef) : Option FileTables :=
  match t.metas r with
  | none => none
  | some m =>
      if m.openCount - 1 ≤ 0 then
        (t.erasePath m.it).map (fun t => { t with metas := Function.update t.metas r none })
      else some (t.setMeta r { m with openCount := m.openCount - 1 })

/-- `_delete_open_file`: erasing the entry runs `~opened_file_info`. -/
def deleteOpenFile (t : FileTables) (fid : Int) (file : OpenedFile) : Option FileTables :=
  match t.metas file.fileMeta with
  | none => none
  | some m =>
      let t := { t with openedFile := Function.update t.openedFile fid.toNat false, fileList := t.fileList.erase fid }
      (t.setMeta file.fileMeta { m with openedFd := m.openedFd.erase file.fd }).deleteFileMeta file.fileMeta

/-- `_close`. The handle of the Master is looked up before the `try` block: a number that is not open ends the
    process there. -/
def closeOnce (t : FileTables) (fd : Int) (exchange : Answered Int) : Option (FileTables × Option Int) :=
  let fid := fd - INIT_FD
  match t.fileList.find? fid with
  | none => none
  | some file =>
      match t.metas file.fileMeta with
      | none => none
      | some _ =>
          match exchange with
          | .thrown => some (t, none)
          | .reply ret => if ret = SUCCESS then (t.deleteOpenFile fid file).map (fun t => (t, some 0)) else some (t, some (-1))

/-- The loop of `_close_local_opened_file`, over the set that `_close` erases from: `count` is a reference into the
    `file_meta`, and the iterator is stepped after the call. The result says whether an exception left the loop. -/
def closeLoop (r : MetaRef) (exchanges : Nat → Answered Int) : List Int → (i : Nat) → FileTables →
    Option (FileTables × Bool)
  | [], _, t => some (t, false)
  | fd :: rest, i, t =>
      match t.closeOnce fd (exchanges i) with
      | none => none
      | some (t, none) => some (t, true)
      | some (t, some _) =>
          match t.metas r with
          | none => none
          | some m =>
              if (m.openedFd.find? fd).isSome then
                closeLoop r exchanges rest (i + 1) (t.setMeta r { m with openCount := m.openCount - 1 })
              else none

/-- `_close_local_opened_file`. -/
def closeLocalOpenedFile (t : FileTables) (path : Str) (exchanges : Nat → Answered Int) : Option (FileTables × Bool) :=
  match t.pathFileMetaMap.find? path with
  | none => some (t, false)
  | some ⟨_, none⟩ => none
  | some ⟨_, some r⟩ =>
      match t.metas r with
      | none => none
      | some m =>
          match closeLoop r exchanges m.openedFd.keys 0 t with
          | none => none
          | some (t, true) => some (t, true)
          | some (t, false) => (t.deleteFileMeta r).map (fun t => (t, false))

/-! ## Paths -/

/-- `_unlink`. -/
def unlinkOnce (t : FileTables) (path : Str) (exchange : Answered Int) (closes : Nat → Answered Int) :
    Option (FileTables × Option Int) :=
  match exchange with
  | .thrown => some (t, none)
  | .reply ret =>
      if ret = SUCCESS then
        (t.closeLocalOpenedFile path closes).map (fun (t, thrown) => (t, if thrown then none else some 0))
      else some (t, some ret)

/-- The part of `_rename` that is done before anything is sent. -/
def renameLocal (t : FileTables) (oldName newName : Str) : Option FileTables :=
  match t.pathFileMetaMap.find? oldName with
  | none => some t
  | some e =>
      let entry := (t.pathFileMetaMap.find? newName).getD ⟨t.nextNode, e.fileMeta⟩
      let t := { t with
        pathFileMetaMap := (t.pathFileMetaMap.insert newName ⟨t.nextNode, e.fileMeta⟩).erase oldName
        nextNode := t.nextNode + 1 }
      if oldName = newName then none
      else
        match entry.fileMeta.bind (fun r => (t.metas r).map (fun m => (r, m))) with
        | none => none
        | some (r, m) => some (t.setMeta r { m with it := some ⟨newName, entry.node⟩ })

/-- The exchanges of `_rename`: with the old Master, and with the new one when it is another. -/
def renameExchange (migrating : Bool) (first second : Answered Int) : Answered Int :=
  if migrating then
    match first with
    | .thrown => .thrown
    | .reply _ => second
  else first

/-- `_rename`. -/
def renameOnce (t : FileTables) (oldName newName : Str) (exchange : Answered Int) : Option (FileTables × Option Int) :=
  (t.renameLocal oldName newName).map (fun t =>
    match exchange with
    | .thrown => (t, none)
    | .reply ret => (t, some ret))

/-! ## Calls -/

/-- The loop of every public call: up to `n` attempts, as long as each is left by an exception. -/
def retry (attempt : Nat → FileTables → Option (FileTables × Option Int)) : (n i : Nat) → FileTables →
    Option (FileTables × Int)
  | 0, _, t => some (t, FAILURE)
  | n + 1, i, t =>
      match attempt i t with
      | none => none
      | some (t, some ret) => some (t, ret)
      | some (t, none) => retry attempt n (i + 1) t

/-- A call, with what the exchanges of its attempts end in. -/
inductive Call
  | open (path : Str) (flag : BitVec 32) (exchanges : Nat → Answered OpenReply)
  | close (fd : Int) (exchanges : Nat → Answered Int)
  | unlink (path : Str) (exchanges : Nat → Answered Int) (closes : Nat → Nat → Answered Int)
  | rename (oldName newName : Str) (migrating : Bool) (first second : Nat → Answered Int)

/-- The tables after a call, and the value returned. -/
def call (t : FileTables) : Call → Option (FileTables × Int)
  | .open path flag exchanges => retry (fun i t => t.openOnce path flag (exchanges i)) CBB_COMM_RETRY 0 t
  | .close fd exchanges => retry (fun i t => t.closeOnce fd (exchanges i)) CBB_COMM_RETRY 0 t
  | .unlink path exchanges closes => retry (fun i t => t.unlinkOnce path (exchanges i) (closes i)) CBB_COMM_RETRY 0 t
  | .rename oldName newName migrating first second =>
      retry (fun i t => t.renameOnce oldName newName (renameExchange migrating (first i) (second i))) CBB_COMM_RETRY 0 t

def step (t : FileTables) (c : Call) : Option FileTables := (t.call c).map Prod.fst

/-- The call reports an error: no descriptor, or a status other than zero. -/
def Fails : Call → Int → Prop
  | .open _ _ _, ret => ret < 0
  | _, ret => ret ≠ 0

end FileTables

end HuronFS
