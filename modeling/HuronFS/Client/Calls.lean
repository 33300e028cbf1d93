import HuronFS.Common.Wire
import HuronFS.Master.MessageSize

/-!
# `Client.Calls` — what the client pushes and pops, and what the Master pops

Each call of `CBB_client` is one query and, but for a metadata update, one reply. On each side the pops are
those of the source, in its order and under its conditions; what they find depends only on the bytes there.
What the client works out before the query (where a path lives, how far a file has grown) is an argument.
-/

namespace HuronFS

open Wire Region

/-- A query, with the values the client pushes. `rename` carries the number of the other Master or
    `MYSELF`; `renameMigrating` is the second query of a rename between Masters, `updateMeta` what a write
    sends when the block cache is used. -/
inductive Call
  | openFile (path : CString) (flag mode : BitVec 32)
  | readFile (fileNo startPoint size : BitVec 64)
  | writeFile (fileNo : BitVec 64) (attr : Attr) (startPoint size : BitVec 64)
  | updateMeta (fileNo : BitVec 64) (attr : Attr)
  | flushFile (fileNo : BitVec 64)
  | closeFile (fileNo : BitVec 64)
  | getAttr (path : CString)
  | access (path : CString) (mode : BitVec 32)
  | readDir (path : CString)
  | unlink (path : CString)
  | rmDir (path : CString)
  | mkdir (path : CString) (mode : BitVec 32)
  | rename (oldName newName : CString) (newMaster : BitVec 32)
  | renameMigrating (newName : CString) (oldMaster : BitVec 32)
  | truncate (path : CString) (size : BitVec 64)

namespace Call

/-- The pushes of a query. `remote_open` pushes the flag only when it has `O_CREAT`. -/
def fields : Call → List Field
  | .openFile path flag mode =>
      [.int OPEN_FILE, .str path.bytes] ++ (if Master.hasCreate flag then [.w32 flag] else []) ++ [.w32 mode]
  | .readFile fileNo startPoint size => [.int READ_FILE, .w64 fileNo, .w64 startPoint, .w64 size]
  | .writeFile fileNo attr startPoint size =>
      [.int WRITE_FILE, .w64 fileNo] ++ sendAttr attr.st ++ [.w64 startPoint, .w64 size]
  | .updateMeta fileNo attr => [.int UPDATE_META, .w64 fileNo] ++ sendAttr attr.st
  | .flushFile fileNo => [.int FLUSH_FILE, .w64 fileNo]
  | .closeFile fileNo => [.int CLOSE_FILE, .w64 fileNo]
  | .getAttr path => [.int GET_ATTR, .str path.bytes]
  | .access path mode => [.int ACCESS, .str path.bytes, .w32 mode]
  | .readDir path => [.int READ_DIR, .str path.bytes]
  | .unlink path => [.int UNLINK, .str path.bytes]
  | .rmDir path => [.int RM_DIR, .str path.bytes]
  | .mkdir path mode => [.int MKDIR, .str path.bytes, .w32 mode]
  | .rename oldName newName newMaster => [.int RENAME, .str oldName.bytes, .str newName.bytes, .w32 newMaster]
  | .renameMigrating newName oldMaster => [.int RENAME_MIGRATING, .str newName.bytes, .w32 oldMaster]
  | .truncate path size => [.int TRUNCATE, .str path.bytes, .w64 size]

/-- The request a handler runs with these values. -/
def request : Call → Request
  | .openFile path flag mode => .openFile path.bytes flag mode
  | .readFile fileNo startPoint size => .readFile fileNo.toInt startPoint.toNat size.toNat
  | .writeFile fileNo attr startPoint size => .writeFile fileNo.toInt attr.st startPoint.toNat size.toNat
  | .updateMeta fileNo attr => .updateMeta fileNo.toInt attr.st
  | .flushFile fileNo => .flushFile fileNo.toInt
  | .closeFile fileNo => .closeFile fileNo.toInt
  | .getAttr path => .getAttr path.bytes
  | .access path mode => .access path.bytes mode
  | .readDir path => .readDir path.bytes
  | .unlink path => .unlink path.bytes
  | .rmDir path => .rmDir path.bytes
  | .mkdir path mode => .mkdir path.bytes mode
  | .rename oldName newName newMaster => .rename oldName.bytes newName.bytes newMaster.toInt
  | .renameMigrating newName oldMaster => .renameMigrating newName.bytes oldMaster.toInt
  | .truncate path size => .truncate path.bytes size.toNat

/-- A metadata update is not answered. -/
def hasReply : Call → Bool
  | .updateMeta _ _ => false
  | _ => true

end Call

/-! ## The Master's pops -/

namespace Master

/-- The mode of `_parse_open_file` when it pops none. -/
def defaultMode : BitVec 32 := S_IFREG ||| 0x1b0#32

/-- The pops of `_parse_open_file`: the flag is always popped. -/
def popOpenFile : Pop Call := do
  let path ← popCString
  let flag ← pop32
  if hasCreate flag then
    let mode ← pop32
    return .openFile path flag mode
  else return .openFile path flag defaultMode

/-- `_buffered_files.at(file_no)` throws for a number that is not there, before the other pops. -/
def isBuffered (m : Master) (fileNo : BitVec 64) : Bool := (m.bufferedFiles.find? fileNo.toInt).isSome

/-- The pops of `_parse_read_file`. -/
def popReadFile (m : Master) : Pop Call := do
  let fileNo ← pop64
  if m.isBuffered fileNo then
    let startPoint ← pop64
    let size ← pop64
    return .readFile fileNo startPoint size
  else return .readFile fileNo 0 0

/-- The pops of `_parse_write_file`. -/
def popWriteFile (m : Master) : Pop Call := do
  let fileNo ← pop64
  if m.isBuffered fileNo then
    let attr ← recvAttr
    let startPoint ← pop64
    let size ← pop64
    return .writeFile fileNo attr startPoint size
  else return .writeFile fileNo ⟨Stat.zero, by decide⟩ 0 0

/-- The pops of `_parse_meta_update`. -/
def popMetaUpdate (m : Master) : Pop Call := do
  let fileNo ← pop64
  if m.isBuffered fileNo then
    let attr ← recvAttr
    return .updateMeta fileNo attr
  else return .updateMeta fileNo ⟨Stat.zero, by decide⟩

/-- The handlers that pop one file number. -/
def popFileNo (call : BitVec 64 → Call) : Pop Call := do
  let fileNo ← pop64
  return call fileNo

/-- The handlers that pop one path (`_recv_real_relative_path`). -/
def popPath (call : CString → Call) : Pop Call := do
  let path ← popCString
  return call path

/-- The handlers that pop a path and an `int`. -/
def popPathInt (call : CString → BitVec 32 → Call) : Pop Call := do
  let path ← popCString
  let mode ← pop32
  return call path mode

/-- The pops of `_parse_rename`. -/
def popRename : Pop Call := do
  let oldName ← popCString
  let newName ← popCString
  let newMaster ← pop32
  return .rename oldName newName newMaster

/-- The pops of `_parse_truncate_file`. -/
def popTruncate : Pop Call := do
  let path ← popCString
  let size ← pop64
  return .truncate path size

/-- The pops of the handler of each request code; a code the clients do not send here has none. -/
def popRequest (m : Master) (request : Int) : Pop Call :=
  if request = OPEN_FILE then popOpenFile
  else if request = READ_FILE then m.popReadFile
  else if request = WRITE_FILE then m.popWriteFile
  else if request = FLUSH_FILE then popFileNo .flushFile
  else if request = CLOSE_FILE then popFileNo .closeFile
  else if request = GET_ATTR then popPath .getAttr
  else if request = UPDATE_META then m.popMetaUpdate
  else if request = READ_DIR then popPath .readDir
  else if request = RM_DIR then popPath .rmDir
  else if request = UNLINK then popPath .unlink
  else if request = ACCESS then popPathInt .access
  else if request = RENAME then popRename
  else if request = RENAME_MIGRATING then popPathInt .renameMigrating
  else if request = MKDIR then popPathInt .mkdir
  else if request = TRUNCATE then popTruncate
  else fun _ => none

/-- `_parse_request`, as far as pops go. -/
def decode (m : Master) : Pop Call := do
  let request ← pop32
  m.popRequest request.toInt

end Master

/-! ## The client's pops -/

/-- What a client has after its pops: the status the call returns, the fields it popped, and how many
    directory entries it goes on to pop from the extended data. -/
structure Receipt where
  status : Int
  popped : List Field
  names : Nat

/-- The nodes of `_parse_blocks_from_master`. -/
def popNodes : Nat → Pop (List Field)
  | 0 => return []
  | count + 1 => do
      let nodeId ← pop64
      let uri ← popCString
      let rest ← popNodes count
      return .w64 nodeId :: .str uri.bytes :: rest

/-- Its blocks. -/
def popBlocks : Nat → Pop (List Field)
  | 0 => return []
  | count + 1 => do
      let startPoint ← pop64
      let blockSize ← pop64
      let rest ← popBlocks count
      return .w64 startPoint :: .w64 blockSize :: rest

/-- The entries `_readdir` pops from its string buffer. -/
def popNames : Nat → Pop (List CString)
  | 0 => return []
  | count + 1 => do
      let name ← popCString
      let rest ← popNames count
      return name :: rest

/-- `_get_master_handle_from_master_number`: an exception for a number out of the client's list. -/
def knownMaster (masters : Nat) (number : Int) : Pop Unit := fun r =>
  if 0 ≤ number ∧ number < masters then some ((), r) else none

namespace Call

/-- `remote_open` and `_open`, which goes on with a null pointer when the status is an error. -/
def receiveOpen : Pop Receipt := do
  let ret ← pop32
  if ret.toInt = SUCCESS then
    let fileNo ← pop64
    let blockSize ← pop64
    let attr ← recvAttr
    return ⟨SUCCESS, [.w32 ret, .w64 fileNo, .w64 blockSize] ++ sendAttr attr.st, 0⟩
  else fun _ => none

/-- `_get_blocks_from_master`. -/
def receiveBlocks : Pop Receipt := do
  let ret ← pop32
  if ret.toInt = SUCCESS then
    let fileSize ← pop64
    let count ← pop32
    let nodes ← popNodes count.toInt.toNat
    let count' ← pop32
    let blocks ← popBlocks count'.toInt.toNat
    return ⟨SUCCESS, [.w32 ret, .w64 fileSize, .w32 count] ++ nodes ++ .w32 count' :: blocks, 0⟩
  else return ⟨-1, [.w32 ret], 0⟩

/-- `_close` and `_flush`. -/
def receiveDone : Pop Receipt := do
  let ret ← pop32
  return ⟨if ret.toInt = SUCCESS then 0 else -1, [.w32 ret], 0⟩

/-- `_unlink`, `_rmdir`, `_mkdir` and `_rename`: `errno` is set to `-ret` and `-errno` returned. -/
def receiveStatus : Pop Receipt := do
  let ret ← pop32
  return ⟨if ret.toInt = SUCCESS then 0 else ret.toInt, [.w32 ret], 0⟩

/-- `remote_access` and `_truncate`. The loop over Masters is left after its first turn, for
    `response_dequeue` returns zero. -/
def receiveForwarded (masters : Nat) : Pop Receipt := do
  let number ← pop32
  knownMaster masters number.toInt
  let ret ← pop32
  return ⟨if ret.toInt = SUCCESS then 0 else ret.toInt, [.w32 number, .w32 ret], 0⟩

/-- `remote_getattr`, with the same loop. -/
def receiveAttr (masters : Nat) : Pop Receipt := do
  let number ← pop32
  knownMaster masters number.toInt
  let ret ← pop32
  if ret.toInt = SUCCESS then
    let attr ← recvAttr
    return ⟨ret.toInt, [.w32 number, .w32 ret] ++ sendAttr attr.st, 0⟩
  else return ⟨ret.toInt, [.w32 number, .w32 ret], 0⟩

/-- `_readdir`, for one Master. -/
def receiveDir : Pop Receipt := do
  let ret ← pop32
  if ret.toInt = SUCCESS then
    let count ← pop32
    return ⟨0, [.w32 ret, .w32 count], count.toInt.toNat⟩
  else return ⟨ret.toInt, [.w32 ret], 0⟩

/-- The pops of each call on its reply. -/
def receive (masters : Nat) : Call → Pop Receipt
  | .openFile _ _ _ => receiveOpen
  | .readFile _ _ _ => receiveBlocks
  | .writeFile _ _ _ _ => receiveBlocks
  | .flushFile _ => receiveDone
  | .closeFile _ => receiveDone
  | .getAttr _ => receiveAttr masters
  | .access _ _ => receiveForwarded masters
  | .readDir _ => receiveDir
  | .truncate _ _ => receiveForwarded masters
  | .updateMeta _ _ => fun _ => none
  | _ => receiveStatus

/-- Where the status stands among the fields of the reply: after the number of the Master, or first. -/
def statusIndex : Call → Nat
  | .getAttr _ => 1
  | .access _ _ => 1
  | .truncate _ _ => 1
  | _ => 0

/-- The status the handler put into its reply. -/
def sentStatus (call : Call) (message : List Field) : Option Int :=
  match message[call.statusIndex]? with
  | some (.w32 v) => some v.toInt
  | _ => none

end Call

/-! ## One exchange -/

/-- A call by a client to a Master. `masters` is how many Masters the client has; `atMaster`, `atClient` and
    `inFiles` are what the receiving buffers hold from before; `filesPoint` is where `_readdir` stands in its
    string buffer after the Masters it has asked already. -/
structure Exchange where
  master : Master
  env : Env
  origin : Origin
  call : Call
  masters : Nat
  atMaster : Nat → Byte
  atClient : Nat → Byte
  inFiles : Nat → Byte
  filesPoint : Nat

namespace Exchange

/-- The string buffer of `_readdir` with the extended data of a reply copied to its start. -/
def files (x : Exchange) (t : OutTask) : Reader :=
  ⟨patch x.inFiles 0 (encode (t.extended.map Field.str)), MAX_DIR_FILE_SIZE, x.filesPoint⟩

/-- The Master pops what the client pushed: all of it, and with the same values. -/
def RequestAgrees (x : Exchange) : Prop :=
  fieldBytes x.call.fields ≤ BASIC_MESSAGE_ROOM ∧ ∃ r, x.master.decode (received x.atMaster x.call.fields) = some (x.call, r) ∧
    r.point = fieldBytes x.call.fields

/-- The client pops the fields of the reply, all of them and no others, and returns the status sent. The
    entries of a directory are popped off exactly the bytes that came with the reply. -/
def ReplyAgrees (x : Exchange) (t : OutTask) : Prop :=
  t.Fits ∧ ∃ rc r, x.call.receive x.masters (received x.atClient t.message) = some (rc, r) ∧
    rc.popped = t.message ∧ r.point = t.messageSize ∧ x.call.sentStatus t.message = some rc.status ∧
    ∃ names r', popNames rc.names (x.files t) = some (names, r') ∧ names.map CString.bytes = t.extended ∧
      ∀ i, (x.filesPoint ≤ i ∧ i < r'.point) ↔ i < t.extendedSize

/-- **Client and Master agree**, `out` being what the handler does. A call without a reply returns success. -/
def Agrees (x : Exchange) (out : Outcome) : Prop :=
  x.RequestAgrees ∧
    if x.call.hasReply then ∃ t, allocatedOn SERVER_QUEUE_NUM out.ops = [t] ∧ x.ReplyAgrees t else out.ret = SUCCESS

end Exchange

end HuronFS
