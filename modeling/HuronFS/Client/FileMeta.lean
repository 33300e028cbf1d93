import HuronFS.Master.Handler

/-!
# `Client.FileMeta` — a client's copy of a file's attributes (`CBB_client.cpp`, `file_meta`)

A client keeps the attributes of each file it has open. The calls of this file are the ones that change
them or send them to the Master: a call is a request to the Master, whose handler runs to its end, and
the pops the client does on the reply. A reply that is not there, or a field of another width than the
one popped, has no result.
-/

namespace HuronFS

/-! ## Pops on a reply -/

/-- The message the Master sent to this client queue. -/
def response (o : Origin) (out : Outcome) : Option (List Field) :=
  ((tasksOf out.ops).find? (addressedTo o)).map OutTask.message

/-- `pop` into an `int`. -/
def popInt : List Field → Option (Int × List Field)
  | .w32 v :: rest => some (v.toInt, rest)
  | _ => none

/-- `pop` into an `ssize_t`. -/
def popLong : List Field → Option (Int × List Field)
  | .w64 v :: rest => some (v.toInt, rest)
  | _ => none

/-- `pop` into a `size_t`, or into an `off64_t` that is not negative. -/
def popSize : List Field → Option (Nat × List Field)
  | .w64 v :: rest => some (v.toNat, rest)
  | _ => none

/-- `pop_string`. -/
def popString : List Field → Option (Str × List Field)
  | .str s :: rest => some (s, rest)
  | _ => none

/-- `Recv_attr`. -/
def receiveStat : List Field → Option (Stat × List Field)
  | .w32 mode :: .w32 uid :: .w32 gid :: .w64 size :: .w64 atime :: .w64 mtime :: .w64 ctime :: .w64 blksize :: rest =>
      some (⟨mode, uid, gid, size.toNat, atime, mtime, ctime, blksize⟩, rest)
  | _ => none

theorem popInt_small {v : Int} (hlo : -2 ^ 31 ≤ v) (hhi : v < 2 ^ 31) (rest : List Field) :
    popInt (.int v :: rest) = some (v, rest) := by
  show some ((BitVec.ofInt 32 v).toInt, rest) = some (v, rest)
  rw [BitVec.toInt_ofInt_eq_self (by decide) hlo hhi]

theorem popLong_small {v : Int} (hlo : -2 ^ 63 ≤ v) (hhi : v < 2 ^ 63) (rest : List Field) :
    popLong (.long v :: rest) = some (v, rest) := by
  show some ((BitVec.ofInt 64 v).toInt, rest) = some (v, rest)
  rw [BitVec.toInt_ofInt_eq_self (by decide) hlo hhi]

theorem popSize_small {n : Nat} (h : n < 2 ^ 64) (rest : List Field) : popSize (.size n :: rest) = some (n, rest) := by
  show some ((BitVec.ofNat 64 n).toNat, rest) = some (n, rest)
  rw [BitVec.toNat_ofNat, Nat.mod_eq_of_lt h]

theorem receiveStat_sendAttr {st : Stat} (h : st.stSize < 2 ^ 64) (rest : List Field) :
    receiveStat (sendAttr st ++ rest) = some (st, rest) := by
  unfold sendAttr Field.size
  simp only [List.cons_append, List.nil_append, receiveStat, BitVec.toNat_ofNat, Nat.mod_eq_of_lt h]

/-! ## The attributes -/

/-- `file_meta`: the number the Master knows the file by, and the attributes last seen. -/
structure FileMeta where
  remoteFileNo : Int
  fileStat : Stat
deriving DecidableEq, Repr

namespace FileMeta

/-- The size the client takes the file to have. -/
def stSize (fm : FileMeta) : Nat := fm.fileStat.stSize

def setSize (fm : FileMeta) (size : Nat) : FileMeta := { fm with fileStat := { fm.fileStat with stSize := size } }

@[simp] theorem setSize_stSize (fm : FileMeta) (size : Nat) : (fm.setSize size).stSize = size := rfl
@[simp] theorem setSize_fileNo (fm : FileMeta) (size : Nat) : (fm.setSize size).remoteFileNo = fm.remoteFileNo := rfl

/-- `_write_update_file_size`. -/
def writeUpdateFileSize (fm : FileMeta) (startPoint size : Nat) : FileMeta :=
  if startPoint + size > fm.stSize then fm.setSize (startPoint + size) else fm

/-- `_update_file_size_from_master`. -/
def updateFileSizeFromMaster (fm : FileMeta) (fileSize : Nat) : FileMeta :=
  if fileSize > fm.stSize then fm.setSize fileSize else fm

/-- `_update_access_time`. -/
def updateAccessTime (fm : FileMeta) (now : BitVec 64) : FileMeta :=
  { fm with fileStat := { fm.fileStat with stMtime := now, stAtime := now } }

@[simp] theorem updateAccessTime_stSize (fm : FileMeta) (now : BitVec 64) :
    (fm.updateAccessTime now).stSize = fm.stSize := rfl
@[simp] theorem updateAccessTime_fileNo (fm : FileMeta) (now : BitVec 64) :
    (fm.updateAccessTime now).remoteFileNo = fm.remoteFileNo := rfl

@[simp] theorem writeUpdateFileSize_stSize (fm : FileMeta) (startPoint size : Nat) :
    (fm.writeUpdateFileSize startPoint size).stSize = max fm.stSize (startPoint + size) := by
  unfold writeUpdateFileSize
  split
  · rw [setSize_stSize]; omega
  · omega

@[simp] theorem writeUpdateFileSize_fileNo (fm : FileMeta) (startPoint size : Nat) :
    (fm.writeUpdateFileSize startPoint size).remoteFileNo = fm.remoteFileNo := by
  unfold writeUpdateFileSize
  split
  · rfl
  · rfl

@[simp] theorem updateFileSizeFromMaster_stSize (fm : FileMeta) (fileSize : Nat) :
    (fm.updateFileSizeFromMaster fileSize).stSize = max fm.stSize fileSize := by
  unfold updateFileSizeFromMaster
  split
  · rw [setSize_stSize]; omega
  · omega

@[simp] theorem updateFileSizeFromMaster_fileNo (fm : FileMeta) (fileSize : Nat) :
    (fm.updateFileSizeFromMaster fileSize).remoteFileNo = fm.remoteFileNo := by
  unfold updateFileSizeFromMaster
  split
  · rfl
  · rfl

end FileMeta

/-! ## Calls -/

/-- `READ_FILE` or `WRITE_FILE`, as `remote_IO` is told. -/
inductive IOMode
  | read
  | write
deriving DecidableEq, Repr

/-- The request of `_get_blocks_from_master`; a write sends the attributes, with the size it leads to. -/
def blocksRequest (mode : IOMode) (fm : FileMeta) (startPoint size : Nat) : Request :=
  match mode with
  | .read => .readFile fm.remoteFileNo startPoint size
  | .write => .writeFile fm.remoteFileNo fm.fileStat startPoint size

/-- `_get_blocks_from_master`, up to `_parse_blocks_from_master`, which goes on with the rest of the
    reply. The second case of the result is an error the Master reported. -/
def getBlocksFromMaster (m : Master) (e : Env) (o : Origin) (mode : IOMode) (fm : FileMeta) (startPoint size : Nat) :
    Option (Master × FileMeta × Except Int (List Field)) :=
  let fm := if mode = .write then fm.writeUpdateFileSize startPoint size else fm
  match m.parseRequest e o (blocksRequest mode fm startPoint size) with
  | none => none
  | some out =>
      match (response o out).bind popInt with
      | none => none
      | some (ret, rest) =>
          if ret = SUCCESS then
            match popSize rest with
            | none => none
            | some (fileSize, rest) => some (out.master, fm.updateFileSizeFromMaster fileSize, .ok rest)
          else some (out.master, fm, .error ret)

/-- `_truncate`: the status the Master sent. The loop is left after its first turn, for
    `response_dequeue` returns zero. -/
def truncate (m : Master) (e : Env) (o : Origin) (path : Str) (size : Nat) : Option (Master × Int) :=
  match m.parseRequest e o (.truncate path size) with
  | none => none
  | some out =>
      match (response o out).bind popInt with
      | none => none
      | some (_, rest) => (popInt rest).map (fun r => (out.master, r.1))

/-- `_ftruncate`. -/
def ftruncate (m : Master) (e : Env) (o : Origin) (path : Str) (fm : FileMeta) (size : Nat) :
    Option (Master × FileMeta × Int) :=
  (truncate m e o path size).map (fun (m', ret) => (m', (fm.setSize size).updateAccessTime e.now, ret))

/-- `remote_getattr` of a path of this Master. -/
def remoteGetattr (m : Master) (e : Env) (o : Origin) (path : Str) : Option (Except Int Stat) :=
  match m.parseRequest e o (.getAttr path) with
  | none => none
  | some out =>
      match (response o out).bind popInt with
      | none => none
      | some (_, rest) =>
          match popInt rest with
          | none => none
          | some (ret, rest) =>
              if ret = SUCCESS then (receiveStat rest).map (fun r => .ok r.1) else some (.error ret)

/-- `_getattr`: a path the client has open is answered from its own copy (`_get_local_attr`). -/
def getattr (m : Master) (e : Env) (o : Origin) (path : Str) (fm : Option FileMeta) : Option (Except Int Stat) :=
  match fm with
  | some fm => some (.ok fm.fileStat)
  | none => remoteGetattr m e o path

end HuronFS
