import HuronFS.Master.TablesSpec

/-!
# `Master.HandlerSpec` — what the data handlers can do

Inversion of the handlers that touch an open file's attributes or block list: from an outcome, the
objects the handler found and the state it left.
-/

namespace HuronFS

namespace Master

/-- The objects behind a file number: the open file and the path entry it points at. -/
structure FileObjects (m : Master) (fileNo : Int) (r : FileRef) (f : OpenFileInfo) (st : FileStat) : Prop where
  buffered : m.bufferedFiles.find? fileNo = some r
  object : m.files r = some f
  entry : m.fileStatPool.find? f.fileStatus = some st

/-- A read that finds its file leaves the state alone and sends the selected blocks. -/
theorem parseReadFile_some {m : Master} {o : Origin} {fileNo : Int} {startPoint size : Nat} {out : Outcome}
    (h : m.parseReadFile o fileNo startPoint size = some out) :
    (m.bufferedFiles.find? fileNo = none ∧ out = m.reply o [.int OUT_OF_RANGE] FAILURE) ∨
    (∃ r f st bl msg, FileObjects m fileNo r f st ∧ selectNodeBlockSet f.blockList startPoint size = some bl ∧
      m.sendBlockInfo st.status.stSize f.primaryReplicaNode bl = some msg ∧ out = m.reply o msg SUCCESS) := by
  unfold parseReadFile at h
  cases hb : m.bufferedFiles.find? fileNo with
  | none =>
      rw [hb] at h
      cases h
      exact Or.inl ⟨rfl, rfl⟩
  | some r =>
      rw [hb] at h
      simp only at h
      cases hf : m.files r with
      | none => rw [hf] at h; cases h
      | some f =>
          rw [hf] at h
          simp only at h
          split at h
          · rename_i bl st hsel hst
            obtain ⟨msg, hmsg, rfl⟩ := Option.map_eq_some_iff.mp h
            exact Or.inr ⟨r, f, st, bl, msg, ⟨hb, hf, hst⟩, hsel, hmsg, rfl⟩
          · cases h

/-- The state a write leaves: the attributes merged and the block list extended. -/
def writtenFile (m : Master) (r : FileRef) (f : OpenFileInfo) (st : FileStat) (attr : Stat)
    (startPoint size : Nat) : Master :=
  (m.setStat f.fileStatus (st.setStatus (receiveAttr st.status attr))).setFile r
    (f.setBlocks (allocateNewBlocksForWriting f.blockList startPoint size))

theorem parseWriteFile_some {m : Master} {o : Origin} {fileNo : Int} {attr : Stat} {startPoint size : Nat}
    {out : Outcome} (h : m.parseWriteFile o fileNo attr startPoint size = some out) :
    (m.bufferedFiles.find? fileNo = none ∧ out = m.reply o [.int OUT_OF_RANGE] FAILURE) ∨
    (∃ r f st bl msg, FileObjects m fileNo r f st ∧
      selectNodeBlockSet (allocateNewBlocksForWriting f.blockList startPoint size) startPoint size = some bl ∧
      (m.writtenFile r f st attr startPoint size).sendBlockInfo (max st.status.stSize attr.stSize)
        f.primaryReplicaNode bl = some msg ∧
      out = (m.writtenFile r f st attr startPoint size).reply o msg SUCCESS) := by
  unfold parseWriteFile at h
  cases hb : m.bufferedFiles.find? fileNo with
  | none =>
      rw [hb] at h
      cases h
      exact Or.inl ⟨rfl, rfl⟩
  | some r =>
      rw [hb] at h
      simp only at h
      cases hf : m.files r with
      | none => rw [hf] at h; cases h
      | some f =>
          rw [hf] at h
          simp only at h
          cases hst : m.fileStatPool.find? f.fileStatus with
          | none => rw [hst] at h; cases h
          | some st =>
              rw [hst] at h
              simp only at h
              split at h
              · cases h
              · rename_i bl hsel
                obtain ⟨msg, hmsg, rfl⟩ := Option.map_eq_some_iff.mp h
                exact Or.inr ⟨r, f, st, bl, msg, ⟨hb, hf, hst⟩, hsel, hmsg, rfl⟩

theorem sendBlockInfo_progress {m : Master} {primary : Option NodeRef} {n : NodeInfo}
    (hn : primary.bind m.nodes = some n) (fileSize : Nat) (bl : BlockList) :
    ∃ msg, m.sendBlockInfo fileSize primary bl = some msg := by
  unfold sendBlockInfo
  rw [hn]
  exact ⟨_, rfl⟩

/-- A write answers when its blocks can be selected and the primary exists. -/
theorem parseWriteFile_progress {m : Master} {fileNo : Int} {r : FileRef} {f : OpenFileInfo} {st : FileStat}
    {n : NodeInfo} {startPoint size : Nat} {bl : BlockList} (hobj : FileObjects m fileNo r f st)
    (hn : f.primaryReplicaNode.bind m.nodes = some n)
    (hsel : selectNodeBlockSet (allocateNewBlocksForWriting f.blockList startPoint size) startPoint size = some bl)
    (o : Origin) (attr : Stat) :
    ∃ msg, (m.writtenFile r f st attr startPoint size).sendBlockInfo (max st.status.stSize attr.stSize)
        f.primaryReplicaNode bl = some msg ∧
      m.parseWriteFile o fileNo attr startPoint size
        = some ((m.writtenFile r f st attr startPoint size).reply o msg SUCCESS) := by
  have hn' : f.primaryReplicaNode.bind (m.writtenFile r f st attr startPoint size).nodes = some n := hn
  obtain ⟨msg, hmsg⟩ := sendBlockInfo_progress hn' (max st.status.stSize attr.stSize) bl
  refine ⟨msg, hmsg, ?_⟩
  simp only [parseWriteFile, hobj.buffered, hobj.object, hobj.entry, hsel]
  exact Option.map_eq_some_iff.mpr ⟨msg, hmsg, rfl⟩

theorem parseMetaUpdate_some {m : Master} {fileNo : Int} {attr : Stat} {out : Outcome}
    (h : m.parseMetaUpdate fileNo attr = some out) :
    out.ops = [] ∧ ((m.bufferedFiles.find? fileNo = none ∧ out.master = m) ∨
      (∃ r f st, FileObjects m fileNo r f st ∧
        out.master = m.setStat f.fileStatus (st.setStatus (receiveAttr st.status attr)))) := by
  unfold parseMetaUpdate at h
  cases hb : m.bufferedFiles.find? fileNo with
  | none =>
      rw [hb] at h
      cases h
      exact ⟨rfl, Or.inl ⟨rfl, rfl⟩⟩
  | some r =>
      rw [hb] at h
      simp only at h
      cases hf : m.files r with
      | none => rw [hf] at h; cases h
      | some f =>
          rw [hf] at h
          simp only at h
          cases hst : m.fileStatPool.find? f.fileStatus with
          | none => rw [hst] at h; cases h
          | some st =>
              rw [hst] at h
              cases h
              exact ⟨rfl, Or.inr ⟨r, f, st, ⟨hb, hf, hst⟩, rfl⟩⟩

/-- The loop that should drop the blocks past the new end drops none: it starts past the size it
    compares with. -/
theorem truncateBlocks_eq (size fuel : Nat) (bl : BlockList) :
    truncateBlocks size fuel (getBlockStartPoint size + BLOCK_SIZE) bl = bl := by
  cases fuel with
  | zero => rfl
  | succ fuel =>
      have hlt := lt_getBlockStartPoint_add size
      have hstop : ¬ (getBlockStartPoint size + BLOCK_SIZE + BLOCK_SIZE ≤ size) := by
        unfold BLOCK_SIZE at hlt ⊢
        omega
      unfold truncateBlocks
      rw [if_neg hstop]

theorem setBlocks_self (f : OpenFileInfo) : f.setBlocks f.blockList = f := rfl

/-- The state a truncate leaves: the size is set, and nothing else. -/
def truncatedFile (m : Master) (f : OpenFileInfo) (st : FileStat) (size : Nat) : Master :=
  m.setStat f.fileStatus (st.setStatus { st.status with stSize := size })

theorem setFile_self {m : Master} {r : FileRef} {f : OpenFileInfo} (h : m.files r = some f) : m.setFile r f = m := by
  unfold setFile
  rw [← h, Function.update_eq_self]

theorem truncateLocal_some {m m' : Master} {s : FileStat} {size : Nat} {ops : List QueueOp}
    (h : m.truncateLocal s size = some (m', ops)) :
    ∃ r f st, s.openedFileInfo = some r ∧ m.files r = some f ∧ m.fileStatPool.find? f.fileStatus = some st ∧
      m' = m.truncatedFile f st size ∧
      (ops = [] ∨ ∃ primary, f.primaryReplicaNode = some primary ∧
        sendEach (m.sendTruncateRequest f.fileNo (getBlockStartPoint size) size)
          (primary :: f.IOnodesSet.keys) = some ops) := by
  unfold truncateLocal at h
  cases ho : s.openedFileInfo with
  | none => rw [ho] at h; cases h
  | some r =>
      rw [ho] at h
      simp only at h
      cases hf : m.files r with
      | none => rw [hf] at h; cases h
      | some f =>
          rw [hf] at h
          simp only at h
          cases hst : m.fileStatPool.find? f.fileStatus with
          | none => rw [hst] at h; cases h
          | some st =>
              rw [hst] at h
              obtain ⟨⟨m1, ops1⟩, hshr, heq⟩ := Option.map_eq_some_iff.mp h
              cases heq
              refine ⟨r, f, st, rfl, hf, hst, ?_⟩
              split at hshr
              · unfold shrinkFile at hshr
                cases hp : f.primaryReplicaNode with
                | none => rw [hp] at hshr; cases hshr
                | some primary =>
                    rw [hp] at hshr
                    simp only at hshr
                    split at hshr
                    · cases hshr
                    · rename_i ops' hsend
                      cases hshr
                      refine ⟨?_, Or.inr ⟨primary, rfl, hsend⟩⟩
                      rw [truncateBlocks_eq, setBlocks_self, setFile_self hf]
                      rfl
              · cases hshr
                exact ⟨rfl, Or.inl rfl⟩

theorem parseTruncateFile_some {m : Master} {o : Origin} {path : Str} {size : Nat} {out : Outcome}
    (h : m.parseTruncateFile o path size = some out) :
    (m.fileStatPool.find? path = none ∧ out = m.reply o [.int m.masterNumber, .int (-ENOENT)] FAILURE) ∨
    (∃ s, m.fileStatPool.find? path = some s ∧ s.isExternal = true ∧
      out = m.reply o [.int s.externalMaster] SUCCESS) ∨
    (∃ s m' ops, m.fileStatPool.find? path = some s ∧ s.isExternal = false ∧
      m.truncateLocal s size = some (m', ops) ∧
      out = ⟨m', ops ++ sendResponse o [.int m.masterNumber, .int SUCCESS], [], SUCCESS⟩) := by
  unfold parseTruncateFile at h
  cases hst : m.fileStatPool.find? path with
  | none =>
      rw [hst] at h
      cases h
      exact Or.inl ⟨rfl, rfl⟩
  | some s =>
      rw [hst] at h
      simp only at h
      cases hx : s.isExternal with
      | true =>
          rw [hx, if_pos rfl] at h
          cases h
          exact Or.inr (Or.inl ⟨s, rfl, hx, rfl⟩)
      | false =>
          rw [hx, if_neg (by decide)] at h
          obtain ⟨⟨m', ops⟩, htr, rfl⟩ := Option.map_eq_some_iff.mp h
          exact Or.inr (Or.inr ⟨s, m', ops, rfl, hx, htr, rfl⟩)

theorem parseOpenLocal_some {m : Master} {e : Env} {o : Origin} {path : Str} {flag mode : BitVec 32}
    {out : Outcome} (h : m.parseOpenLocal e o path flag mode = some out) :
    (∃ m' ops err, m.openFile e path (openFlag flag) mode = some (m', ops, .error err) ∧
      out = ⟨m', ops ++ sendResponse o [.int err.status], [], FAILURE⟩) ∨
    (∃ m' ops fileNo r f st, m.openFile e path (openFlag flag) mode = some (m', ops, .ok fileNo) ∧
      FileObjects m' fileNo r f st ∧
      out = ⟨m', ops ++ sendResponse o (openReply fileNo f.blockSize st.status), [], SUCCESS⟩) := by
  unfold parseOpenLocal at h
  split at h
  · cases h
  · rename_i m' ops err hopen
    cases h
    exact Or.inl ⟨m', ops, err, hopen, rfl⟩
  · rename_i m' ops fileNo hopen
    unfold openFileOf at h
    cases hb : m'.bufferedFiles.find? fileNo with
    | none => rw [hb] at h; cases h
    | some r =>
        rw [hb] at h
        simp only at h
        cases hf : m'.files r with
        | none => rw [hf] at h; cases h
        | some f =>
            rw [hf] at h
            simp only [Option.map_some] at h
            cases hst : m'.fileStatPool.find? f.fileStatus with
            | none => rw [hst] at h; cases h
            | some st =>
                rw [hst] at h
                cases h
                exact Or.inr ⟨m', ops, fileNo, r, f, st, hopen, ⟨hb, hf, hst⟩, rfl⟩

theorem parseOpenFile_some {m : Master} {e : Env} {o : Origin} {path : Str} {flag mode : BitVec 32}
    {out : Outcome} (h : m.parseOpenFile e o path flag mode = some out) :
    (∃ s, m.fileStatPool.find? path = some s ∧ s.isExternal = true ∧
      out = m.reply o [.int s.externalMaster] SUCCESS) ∨
    ((∀ s, m.fileStatPool.find? path = some s → s.isExternal = false) ∧
      m.parseOpenLocal e o path flag mode = some out) := by
  unfold parseOpenFile at h
  cases hst : m.fileStatPool.find? path with
  | none =>
      rw [hst] at h
      exact Or.inr ⟨(by intro s hs; cases hs), h⟩
  | some s =>
      rw [hst] at h
      simp only at h
      cases hx : s.isExternal with
      | true =>
          rw [hx, if_pos rfl] at h
          cases h
          exact Or.inl ⟨s, rfl, hx, rfl⟩
      | false =>
          rw [hx, if_neg (by decide)] at h
          exact Or.inr ⟨(by intro s' hs'; cases hs'; exact hx), h⟩

end Master

end HuronFS
