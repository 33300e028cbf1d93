import HuronFS.Master.Replies

/-!
# `Master.FailedOpen` — what a failed open leaves behind

An open of a file that is not open takes a file number, enters the file in the tables and then chooses IOnodes. When there is none,
the number is given back and nothing else. When there is no number, only the branch for a new path looks at the answer.
-/

namespace HuronFS

namespace Master

/-- The tables a failed open should not touch. The `opened_file_info` of each path is in its entry. -/
structure SameTables (m m' : Master) : Prop where
  pool : m'.fileStatPool = m.fileStatPool
  buffered : m'.bufferedFiles = m.bufferedFiles
  numbersInUse : m'.fileNoPool = m.fileNoPool
  fileNumber : m'.fileNumber = m.fileNumber
  stored : ∀ r, (m'.nodes r).map NodeInfo.storedFiles = (m.nodes r).map NodeInfo.storedFiles

/-- An open of the path asks for a file number. -/
def AsksForNumber (m : Master) (path : Str) : Prop :=
  ∀ s, m.fileStatPool.find? path = some s → s.isExternal = false ∧ s.openedFileInfo = none

/-- No file number is free. -/
def NumbersUsedUp (m : Master) : Prop := m.fileNumber = MAX_FILE_NUMBER ∨ ∀ n, n < MAX_FILE_NUMBER → m.fileNoPool n = true

/-- The open is answered with an error. -/
def AnsweredError (o : Origin) (out : Outcome) : Prop :=
  ∃ err : OpenError, allocatedOn SERVER_QUEUE_NUM out.ops = [responseTask o [.int err.status]]

/-- **A failed open leaves the Master as it was**, and one that finds no number is answered so. -/
structure FailsCleanly (m : Master) (e : Env) (o : Origin) (path : Str) (flag mode : BitVec 32) : Prop where
  unchanged : ∀ out, m.parseOpenFile e o path flag mode = some out → AnsweredError o out →
    SameTables m out.master ∧ allocatedOn IONODE_COMMUNICATE_QUEUE_NUM out.ops = []
  tooMany : m.AsksForNumber path → m.NumbersUsedUp → ∃ out, m.parseOpenFile e o path flag mode = some out ∧
    allocatedOn SERVER_QUEUE_NUM out.ops = [responseTask o [.int TOO_MANY_FILES]]

section

variable {m : Master} {e : Env} {o : Origin} {path : Str} {flag mode : BitVec 32}

/-- An open that is not forwarded. -/
theorem parseOpenFile_local (h : m.AsksForNumber path) : m.parseOpenFile e o path flag mode = m.parseOpenLocal e o path flag mode := by
  unfold parseOpenFile
  cases hst : m.fileStatPool.find? path with
  | none => rfl
  | some s =>
      dsimp only
      rw [(h s hst).1, if_neg (by decide)]

theorem getFileNo_usedUp (h : m.NumbersUsedUp) : ∃ c, m.getFileNo = (-1, { m with currentFileNo := c }) := by
  rcases getFileNo_cases m with ⟨n, hlt, hfree, hne, -⟩ | ⟨c, -, hg⟩
  · rcases h with hfull | hall
    · exact absurd hfull hne
    · rw [hall n hlt] at hfree
      cases hfree
  · exact ⟨c, hg⟩

theorem getFileNo_free (h : ¬ m.NumbersUsedUp) : ∃ n, n < MAX_FILE_NUMBER ∧ m.getFileNo = ((n : Int), m.takeFileNo n) := by
  rcases getFileNo_cases m with ⟨n, hlt, -, -, hg⟩ | ⟨c, hfull, -⟩
  · exact ⟨n, hlt, hg⟩
  · exact absurd hfull h

/-- The answer to an open that throws. -/
theorem parseOpenLocal_error {m' : Master} {err : OpenError} (h : m.openFile e path (openFlag flag) mode = some (m', [], .error err)) :
    m.parseOpenLocal e o path flag mode = some ⟨m', sendResponse o [.int err.status], [], FAILURE⟩ := by
  unfold parseOpenLocal
  rw [h]
  rfl

/-- A new path, when no number is free. -/
theorem openFile_usedUp (e : Env) (flag mode : BitVec 32) (hpath : m.fileStatPool.find? path = none) (h : m.NumbersUsedUp) :
    ∃ c, m.openFile e path flag mode = some ({ m with currentFileNo := c }, [], .error .badAlloc) := by
  obtain ⟨c, hg⟩ := getFileNo_usedUp h
  refine ⟨c, ?_⟩
  unfold openFile
  rw [hpath]
  dsimp only
  rw [hg]
  exact if_neg (fun hc => hc rfl)

theorem releaseFileNo_of_lt {n : Nat} (hn : n < MAX_FILE_NUMBER) : m.releaseFileNo n =
    some { m with fileNumber := m.fileNumber - 1, fileNoPool := Function.update m.fileNoPool n false } :=
  if_pos (by omega)

/-- `_create_new_open_file_info` without an IOnode. -/
theorem createNewOpenFileInfo_noIOnode {n : Nat} {stat : FileStat} (flag : BitVec 32) (hst : m.fileStatPool.find? path = some stat)
    (hn : n < MAX_FILE_NUMBER) (hsize : m.registeredIOnodes.size = 0) :
    ∃ m', m.createNewOpenFileInfo n flag path = some (m', [], .error .runtimeError) ∧
      m'.fileStatPool = m.fileStatPool.put path { stat with openedFileInfo := some m.nextFile } := by
  have hsize' : (m.enterOpenFile n flag path stat).registeredIOnodes.size = 0 := hsize
  unfold createNewOpenFileInfo selectIOnode
  rw [hst]
  dsimp only
  rw [if_pos hsize', releaseFileNo_of_lt hn]
  exact ⟨_, rfl, rfl⟩

/-- **An open without an IOnode**, when there is a number: the path has an open file afterwards. -/
theorem openFile_noIOnode (e : Env) (flag mode : BitVec 32) (hasks : m.AsksForNumber path) (hfree : ¬ m.NumbersUsedUp) (hsize : m.registeredIOnodes.size = 0) :
    ∃ m' s, m.openFile e path flag mode = some (m', [], .error .runtimeError) ∧ m'.fileStatPool.find? path = some s ∧
      s.openedFileInfo = some m.nextFile := by
  obtain ⟨n, hn, hg⟩ := getFileNo_free hfree
  unfold openFile
  cases hst : m.fileStatPool.find? path with
  | none =>
      have hnew : ((m.takeFileNo n).createNewFileStat e path .notExist (S_IFREG ||| mode)).fileStatPool.find? path = some _ :=
        OrdMap.find?_put_self ..
      obtain ⟨m', hc, hpool⟩ := createNewOpenFileInfo_noIOnode flag hnew hn hsize
      refine ⟨m', _, ?_, by rw [hpool]; exact OrdMap.find?_put_self .., rfl⟩
      dsimp only
      rw [hg]
      dsimp only
      rw [if_pos (by omega), hc]
  | some s =>
      have hold : (m.takeFileNo n).fileStatPool.find? path = some s := hst
      obtain ⟨m', hc, hpool⟩ := createNewOpenFileInfo_noIOnode flag hold hn hsize
      refine ⟨m', _, ?_, by rw [hpool]; exact OrdMap.find?_put_self .., rfl⟩
      dsimp only
      rw [(hasks s hst).2]
      dsimp only
      rw [hg]
      dsimp only
      rw [hc]

/-- A reply of attributes is no error. -/
theorem openReply_not_error {ops : List QueueOp} (hops : m.NodeSends ops) {fileNo : Int} {blockSize : Nat} {st : Stat} {err : OpenError} :
    allocatedOn SERVER_QUEUE_NUM (ops ++ sendResponse o (openReply fileNo blockSize st)) ≠ [responseTask o [.int err.status]] := by
  rw [allocatedOn_reply hops]
  intro hc
  have hlen : (openReply fileNo blockSize st).length = 1 := congrArg (fun t => t.message.length) (List.cons.inj hc).1
  simp [openReply, sendAttr] at hlen

/-- The entries of an open without an IOnode stay. -/
theorem not_failsCleanly_noIOnode (hasks : m.AsksForNumber path) (hfree : ¬ m.NumbersUsedUp) (hsize : m.registeredIOnodes.size = 0) :
    ¬ m.FailsCleanly e o path flag mode := by
  rintro ⟨hunchanged, -⟩
  obtain ⟨m', s, hopen, hentry, hopened⟩ := openFile_noIOnode e (openFlag flag) mode hasks hfree hsize
  have hout := parseOpenLocal_error (o := o) hopen
  rw [← parseOpenFile_local hasks] at hout
  obtain ⟨hsame, -⟩ := hunchanged _ hout ⟨.runtimeError, rfl⟩
  -- the path had no open file before
  have hpool : m'.fileStatPool = m.fileStatPool := hsame.pool
  rw [hpool] at hentry
  rw [(hasks s hentry).2] at hopened
  cases hopened

/-- **A failed open is clean exactly when** the file is open or kept by another Master, or no number is free and the path is new, or
    there are a number and an IOnode. -/
theorem failsCleanly_iff : m.FailsCleanly e o path flag mode ↔
    (m.AsksForNumber path → m.NumbersUsedUp ∧ m.fileStatPool.find? path = none ∨ ¬ m.NumbersUsedUp ∧ m.registeredIOnodes.size ≠ 0) := by
  constructor
  · intro h hasks
    by_cases hused : m.NumbersUsedUp
    · refine Or.inl ⟨hused, ?_⟩
      obtain ⟨out, hout, hreply⟩ := h.tooMany hasks hused
      rw [parseOpenFile_local hasks] at hout
      rcases parseOpenLocal_some hout with ⟨m', ops, err, hopen, rfl⟩ | ⟨m', ops, fileNo, r, f, st, hopen, -, rfl⟩
      · obtain ⟨rfl, ⟨hnew, -, -⟩ | ⟨-, rfl, -⟩⟩ := openFile_error hopen
        · exact hnew
        · -- the other error has another code
          cases hreply
      · have hcode : TOO_MANY_FILES = OpenError.badAlloc.status := rfl
        rw [hcode] at hreply
        exact absurd hreply (openReply_not_error (openFile_effect hopen).sends)
    · refine Or.inr ⟨hused, ?_⟩
      intro hsize
      exact not_failsCleanly_noIOnode hasks hused hsize h
  · intro hcond
    refine ⟨?_, ?_⟩
    · rintro out hout ⟨err, hreply⟩
      rcases parseOpenFile_some hout with ⟨s, -, -, rfl⟩ | ⟨hint, hlocal⟩
      · exact ⟨⟨rfl, rfl, rfl, rfl, fun _ => rfl⟩, rfl⟩
      · rcases parseOpenLocal_some hlocal with ⟨m', ops, err', hopen, rfl⟩ | ⟨m', ops, fileNo, r, f, st, hopen, -, rfl⟩
        · obtain ⟨rfl, ⟨hnew, -, hg⟩ | ⟨hsize, rfl, hclosed⟩⟩ := openFile_error hopen
          · rcases getFileNo_cases m with ⟨n, -, -, -, hg'⟩ | ⟨c, -, hg'⟩
            · rw [hg'] at hg
              have hneg := (Prod.mk.inj hg).1
              omega
            · rw [hg'] at hg
              cases hg
              exact ⟨⟨rfl, rfl, rfl, rfl, fun _ => rfl⟩, rfl⟩
          · have hasks : m.AsksForNumber path := fun s hs => ⟨hint s hs, hclosed s hs⟩
            rcases hcond hasks with ⟨hused, hnew⟩ | ⟨-, hnode⟩
            · obtain ⟨c, hbad⟩ := openFile_usedUp e (openFlag flag) mode hnew hused
              rw [hbad] at hopen
              cases hopen
            · exact absurd hsize hnode
        · exact absurd hreply (openReply_not_error (openFile_effect hopen).sends)
    · intro hasks hused
      have hnew : m.fileStatPool.find? path = none := by
        rcases hcond hasks with ⟨-, hnew⟩ | ⟨hfree, -⟩
        · exact hnew
        · exact absurd hused hfree
      obtain ⟨c, hbad⟩ := openFile_usedUp e (openFlag flag) mode hnew hused
      refine ⟨_, (parseOpenFile_local hasks).trans (parseOpenLocal_error hbad), rfl⟩

end

/-- The first open of a Master no IOnode has registered at yet: `/a` is answered with an error and is open. -/
theorem open_without_IOnode_not_clean : ¬ (initial OrdMap.empty 0 [] 0).FailsCleanly ⟨0, 0, 0⟩ ⟨3, 0⟩ pathA O_CREAT 0 := by
  apply not_failsCleanly_noIOnode
  · intro s hs
    cases hs
  · rintro (hfull | hall)
    · have hzero : (0 : Int) = (1000000 : Nat) := hfull
      omega
    · have htaken : false = true := hall 0 (by decide)
      cases htaken
  · rfl

end Master

end HuronFS
