import HuronFS.Master.TablesSpec

/-!
# `Master.Config` — what the requests leave as it is

The mount point, the number among the masters and the number of replicas are set by the constructor; no request
changes them. The registry of IOnodes changes with a registration and with the failure of a node only: every
other request `Keeps` it, with the ids of the nodes and a cursor that stays valid.
-/

namespace HuronFS

namespace Master

/-- What the constructor sets for good. -/
def config (m : Master) : Str × Int × Nat := (m.mountPoint, m.masterNumber, m.numOfReplica)

/-- The registry, with the ids that are taken, and what the constructor set. -/
def core (m : Master) : OrdMap Int NodeRef × OrdSet NodeRef × (Nat → Bool) × NodeRef × (Str × Int × Nat) :=
  (m.registeredIOnodes, m.IOnodeHandle, m.nodeIdPool, m.nextNode, m.config)

/-- The cursor is at a registered node, or at the end. -/
def CursorValid (m : Master) : Prop := ∀ k, m.currentIOnode = some k → ∃ r, m.registeredIOnodes.find? k = some r

/-- The registry is as before, each node has its id, and the cursor is valid if it was. -/
structure Keeps (m m' : Master) : Prop where
  core : m'.core = m.core
  node : ∀ r, (m'.nodes r).map NodeInfo.nodeId = (m.nodes r).map NodeInfo.nodeId
  cursor : m.CursorValid → m'.CursorValid

namespace Keeps

variable {m m' m'' : Master}

theorem refl (m : Master) : Keeps m m := ⟨rfl, fun _ => rfl, fun h => h⟩

theorem trans (h : Keeps m m') (h' : Keeps m' m'') : Keeps m m'' :=
  ⟨h'.core.trans h.core, fun r => (h'.node r).trans (h.node r), fun hc => h'.cursor (h.cursor hc)⟩

theorem registered_eq (h : Keeps m m') : m'.registeredIOnodes = m.registeredIOnodes := congrArg Prod.fst h.core

theorem config_eq (h : Keeps m m') : m'.config = m.config := congrArg (fun c => c.2.2.2.2) h.core

/-- A change of other tables. -/
theorem of_tables (hcore : m'.core = m.core) (hnodes : m'.nodes = m.nodes) (hcursor : m'.currentIOnode = m.currentIOnode) :
    Keeps m m' := by
  refine ⟨hcore, fun r => by rw [hnodes], ?_⟩
  intro h k hk
  rw [hcursor] at hk
  rw [show m'.registeredIOnodes = m.registeredIOnodes from congrArg Prod.fst hcore]
  exact h k hk

theorem of_touched (h : NodesTouched m m') : Keeps m m' := by
  refine ⟨?_, ?_, ?_⟩
  · rw [h.eq]
    rfl
  · intro r
    cases hn : m.nodes r with
    | none => rw [h.none r hn]
    | some n =>
        obtain ⟨s, hs⟩ := h.node r n hn
        rw [hs]
        rfl
  · intro hc k hk
    rw [h.registered_eq]
    exact h.cursor hc k hk

end Keeps

theorem getFileNo_keeps (m : Master) : Keeps m m.getFileNo.2 := by
  rcases getFileNo_cases m with ⟨n, -, -, -, hg⟩ | ⟨c, -, hg⟩
  · rw [hg]
    exact .of_tables rfl rfl rfl
  · rw [hg]
    exact .of_tables rfl rfl rfl

theorem releaseFileNo_keeps {m m' : Master} {fileNo : Int} (h : m.releaseFileNo fileNo = some m') :
    Keeps m m' := by
  unfold releaseFileNo at h
  split at h
  · cases h
    exact .of_tables rfl rfl rfl
  · cases h

theorem createNewOpenFileInfo_keeps {m m' : Master} {fileNo : Int} {flag : BitVec 32} {path : Str}
    {ops : List QueueOp} {res : Except OpenError FileRef}
    (h : m.createNewOpenFileInfo fileNo flag path = some (m', ops, res)) : Keeps m m' := by
  cases res with
  | ok r =>
      obtain ⟨stat, main, pool, m2, -, -, ht, -, -, rfl⟩ := createNewOpenFileInfo_ok h
      have hentered : Keeps m (m.enterOpenFile fileNo flag path stat) := .of_tables rfl rfl rfl
      exact (hentered.trans (.of_touched ht)).trans (.of_tables rfl rfl rfl)
  | error err =>
      obtain ⟨-, -, stat, -, hrel⟩ := createNewOpenFileInfo_error h
      have hentered : Keeps m (m.enterOpenFile fileNo flag path stat) := .of_tables rfl rfl rfl
      exact hentered.trans (releaseFileNo_keeps hrel)

theorem openFile_keeps {m m' : Master} {e : Env} {path : Str} {flag mode : BitVec 32} {ops : List QueueOp}
    {res : Except OpenError Int} (h : m.openFile e path flag mode = some (m', ops, res)) : Keeps m m' := by
  obtain ⟨fileNo, m1, hg⟩ : ∃ fileNo m1, m.getFileNo = (fileNo, m1) := ⟨_, _, rfl⟩
  have hno : Keeps m m1 := by
    have hkeeps := getFileNo_keeps m
    rw [hg] at hkeeps
    exact hkeeps
  have hnew : Keeps m1 (m1.createNewFileStat e path .notExist (S_IFREG ||| mode)) := .of_tables rfl rfl rfl
  unfold openFile at h
  simp only [hg] at h
  split at h
  · split at h
    · split at h
      · cases h
      · rename_i hc
        cases h
        exact (hno.trans hnew).trans (createNewOpenFileInfo_keeps hc)
      · rename_i hc
        cases h
        exact (hno.trans hnew).trans (createNewOpenFileInfo_keeps hc)
    · cases h
      exact hno
  · split at h
    · split at h
      · cases h
      · rename_i hc
        cases h
        exact hno.trans (createNewOpenFileInfo_keeps hc)
      · rename_i m2 ops' r hc
        split at h
        · cases h
        · rename_i m3 hadd
          cases h
          refine (hno.trans (createNewOpenFileInfo_keeps hc)).trans ?_
          unfold addOpenCount at hadd
          split at hadd
          · cases hadd
          · cases hadd
            exact .of_tables rfl rfl rfl
    · split at h
      · cases h
      · cases h
        exact .of_tables rfl rfl rfl

theorem removeFile_keeps {m m' : Master} {path : Str} {ops : List QueueOp} {found : Bool}
    (h : m.removeFile path = some (m', ops, found)) : Keeps m m' := by
  rcases removeFile_some h with ⟨-, rfl, -, -⟩ | ⟨s, -, -, -, -, rfl⟩ | ⟨s, r, m1, -, -, -, hrem, rfl⟩
  · exact .of_tables rfl rfl rfl
  · exact .of_tables rfl rfl rfl
  · obtain ⟨f, primary, m2, -, -, hsend, rfl, -, -⟩ := removeOpenFile_inv hrem
    exact (Keeps.of_touched (sendRemoveRequests_some hsend)).trans (.of_tables rfl rfl rfl)

theorem renameLocalFile_keeps {m m' : Master} {s : FileStat} {newPath : Str} {ops : List QueueOp}
    (h : m.renameLocalFile s newPath = some (m', ops)) : Keeps m m' := by
  unfold renameLocalFile at h
  simp only at h
  split at h
  · cases h
    exact .of_tables rfl rfl rfl
  · split at h
    · cases h
    · split at h
      · cases h
      · split at h
        · cases h
        · cases h
          exact .of_tables rfl rfl rfl

theorem renameTables_keeps {m m' : Master} {oldPath newPath : Str} {newMaster : Int} {ops : List QueueOp}
    (h : m.renameTables oldPath newPath newMaster = some (m', ops)) : Keeps m m' := by
  unfold renameTables at h
  split at h
  · split at h
    · obtain ⟨⟨m1, ops1, found⟩, hrem, heq⟩ := Option.map_eq_some_iff.mp h
      cases heq
      exact removeFile_keeps hrem
    · cases h
      exact .of_tables rfl rfl rfl
  · split at h
    · split at h
      · cases h
      · split at h
        · cases h
        · rename_i m1 ops1 found hrem
          split at h
          · cases h
          · rename_i m2 ops2 hren
            cases h
            exact ((removeFile_keeps hrem).trans (renameLocalFile_keeps hren)).trans (.of_tables rfl rfl rfl)
    · cases h
      exact .of_tables rfl rfl rfl

theorem truncateLocal_keeps {m m' : Master} {s : FileStat} {size : Nat} {ops : List QueueOp}
    (h : m.truncateLocal s size = some (m', ops)) : Keeps m m' := by
  unfold truncateLocal at h
  split at h
  · cases h
  · split at h
    · cases h
    · split at h
      · cases h
      · obtain ⟨⟨m1, ops1⟩, hshrunk, heq⟩ := Option.map_eq_some_iff.mp h
        cases heq
        suffices hm1 : Keeps m m1 from hm1.trans (.of_tables rfl rfl rfl)
        split at hshrunk
        · unfold shrinkFile at hshrunk
          split at hshrunk
          · cases hshrunk
          · simp only at hshrunk
            split at hshrunk
            · cases hshrunk
            · cases hshrunk
              exact .of_tables rfl rfl rfl
        · cases hshrunk
          exact .of_tables rfl rfl rfl

/-! ## Failure of a node -/

theorem recreateReplica_keeps {m m' : Master} {failed : NodeRef} {fileNo : Int} {ops : List QueueOp}
    {new : Option NodeRef} (h : m.recreateReplica failed fileNo = some (m', ops, new)) : Keeps m m' := by
  unfold recreateReplica at h
  split at h
  · cases h
  · split at h
    · cases h
    · rename_i m1 hrep
      obtain ⟨-, ht⟩ := allocateReplaceIOnode_state hrep
      refine (Keeps.of_touched ht).trans ?_
      simp only at h
      split at h
      · split at h
        · split at h
          · cases h
          · split at h
            · cases h
              exact .of_tables rfl rfl rfl
            · cases h
        · split at h
          · cases h
            exact .of_tables rfl rfl rfl
          · cases h
      · split at h
        · split at h
          · cases h
            exact .of_tables rfl rfl rfl
          · cases h
            exact .of_tables rfl rfl rfl
        · cases h
          exact .of_tables rfl rfl rfl

theorem recreateEach_keeps {failed : NodeRef} {l : List Int} : ∀ {m m' : Master} {ops : List QueueOp}
    {news : List (Int × Option NodeRef)}, recreateEach failed l m = some (m', ops, news) → Keeps m m' := by
  induction l with
  | nil =>
      intro m m' ops news h
      cases h
      exact .of_tables rfl rfl rfl
  | cons fileNo rest ih =>
      intro m m' ops news h
      unfold recreateEach at h
      split at h
      · cases h
      · rename_i hone
        split at h
        · cases h
        · rename_i hrest
          cases h
          exact (recreateReplica_keeps hone).trans (ih hrest)

theorem removeIOnodeBufferedFile_keeps {failed : NodeRef} {l : List Int} : ∀ {m m' : Master},
    removeIOnodeBufferedFile failed l m = some m' → Keeps m m' := by
  induction l with
  | nil =>
      intro m m' h
      cases h
      exact .of_tables rfl rfl rfl
  | cons fileNo rest ih =>
      intro m m' h
      unfold removeIOnodeBufferedFile at h
      split at h
      · cases h
      · rename_i m1 hone
        refine Keeps.trans ?_ (ih h)
        unfold removeBufferedFile at hone
        split at hone
        · cases hone
        · simp only at hone
          split at hone
          · split at hone
            · cases hone
            · cases hone
              exact .of_tables rfl rfl rfl
          · cases hone
            exact .of_tables rfl rfl rfl

/-- **The failure of a node** keeps the registry up to the removal of the node. -/
theorem IOnodeFailureHandler_inv {m m' : Master} {failed : NodeRef} {ops : List QueueOp}
    {news : List (Int × Option NodeRef)} (h : m.IOnodeFailureHandler failed = some (m', ops, news)) :
    ∃ m1, Keeps m m1 ∧ m1.unregisterIOnode failed = some m' := by
  unfold IOnodeFailureHandler at h
  split at h
  · cases h
  · split at h
    · rename_i m1 ops' news' hsend hrec
      split at h
      · cases h
      · rename_i m2 hun
        cases h
        refine ⟨m1, ?_, hun⟩
        unfold recreateReplicas at hrec
        split at hrec
        · cases hrec
        · split at hrec
          · obtain ⟨m3, hbuf, heq⟩ := Option.map_eq_some_iff.mp hrec
            cases heq
            exact removeIOnodeBufferedFile_keeps hbuf
          · exact recreateEach_keeps hrec
    · cases h

theorem unregisterIOnode_config {m m' : Master} {failed : NodeRef} (h : m.unregisterIOnode failed = some m') :
    m'.config = m.config := by
  unfold unregisterIOnode removeIOnode at h
  split at h
  · cases h
  · simp only at h
    split at h
    · cases h
    · cases h
      rfl

/-! ## Requests -/

/-- The node a request reports as failed. -/
def failedNode (m : Master) (o : Origin) : Request → Option NodeRef
  | .nodeFailure => m.getNodeInfoFromHandle o.handle
  | .IOnodeFailure nodeId => m.registeredIOnodes.find? nodeId
  | _ => none

/-- What a request can do to the registry. -/
inductive RegistryChange (m : Master) (o : Origin) (req : Request) (m' : Master) : Prop
  | keeps (h : Keeps m m')
  | registers (totalMemory : Nat) (uri : Str) (hreq : req = .register totalMemory uri)
      (hadd : m' = (m.addIOnode uri totalMemory o.handle).2)
  | removes (failed : NodeRef) (m1 : Master) (hfailed : m.failedNode o req = some failed) (h : Keeps m m1)
      (hun : m1.unregisterIOnode failed = some m')

/-- **Only a registration and the failure of a node** change the registry. -/
theorem parseRequest_registry {m : Master} {e : Env} {o : Origin} {req : Request} {out : Outcome}
    (h : m.parseRequest e o req = some out) : RegistryChange m o req out.master := by
  have hfailure : ∀ failed, m.failedNode o req = some failed → failureOutcome (m.IOnodeFailureHandler failed) = some out →
      RegistryChange m o req out.master := by
    intro failed hfailed hf
    obtain ⟨⟨m', ops, news⟩, hh, heq⟩ := Option.map_eq_some_iff.mp hf
    cases heq
    obtain ⟨m1, hkeeps, hun⟩ := IOnodeFailureHandler_inv hh
    exact .removes failed m1 hfailed hkeeps hun
  have hremove : ∀ code path, parseRemove code m o path = some out → Keeps m out.master := by
    intro code path hr
    unfold parseRemove at hr
    split at hr
    · cases hr
    · rename_i hrem
      cases hr
      exact removeFile_keeps hrem
  have hlocal : ∀ path flag mode, m.parseOpenLocal e o path flag mode = some out → Keeps m out.master := by
    intro path flag mode hl
    unfold parseOpenLocal at hl
    split at hl
    · cases hl
    · rename_i hof
      cases hl
      exact openFile_keeps hof
    · rename_i hof
      split at hl
      · cases hl
      · split at hl
        · cases hl
        · cases hl
          exact openFile_keeps hof
  cases req with
  | register totalMemory uri =>
      cases h
      exact .registers totalMemory uri rfl rfl
  | newClient uri =>
      apply RegistryChange.keeps
      cases h
      exact .of_tables rfl rfl rfl
  | openFile path flag mode =>
      apply RegistryChange.keeps
      simp only [parseRequest, parseOpenFile] at h
      split at h
      · split at h
        · cases h
          exact .of_tables rfl rfl rfl
        · exact hlocal path flag mode h
      · exact hlocal path flag mode h
  | readFile fileNo startPoint size =>
      apply RegistryChange.keeps
      simp only [parseRequest, parseReadFile] at h
      split at h
      · cases h
        exact .of_tables rfl rfl rfl
      · split at h
        · cases h
        · split at h
          · obtain ⟨msg, -, rfl⟩ := Option.map_eq_some_iff.mp h
            exact .of_tables rfl rfl rfl
          · cases h
  | writeFile fileNo attr startPoint size =>
      apply RegistryChange.keeps
      simp only [parseRequest, parseWriteFile] at h
      split at h
      · cases h
        exact .of_tables rfl rfl rfl
      · split at h
        · cases h
        · split at h
          · cases h
          · split at h
            · cases h
            · obtain ⟨msg, -, rfl⟩ := Option.map_eq_some_iff.mp h
              exact .of_tables rfl rfl rfl
  | flushFile fileNo =>
      apply RegistryChange.keeps
      simp only [parseRequest, parseFlushFile] at h
      split at h
      · cases h
        exact .of_tables rfl rfl rfl
      · obtain ⟨n, -, rfl⟩ := Option.map_eq_some_iff.mp h
        exact .of_tables rfl rfl rfl
  | closeFile fileNo =>
      apply RegistryChange.keeps
      simp only [parseRequest, parseCloseFile] at h
      split at h
      · cases h
        exact .of_tables rfl rfl rfl
      · obtain ⟨n, -, rfl⟩ := Option.map_eq_some_iff.mp h
        exact .of_tables rfl rfl rfl
  | getAttr path =>
      apply RegistryChange.keeps
      cases h
      unfold parseAttr
      split
      · exact .of_tables rfl rfl rfl
      · split <;> exact .of_tables rfl rfl rfl
  | updateMeta fileNo attr =>
      apply RegistryChange.keeps
      simp only [parseRequest, parseMetaUpdate] at h
      split at h
      · cases h
        exact .of_tables rfl rfl rfl
      · split at h
        · cases h
        · split at h
          · cases h
          · cases h
            exact .of_tables rfl rfl rfl
  | readDir path =>
      apply RegistryChange.keeps
      obtain ⟨files, -, rfl⟩ := Option.map_eq_some_iff.mp h
      exact .of_tables rfl rfl rfl
  | rmDir path =>
      apply RegistryChange.keeps
      exact hremove RM_DIR path h
  | unlink path =>
      apply RegistryChange.keeps
      exact hremove UNLINK path h
  | access path mode =>
      apply RegistryChange.keeps
      cases h
      unfold parseAccess
      split
      · exact .of_tables rfl rfl rfl
      · split <;> exact .of_tables rfl rfl rfl
  | rename oldPath newPath newMaster =>
      apply RegistryChange.keeps
      obtain ⟨⟨m', ops⟩, hren, rfl⟩ := Option.map_eq_some_iff.mp h
      exact renameTables_keeps hren
  | renameMigrating path oldMaster =>
      apply RegistryChange.keeps
      cases h
      exact .of_tables rfl rfl rfl
  | mkdir path mode =>
      apply RegistryChange.keeps
      cases h
      exact .of_tables rfl rfl rfl
  | truncate path size =>
      apply RegistryChange.keeps
      simp only [parseRequest, parseTruncateFile] at h
      split at h
      · cases h
        exact .of_tables rfl rfl rfl
      · split at h
        · cases h
          exact .of_tables rfl rfl rfl
        · obtain ⟨⟨m', ops⟩, htr, rfl⟩ := Option.map_eq_some_iff.mp h
          exact truncateLocal_keeps htr
  | closeClient =>
      apply RegistryChange.keeps
      cases h
      exact .of_tables rfl rfl rfl
  | nodeFailure =>
      simp only [parseRequest, parseNodeFailure] at h
      split at h
      · rename_i r hr
        exact hfailure r hr h
      · cases h
        exact .keeps (.refl m)
  | IOnodeFailure nodeId =>
      simp only [parseRequest, parseIOnodeFailure] at h
      split at h
      · rename_i r hr
        exact hfailure r hr h
      · cases h
        exact .keeps (.refl m)

/-- **No request changes what the constructor set.** -/
theorem parseRequest_config {m : Master} {e : Env} {o : Origin} {req : Request} {out : Outcome}
    (h : m.parseRequest e o req = some out) : out.master.config = m.config := by
  cases parseRequest_registry h with
  | keeps hk => exact hk.config_eq
  | registers totalMemory uri _ hadd =>
      rw [hadd]
      rcases addIOnode_cases m uri totalMemory o.handle with ⟨pool, c, -, heq⟩ | ⟨id, node, -, -, -, heq⟩
      · rw [heq]
        rfl
      · rw [heq]
        rfl
  | removes failed m1 _ hk hun => rw [unregisterIOnode_config hun, hk.config_eq]

end Master

end HuronFS
