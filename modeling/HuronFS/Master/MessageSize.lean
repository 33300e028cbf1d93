import HuronFS.Master.Coverage

/-!
# `Master.MessageSize` — the sizes of outgoing messages

No push checks a bound, so a message fits its buffer exactly when the data it carries is small enough.
`MessagesFit` states, request by request and in terms of the state before it, how small: the number of
blocks of a request or of a file, the length of a path, the uris of the replicas, the names of a
directory. The theorem is that this is exactly when every task the handler fills fits.
-/

namespace HuronFS

/-- **A task fits its buffers**: the message in `MAX_BASIC_MESSAGE_SIZE` with its header, the extended
    data in the sender's buffer and in the one `receive_message` allocates. -/
def OutTask.Fits (t : OutTask) : Prop :=
  t.messageSize + MESSAGE_META_OFF ≤ MAX_BASIC_MESSAGE_SIZE ∧
    t.extendedSize ≤ MAX_EXTENDED_MESSAGE_SIZE ∧ t.extendedSize ≤ MAX_TRANSFER_SIZE

/-- Every task a handler fills fits. -/
def AllFit (ops : List QueueOp) : Prop := ∀ t ∈ tasksOf ops, t.Fits

@[simp] theorem allFit_nil : AllFit [] := by
  intro t ht
  simp [tasksOf] at ht

theorem allFit_append (a b : List QueueOp) : AllFit (a ++ b) ↔ AllFit a ∧ AllFit b := by
  unfold AllFit
  rw [tasksOf_append]
  constructor
  · intro h
    exact ⟨fun t ht => h t (List.mem_append.mpr (Or.inl ht)), fun t ht => h t (List.mem_append.mpr (Or.inr ht))⟩
  · rintro ⟨ha, hb⟩ t ht
    rcases List.mem_append.mp ht with ht | ht
    · exact ha t ht
    · exact hb t ht

theorem allFit_sendOn (q : Nat) (t : OutTask) : AllFit (sendOn q t) ↔ t.Fits := by
  unfold AllFit sendOn
  simp [tasksOf]

/-- A task without extended data fits when its message does. -/
theorem fits_iff {h : Handle} {id : Int} {message : List Field} :
    (OutTask.mk h id message []).Fits ↔ fieldBytes message + MESSAGE_META_OFF ≤ MAX_BASIC_MESSAGE_SIZE := by
  unfold OutTask.Fits OutTask.messageSize OutTask.extendedSize
  simp

theorem allFit_sendIOnode (n : NodeInfo) (message : List Field) :
    AllFit (sendIOnode n message) ↔ fieldBytes message + MESSAGE_META_OFF ≤ MAX_BASIC_MESSAGE_SIZE := by
  unfold sendIOnode IOnodeTask
  rw [allFit_sendOn, fits_iff]

theorem allFit_sendResponse (o : Origin) (message : List Field) :
    AllFit (sendResponse o message) ↔ fieldBytes message + MESSAGE_META_OFF ≤ MAX_BASIC_MESSAGE_SIZE := by
  unfold sendResponse responseTask
  rw [allFit_sendOn, fits_iff]

/-- A reply of a few fixed-size fields fits. -/
theorem allFit_sendResponse_small {o : Origin} {message : List Field} (h : fieldBytes message ≤ 80) :
    AllFit (sendResponse o message) := by
  rw [allFit_sendResponse]
  unfold MESSAGE_META_OFF MAX_BASIC_MESSAGE_SIZE
  omega

theorem allFit_sendIOnode_small {n : NodeInfo} {message : List Field} (h : fieldBytes message ≤ 80) :
    AllFit (sendIOnode n message) := by
  rw [allFit_sendIOnode]
  unfold MESSAGE_META_OFF MAX_BASIC_MESSAGE_SIZE
  omega

namespace Master

/-! ## Sizes of the parts -/

/-- The bytes of one node in a replica list: its id and its uri. -/
def nodeBytes (m : Master) (r : NodeRef) : Nat :=
  match m.nodes r with
  | some n => n.uri.length + 17
  | none => 0

theorem nodeBytes_of {m : Master} {r : NodeRef} {n : NodeInfo} (h : m.nodes r = some n) :
    m.nodeBytes r = n.uri.length + 17 := by
  unfold nodeBytes
  rw [h]

/-- The bytes the replica list of a message takes. -/
def uriBytes (m : Master) (rs : List NodeRef) : Nat := (rs.map m.nodeBytes).sum

theorem fieldBytes_replicaFields {m : Master} {rs : List NodeRef} : ∀ {fs : List Field},
    m.replicaFields rs = some fs → fieldBytes fs = m.uriBytes rs := by
  induction rs with
  | nil => intro fs h; cases h; rfl
  | cons r rs ih =>
      intro fs h
      unfold replicaFields at h
      split at h
      · rename_i n fs' hn hfs
        cases h
        have hrest := ih hfs
        unfold uriBytes at hrest ⊢
        simp only [fieldBytes_cons, Field.bytes_long, Field.bytes_str, List.map_cons, List.sum_cons, nodeBytes_of hn]
        omega
      · cases h

theorem fieldBytes_sendReplicaNodesInfo {m : Master} {s : OrdSet NodeRef} {fs : List Field}
    (h : m.sendReplicaNodesInfo s = some fs) : fieldBytes fs = 8 + m.uriBytes s.keys := by
  unfold sendReplicaNodesInfo at h
  split at h
  · cases h
  · rename_i fs' hfs
    cases h
    have := fieldBytes_replicaFields hfs
    simp only [fieldBytes_cons, Field.bytes_int]
    omega

theorem fieldBytes_blockFields (bl : BlockList) : fieldBytes (blockFields bl) = 16 * bl.size := by
  unfold blockFields OrdMap.size
  induction bl.entries with
  | nil => rfl
  | cons b bs ih =>
      rw [List.flatMap_cons, fieldBytes_append, ih]
      simp only [fieldBytes_cons, Field.bytes_size, fieldBytes_nil, List.length_cons]
      omega

/-- The bytes of an OPEN request to a node, by the length of the path, the number of blocks, and what
    the node learns of the replicas. -/
def openBytes (m : Master) (file : OpenFileInfo) (fullPath : Str) (node : NodeRef) : Nat :=
  41 + fullPath.length + 16 * file.blockList.size +
    (if some node = file.primaryReplicaNode then m.uriBytes file.IOnodesSet.keys else 0)

theorem fieldBytes_openRequest {m : Master} {file : OpenFileInfo} {node : NodeRef} {st : FileStat}
    {msg : List Field} (hst : m.fileStatPool.find? file.fileStatus = some st)
    (h : m.openRequest file node = some msg) : fieldBytes msg = m.openBytes file st.fullPath node := by
  unfold openRequest at h
  rw [hst] at h
  simp only at h
  have hblocks := fieldBytes_blockFields file.blockList
  unfold openBytes
  split at h
  · rename_i hp
    obtain ⟨fs, hfs, rfl⟩ := Option.map_eq_some_iff.mp h
    have hrep := fieldBytes_sendReplicaNodesInfo hfs
    rw [if_pos hp, fieldBytes_append, fieldBytes_append, hblocks, hrep]
    simp only [fieldBytes_cons, Field.bytes_int, Field.bytes_long, Field.bytes_w32, Field.bytes_str,
      fieldBytes_nil]
    omega
  · rename_i hp
    cases h
    rw [if_neg hp, fieldBytes_append, fieldBytes_append, hblocks]
    simp only [fieldBytes_cons, Field.bytes_int, Field.bytes_long, Field.bytes_w32, Field.bytes_str,
      fieldBytes_nil]
    omega

theorem allFit_sendOpenRequest {m : Master} {file : OpenFileInfo} {node : NodeRef} {st : FileStat}
    {ops : List QueueOp} (hst : m.fileStatPool.find? file.fileStatus = some st)
    (h : m.sendOpenRequestToIOnodes file node = some ops) :
    AllFit ops ↔ m.openBytes file st.fullPath node + MESSAGE_META_OFF ≤ MAX_BASIC_MESSAGE_SIZE := by
  unfold sendOpenRequestToIOnodes at h
  split at h
  · rename_i n msg hn hmsg
    cases h
    rw [allFit_sendIOnode, fieldBytes_openRequest hst hmsg]
  · cases h

/-- A series of requests fits when each does. -/
theorem allFit_sendEach {send : NodeRef → Option (List QueueOp)} {rs : List NodeRef} : ∀ {ops : List QueueOp},
    sendEach send rs = some ops → (AllFit ops ↔ ∀ r ∈ rs, ∀ ops', send r = some ops' → AllFit ops') := by
  induction rs with
  | nil => intro ops h; cases h; simp
  | cons r rs ih =>
      intro ops h
      unfold sendEach at h
      split at h
      · rename_i a b ha hb
        cases h
        rw [allFit_append, ih hb]
        constructor
        · rintro ⟨h1, h2⟩ q hq ops' hops'
          rcases List.mem_cons.mp hq with hq | hq
          · rw [hq, ha] at hops'; cases hops'; exact h1
          · exact h2 q hq ops' hops'
        · intro hall
          exact ⟨hall r (by simp) a ha, fun q hq => hall q (by simp [hq])⟩
      · cases h

/-! ## The selected blocks -/

/-- The walk inserts one new key per step. -/
theorem selectBlocks_size {bl : BlockList} {fuel : Nat} : ∀ {remaining : Nat} {it : Option Nat} {acc sel : BlockList},
    remaining ≤ fuel → (∀ k, it = some k → ∀ j ∈ acc.keys, j < k) →
    selectBlocks bl fuel remaining it acc = some sel → sel.size = acc.size + blockCount remaining := by
  induction fuel with
  | zero =>
      intro remaining it acc sel hr _ h
      obtain rfl : remaining = 0 := by omega
      cases h
      rfl
  | succ fuel ih =>
      intro remaining it acc sel hr hkeys h
      unfold selectBlocks at h
      by_cases hz : remaining = 0
      · rw [if_pos hz] at h
        cases h
        rw [hz]; rfl
      · rw [if_neg hz] at h
        cases it with
        | none => cases h
        | some k =>
            simp only at h
            cases hk : bl.find? k with
            | none => rw [hk] at h; cases h
            | some second =>
                rw [hk] at h
                simp only at h
                have hnew : acc.find? k = none := by
                  cases hf : acc.find? k with
                  | none => rfl
                  | some v => exact absurd (hkeys k rfl k (OrdMap.mem_keys.mpr ⟨v, hf⟩)) (lt_irrefl k)
                rw [OrdMap.insert_of_none hnew] at h
                have hle : remaining - BLOCK_SIZE ≤ fuel := by unfold BLOCK_SIZE; omega
                have hnext : ∀ j, bl.nextKey k = some j → ∀ i ∈ (acc.put k second).keys, i < j := by
                  intro j hj i hi
                  have hkj := OrdMap.nextKey_gt hj
                  rcases List.mem_cons.mp ((OrdMap.keys_put_perm hnew second).mem_iff.mp hi) with hi | hi
                  · rw [hi]; exact hkj
                  · exact lt_trans (hkeys k rfl i hi) hkj
                rw [ih hle hnext h, OrdMap.size_put_of_none hnew, blockCount_step (Nat.pos_of_ne_zero hz)]
                generalize blockCount (remaining - BLOCK_SIZE) = c
                omega

theorem selectNodeBlockSet_size {bl sel : BlockList} {startPoint size : Nat}
    (h : selectNodeBlockSet bl startPoint size = some sel) : sel.size = blockCount size := by
  have hsize := selectBlocks_size (le_refl size) (by intro k _ j hj; simp at hj) h
  rw [hsize, OrdMap.size_empty, Nat.zero_add]

theorem fieldBytes_sendBlockInfo {m : Master} {fileSize : Nat} {primary : Option NodeRef} {n : NodeInfo}
    {bl : BlockList} {msg : List Field} (hn : primary.bind m.nodes = some n)
    (h : m.sendBlockInfo fileSize primary bl = some msg) :
    fieldBytes msg = 37 + n.uri.length + 16 * bl.size := by
  unfold sendBlockInfo at h
  rw [hn] at h
  cases h
  rw [fieldBytes_append, fieldBytes_blockFields]
  simp only [fieldBytes_cons, Field.bytes_int, Field.bytes_long, Field.bytes_size, Field.bytes_str, fieldBytes_nil]
  omega

/-! ## The nodes an open would choose -/

/-- The replicas the round robin picks from position `it` on. -/
def replicaChoice (m : Master) : (num : Nat) → (it : Option Int) → OrdSet NodeRef → OrdSet NodeRef
  | 0, _, pool => pool
  | num + 1, it, pool =>
      match m.wrapIOnode it with
      | none => pool
      | some k =>
          match m.registeredIOnodes.find? k with
          | none => pool
          | some r => replicaChoice m num (m.registeredIOnodes.nextKey k) (OrdSet.add pool r)

/-- The replicas an open would choose: those after the node at the cursor, which leads. -/
def replicasChosen (m : Master) : OrdSet NodeRef :=
  match m.wrapIOnode m.currentIOnode with
  | none => OrdMap.empty
  | some k =>
      m.replicaChoice (min (m.registeredIOnodes.size - 1) (min m.numOfReplica m.registeredIOnodes.size))
        (m.registeredIOnodes.nextKey k) OrdMap.empty

theorem wrapIOnode_congr {m m' : Master} (h : m'.registeredIOnodes = m.registeredIOnodes) (it : Option Int) :
    m'.wrapIOnode it = m.wrapIOnode it := by
  unfold wrapIOnode
  rw [h]

theorem selectReplicas_choice {m0 : Master} {fileNo : Int} {num : Nat} : ∀ {it : Option Int}
    {pool pool' : OrdSet NodeRef} {m m' : Master}, m.registeredIOnodes = m0.registeredIOnodes →
    selectReplicas fileNo num it pool m = some (pool', m') → pool' = m0.replicaChoice num it pool := by
  induction num with
  | zero => intro it pool pool' m m' _ h; cases h; rfl
  | succ num ih =>
      intro it pool pool' m m' hreg h
      unfold selectReplicas at h
      unfold replicaChoice
      rw [wrapIOnode_congr hreg] at h
      cases hw : m0.wrapIOnode it with
      | none => rw [hw] at h; cases h
      | some k =>
          rw [hw] at h
          simp only at h ⊢
          rw [hreg] at h
          cases hk : m0.registeredIOnodes.find? k with
          | none => rw [hk] at h; cases h
          | some r =>
              rw [hk] at h
              simp only at h ⊢
              cases hs : m.storeFile r fileNo with
              | none => rw [hs] at h; cases h
              | some m1 =>
                  rw [hs] at h
                  exact ih ((storeFile_touched hs).registered_eq.trans hreg) h

/-- What `_select_IOnode` returns as replicas is the choice of the state before. -/
theorem selectIOnode_choice {m0 m m' : Master} {fileNo : Int} {main : NodeRef} {pool : OrdSet NodeRef}
    (hreg : m.registeredIOnodes = m0.registeredIOnodes) (hcur : m.currentIOnode = m0.currentIOnode)
    (h : m.selectIOnode fileNo (min m0.numOfReplica m0.registeredIOnodes.size) = some (.ok (main, pool, m'))) :
    pool = m0.replicasChosen := by
  obtain ⟨m1, m2, hg, hs, hsel⟩ := selectIOnode_inv h
  obtain ⟨k, hw, _, rfl⟩ := getNextIOnode_inv hg
  rw [wrapIOnode_congr hreg, hcur] at hw
  have hreg2 : m2.registeredIOnodes = m0.registeredIOnodes := (storeFile_touched hs).registered_eq.trans hreg
  have hcur2 : m2.currentIOnode = m0.registeredIOnodes.nextKey k := by
    rw [storeFile_cursor hs]
    show m.registeredIOnodes.nextKey k = _
    rw [hreg]
  rw [hreg2, hcur2] at hsel
  unfold replicasChosen
  rw [hw]
  exact selectReplicas_choice hreg2 hsel

theorem nodeBytes_touched {m m' : Master} (h : NodesTouched m m') (r : NodeRef) :
    m'.nodeBytes r = m.nodeBytes r := by
  cases hn : m.nodes r with
  | none => unfold nodeBytes; rw [hn, h.none r hn]
  | some n =>
      obtain ⟨s, hs⟩ := h.node r n hn
      rw [nodeBytes_of hn, nodeBytes_of hs]

theorem uriBytes_touched {m m' : Master} (h : NodesTouched m m') (rs : List NodeRef) :
    m'.uriBytes rs = m.uriBytes rs := by
  unfold uriBytes
  rw [show m'.nodeBytes = m.nodeBytes from funext (nodeBytes_touched h)]

theorem uriBytes_congr {m m' : Master} (h : m'.nodes = m.nodes) (rs : List NodeRef) :
    m'.uriBytes rs = m.uriBytes rs := by
  unfold uriBytes nodeBytes
  rw [h]

/-! ## When the messages of a request fit -/

/-- An open that creates: the OPEN request to the primary is the longest message. -/
def OpenFits (m : Master) (fullPath : Str) (stSize : Nat) : Prop :=
  m.registeredIOnodes.size ≠ 0 →
    41 + fullPath.length + 16 * max 1 (blockCount stSize) + m.uriBytes m.replicasChosen.keys + MESSAGE_META_OFF
      ≤ MAX_BASIC_MESSAGE_SIZE

/-- A number is left for a new open file. -/
def HasFreeNumber (m : Master) : Prop :=
  m.fileNumber ≠ MAX_FILE_NUMBER ∧ ∃ n, n < MAX_FILE_NUMBER ∧ m.fileNoPool n = false

/-- The block list of a read or write reply: sixteen bytes a block. -/
def BlockInfoFits (m : Master) (fileNo : Int) (size : Nat) : Prop :=
  ∀ r f n, m.bufferedFiles.find? fileNo = some r → m.files r = some f → f.primaryReplicaNode.bind m.nodes = some n →
    37 + n.uri.length + 16 * blockCount size + MESSAGE_META_OFF ≤ MAX_BASIC_MESSAGE_SIZE

/-- The messages about one file of a failed node, `new` being the node that replaces it. -/
def ReplicaFits (m : Master) (failed : NodeRef) (fileNo : Int) : Prop :=
  ∀ r file st new m1, m.openFileOf fileNo = some (r, file) → m.fileStatPool.find? file.fileStatus = some st →
    m.allocateReplaceIOnode file.IOnodesSet failed = some (some new, m1) →
    if file.primaryReplicaNode = some failed then
      ∀ primary, (file.IOnodesSet.erase failed).firstKey = some primary →
        28 + m.uriBytes (promotedFile file (file.IOnodesSet.erase failed) primary new).IOnodesSet.keys
            + MESSAGE_META_OFF ≤ MAX_BASIC_MESSAGE_SIZE ∧
          m.openBytes (promotedFile file (file.IOnodesSet.erase failed) primary new) st.fullPath new
            + MESSAGE_META_OFF ≤ MAX_BASIC_MESSAGE_SIZE
    else
      20 + m.nodeBytes new + MESSAGE_META_OFF ≤ MAX_BASIC_MESSAGE_SIZE ∧
        m.openBytes (replacedFile file (file.IOnodesSet.erase failed) new) st.fullPath new
          + MESSAGE_META_OFF ≤ MAX_BASIC_MESSAGE_SIZE

/-- The same for the files of a failed node, one after another. -/
def ReplicasFit (failed : NodeRef) : List Int → Master → Prop
  | [], _ => True
  | fileNo :: rest, m => ReplicaFits m failed fileNo ∧
      ∀ m1 ops new, m.recreateReplica failed fileNo = some (m1, ops, new) → ReplicasFit failed rest m1

/-- The messages of the failure of a node; alone in the registry, it has no one to send them to. -/
def FailureFits (m : Master) (failed : NodeRef) : Prop :=
  ∀ node, m.nodes failed = some node → m.registeredIOnodes.size ≠ 1 → ReplicasFit failed node.storedFiles.keys m

/-- **When every message of a request fits.** -/
def MessagesFit (m : Master) (o : Origin) : Request → Prop
  | .openFile path _ _ =>
      match m.fileStatPool.find? path with
      | none => HasFreeNumber m → OpenFits m path 0
      | some s => s.isExternal = false → s.openedFileInfo = none → OpenFits m s.fullPath s.status.stSize
  | .readFile fileNo _ size => BlockInfoFits m fileNo size
  | .writeFile fileNo _ _ size => BlockInfoFits m fileNo size
  | .readDir path => ∀ names, m.getFileStatFromDir path = some names →
      (names.keys.map (fun name => name.length + 9)).sum ≤ MAX_TRANSFER_SIZE
  | .rename oldPath newPath newMaster => newMaster = MYSELF → ∀ s r, m.fileStatPool.find? oldPath = some s →
      s.openedFileInfo = some r → 21 + newPath.length + MESSAGE_META_OFF ≤ MAX_BASIC_MESSAGE_SIZE
  | .nodeFailure => ∀ r, m.getNodeInfoFromHandle o.handle = some r → FailureFits m r
  | .IOnodeFailure nodeId => ∀ r, m.registeredIOnodes.find? nodeId = some r → FailureFits m r
  | _ => True

/-! ## Handler by handler -/

/-- An open file was created, so a node is registered. -/
theorem create_registered {m m' : Master} {fileNo : Int} {flag : BitVec 32} {path : Str} {ops : List QueueOp}
    {r : FileRef} (h : m.createNewOpenFileInfo fileNo flag path = some (m', ops, .ok r)) :
    m.registeredIOnodes.size ≠ 0 := by
  obtain ⟨stat, main, _, _, _, _, _, ⟨id, hid⟩, _⟩ := createNewOpenFileInfo_ok h
  intro hz
  rw [OrdMap.size_eq_zero.mp hz id] at hid
  cases hid

/-- The messages of a new open file: all fit when the one to the primary does. -/
theorem allFit_create (m0 : Master) {m m' : Master} {fileNo : Int} {flag : BitVec 32} {path : Str} {stat : FileStat}
    {ops : List QueueOp} {r : FileRef} (hst : m.fileStatPool.find? path = some stat)
    (hreg : m.registeredIOnodes = m0.registeredIOnodes) (hcur : m.currentIOnode = m0.currentIOnode)
    (hrep : m.numOfReplica = m0.numOfReplica) (hnodes : m.nodes = m0.nodes)
    (h : m.createNewOpenFileInfo fileNo flag path = some (m', ops, .ok r)) :
    AllFit ops ↔ 41 + stat.fullPath.length + 16 * max 1 (blockCount stat.status.stSize)
      + m0.uriBytes m0.replicasChosen.keys + MESSAGE_META_OFF ≤ MAX_BASIC_MESSAGE_SIZE := by
  obtain ⟨stat', main, pool, m2, hst', _, hsel, hm', hsend⟩ := createNewOpenFileInfo_inv h
  have heq : stat' = stat := Option.some.inj (hst'.symm.trans hst)
  subst heq
  rw [hrep, hreg] at hsel
  have ht := (selectIOnode_ok hsel).1
  have hreg1 : (m.enterOpenFile fileNo flag path stat').registeredIOnodes = m0.registeredIOnodes := hreg
  have hcur1 : (m.enterOpenFile fileNo flag path stat').currentIOnode = m0.currentIOnode := hcur
  have hpool : pool = m0.replicasChosen := selectIOnode_choice hreg1 hcur1 hsel
  have huri : ∀ rs, m'.uriBytes rs = m0.uriBytes rs := by
    intro rs
    have h1 : m'.uriBytes rs = m2.uriBytes rs := uriBytes_congr (by rw [hm']; rfl) rs
    have h2 : (m.enterOpenFile fileNo flag path stat').uriBytes rs = m0.uriBytes rs := uriBytes_congr hnodes rs
    rw [h1, uriBytes_touched ht, h2]
  have hentry : m'.fileStatPool.find? path = some { stat' with openedFileInfo := some m.nextFile } := by
    rw [hm', setFile_pool, ht.pool_eq]
    exact OrdMap.find?_put_self _ _ _
  have hblocks : (placedFile fileNo flag path stat'.status.stSize main pool).blockList.size
      = max 1 (blockCount stat'.status.stSize) := (createBlockList_covers _).size_eq
  have hprimary : some main = (placedFile fileNo flag path stat'.status.stSize main pool).primaryReplicaNode := rfl
  have hbytes : m'.openBytes (placedFile fileNo flag path stat'.status.stSize main pool) stat'.fullPath main
      = 41 + stat'.fullPath.length + 16 * max 1 (blockCount stat'.status.stSize)
        + m0.uriBytes m0.replicasChosen.keys := by
    unfold openBytes
    rw [hblocks, if_pos hprimary, huri]
    show _ + m0.uriBytes pool.keys = _
    rw [hpool]
  rw [allFit_sendEach hsend]
  constructor
  · intro hall
    obtain ⟨ops', hops'⟩ := sendEach_mem hsend main (by simp)
    have hfit := (allFit_sendOpenRequest hentry hops').mp (hall main (by simp) ops' hops')
    rw [hbytes] at hfit
    exact hfit
  · intro hle q _ ops' hops'
    refine (allFit_sendOpenRequest hentry hops').mpr (le_trans (Nat.add_le_add_right ?_ _) hle)
    -- no node is told more than the primary
    rw [← hbytes]
    unfold openBytes
    refine Nat.add_le_add_left ?_ _
    rw [if_pos hprimary]
    split
    · exact le_refl _
    · exact Nat.zero_le _

theorem fieldBytes_openReply (fileNo : Int) (blockSize : Nat) (st : Stat) :
    fieldBytes (openReply fileNo blockSize st) = 72 := by
  unfold openReply
  rw [fieldBytes_append, fieldBytes_sendAttr]
  rfl

theorem allFit_openFile {m m' : Master} {e : Env} {o : Origin} {path : Str} {flag flag' mode : BitVec 32}
    {ops : List QueueOp} {res : Except OpenError Int}
    (hext : ∀ s, m.fileStatPool.find? path = some s → s.isExternal = false)
    (h : m.openFile e path flag' mode = some (m', ops, res)) :
    AllFit ops ↔ MessagesFit m o (.openFile path flag mode) := by
  cases res with
  | error err =>
      obtain ⟨hops, herr⟩ := openFile_error h
      rw [hops]
      refine ⟨fun _ => ?_, fun _ => allFit_nil⟩
      rcases herr with ⟨hnone, _, hno⟩ | ⟨hz, _, _⟩
      · -- no number is left
        simp only [MessagesFit, hnone]
        rintro ⟨hnum, n, hn, hfree⟩
        rcases getFileNo_cases m with ⟨k, _, _, _, hg⟩ | ⟨c, hfull, _⟩
        · rw [hno] at hg
          have := congrArg Prod.fst hg
          simp only at this
          omega
        · rcases hfull with hc | hc
          · exact absurd hc hnum
          · rw [hc n hn] at hfree; cases hfree
      · simp only [MessagesFit]
        split
        · intro _ hsize; exact absurd hz hsize
        · intro _ _ hsize; exact absurd hz hsize
  | ok fileNo =>
      rcases openFile_ok h with ⟨s, r, f, hst, hop, _, _, hops, _⟩ | ⟨m1, r, hg, hst, hne, hc⟩ |
        ⟨s, m1, m2, r, hg, hst, hop, hc, _⟩
      · rw [hops]
        refine ⟨fun _ => ?_, fun _ => allFit_nil⟩
        simp only [MessagesFit, hst]
        intro _ hno
        rw [hop] at hno; cases hno
      · rcases getFileNo_cases m with ⟨n, hn, hfree, hnum, hg'⟩ | ⟨c, _, hg'⟩
        · rw [hg'] at hg
          cases hg
          have hsize : ((m.takeFileNo n).createNewFileStat e path .notExist (S_IFREG ||| mode)).registeredIOnodes.size
              ≠ 0 := create_registered hc
          have hentry : ((m.takeFileNo n).createNewFileStat e path .notExist (S_IFREG ||| mode)).fileStatPool.find? path
              = some { defaultStat path with
                  fullPath := path, existFlag := .notExist, status := freshStatus e (S_IFREG ||| mode) } := by
            show (OrdMap.put _ path _).find? path = _
            rw [OrdMap.find?_put_self]
            show some { (m.fileStatPool.find? path).getD (defaultStat path) with
              fullPath := path, existFlag := .notExist, status := freshStatus e (S_IFREG ||| mode) } = _
            rw [hst]
            rfl
          rw [allFit_create m hentry rfl rfl rfl rfl hc]
          simp only [MessagesFit, hst]
          refine ⟨fun hle _ _ => hle, fun hall => hall ⟨hnum, n, hn, hfree⟩ hsize⟩
        · rw [hg'] at hg
          cases hg
          exact absurd rfl hne
      · have hsize : m.registeredIOnodes.size ≠ 0 := by
          have hreg := (getFileNo_frame m).2
          rw [hg] at hreg
          rw [← hreg]
          exact create_registered hc
        have hframe : m1.fileStatPool = m.fileStatPool ∧ m1.registeredIOnodes = m.registeredIOnodes ∧
            m1.currentIOnode = m.currentIOnode ∧ m1.numOfReplica = m.numOfReplica ∧ m1.nodes = m.nodes := by
          rcases getFileNo_cases m with ⟨n, _, _, _, hg'⟩ | ⟨c, _, hg'⟩
          · rw [hg'] at hg; cases hg; exact ⟨rfl, rfl, rfl, rfl, rfl⟩
          · rw [hg'] at hg; cases hg; exact ⟨rfl, rfl, rfl, rfl, rfl⟩
        obtain ⟨h1, h2, h3, h4, h5⟩ := hframe
        have hst1 : m1.fileStatPool.find? path = some s := by rw [h1]; exact hst
        rw [allFit_create m hst1 h2 h3 h4 h5 hc]
        simp only [MessagesFit, hst]
        exact ⟨fun hle _ _ _ => hle, fun hall => hall (hext s hst) hop hsize⟩

theorem allFit_sendRemoveRequests {fileNo : Int} {rs : List NodeRef} : ∀ {m m' : Master} {ops : List QueueOp},
    sendRemoveRequests fileNo rs m = some (m', ops) → AllFit ops := by
  induction rs with
  | nil => intro m m' ops h; cases h; exact allFit_nil
  | cons r rs ih =>
      intro m m' ops h
      unfold sendRemoveRequests at h
      split at h
      · cases h
      · rename_i n _
        split at h
        · cases h
        · rename_i m1 ops' hrec
          cases h
          exact (allFit_append _ _).mpr ⟨allFit_sendIOnode_small (by simp), ih hrec⟩

theorem allFit_removeFile {m m' : Master} {path : Str} {ops : List QueueOp} {found : Bool}
    (h : m.removeFile path = some (m', ops, found)) : AllFit ops := by
  rcases removeFile_some h with ⟨_, _, rfl, _⟩ | ⟨_, _, _, rfl, _⟩ | ⟨s, r, m1, _, _, _, hrem, _⟩
  · exact allFit_nil
  · exact allFit_nil
  · obtain ⟨f, primary, m2, _, _, hsend, _⟩ := removeOpenFile_inv hrem
    exact allFit_sendRemoveRequests hsend

theorem allFit_sendRenameRequest {m : Master} {fileNo : Int} {newPath : Str} {q : NodeRef} {ops : List QueueOp}
    (h : m.sendRenameRequest fileNo newPath q = some ops) :
    AllFit ops ↔ 21 + newPath.length + MESSAGE_META_OFF ≤ MAX_BASIC_MESSAGE_SIZE := by
  obtain ⟨n, _, rfl⟩ := Option.map_eq_some_iff.mp h
  rw [allFit_sendIOnode]
  simp only [fieldBytes_cons, Field.bytes_int, Field.bytes_long, Field.bytes_str, fieldBytes_nil]
  rw [show 4 + (8 + (newPath.length + 9 + 0)) = 21 + newPath.length by omega]

/-- The RENAME requests of an open file: one length for all of them. -/
theorem allFit_renameLocalFile {m m' : Master} {s : FileStat} {newPath : Str} {ops : List QueueOp}
    (hnew : m.fileStatPool.find? newPath = none) (h : m.renameLocalFile s newPath = some (m', ops)) :
    AllFit ops ↔ ∀ r, s.openedFileInfo = some r →
      21 + newPath.length + MESSAGE_META_OFF ≤ MAX_BASIC_MESSAGE_SIZE := by
  unfold renameLocalFile at h
  simp only [hnew, Option.getD_none] at h
  cases ho : s.openedFileInfo with
  | none =>
      simp only [ho] at h
      cases h
      exact ⟨(by intro _ r hr; cases hr), fun _ => allFit_nil⟩
  | some r =>
      simp only [ho] at h
      split at h
      · cases h
      · rename_i f _
        split at h
        · cases h
        · rename_i primary _
          split at h
          · cases h
          · rename_i ops' hsend
            cases h
            rw [allFit_sendEach hsend]
            constructor
            · intro hall _ _
              obtain ⟨ops'', hops''⟩ := sendEach_mem hsend primary (by simp)
              exact (allFit_sendRenameRequest hops'').mp (hall primary (by simp) ops'' hops'')
            · intro hle q _ ops'' hops''
              exact (allFit_sendRenameRequest hops'').mpr (hle r rfl)

theorem allFit_renameTables {m m' : Master} {o : Origin} {oldPath newPath : Str} {newMaster : Int}
    {ops : List QueueOp} (h : m.renameTables oldPath newPath newMaster = some (m', ops)) :
    AllFit ops ↔ MessagesFit m o (.rename oldPath newPath newMaster) := by
  unfold renameTables at h
  simp only [MessagesFit]
  cases hst : m.fileStatPool.find? oldPath with
  | none =>
      rw [hst] at h
      refine ⟨(by intro _ _ s r hs; cases hs), fun _ => ?_⟩
      simp only at h
      split at h
      · obtain ⟨⟨m1, ops1, found⟩, hrem, heq⟩ := Option.map_eq_some_iff.mp h
        cases heq
        exact allFit_removeFile hrem
      · cases h; exact allFit_nil
  | some s =>
      rw [hst] at h
      simp only at h
      split at h
      · rename_i hmy
        split at h
        · cases h
        · split at h
          · cases h
          · rename_i m1 ops1 found hrem
            split at h
            · cases h
            · rename_i m2 ops2 hren
              cases h
              have hnew : m1.fileStatPool.find? newPath = none := by
                rcases removeFile_some hrem with ⟨hn, rfl, _⟩ | ⟨_, _, _, _, _, rfl⟩ | ⟨_, _, m3, _, _, _, _, rfl⟩
                · exact hn
                · exact OrdMap.find?_erase_self _ _
                · exact OrdMap.find?_erase_self _ _
              rw [allFit_append, allFit_renameLocalFile hnew hren]
              constructor
              · rintro ⟨_, hall⟩ _ s' r hs hr
                cases hs
                exact hall r hr
              · intro hall
                exact ⟨allFit_removeFile hrem, fun r hr => hall hmy s r rfl hr⟩
      · rename_i hmy
        cases h
        exact ⟨fun _ hc => absurd hc hmy, fun _ => allFit_nil⟩

/-! ## Failure of a node -/

theorem openRequest_entry {m : Master} {file : OpenFileInfo} {node : NodeRef} {ops : List QueueOp}
    (h : m.sendOpenRequestToIOnodes file node = some ops) :
    ∃ st, m.fileStatPool.find? file.fileStatus = some st := by
  unfold sendOpenRequestToIOnodes at h
  split at h
  · rename_i n msg _ hmsg
    unfold openRequest at hmsg
    split at hmsg
    · cases hmsg
    · rename_i st hst
      exact ⟨st, hst⟩
  · cases h

theorem allFit_resend {m : Master} {file : OpenFileInfo} {primary new : NodeRef} {ops : List QueueOp}
    (h : m.resendReplicaNodesInfoToNewNode file primary new = some ops) :
    AllFit ops ↔ 28 + m.uriBytes file.IOnodesSet.keys + MESSAGE_META_OFF ≤ MAX_BASIC_MESSAGE_SIZE := by
  unfold resendReplicaNodesInfoToNewNode at h
  split at h
  · rename_i p n fs _ _ hfs
    cases h
    have hrep := fieldBytes_sendReplicaNodesInfo hfs
    rw [allFit_sendIOnode, fieldBytes_append, hrep]
    simp only [fieldBytes_cons, Field.bytes_int, Field.bytes_long, fieldBytes_nil]
    rw [show 4 + (8 + (8 + 0)) + (8 + m.uriBytes file.IOnodesSet.keys)
      = 28 + m.uriBytes file.IOnodesSet.keys by omega]
  · cases h

theorem allFit_replace {m : Master} {file : OpenFileInfo} {new replaced : NodeRef} {ops : List QueueOp}
    (h : m.replaceReplicaNodesInfo file new replaced = some ops) :
    AllFit ops ↔ 20 + m.nodeBytes new + MESSAGE_META_OFF ≤ MAX_BASIC_MESSAGE_SIZE := by
  unfold replaceReplicaNodesInfo at h
  split at h
  · rename_i p n old _ hn _
    cases h
    rw [allFit_sendIOnode, nodeBytes_of hn]
    simp only [fieldBytes_cons, Field.bytes_int, Field.bytes_long, Field.bytes_str, fieldBytes_nil]
    rw [show 4 + (8 + (8 + (8 + (n.uri.length + 9 + 0)))) = 20 + (n.uri.length + 17) by omega]
  · cases h

/-- Two states with the same nodes, about the same file. -/
theorem openBytes_congr {m m' : Master} (h : m'.nodes = m.nodes) (file : OpenFileInfo) (fullPath : Str)
    (node : NodeRef) : m'.openBytes file fullPath node = m.openBytes file fullPath node := by
  unfold openBytes
  rw [uriBytes_congr h]

theorem allFit_recreateReplica {m m' : Master} {failed : NodeRef} {fileNo : Int} {ops : List QueueOp}
    {new : Option NodeRef} (h : m.recreateReplica failed fileNo = some (m', ops, new)) :
    AllFit ops ↔ ReplicaFits m failed fileNo := by
  unfold recreateReplica at h
  cases hof : m.openFileOf fileNo with
  | none => rw [hof] at h; cases h
  | some res =>
      obtain ⟨r, file⟩ := res
      rw [hof] at h
      simp only at h
      cases hal : m.allocateReplaceIOnode file.IOnodesSet failed with
      | none => rw [hal] at h; cases h
      | some res =>
          obtain ⟨newIOnode, m1⟩ := res
          obtain ⟨⟨c, hm1⟩, _⟩ := allocateReplaceIOnode_state hal
          rw [hal] at h
          simp only at h
          cases newIOnode with
          | none =>
              -- no replacement: no message
              have hops : ops = [] := by
                simp only at h
                split at h
                · split at h <;> (cases h; rfl)
                · cases h; rfl
              rw [hops]
              refine ⟨fun _ => ?_, fun _ => allFit_nil⟩
              intro r' file' st new' m1' hof' _ hal'
              rw [hof] at hof'
              cases hof'
              rw [hal] at hal'
              cases hal'
          | some nw =>
              simp only at h
              by_cases hp : file.primaryReplicaNode = some failed
              · rw [if_pos hp] at h
                cases hfk : (file.IOnodesSet.erase failed).firstKey with
                | none => rw [hfk] at h; cases h
                | some primary =>
                    rw [hfk] at h
                    simp only at h
                    split at h
                    · rename_i ops1 ops2 hops1 hops2
                      cases h
                      obtain ⟨st, hst⟩ := openRequest_entry hops2
                      have hst' : m.fileStatPool.find? file.fileStatus = some st := by
                        rw [← hst, hm1]; rfl
                      have hnodes : (m1.setFile r (promotedFile file (file.IOnodesSet.erase failed) primary nw)).nodes
                          = m.nodes := by rw [hm1]; rfl
                      rw [allFit_append, allFit_resend hops1, allFit_sendOpenRequest hst hops2,
                        uriBytes_congr hnodes, openBytes_congr hnodes]
                      constructor
                      · intro hfit r' file' st' new' m1' hof' hst'' hal'
                        rw [hof] at hof'
                        cases hof'
                        rw [hal] at hal'
                        cases hal'
                        rw [hst'] at hst''
                        cases hst''
                        rw [if_pos hp]
                        intro primary' hfk'
                        rw [hfk] at hfk'
                        cases hfk'
                        exact hfit
                      · intro hall
                        have := hall r file st nw m1 hof hst' hal
                        rw [if_pos hp] at this
                        exact this primary hfk
                    · cases h
              · rw [if_neg hp] at h
                split at h
                · rename_i ops1 ops2 hops1 hops2
                  cases h
                  obtain ⟨st, hst⟩ := openRequest_entry hops2
                  have hst' : m.fileStatPool.find? file.fileStatus = some st := by
                    rw [← hst, hm1]; rfl
                  have hnodes : (m1.setFile r (replacedFile file (file.IOnodesSet.erase failed) nw)).nodes = m.nodes := by
                    rw [hm1]; rfl
                  have hbytes : (m1.setFile r (replacedFile file (file.IOnodesSet.erase failed) nw)).nodeBytes nw
                      = m.nodeBytes nw := by unfold nodeBytes; rw [hnodes]
                  rw [allFit_append, allFit_replace hops1, allFit_sendOpenRequest hst hops2, hbytes,
                    openBytes_congr hnodes]
                  constructor
                  · intro hfit r' file' st' new' m1' hof' hst'' hal'
                    rw [hof] at hof'
                    cases hof'
                    rw [hal] at hal'
                    cases hal'
                    rw [hst'] at hst''
                    cases hst''
                    rw [if_neg hp]
                    exact hfit
                  · intro hall
                    have := hall r file st nw m1 hof hst' hal
                    rw [if_neg hp] at this
                    exact this
                · cases h

theorem allFit_recreateEach {failed : NodeRef} {files : List Int} : ∀ {m m' : Master} {ops : List QueueOp}
    {news : List (Int × Option NodeRef)}, recreateEach failed files m = some (m', ops, news) →
    (AllFit ops ↔ ReplicasFit failed files m) := by
  induction files with
  | nil =>
      intro m m' ops news h
      cases h
      exact ⟨fun _ => trivial, fun _ => allFit_nil⟩
  | cons fileNo files ih =>
      intro m m' ops news h
      unfold recreateEach at h
      split at h
      · cases h
      · rename_i m1 ops1 new hone
        split at h
        · cases h
        · rename_i m2 ops2 news2 hrest
          cases h
          rw [allFit_append, allFit_recreateReplica hone, ih hrest]
          constructor
          · rintro ⟨h1, h2⟩
            refine ⟨h1, ?_⟩
            intro m1' ops' new' hone'
            rw [hone] at hone'
            cases hone'
            exact h2
          · rintro ⟨h1, h2⟩
            exact ⟨h1, h2 m1 ops1 new hone⟩

theorem allFit_failure {m : Master} {failed : NodeRef} {out : Outcome}
    (h : failureOutcome (m.IOnodeFailureHandler failed) = some out) : AllFit out.ops ↔ FailureFits m failed := by
  obtain ⟨⟨m', ops, news⟩, hf, rfl⟩ := Option.map_eq_some_iff.mp h
  unfold IOnodeFailureHandler at hf
  cases hn : m.nodes failed with
  | none => rw [hn] at hf; cases hf
  | some node =>
      rw [hn] at hf
      simp only at hf
      split at hf
      · rename_i ops1 m1 ops2 news2 hsend hrec
        split at hf
        · cases hf
        · cases hf
          have hsmall : AllFit ops1 := by
            refine (allFit_sendEach hsend).mpr ?_
            intro r _ ops' hops'
            split at hops'
            · cases hops'; exact allFit_nil
            · obtain ⟨n, _, rfl⟩ := Option.map_eq_some_iff.mp hops'
              exact allFit_sendIOnode_small (by simp)
          have hrest : AllFit ops2 ↔ FailureFits m failed := by
            unfold recreateReplicas at hrec
            rw [hn] at hrec
            simp only at hrec
            split at hrec
            · rename_i hone
              obtain ⟨m3, _, heq⟩ := Option.map_eq_some_iff.mp hrec
              cases heq
              exact ⟨fun _ node _ hc => absurd hone hc, fun _ => allFit_nil⟩
            · rename_i hone
              rw [allFit_recreateEach hrec]
              constructor
              · intro hfit node' hn' _
                rw [hn] at hn'
                cases hn'
                exact hfit
              · intro hall
                exact hall node hn hone
          rw [allFit_append]
          exact ⟨fun hfit => hrest.mp hfit.2, fun hfit => ⟨hsmall, hrest.mpr hfit⟩⟩
      · cases hf

/-! ## Every request -/

theorem allFit_blockInfo {m m' : Master} {o : Origin} {fileNo : Int} {size fileSize : Nat} {r : FileRef}
    {f : OpenFileInfo} {bl : BlockList} {msg : List Field} (hb : m.bufferedFiles.find? fileNo = some r)
    (hf : m.files r = some f) (hnodes : m'.nodes = m.nodes) (hsize : bl.size = blockCount size)
    (hmsg : m'.sendBlockInfo fileSize f.primaryReplicaNode bl = some msg) :
    AllFit (sendResponse o msg) ↔ BlockInfoFits m fileNo size := by
  obtain ⟨n, hn⟩ : ∃ n, f.primaryReplicaNode.bind m'.nodes = some n := by
    unfold sendBlockInfo at hmsg
    split at hmsg
    · cases hmsg
    · rename_i n hn
      exact ⟨n, hn⟩
  rw [allFit_sendResponse, fieldBytes_sendBlockInfo hn hmsg, hsize]
  rw [hnodes] at hn
  constructor
  · intro hle r' f' n' hb' hf' hn'
    rw [hb] at hb'
    cases hb'
    rw [hf] at hf'
    cases hf'
    rw [hn] at hn'
    cases hn'
    exact hle
  · intro hall
    exact hall r f n hb hf hn

theorem allFit_truncateRequest {m : Master} {fd : Int} {start size : Nat} {rs : List NodeRef} {ops : List QueueOp}
    (h : sendEach (m.sendTruncateRequest fd start size) rs = some ops) : AllFit ops := by
  refine (allFit_sendEach h).mpr ?_
  intro r _ ops' hops'
  obtain ⟨n, _, rfl⟩ := Option.map_eq_some_iff.mp hops'
  exact allFit_sendIOnode_small (by simp)

/-- A handler whose messages are all small fits whatever the state. -/
theorem iff_of_fit {ops : List QueueOp} {p : Prop} (h : AllFit ops) (hp : p) : AllFit ops ↔ p :=
  ⟨fun _ => hp, fun _ => h⟩

/-- **Every outgoing task fits its buffers exactly when the request's data is small enough.** -/
theorem messages_fit_iff {m : Master} {e : Env} {o : Origin} {req : Request} {out : Outcome}
    (h : m.parseRequest e o req = some out) : AllFit out.ops ↔ MessagesFit m o req := by
  cases req with
  | register totalMemory uri =>
      cases h
      exact iff_of_fit (allFit_sendResponse_small (by simp)) trivial
  | newClient uri =>
      cases h
      exact iff_of_fit (allFit_sendResponse_small (by simp)) trivial
  | openFile path flag mode =>
      rcases parseOpenFile_some h with ⟨s, hst, hx, rfl⟩ | ⟨hext, hlocal⟩
      · refine iff_of_fit (allFit_sendResponse_small (by simp)) ?_
        simp only [MessagesFit, hst]
        intro hx'
        rw [hx] at hx'; cases hx'
      · rcases parseOpenLocal_some hlocal with ⟨m', ops, err, ho, rfl⟩ | ⟨m', ops, fileNo, r, f, st, ho, _, rfl⟩
        · rw [allFit_append, ← allFit_openFile hext ho]
          exact ⟨fun hfit => hfit.1, fun hfit => ⟨hfit, allFit_sendResponse_small (by simp)⟩⟩
        · rw [allFit_append, ← allFit_openFile hext ho]
          refine ⟨fun hfit => hfit.1, fun hfit => ⟨hfit, allFit_sendResponse_small ?_⟩⟩
          rw [fieldBytes_openReply]
          decide
  | readFile fileNo startPoint size =>
      rcases parseReadFile_some h with ⟨hb, rfl⟩ | ⟨r, f, st, bl, msg, hobj, hsel, hmsg, rfl⟩
      · refine iff_of_fit (allFit_sendResponse_small (by simp)) ?_
        intro r f n hb'
        rw [hb] at hb'; cases hb'
      · exact allFit_blockInfo hobj.buffered hobj.object rfl (selectNodeBlockSet_size hsel) hmsg
  | writeFile fileNo attr startPoint size =>
      rcases parseWriteFile_some h with ⟨hb, rfl⟩ | ⟨r, f, st, bl, msg, hobj, hsel, hmsg, rfl⟩
      · refine iff_of_fit (allFit_sendResponse_small (by simp)) ?_
        intro r f n hb'
        rw [hb] at hb'; cases hb'
      · exact allFit_blockInfo hobj.buffered hobj.object rfl (selectNodeBlockSet_size hsel) hmsg
  | flushFile fileNo =>
      refine iff_of_fit ?_ trivial
      simp only [parseRequest, parseFlushFile] at h
      split at h
      · cases h; exact allFit_sendResponse_small (by simp)
      · obtain ⟨n, _, rfl⟩ := Option.map_eq_some_iff.mp h
        rw [allFit_append, allFit_append]
        refine ⟨⟨allFit_sendResponse_small (by simp), allFit_sendIOnode_small (by simp)⟩, ?_⟩
        intro t ht
        simp [tasksOf] at ht
  | closeFile fileNo =>
      refine iff_of_fit ?_ trivial
      simp only [parseRequest, parseCloseFile] at h
      split at h
      · cases h; exact allFit_sendResponse_small (by simp)
      · obtain ⟨n, _, rfl⟩ := Option.map_eq_some_iff.mp h
        rw [allFit_append]
        exact ⟨allFit_sendResponse_small (by simp), allFit_sendIOnode_small (by simp)⟩
  | getAttr path =>
      cases h
      refine iff_of_fit ?_ trivial
      unfold parseAttr
      split
      · exact allFit_sendResponse_small (by simp)
      · split
        · exact allFit_sendResponse_small (by simp)
        · exact allFit_sendResponse_small (by simp)
  | updateMeta fileNo attr =>
      have hops := (parseMetaUpdate_some h).1
      rw [hops]
      exact iff_of_fit allFit_nil trivial
  | readDir path =>
      obtain ⟨names, hnames, rfl⟩ := Option.map_eq_some_iff.mp h
      rw [allFit_sendOn]
      unfold OutTask.Fits OutTask.messageSize OutTask.extendedSize
      have hsum : (names.keys.map (fun s => 8 + (s.length + 1))).sum
          = (names.keys.map (fun name => name.length + 9)).sum := by
        congr 1
        refine List.map_congr_left ?_
        intro name _
        omega
      simp only [responseTask, hsum, MessagesFit]
      constructor
      · rintro ⟨_, _, hle⟩ names' hnames'
        rw [hnames] at hnames'
        cases hnames'
        exact hle
      · intro hall
        have hle := hall names hnames
        refine ⟨?_, le_trans hle (by decide), hle⟩
        simp only [fieldBytes_cons, Field.bytes_int, fieldBytes_nil]
        decide
  | rmDir path =>
      refine iff_of_fit ?_ trivial
      simp only [parseRequest, parseRmdir, parseRemove] at h
      split at h
      · cases h
      · rename_i m' ops found hrem
        cases h
        exact (allFit_append _ _).mpr ⟨allFit_removeFile hrem, allFit_sendResponse_small (by simp)⟩
  | unlink path =>
      refine iff_of_fit ?_ trivial
      simp only [parseRequest, parseUnlink, parseRemove] at h
      split at h
      · cases h
      · rename_i m' ops found hrem
        cases h
        exact (allFit_append _ _).mpr ⟨allFit_removeFile hrem, allFit_sendResponse_small (by simp)⟩
  | access path mode =>
      cases h
      refine iff_of_fit ?_ trivial
      unfold parseAccess
      split
      · exact allFit_sendResponse_small (by simp)
      · split
        · exact allFit_sendResponse_small (by simp)
        · exact allFit_sendResponse_small (by simp)
  | rename oldPath newPath newMaster =>
      obtain ⟨⟨m', ops⟩, hren, rfl⟩ := Option.map_eq_some_iff.mp h
      rw [allFit_append, ← allFit_renameTables hren]
      exact ⟨fun hfit => hfit.1, fun hfit => ⟨hfit, allFit_sendResponse_small (by simp)⟩⟩
  | renameMigrating path oldMaster =>
      cases h
      exact iff_of_fit (allFit_sendResponse_small (by simp)) trivial
  | mkdir path mode =>
      cases h
      exact iff_of_fit (allFit_sendResponse_small (by simp)) trivial
  | truncate path size =>
      refine iff_of_fit ?_ trivial
      rcases parseTruncateFile_some h with ⟨_, rfl⟩ | ⟨s, _, _, rfl⟩ | ⟨s, m', ops, _, _, htr, rfl⟩
      · exact allFit_sendResponse_small (by simp)
      · exact allFit_sendResponse_small (by simp)
      · obtain ⟨r, f, st, _, _, _, _, hops⟩ := truncateLocal_some htr
        refine (allFit_append _ _).mpr ⟨?_, allFit_sendResponse_small (by simp)⟩
        rcases hops with rfl | ⟨primary, _, hsend⟩
        · exact allFit_nil
        · exact allFit_truncateRequest hsend
  | closeClient =>
      cases h
      exact iff_of_fit allFit_nil trivial
  | nodeFailure =>
      simp only [parseRequest, parseNodeFailure] at h
      split at h
      · rename_i r hr
        rw [allFit_failure h]
        constructor
        · intro hfit r' hr'
          rw [hr] at hr'
          cases hr'
          exact hfit
        · intro hall
          exact hall r hr
      · rename_i hr
        cases h
        refine iff_of_fit allFit_nil ?_
        intro r' hr'
        rw [hr] at hr'; cases hr'
  | IOnodeFailure nodeId =>
      simp only [parseRequest, parseIOnodeFailure] at h
      split at h
      · rename_i r hr
        rw [allFit_failure h]
        constructor
        · intro hfit r' hr'
          rw [hr] at hr'
          cases hr'
          exact hfit
        · intro hall
          exact hall r hr
      · rename_i hr
        cases h
        refine iff_of_fit allFit_nil ?_
        intro r' hr'
        rw [hr] at hr'; cases hr'

/-- The open of `/a` with one IOnode registered: its messages fit. -/
theorem messages_fit_iff_open :
    ∃ out, oneNode.parseRequest ⟨0, 0, 0⟩ ⟨3, 0⟩ (.openFile pathA 0 0) = some out ∧ AllFit out.ops := by
  have hsome : ∃ out, oneNode.parseRequest ⟨0, 0, 0⟩ ⟨3, 0⟩ (.openFile pathA 0 0) = some out := ⟨_, rfl⟩
  obtain ⟨out, hout⟩ := hsome
  refine ⟨out, hout, (messages_fit_iff hout).mpr ?_⟩
  intro _ _
  decide

/-- **A large write overruns the reply.** After `/a` is opened, the reply to a write of 256 blocks takes
    more than `MAX_BASIC_MESSAGE_SIZE` bytes. -/
theorem messages_overflow_by_write :
    ∃ m out, Run.run Master.step oneNode [eventOf (.openFile pathA 0 0)] = some m ∧
      m.parseRequest ⟨0, 0, 0⟩ ⟨3, 0⟩
        (.writeFile 0 { Stat.zero with stSize := 256 * BLOCK_SIZE } 0 (256 * BLOCK_SIZE)) = some out ∧
      ¬ AllFit out.ops := by
  have hsome : ∃ m r f st n, Run.run Master.step oneNode [eventOf (.openFile pathA 0 0)] = some m ∧
      FileObjects m 0 r f st ∧ f.primaryReplicaNode.bind m.nodes = some n ∧ Covers f.blockList 1 :=
    ⟨_, 0, _, _, _, rfl, ⟨rfl, rfl, rfl⟩, rfl, createBlockList_covers 0⟩
  obtain ⟨m, r, f, st, n, hrun, hobj, hn, hcov⟩ := hsome
  -- the list grows to 256 blocks, all of which are selected
  have hstart : getBlockStartPoint 0 ≤ 1 * BLOCK_SIZE := by decide
  have hgrown := allocateNewBlocksForWriting_covers hcov hstart (256 * BLOCK_SIZE)
  obtain ⟨sel, hsel, _⟩ := selectNodeBlockSet_covers hgrown (le_max_right _ _) (by decide)
  obtain ⟨msg, hmsg, hw⟩ := parseWriteFile_progress hobj hn hsel ⟨3, 0⟩ _
  refine ⟨m, _, hrun, hw, ?_⟩
  intro hfit
  have hle := (allFit_blockInfo hobj.buffered hobj.object rfl (selectNodeBlockSet_size hsel) hmsg).mp hfit
    r f n hobj.buffered hobj.object hn
  have hcount : blockCount (0 % BLOCK_SIZE + 256 * BLOCK_SIZE) = 256 := by decide
  rw [hcount] at hle
  unfold MESSAGE_META_OFF MAX_BASIC_MESSAGE_SIZE at hle
  omega

end Master

end HuronFS
