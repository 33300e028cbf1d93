import HuronFS.IOnode.Messages
import HuronFS.Master.Failure
import HuronFS.Master.OpenTable

/-!
# `Master.NodeFiles` — the files the Master has placed on each IOnode

`nodeView m q` is the table of the node `q` that follows from the open files of `m`. Each handler that opens,
removes or renames changes it for the nodes of the file, and sends each of them a message that says so: what a
node makes of the messages it is sent (`NodeMessage.apply`) takes its table before the request to the one after
it. The `stored_files` of a node are the numbers in its table.
-/

namespace HuronFS

instance (f : OpenFileInfo) (q : NodeRef) : Decidable (f.References q) := inferInstanceAs (Decidable (_ ∨ _))

theorem OpenFileInfo.references_iff {f : OpenFileInfo} {primary : NodeRef} (h : f.primaryReplicaNode = some primary)
    (q : NodeRef) : f.References q ↔ q ∈ primary :: f.IOnodesSet.keys := by
  unfold References
  rw [h, Option.some.injEq, List.mem_cons, OrdSet.mem_keys, eq_comm]

/-! ## Messages to one node -/

/-- The messages a handler sends on a handle, in order. -/
def messagesTo (handle : Handle) (ops : List QueueOp) : List (List Field) :=
  ((allocatedOn IONODE_COMMUNICATE_QUEUE_NUM ops).filter (fun t => t.handle = handle)).map OutTask.message

/-- The table of a node after a list of messages. -/
def FileView.after (view : FileView) (messages : List (List Field)) : FileView :=
  messages.foldl (fun view message => NodeMessage.apply view (NodeMessage.decode message)) view

theorem FileView.after_append (view : FileView) (a b : List (List Field)) : view.after (a ++ b) = (view.after a).after b :=
  List.foldl_append

theorem messagesTo_append (handle : Handle) (a b : List QueueOp) :
    messagesTo handle (a ++ b) = messagesTo handle a ++ messagesTo handle b := by
  unfold messagesTo
  rw [allocatedOn_append, List.filter_append, List.map_append]

theorem messagesTo_sendIOnode (handle : Handle) (n : NodeInfo) (message : List Field) :
    messagesTo handle (sendIOnode n message) = if n.handle = handle then [message] else [] := by
  unfold messagesTo sendIOnode sendOn IOnodeTask
  simp only [allocatedOn, if_true]
  by_cases h : n.handle = handle <;> simp [h]

theorem messagesTo_sendResponse (handle : Handle) (o : Origin) (message : List Field) :
    messagesTo handle (sendResponse o message) = [] := rfl

/-- Messages that all mean the same are as good as one. -/
theorem FileView.after_same {msg : NodeMessage} {messages : List (List Field)}
    (hall : ∀ m ∈ messages, ∀ view, NodeMessage.apply view (NodeMessage.decode m) = NodeMessage.apply view msg)
    (view : FileView) : view.after messages = if messages = [] then view else NodeMessage.apply view msg := by
  induction messages generalizing view with
  | nil => rfl
  | cons m messages ih =>
      have hm := hall m List.mem_cons_self
      have hrest := ih (fun m' hm' => hall m' (List.mem_cons_of_mem _ hm')) (NodeMessage.apply view msg)
      rw [if_neg (List.cons_ne_nil m messages)]
      show FileView.after (NodeMessage.apply view (NodeMessage.decode m)) messages = _
      rw [hm, hrest]
      split
      · rfl
      · exact NodeMessage.apply_apply view msg

namespace Master

/-- The handle of a node. -/
def handleOf (m : Master) (q : NodeRef) : Option Handle := (m.nodes q).map NodeInfo.handle

theorem NodesTouched.handleOf_eq {m m' : Master} (h : NodesTouched m m') : m'.handleOf = m.handleOf := by
  funext q
  unfold handleOf
  cases hq : m.nodes q with
  | none => rw [h.none q hq]
  | some n =>
      obtain ⟨s, hs⟩ := h.node q n hq
      rw [hs]
      rfl

/-- No two registered nodes are on one handle. -/
def HandlesApart (m : Master) : Prop :=
  ∀ q q', Registered m q → Registered m q' → m.handleOf q = m.handleOf q' → q = q'

/-- One message to each of the nodes `rs`, all of them about the same thing. -/
structure Notifies (handleOf : NodeRef → Option Handle) (rs : List NodeRef) (ops : List QueueOp) (msg : NodeMessage) :
    Prop where
  sent : ∀ handle, messagesTo handle ops ≠ [] ↔ ∃ r ∈ rs, handleOf r = some handle
  same : ∀ handle, ∀ m ∈ messagesTo handle ops, ∀ view,
    NodeMessage.apply view (NodeMessage.decode m) = NodeMessage.apply view msg

theorem Notifies.nil (handleOf : NodeRef → Option Handle) (msg : NodeMessage) : Notifies handleOf [] [] msg := by
  refine ⟨?_, ?_⟩
  · intro handle
    exact ⟨fun h => absurd rfl h, fun ⟨r, hr, _⟩ => (nomatch hr)⟩
  · intro handle m hm
    cases hm

theorem Notifies.cons {handleOf : NodeRef → Option Handle} {r : NodeRef} {rs : List NodeRef} {ops : List QueueOp}
    {msg : NodeMessage} {n : NodeInfo} {message : List Field} (h : Notifies handleOf rs ops msg)
    (hr : handleOf r = some n.handle)
    (hmsg : ∀ view, NodeMessage.apply view (NodeMessage.decode message) = NodeMessage.apply view msg) :
    Notifies handleOf (r :: rs) (sendIOnode n message ++ ops) msg := by
  refine ⟨?_, ?_⟩
  · intro handle
    rw [messagesTo_append, messagesTo_sendIOnode, List.exists_mem_cons_iff, ← h.sent handle, hr]
    by_cases hh : n.handle = handle <;> simp [hh]
  · intro handle m hm
    rw [messagesTo_append, messagesTo_sendIOnode] at hm
    rcases List.mem_append.mp hm with hm | hm
    · split at hm
      · rw [List.mem_singleton.mp hm]
        exact hmsg
      · cases hm
    · exact h.same handle m hm

theorem Notifies.sendEach {handleOf : NodeRef → Option Handle} {send : NodeRef → Option (List QueueOp)} {msg : NodeMessage}
    (hsend : ∀ r ops, send r = some ops → ∃ n message, handleOf r = some n.handle ∧ ops = sendIOnode n message ∧
      ∀ view, NodeMessage.apply view (NodeMessage.decode message) = NodeMessage.apply view msg) {rs : List NodeRef} :
    ∀ {ops : List QueueOp}, Master.sendEach send rs = some ops → Notifies handleOf rs ops msg := by
  induction rs with
  | nil =>
      intro ops h
      cases h
      exact Notifies.nil handleOf msg
  | cons r rs ih =>
      intro ops h
      unfold Master.sendEach at h
      split at h
      · rename_i a b ha hb
        cases h
        obtain ⟨n, message, hr, rfl, hmsg⟩ := hsend r a ha
        exact (ih hb).cons hr hmsg
      · cases h

/-- What the nodes of a Master make of such messages. -/
theorem Notifies.after {m : Master} {rs : List NodeRef} {ops : List QueueOp} {msg : NodeMessage}
    (h : Notifies m.handleOf rs ops msg) (hapart : m.HandlesApart) (hrs : ∀ r ∈ rs, Registered m r) {q : NodeRef}
    {handle : Handle} (hq : Registered m q) (hh : m.handleOf q = some handle) (view : FileView) :
    view.after (messagesTo handle ops) = if q ∈ rs then NodeMessage.apply view msg else view := by
  rw [FileView.after_same (h.same handle)]
  have hiff : messagesTo handle ops ≠ [] ↔ q ∈ rs := by
    rw [h.sent handle]
    constructor
    · rintro ⟨r, hr, hrh⟩
      rw [hapart q r hq (hrs r hr) (hh.trans hrh.symm)]
      exact hr
    · intro hmem
      exact ⟨q, hmem, hh⟩
  by_cases hmem : q ∈ rs
  · rw [if_neg (hiff.mpr hmem), if_pos hmem]
  · rw [if_pos (not_not.mp (fun hne => hmem (hiff.mp hne))), if_neg hmem]

/-! ## The messages of the handlers -/

theorem toInt_fileNo {fileNo : Int} (h0 : 0 ≤ fileNo) (h1 : fileNo < MAX_FILE_NUMBER) :
    (BitVec.ofInt 64 fileNo).toInt = fileNo := by
  have hpow : ((2 ^ 64 : Nat) : Int) = 18446744073709551616 := by decide
  rw [BitVec.toInt_ofInt]
  unfold MAX_FILE_NUMBER at h1
  refine Int.bmod_eq_of_le ?_ ?_ <;> rw [hpow] <;> omega

theorem decode_unlink {fileNo : Int} (h0 : 0 ≤ fileNo) (h1 : fileNo < MAX_FILE_NUMBER) :
    NodeMessage.decode [.int UNLINK, .long fileNo] = .unlink fileNo := by
  have hcode : (BitVec.ofInt 32 UNLINK).toInt = UNLINK := by decide
  simp only [NodeMessage.decode, Field.int, Field.long, hcode, toInt_fileNo h0 h1]
  rfl

theorem decode_rename {fileNo : Int} (h0 : 0 ≤ fileNo) (h1 : fileNo < MAX_FILE_NUMBER) (path : Str) :
    NodeMessage.decode [.int RENAME, .long fileNo, .str path] = .rename fileNo path := by
  have hcode : (BitVec.ofInt 32 RENAME).toInt = RENAME := by decide
  simp only [NodeMessage.decode, Field.int, Field.long, hcode, toInt_fileNo h0 h1]
  rfl

/-- The `OPEN_FILE` message: what follows the path decides the blocks. -/
theorem decode_openRequest {m : Master} {file : OpenFileInfo} {node : NodeRef} {stat : FileStat} {message : List Field}
    (hstat : m.fileStatPool.find? file.fileStatus = some stat) (h0 : 0 ≤ file.fileNo) (h1 : file.fileNo < MAX_FILE_NUMBER)
    (h : m.openRequest file node = some message) :
    ∃ existFlag blocks, NodeMessage.decode message = .openFile file.fileNo existFlag stat.fullPath blocks := by
  have hcode : (BitVec.ofInt 32 OPEN_FILE).toInt = OPEN_FILE := by decide
  have hdecode : ∀ flag existCode count rest, ∃ existFlag blocks, NodeMessage.decode (.int OPEN_FILE :: .long file.fileNo ::
      .w32 flag :: .int existCode :: .str stat.fullPath :: .int count :: rest)
      = .openFile file.fileNo existFlag stat.fullPath blocks := by
    intro flag existCode count rest
    simp only [NodeMessage.decode, Field.int, Field.long, hcode, toInt_fileNo h0 h1, if_true, NodeMessage.popOpenFile]
    exact ⟨_, _, rfl⟩
  unfold openRequest at h
  simp only [hstat] at h
  split at h
  · obtain ⟨fs, -, rfl⟩ := Option.map_eq_some_iff.mp h
    exact hdecode _ _ _ _
  · cases h
    exact hdecode _ _ _ _

/-! ## Tables -/

/-- The files placed on a node, each with its path. -/
def nodeView (m : Master) (q : NodeRef) : FileView :=
  fun n => (m.openFileOf n).bind (fun e => if e.2.References q then some e.2.fileStatus else none)

theorem openFileOf_eq_some {m : Master} {n : Int} {e : FileRef × OpenFileInfo} :
    m.openFileOf n = some e ↔ m.OpenAs n e.1 e.2 := by
  unfold openFileOf OpenAs
  cases m.bufferedFiles.find? n with
  | none => exact ⟨fun h => (nomatch h), fun h => (nomatch h.1)⟩
  | some r =>
      simp only [Option.map_eq_some_iff, Option.some.injEq]
      constructor
      · rintro ⟨f, hf, rfl⟩
        exact ⟨rfl, hf⟩
      · rintro ⟨rfl, hf⟩
        exact ⟨e.2, hf, rfl⟩

theorem nodeView_of_open {m : Master} {n : Int} {r : FileRef} {f : OpenFileInfo} (h : m.OpenAs n r f) (q : NodeRef) :
    m.nodeView q n = if f.References q then some f.fileStatus else none := by
  unfold nodeView
  rw [(openFileOf_eq_some (e := (r, f))).mpr h]
  rfl

theorem nodeView_of_none {m : Master} {n : Int} (h : m.bufferedFiles.find? n = none) (q : NodeRef) :
    m.nodeView q n = none := by
  unfold nodeView openFileOf
  rw [h]
  rfl

/-- Tables with the same open files, as far as nodes and paths go, give the same views. -/
theorem nodeView_congr {m m' : Master} {n : Int} (hbuf : m'.bufferedFiles.find? n = m.bufferedFiles.find? n)
    (hfiles : ∀ r, m.bufferedFiles.find? n = some r → m'.files r = m.files r) (q : NodeRef) :
    m'.nodeView q n = m.nodeView q n := by
  unfold nodeView openFileOf
  rw [hbuf]
  cases hr : m.bufferedFiles.find? n with
  | none => rfl
  | some r => simp only [hfiles r hr]

/-- What is kept of the Master's tables and its nodes. -/
structure PlacedInv (m : Master) : Prop extends OpenInv m where
  apart : m.HandlesApart
  fullPath : ∀ p s, m.fileStatPool.find? p = some s → s.fullPath = p
  stored : ∀ q node, Registered m q → m.nodes q = some node → ∀ n,
    OrdSet.Mem node.storedFiles n ↔ (m.nodeView q n).isSome

/-- The nodes were told what changed: the messages take each node's table to the new one. -/
structure Told (m m' : Master) (ops : List QueueOp) : Prop where
  registered : m'.registeredIOnodes = m.registeredIOnodes
  handles : m'.handleOf = m.handleOf
  views : ∀ q handle, Registered m q → m.handleOf q = some handle →
    (m.nodeView q).after (messagesTo handle ops) = m'.nodeView q
  quiet : ∀ handle, (∀ q, Registered m q → m.handleOf q ≠ some handle) → messagesTo handle ops = []

namespace Told

variable {m m' m'' : Master} {ops ops' : List QueueOp}

theorem registered_iff (h : Told m m' ops) {q : NodeRef} : Registered m' q ↔ Registered m q := by
  unfold Registered
  rw [h.registered]

theorem trans (h : Told m m' ops) (h' : Told m' m'' ops') : Told m m'' (ops ++ ops') := by
  refine ⟨h'.registered.trans h.registered, h'.handles.trans h.handles, ?_, ?_⟩
  · intro q handle hq hh
    rw [messagesTo_append, FileView.after_append, h.views q handle hq hh]
    exact h'.views q handle (h.registered_iff.mpr hq) (by rw [h.handles]; exact hh)
  · intro handle hno
    have hno' : ∀ q, Registered m' q → m'.handleOf q ≠ some handle := by
      intro q hq
      rw [h.handles]
      exact hno q (h.registered_iff.mp hq)
    rw [messagesTo_append, h.quiet handle hno, h'.quiet handle hno', List.append_nil]

/-- Nothing changed and nothing was sent. -/
theorem silent (hreg : m'.registeredIOnodes = m.registeredIOnodes) (hnodes : m'.nodes = m.nodes)
    (hviews : ∀ q, m'.nodeView q = m.nodeView q) (hops : ∀ handle, messagesTo handle ops = []) : Told m m' ops := by
  refine ⟨hreg, ?_, ?_, fun handle _ => hops handle⟩
  · unfold handleOf
    rw [hnodes]
  · intro q handle _ _
    rw [hops handle, hviews q]
    rfl

/-- A reply to the requester tells no node anything. -/
theorem reply (h : Told m m' ops) (o : Origin) (message : List Field) : Told m m' (ops ++ sendResponse o message) := by
  have hsame : ∀ handle, messagesTo handle (ops ++ sendResponse o message) = messagesTo handle ops := by
    intro handle
    rw [messagesTo_append, messagesTo_sendResponse, List.append_nil]
  refine ⟨h.registered, h.handles, ?_, ?_⟩
  · intro q handle hq hh
    rw [hsame]
    exact h.views q handle hq hh
  · intro handle hno
    rw [hsame]
    exact h.quiet handle hno

/-- One message to each node of `rs`, when the tables change as it says. -/
theorem of_notifies {rs : List NodeRef} {msg : NodeMessage} (hreg : m'.registeredIOnodes = m.registeredIOnodes)
    (hhandles : m'.handleOf = m.handleOf) (hapart : m.HandlesApart) (hrs : ∀ r ∈ rs, Registered m r)
    (hn : Notifies m.handleOf rs ops msg)
    (hviews : ∀ q, m'.nodeView q = if q ∈ rs then NodeMessage.apply (m.nodeView q) msg else m.nodeView q) :
    Told m m' ops := by
  refine ⟨hreg, hhandles, ?_, ?_⟩
  · intro q handle hq hh
    rw [hn.after hapart hrs hq hh, hviews q]
  · intro handle hno
    by_contra hsent
    obtain ⟨r, hr, hrh⟩ := (hn.sent handle).mp hsent
    exact hno r (hrs r hr) hrh

end Told

/-- The tables without a change that a node could see. -/
theorem PlacedInv.of_frame {m m' : Master} (h : PlacedInv m) (hopen : OpenInv m')
    (hreg : m'.registeredIOnodes = m.registeredIOnodes) (hnodes : m'.nodes = m.nodes)
    (hfull : ∀ p s, m'.fileStatPool.find? p = some s → s.fullPath = p)
    (hviews : ∀ q, m'.nodeView q = m.nodeView q) : PlacedInv m' := by
  have hregistered : ∀ q, Registered m' q ↔ Registered m q := by
    intro q
    unfold Registered
    rw [hreg]
  refine ⟨hopen, ?_, hfull, ?_⟩
  · intro q q' hq hq' hh
    unfold handleOf at hh
    rw [hnodes] at hh
    exact h.apart q q' ((hregistered q).mp hq) ((hregistered q').mp hq') hh
  · intro q node hq hnode n
    rw [hnodes] at hnode
    rw [hviews q]
    exact h.stored q node ((hregistered q).mp hq) hnode n

/-! ## Opening -/

theorem storeFile_stored {m m' : Master} {r : NodeRef} {fileNo : Int} (h : m.storeFile r fileNo = some m') {q : NodeRef}
    {node' : NodeInfo} (hq : m'.nodes q = some node') :
    ∃ node, m.nodes q = some node ∧ ∀ k, OrdSet.Mem node'.storedFiles k ↔
      OrdSet.Mem node.storedFiles k ∨ (k = fileNo ∧ q = r) := by
  unfold storeFile at h
  split at h
  · cases h
  · rename_i n hn
    cases h
    rw [setNode_nodes] at hq
    by_cases hqr : q = r
    · rw [hqr, Function.update_self] at hq
      cases hq
      refine ⟨n, by rw [hqr]; exact hn, ?_⟩
      intro k
      rw [OrdSet.mem_add]
      simp [hqr, or_comm]
    · rw [Function.update_of_ne hqr] at hq
      exact ⟨node', hq, fun k => by simp [hqr]⟩

theorem selectReplicas_stored {fileNo : Int} {num : Nat} : ∀ {it : Option Int} {pool pool' : OrdSet NodeRef}
    {m m' : Master}, selectReplicas fileNo num it pool m = some (pool', m') →
    ∃ added : NodeRef → Prop, (∀ q, OrdSet.Mem pool' q ↔ OrdSet.Mem pool q ∨ added q) ∧
      ∀ q node', m'.nodes q = some node' → ∃ node, m.nodes q = some node ∧
        ∀ k, OrdSet.Mem node'.storedFiles k ↔ OrdSet.Mem node.storedFiles k ∨ (k = fileNo ∧ added q) := by
  induction num with
  | zero =>
      intro it pool pool' m m' h
      cases h
      exact ⟨fun _ => False, fun q => by simp, fun q node' hq => ⟨node', hq, fun k => by simp⟩⟩
  | succ num ih =>
      intro it pool pool' m m' h
      unfold selectReplicas at h
      split at h
      · cases h
      · rename_i k hk
        split at h
        · cases h
        · rename_i r hr
          split at h
          · cases h
          · rename_i m1 hs
            obtain ⟨added, hpool, hnodes⟩ := ih h
            refine ⟨fun q => q = r ∨ added q, ?_, ?_⟩
            · intro q
              rw [hpool, OrdSet.mem_add, or_assoc, or_left_comm]
            · intro q node' hq
              obtain ⟨node1, hq1, hmem1⟩ := hnodes q node' hq
              obtain ⟨node, hq0, hmem0⟩ := storeFile_stored hs hq1
              refine ⟨node, hq0, ?_⟩
              intro k
              rw [hmem1, hmem0]
              tauto

/-- `_select_IOnode` enters the file at the nodes it chooses, and at no other. -/
theorem selectIOnode_stored {m m' : Master} {fileNo : Int} {num : Nat} {main : NodeRef} {pool : OrdSet NodeRef}
    (h : m.selectIOnode fileNo num = some (.ok (main, pool, m'))) {q : NodeRef} {node' : NodeInfo}
    (hq : m'.nodes q = some node') :
    ∃ node, m.nodes q = some node ∧ ∀ k, OrdSet.Mem node'.storedFiles k ↔
      OrdSet.Mem node.storedFiles k ∨ (k = fileNo ∧ q ∈ main :: pool.keys) := by
  obtain ⟨m1, m2, hg, hs, hsel⟩ := selectIOnode_inv h
  obtain ⟨k0, -, -, rfl⟩ := getNextIOnode_inv hg
  obtain ⟨added, hpool, hnodes⟩ := selectReplicas_stored hsel
  obtain ⟨node1, hq1, hmem1⟩ := hnodes q node' hq
  obtain ⟨node, hq0, hmem0⟩ := storeFile_stored hs hq1
  refine ⟨node, hq0, ?_⟩
  intro k
  have hadded : q ∈ pool.keys ↔ added q := by
    rw [OrdSet.mem_keys, hpool]
    exact or_iff_right (OrdSet.not_mem_empty q)
  rw [hmem1, hmem0, List.mem_cons, hadded]
  tauto

/-- **A new open file.** `m` is the state with the number taken and the path's entry made. -/
theorem create_told {m m' : Master} {fileNo : Int} {flag : BitVec 32} {path : Str} {ops : List QueueOp} {r : FileRef}
    (hapart : m.HandlesApart) (hfull : ∀ p s, m.fileStatPool.find? p = some s → s.fullPath = p)
    (hstored : ∀ q node, Registered m q → m.nodes q = some node → ∀ n,
      OrdSet.Mem node.storedFiles n ↔ (m.nodeView q n).isSome)
    (h0 : 0 ≤ fileNo) (h1 : fileNo < MAX_FILE_NUMBER) (hkey : m.bufferedFiles.find? fileNo = none)
    (hfresh : ∀ k r, m.bufferedFiles.find? k = some r → r ≠ m.nextFile) (hopen : OpenInv m')
    (hc : m.createNewOpenFileInfo fileNo flag path = some (m', ops, .ok r)) : Told m m' ops ∧ PlacedInv m' := by
  obtain ⟨stat, main, pool, m2, hst, hr, hsel, hm', hsend⟩ := createNewOpenFileInfo_inv hc
  obtain ⟨ht, hmain, hreplica⟩ := selectIOnode_ok hsel
  have hpath : stat.fullPath = path := hfull path stat hst
  have hreg : m'.registeredIOnodes = m.registeredIOnodes := by
    rw [hm']
    exact ht.registered_eq
  have hhandles : m'.handleOf = m.handleOf := by
    have h2 : m'.handleOf = m2.handleOf := by rw [hm']; rfl
    rw [h2, ht.handleOf_eq]
    rfl
  have hpool' : m'.fileStatPool = m.fileStatPool.put path { stat with openedFileInfo := some m.nextFile } := by
    rw [hm', setFile_pool, ht.pool_eq]
    rfl
  have hrs : ∀ q ∈ main :: pool.keys, Registered m q := by
    intro q hq
    rcases List.mem_cons.mp hq with rfl | hq
    · exact hmain
    · exact hreplica q (OrdSet.mem_keys.mp hq)
  -- the tables of the nodes
  have hbuf : m'.bufferedFiles = m.bufferedFiles.put fileNo r := by
    rw [hm', setFile_buffered, ht.buffered_eq]
    show m.bufferedFiles.insert fileNo m.nextFile = _
    rw [OrdMap.insert_of_none hkey, hr]
  have hfile : m'.files r = some (placedFile fileNo flag path stat.status.stSize main pool) := by
    rw [hm', setFile_files, Function.update_self]
  have hviews : ∀ q, m'.nodeView q = if q ∈ main :: pool.keys then Function.update (m.nodeView q) fileNo (some path)
      else m.nodeView q := by
    intro q
    funext k
    by_cases hk : k = fileNo
    · subst hk
      have hnew : m'.OpenAs k r (placedFile k flag path stat.status.stSize main pool) :=
        ⟨by rw [hbuf, OrdMap.find?_put_self], hfile⟩
      rw [nodeView_of_open hnew]
      have hprimary : (placedFile k flag path stat.status.stSize main pool).primaryReplicaNode = some main := rfl
      have hrefs := OpenFileInfo.references_iff hprimary q
      by_cases hq : q ∈ main :: pool.keys
      · rw [if_pos hq, if_pos (hrefs.mpr hq), Function.update_self]
        rfl
      · rw [if_neg hq, if_neg (fun hc => hq (hrefs.mp hc)), nodeView_of_none hkey]
    · have hother : m'.nodeView q k = m.nodeView q k := by
        refine nodeView_congr (by rw [hbuf, OrdMap.find?_put_ne _ _ hk]) ?_ q
        intro r' hr'
        have hne : r' ≠ r := by rw [hr]; exact hfresh k r' hr'
        rw [hm', setFile_files, Function.update_of_ne hne, ht.files_eq]
        exact Function.update_of_ne (by rw [← hr]; exact hne) _ _
      rw [hother]
      split
      · rw [Function.update_of_ne hk]
      · rfl
  have hviews' : ∀ q, m'.nodeView q = if q ∈ main :: pool.keys
      then NodeMessage.apply (m.nodeView q) (.openFile fileNo .notExist path []) else m.nodeView q := by
    intro q
    rw [hviews q]
    simp only [NodeMessage.apply, nodeView_of_none hkey, Option.isSome_none, Bool.false_eq_true, if_false]
  have hnotify : Notifies m.handleOf (main :: pool.keys) ops (.openFile fileNo .notExist path []) := by
    refine Notifies.sendEach ?_ hsend
    intro q ops' hq
    unfold sendOpenRequestToIOnodes at hq
    split at hq
    · rename_i n message hn hmessage
      cases hq
      refine ⟨n, message, ?_, rfl, ?_⟩
      · rw [← hhandles]
        unfold handleOf
        rw [hn]
        rfl
      · have hst' : m'.fileStatPool.find? (placedFile fileNo flag path stat.status.stSize main pool).fileStatus
            = some { stat with openedFileInfo := some m.nextFile } := by
          rw [hpool']
          exact OrdMap.find?_put_self _ _ _
        obtain ⟨existFlag, blocks, hdecode⟩ := decode_openRequest hst' h0 h1 hmessage
        intro view
        rw [hdecode]
        show NodeMessage.apply view (.openFile fileNo existFlag stat.fullPath blocks) = _
        rw [hpath]
        rfl
    · cases hq
  refine ⟨Told.of_notifies hreg hhandles hapart hrs hnotify hviews', hopen, ?_, ?_, ?_⟩
  · intro q q' hq hq' hh
    rw [hhandles] at hh
    unfold Registered at hq hq'
    rw [hreg] at hq hq'
    exact hapart q q' hq hq' hh
  · intro p s hp
    rw [hpool', OrdMap.find?_put] at hp
    split at hp
    · rename_i hpp
      cases hp
      exact hpath.trans hpp.symm
    · exact hfull p s hp
  · intro q node' hq hnode' k
    have hnode2 : m2.nodes q = some node' := by
      rw [hm'] at hnode'
      exact hnode'
    obtain ⟨node, hnode, hmem⟩ := selectIOnode_stored hsel hnode2
    have hq0 : Registered m q := by
      unfold Registered at hq ⊢
      rwa [hreg] at hq
    rw [hmem, hstored q node hq0 hnode k, hviews q]
    by_cases hk : k = fileNo
    · rw [hk, nodeView_of_none hkey]
      by_cases hin : q ∈ main :: pool.keys
      · simp [hin]
      · simp [hin, nodeView_of_none hkey]
    · by_cases hin : q ∈ main :: pool.keys
      · simp [hin, hk, Function.update_of_ne]
      · simp [hin, hk]

/-- The number of a file, the open count and the cursor are nothing to the nodes. -/
theorem nodeView_setFile {m : Master} (h : TableInv m) {r : FileRef} {f : OpenFileInfo} (f' : OpenFileInfo)
    (hf : m.files r = some f) (hst : f'.fileStatus = f.fileStatus) (hrefs : ∀ q, f'.References q ↔ f.References q) (q : NodeRef) :
    (m.setFile r f').nodeView q = m.nodeView q := by
  funext n
  cases hn : m.bufferedFiles.find? n with
  | none => rw [nodeView_of_none hn, nodeView_of_none (m := m.setFile r f') hn]
  | some r' =>
      obtain ⟨g, hg⟩ := h.entry n r' hn
      by_cases hr : r' = r
      · subst hr
        obtain rfl := Option.some.inj (hg.object.symm.trans hf)
        have hnew : (m.setFile r' f').OpenAs n r' f' := ⟨hn, by rw [setFile_files, Function.update_self]⟩
        rw [nodeView_of_open hnew, nodeView_of_open ⟨hn, hg.object⟩, hst]
        simp only [hrefs q]
      · refine nodeView_congr (show (m.setFile r f').bufferedFiles.find? n = m.bufferedFiles.find? n from rfl) ?_ q
        intro r'' hr''
        rw [hn] at hr''
        cases hr''
        rw [setFile_files, Function.update_of_ne hr]

/-- **`_open_file` tells the nodes.** -/
theorem PlacedInv.openFile {m m' : Master} (h : PlacedInv m) {e : Env} {path : Str} {flag mode : BitVec 32}
    {ops : List QueueOp} {res : Except OpenError Int} (hsize : m.registeredIOnodes.size ≠ 0)
    (hlt : m.fileNumber < MAX_FILE_NUMBER) (hopen : OpenInv m')
    (hr : m.openFile e path flag mode = some (m', ops, res)) : Told m m' ops ∧ PlacedInv m' := by
  have hfresh : ∀ k r, m.bufferedFiles.find? k = some r → r ≠ m.nextFile := by
    intro k r hk hc
    obtain ⟨f, hf⟩ := h.table.entry k r hk
    have := h.table.fresh r (le_of_eq hc.symm)
    rw [hf.object] at this
    cases this
  obtain ⟨n, hn, hfree, hg⟩ := h.table.exists_free hlt
  have hkey : m.bufferedFiles.find? (n : Int) = none := by
    cases hc : m.bufferedFiles.find? (n : Int) with
    | none => rfl
    | some r =>
        have := (h.table.pool_iff n).mpr ⟨r, hc⟩
        rw [hfree] at this
        cases this
  have hn1 : (n : Int) < MAX_FILE_NUMBER := by
    unfold MAX_FILE_NUMBER at hn ⊢
    omega
  cases res with
  | error err =>
      obtain ⟨-, ⟨-, -, hno⟩ | ⟨hz, -⟩⟩ := openFile_error hr
      · rw [hg] at hno
        have := congrArg Prod.fst hno
        simp only at this
        omega
      · exact absurd hz hsize
  | ok fileNo =>
      rcases openFile_ok hr with ⟨s, r, f, hst, ho, hf, -, rfl, rfl⟩ | ⟨m1, r, hg', hst, -, hc⟩ |
        ⟨s, m1, m2, r, hg', hst, ho, hc, hadd⟩
      · have hview : ∀ q, (m.setFile r { f with openCount := f.openCount + 1 }).nodeView q = m.nodeView q :=
          fun q => nodeView_setFile h.table { f with openCount := f.openCount + 1 } hf rfl (fun _ => Iff.rfl) q
        exact ⟨Told.silent rfl rfl hview (fun _ => rfl), h.of_frame hopen rfl rfl h.fullPath hview⟩
      · rw [hg] at hg'
        cases hg'
        have hview : ∀ q, ((m.takeFileNo n).createNewFileStat e path .notExist (S_IFREG ||| mode)).nodeView q = m.nodeView q :=
          fun q => rfl
        have hfull : ∀ p s, ((m.takeFileNo n).createNewFileStat e path .notExist (S_IFREG ||| mode)).fileStatPool.find? p
            = some s → s.fullPath = p := by
          intro p s hp
          have hp' : (m.fileStatPool.put path _).find? p = some s := hp
          rw [OrdMap.find?_put] at hp'
          split at hp'
          · rename_i hpp
            cases hp'
            exact hpp.symm
          · exact h.fullPath p s hp'
        obtain ⟨htold, hinv⟩ := create_told (m := (m.takeFileNo n).createNewFileStat e path .notExist (S_IFREG ||| mode))
          h.apart hfull h.stored (Int.natCast_nonneg n) hn1 hkey hfresh hopen hc
        exact ⟨⟨htold.registered, htold.handles, htold.views, htold.quiet⟩, hinv⟩
      · rw [hg] at hg'
        cases hg'
        -- the count is raised after the file was created
        unfold addOpenCount at hadd
        split at hadd
        · cases hadd
        · rename_i f hf
          cases hadd
          have hst1 : (m.takeFileNo n).fileStatPool.find? path = some s := hst
          have hinv1 : NodeInv (m.takeFileNo n) := ⟨h.nodes.live, h.nodes.idTaken, h.nodes.cursor, h.nodes.fresh⟩
          obtain ⟨htab, -, -⟩ := h.table.create (m.takeFileNo n) hn hfree rfl rfl rfl rfl rfl rfl (fun _ => rfl)
            ((openedAt_of_find hst).trans ho) hc
          have hopen2 : OpenInv m2 := ⟨htab, createNewOpenFileInfo_nodeInv hinv1 hc⟩
          obtain ⟨htold, hinv⟩ := create_told (m := m.takeFileNo n) h.apart h.fullPath h.stored (Int.natCast_nonneg n) hn1
            hkey hfresh hopen2 hc
          have hview : ∀ q, (m2.setFile r { f with openCount := f.openCount + 1 }).nodeView q = m2.nodeView q :=
            fun q => nodeView_setFile htab { f with openCount := f.openCount + 1 } hf rfl (fun _ => Iff.rfl) q
          refine ⟨⟨htold.registered, htold.handles, ?_, htold.quiet⟩, hinv.of_frame hopen rfl rfl hinv.fullPath hview⟩
          intro q handle hq hh
          rw [hview q]
          exact htold.views q handle hq hh

/-! ## Removal -/

theorem sendRemoveRequests_stored {fileNo : Int} {rs : List NodeRef} : ∀ {m m' : Master} {ops : List QueueOp},
    sendRemoveRequests fileNo rs m = some (m', ops) → ∀ {q : NodeRef} {node' : NodeInfo}, m'.nodes q = some node' →
    ∃ node, m.nodes q = some node ∧ ∀ k, OrdSet.Mem node'.storedFiles k ↔
      OrdSet.Mem node.storedFiles k ∧ ¬ (k = fileNo ∧ q ∈ rs) := by
  induction rs with
  | nil =>
      intro m m' ops h q node' hq
      cases h
      exact ⟨node', hq, fun k => by simp⟩
  | cons r rs ih =>
      intro m m' ops h q node' hq
      unfold sendRemoveRequests at h
      split at h
      · cases h
      · rename_i n hn
        split at h
        · cases h
        · rename_i m1 ops' hrec
          cases h
          obtain ⟨node1, hq1, hmem1⟩ := ih hrec hq
          rw [setNode_nodes] at hq1
          by_cases hqr : q = r
          · rw [hqr, Function.update_self] at hq1
            cases hq1
            refine ⟨n, by rw [hqr]; exact hn, ?_⟩
            intro k
            rw [hmem1, OrdSet.mem_erase]
            simp only [hqr, List.mem_cons, true_or, and_true]
            tauto
          · rw [Function.update_of_ne hqr] at hq1
            refine ⟨node1, hq1, ?_⟩
            intro k
            rw [hmem1]
            simp [hqr]

theorem sendRemoveRequests_notifies {fileNo : Int} (h0 : 0 ≤ fileNo) (h1 : fileNo < MAX_FILE_NUMBER) {rs : List NodeRef} :
    ∀ {m m' : Master} {ops : List QueueOp}, sendRemoveRequests fileNo rs m = some (m', ops) →
    Notifies m.handleOf rs ops (.unlink fileNo) := by
  induction rs with
  | nil =>
      intro m m' ops h
      cases h
      exact Notifies.nil _ _
  | cons r rs ih =>
      intro m m' ops h
      unfold sendRemoveRequests at h
      split at h
      · cases h
      · rename_i n hn
        split at h
        · cases h
        · rename_i m1 ops' hrec
          cases h
          have hrest := ih hrec
          rw [(setNode_touched hn _).handleOf_eq] at hrest
          refine hrest.cons ?_ ?_
          · unfold handleOf
            rw [hn]
            rfl
          · intro view
            rw [decode_unlink h0 h1]

/-- **`_remove_file` tells the nodes.** -/
theorem PlacedInv.removeFile {m m' : Master} (h : PlacedInv m) {path : Str} {ops : List QueueOp} {found : Bool}
    (hr : m.removeFile path = some (m', ops, found)) : Told m m' ops ∧ PlacedInv m' := by
  obtain ⟨m0, ops0, found0, hr0, hopen, hpool, hreg⟩ := h.toOpenInv.removeFile path
  rw [hr] at hr0
  cases hr0
  have hfull : ∀ p s, m'.fileStatPool.find? p = some s → s.fullPath = p := by
    intro p s hp
    rw [hpool, OrdMap.find?_erase] at hp
    split at hp
    · cases hp
    · exact h.fullPath p s hp
  rcases removeFile_some hr with ⟨-, rfl, rfl, -⟩ | ⟨s, -, -, rfl, -, rfl⟩ | ⟨s, r, m1, hst, ho, -, hrem, rfl⟩
  · exact ⟨Told.silent rfl rfl (fun _ => rfl) (fun _ => rfl), h⟩
  · have hview : ∀ q, ({ m with fileStatPool := m.fileStatPool.erase path } : Master).nodeView q = m.nodeView q :=
      fun _ => rfl
    exact ⟨Told.silent rfl rfl hview (fun _ => rfl), h.of_frame hopen rfl rfl hfull hview⟩
  · have hop : m.openedAt path = some r := (openedAt_of_find hst).trans ho
    obtain ⟨f, primary, m2, hf, hp, hsend, rfl, h0, h1⟩ := removeOpenFile_inv hrem
    have ht := sendRemoveRequests_some hsend
    obtain ⟨hb, -⟩ := h.table.buffered_of_opened hop hf
    obtain ⟨g, hg⟩ := h.table.entry _ _ hb
    obtain rfl := Option.some.inj (hg.object.symm.trans hf)
    have hrs : ∀ q ∈ primary :: g.IOnodesSet.keys, Registered m q := by
      intro q hq
      rcases List.mem_cons.mp hq with rfl | hq
      · obtain ⟨p', hp', hreg'⟩ := hg.primary
        rw [hp] at hp'
        cases hp'
        exact hreg'
      · exact hg.replicas q (OrdSet.mem_keys.mp hq)
    have hhandles : ({ m2.dropOpenFile r g.fileNo with
        fileStatPool := (m2.dropOpenFile r g.fileNo).fileStatPool.erase path } : Master).handleOf = m.handleOf :=
      ht.handleOf_eq
    have hbuf : m2.bufferedFiles = m.bufferedFiles := ht.buffered_eq
    -- the number is gone from the tables of every node
    have hviews : ∀ q, ({ m2.dropOpenFile r g.fileNo with
        fileStatPool := (m2.dropOpenFile r g.fileNo).fileStatPool.erase path } : Master).nodeView q
        = Function.update (m.nodeView q) g.fileNo none := by
      intro q
      funext k
      by_cases hk : k = g.fileNo
      · rw [hk, Function.update_self]
        refine nodeView_of_none ?_ q
        show (m2.bufferedFiles.erase g.fileNo).find? g.fileNo = none
        exact OrdMap.find?_erase_self _ _
      · rw [Function.update_of_ne hk]
        refine nodeView_congr ?_ ?_ q
        · show (m2.bufferedFiles.erase g.fileNo).find? k = _
          rw [OrdMap.find?_erase_ne _ hk, hbuf]
        · intro r' hr'
          obtain ⟨g', hg'⟩ := h.table.entry k r' hr'
          have hne : r' ≠ r := by
            rintro rfl
            rw [hg'.object] at hf
            cases hf
            exact hk hg'.fileNo.symm
          show Function.update m2.files r none r' = _
          rw [Function.update_of_ne hne, ht.files_eq]
    have hrefs : ∀ q, q ∉ primary :: g.IOnodesSet.keys → m.nodeView q g.fileNo = none := by
      intro q hq
      rw [nodeView_of_open ⟨hb, hf⟩, if_neg]
      exact fun hc => hq ((OpenFileInfo.references_iff hp q).mp hc)
    refine ⟨?_, hopen, ?_, hfull, ?_⟩
    · refine Told.of_notifies hreg hhandles h.apart hrs (sendRemoveRequests_notifies h0 h1 hsend) ?_
      intro q
      rw [hviews q]
      split
      · rfl
      · rename_i hq
        rw [← hrefs q hq, Function.update_eq_self]
    · intro q q' hq hq' hh
      rw [hhandles] at hh
      unfold Registered at hq hq'
      rw [hreg] at hq hq'
      exact h.apart q q' hq hq' hh
    · intro q node' hq hnode' k
      obtain ⟨node, hnode, hmem⟩ := sendRemoveRequests_stored hsend (show m2.nodes q = some node' from hnode')
      have hq0 : Registered m q := by
        unfold Registered at hq ⊢
        rwa [hreg] at hq
      rw [hmem, h.stored q node hq0 hnode k, hviews q]
      by_cases hk : k = g.fileNo
      · rw [hk, Function.update_self]
        by_cases hin : q ∈ primary :: g.IOnodesSet.keys
        · simp [hin]
        · simp [hrefs q hin]
      · rw [Function.update_of_ne hk]
        simp [hk]

/-! ## Rename -/

/-- The tables once `_parse_rename` has moved an open file. -/
def moveEntry (m : Master) (oldPath newPath : Str) (s : FileStat) (r : FileRef) (f : OpenFileInfo) : Master :=
  { m.movedFile s newPath r f with fileStatPool := (m.movedFile s newPath r f).fileStatPool.erase oldPath }

theorem renameLocalFile_sent {m : Master} {s : FileStat} {newPath : Str} {r : FileRef} {f : OpenFileInfo}
    {primary : NodeRef} {ops : List QueueOp} (hnew : m.fileStatPool.find? newPath = none) (ho : s.openedFileInfo = some r)
    (hf : m.files r = some f) (hp : f.primaryReplicaNode = some primary)
    (hren : m.renameLocalFile s newPath = some (m.movedFile s newPath r f, ops)) :
    sendEach ((m.movedFile s newPath r f).sendRenameRequest f.fileNo newPath) (primary :: f.IOnodesSet.keys) = some ops := by
  obtain ⟨status, name, externalFlag, externalMaster, externalName, existFlag, opened, fullPath⟩ := s
  obtain rfl : opened = some r := ho
  obtain ⟨fileNo, blockList, nodes, primaryNode, blockSize, openCount, flag, fileStatus⟩ := f
  obtain rfl : primaryNode = some primary := hp
  simp only [renameLocalFile, hnew, Option.getD_none, setStat_files, hf] at hren
  split at hren
  · cases hren
  · rename_i ops' hops
    cases hren
    exact hops

/-- The entry of an open file, with its file, moved to the free path `newPath`; the messages say so. -/
theorem PlacedInv.move {m : Master} (h : PlacedInv m) {oldPath newPath : Str} {s : FileStat} {r : FileRef}
    {f : OpenFileInfo} {ops : List QueueOp} (hst : m.fileStatPool.find? oldPath = some s) (ho : s.openedFileInfo = some r)
    (hf : m.files r = some f) (hnew : m.fileStatPool.find? newPath = none)
    (hren : m.renameLocalFile s newPath = some (m.movedFile s newPath r f, ops)) :
    Told m (m.moveEntry oldPath newPath s r f) ops ∧ PlacedInv (m.moveEntry oldPath newPath s r f) := by
  have hop : m.openedAt oldPath = some r := (openedAt_of_find hst).trans ho
  obtain ⟨hb, -⟩ := h.table.buffered_of_opened hop hf
  obtain ⟨g, hg⟩ := h.table.entry _ _ hb
  obtain rfl := Option.some.inj (hg.object.symm.trans hf)
  obtain ⟨primary, hp, hprimary⟩ := hg.primary
  have hrs : ∀ q ∈ primary :: g.IOnodesSet.keys, Registered m q := by
    intro q hq
    rcases List.mem_cons.mp hq with rfl | hq
    · exact hprimary
    · exact hg.replicas q (OrdSet.mem_keys.mp hq)
  have hrange := h.table.range _ _ hb
  -- one message to each node of the file
  have hnotify : Notifies m.handleOf (primary :: g.IOnodesSet.keys) ops (.rename g.fileNo newPath) := by
    have hsend := renameLocalFile_sent hnew ho hf hp hren
    refine Notifies.sendEach ?_ hsend
    intro q ops' hq
    unfold sendRenameRequest at hq
    obtain ⟨n, hn, rfl⟩ := Option.map_eq_some_iff.mp hq
    have hn' : m.nodes q = some n := hn
    refine ⟨n, _, ?_, rfl, ?_⟩
    · unfold handleOf
      rw [hn']
      rfl
    · intro view
      rw [decode_rename hrange.1 hrange.2]
  -- the path of the number changes in the tables of its nodes
  have hviews : ∀ q, (m.moveEntry oldPath newPath s r g).nodeView q
      = if q ∈ primary :: g.IOnodesSet.keys then NodeMessage.apply (m.nodeView q) (.rename g.fileNo newPath)
        else m.nodeView q := by
    intro q
    funext k
    have hrefs := OpenFileInfo.references_iff hp q
    by_cases hk : k = g.fileNo
    · have hnew' : (m.moveEntry oldPath newPath s r g).OpenAs k r { g with fileStatus := newPath } := by
        refine ⟨by rw [hk]; exact hb, ?_⟩
        show Function.update m.files r _ r = _
        rw [Function.update_self]
      have hold : m.nodeView q k = if g.References q then some g.fileStatus else none :=
        nodeView_of_open ⟨by rw [hk]; exact hb, hf⟩ q
      rw [nodeView_of_open hnew']
      by_cases hq : q ∈ primary :: g.IOnodesSet.keys
      · have hin : g.References q := hrefs.mpr hq
        have hin' : OpenFileInfo.References { g with fileStatus := newPath } q := hin
        rw [if_pos hin] at hold
        rw [if_pos hin', if_pos hq]
        simp only [NodeMessage.apply, ← hk, hold, Option.isSome_some, if_true, Function.update_self]
      · have hout : ¬ g.References q := fun hc => hq (hrefs.mp hc)
        have hout' : ¬ OpenFileInfo.References { g with fileStatus := newPath } q := hout
        rw [if_neg hout', if_neg hq, hold, if_neg hout]
    · have hother : (m.moveEntry oldPath newPath s r g).nodeView q k = m.nodeView q k := by
        refine nodeView_congr (show (m.moveEntry oldPath newPath s r g).bufferedFiles.find? k
          = m.bufferedFiles.find? k from rfl) ?_ q
        intro r' hr'
        obtain ⟨g', hg'⟩ := h.table.entry k r' hr'
        have hne : r' ≠ r := by
          rintro rfl
          rw [hg'.object] at hf
          cases hf
          exact hk hg'.fileNo.symm
        show Function.update m.files r _ r' = _
        rw [Function.update_of_ne hne]
      rw [hother]
      split
      · simp only [NodeMessage.apply]
        split
        · rw [Function.update_of_ne hk]
        · rfl
      · rfl
  have hinv : OpenInv (m.moveEntry oldPath newPath s r g) :=
    ⟨h.table.move hop hf ho (openedAt_of_none hnew), ⟨h.nodes.live, h.nodes.idTaken, h.nodes.cursor, h.nodes.fresh⟩⟩
  refine ⟨Told.of_notifies rfl rfl h.apart hrs hnotify hviews, hinv, h.apart, ?_, ?_⟩
  · intro p s' hp'
    have hp'' : ((m.fileStatPool.put newPath { s with fullPath := newPath }).erase oldPath).find? p = some s' := hp'
    rw [OrdMap.find?_erase, OrdMap.find?_put] at hp''
    split at hp''
    · cases hp''
    · split at hp''
      · rename_i hpn
        cases hp''
        exact hpn.symm
      · exact h.fullPath p s' hp''
  · intro q node hq hnode k
    rw [h.stored q node hq hnode k, hviews q]
    split
    · simp only [NodeMessage.apply]
      split
      · rename_i hsome
        by_cases hk : k = g.fileNo
        · rw [hk, Function.update_self]
          simp [hsome]
        · rw [Function.update_of_ne hk]
      · rfl
    · rfl

/-- **The local rename of `_parse_rename` tells the nodes.** -/
theorem PlacedInv.renameTables {m m' : Master} (h : PlacedInv m) {oldPath newPath : Str} (hne : oldPath ≠ newPath)
    {ops : List QueueOp} (hr : m.renameTables oldPath newPath MYSELF = some (m', ops)) : Told m m' ops ∧ PlacedInv m' := by
  obtain ⟨m1, ops1, found, hrem, -, hpool, -⟩ := h.toOpenInv.removeFile newPath
  obtain ⟨htold, hinv⟩ := h.removeFile hrem
  cases hst : m.fileStatPool.find? oldPath with
  | none =>
      simp only [Master.renameTables, hst, if_true, hrem, Option.map_some] at hr
      cases hr
      exact ⟨htold, hinv⟩
  | some s =>
      have hst1 : m1.fileStatPool.find? oldPath = some s := by
        rw [hpool, OrdMap.find?_erase_ne _ hne]
        exact hst
      have hnew : m1.fileStatPool.find? newPath = none := by
        rw [hpool]
        exact OrdMap.find?_erase_self _ _
      cases ho : s.openedFileInfo with
      | none =>
          -- a file that is not open is no node's
          simp only [Master.renameTables, hst, if_true, if_neg hne, hrem, renameLocalFile, hnew, Option.getD_none, ho] at hr
          cases hr
          obtain ⟨m2, ops2, hren, hopen⟩ := h.toOpenInv.renameTables oldPath newPath MYSELF (fun hc => hne hc.2.1)
          simp only [Master.renameTables, hst, if_true, if_neg hne, hrem, renameLocalFile, hnew, Option.getD_none, ho] at hren
          cases hren
          have hfull : ∀ p s', ((m1.fileStatPool.put newPath { s with fullPath := newPath }).erase oldPath).find? p = some s' →
              s'.fullPath = p := by
            intro p s' hp
            rw [OrdMap.find?_erase, OrdMap.find?_put] at hp
            split at hp
            · cases hp
            · split at hp
              · rename_i hpn
                cases hp
                exact hpn.symm
              · exact hinv.fullPath p s' hp
          refine ⟨htold.trans (Told.silent rfl rfl (fun _ => rfl) (fun _ => rfl)), hinv.of_frame hopen rfl rfl ?_ (fun _ => rfl)⟩
          intro p s' hp
          rw [ho] at hfull
          exact hfull p s' hp
      | some r =>
          have hop : m1.openedAt oldPath = some r := (openedAt_of_find hst1).trans ho
          obtain ⟨f, primary, hf, hp, hnodes, -, -⟩ := hinv.toOpenInv.file_nodes hop
          obtain ⟨ops', hren⟩ := renameLocalFile_progress hnew ho hf hp hnodes
          simp only [Master.renameTables, hst, if_true, if_neg hne, hrem, hren] at hr
          cases hr
          obtain ⟨htold', hinv'⟩ := hinv.move hst1 ho hf hnew hren
          exact ⟨htold.trans htold', hinv'⟩

/-! ## Requests -/

/-- The requests that place files, each under the conditions of the protocol: a node is registered and a file
    number is free when a file is opened, a rename is local and goes to another path, and a node registers on a
    handle of its own. -/
def PlacingGuard (m : Master) (ev : Event) : Prop :=
  match ev.request with
  | .openFile _ _ _ => m.registeredIOnodes.size ≠ 0 ∧ m.fileNumber < MAX_FILE_NUMBER
  | .unlink _ => True
  | .rmDir _ => True
  | .rename oldPath newPath newMaster => newMaster = MYSELF ∧ oldPath ≠ newPath
  | .register _ _ => ∀ q, Registered m q → m.handleOf q ≠ some ev.origin.handle
  | _ => False

/-- What a request means for the nodes: those that were registered stay, and are told what changed; a node that
    registers holds nothing. -/
structure Served (m m' : Master) (ops : List QueueOp) : Prop where
  registered : ∀ q, Registered m q → Registered m' q
  kept : ∀ q handle, Registered m q → m.handleOf q = some handle →
    m'.handleOf q = some handle ∧ (m.nodeView q).after (messagesTo handle ops) = m'.nodeView q
  new : ∀ q, Registered m' q → Registered m q ∨
    m'.nodeView q = (fun _ => none) ∧ ∀ q', Registered m q' → m.handleOf q' ≠ m'.handleOf q
  quiet : ∀ handle, (∀ q, Registered m q → m.handleOf q ≠ some handle) → messagesTo handle ops = []

theorem Told.served {m m' : Master} {ops : List QueueOp} (h : Told m m' ops) : Served m m' ops := by
  refine ⟨fun q hq => h.registered_iff.mpr hq, ?_, ?_, h.quiet⟩
  · intro q handle hq hh
    exact ⟨by rw [h.handles]; exact hh, h.views q handle hq hh⟩
  · intro q hq
    exact Or.inl (h.registered_iff.mp hq)

/-- **A registration tells the nodes nothing.** The node that registers is referenced by no file yet. -/
theorem PlacedInv.addIOnode {m : Master} (h : PlacedInv m) (uri : Str) (totalMemory : Nat) {handle : Handle}
    (hfresh : ∀ q, Registered m q → m.handleOf q ≠ some handle) :
    Served m (m.addIOnode uri totalMemory handle).2 [] ∧ PlacedInv (m.addIOnode uri totalMemory handle).2 := by
  have hopen := h.toOpenInv.addIOnode uri totalMemory handle
  rcases addIOnode_cases m uri totalMemory handle with ⟨pool, c, -, heq⟩ | ⟨id, node, hfree, -, ⟨hhandle, hempty⟩, heq⟩
  · rw [heq] at hopen ⊢
    have htold : Told m { m with nodeIdPool := pool, currentNodeNumber := c } [] :=
      Told.silent rfl rfl (fun _ => rfl) (fun _ => rfl)
    exact ⟨htold.served, h.of_frame hopen rfl rfl h.fullPath (fun _ => rfl)⟩
  · rw [heq] at hopen ⊢
    have hkey : m.registeredIOnodes.find? (id : Int) = none := by
      cases hf : m.registeredIOnodes.find? (id : Int) with
      | none => rfl
      | some q =>
          have htaken := (h.nodes.idTaken _ q hf).2
          rw [Int.toNat_natCast, hfree] at htaken
          cases htaken
    have hreg : ∀ q, Registered (m.registerNode id node) q → q = m.nextNode ∨ Registered m q := by
      rintro q ⟨k, hk⟩
      have hk' : (m.registeredIOnodes.insert id m.nextNode).find? k = some q := hk
      rw [OrdMap.insert_of_none hkey, OrdMap.find?_put] at hk'
      split at hk'
      · cases hk'
        exact Or.inl rfl
      · exact Or.inr ⟨k, hk'⟩
    have hlive : ∀ q, Registered m q → q ≠ m.nextNode := by
      rintro q ⟨k, hk⟩ rfl
      obtain ⟨n, hn, -⟩ := h.nodes.live k _ hk
      rw [h.nodes.fresh _ (le_refl _)] at hn
      cases hn
    have hview : ∀ q, (m.registerNode id node).nodeView q = m.nodeView q := fun _ => rfl
    have hold : ∀ q, Registered m q → (m.registerNode id node).handleOf q = m.handleOf q := by
      intro q hq
      show (Function.update m.nodes m.nextNode (some node) q).map NodeInfo.handle = _
      rw [Function.update_of_ne (hlive q hq)]
      rfl
    have hself : (m.registerNode id node).handleOf m.nextNode = some handle := by
      show (Function.update m.nodes m.nextNode (some node) m.nextNode).map NodeInfo.handle = _
      rw [Function.update_self, Option.map_some, hhandle]
    -- no open file is on a node that was not registered
    have hnone : m.nodeView m.nextNode = fun _ => none := by
      funext k
      unfold nodeView
      cases ho : m.openFileOf k with
      | none => rfl
      | some e =>
          obtain ⟨hb, hf⟩ := openFileOf_eq_some.mp ho
          obtain ⟨f, hentry⟩ := h.table.entry k e.1 hb
          obtain rfl := Option.some.inj (hentry.object.symm.trans hf)
          show (if e.2.References m.nextNode then some e.2.fileStatus else none) = none
          rw [if_neg]
          rintro (hp | hmem)
          · obtain ⟨p, hp', hpreg⟩ := hentry.primary
            rw [hp] at hp'
            cases hp'
            exact hlive _ hpreg rfl
          · exact hlive _ (hentry.replicas _ hmem) rfl
    refine ⟨⟨?_, ?_, ?_, fun _ _ => rfl⟩, hopen, ?_, h.fullPath, ?_⟩
    · rintro q ⟨k, hk⟩
      have hne : k ≠ (id : Int) := by
        rintro rfl
        rw [hkey] at hk
        cases hk
      refine ⟨k, ?_⟩
      show (m.registeredIOnodes.insert id m.nextNode).find? k = some q
      rw [OrdMap.insert_of_none hkey, OrdMap.find?_put_ne _ _ hne]
      exact hk
    · intro q handle' hq hh
      exact ⟨(hold q hq).trans hh, (hview q).symm⟩
    · intro q hq
      rcases hreg q hq with rfl | hq
      · refine Or.inr ⟨by rw [hview]; exact hnone, ?_⟩
        intro q' hq'
        rw [hself]
        exact hfresh q' hq'
      · exact Or.inl hq
    · intro q q' hq hq' hh
      rcases hreg q hq with rfl | hq <;> rcases hreg q' hq' with rfl | hq'
      · rfl
      · rw [hself, hold q' hq'] at hh
        exact absurd hh.symm (hfresh q' hq')
      · rw [hself, hold q hq] at hh
        exact absurd hh (hfresh q hq)
      · rw [hold q hq, hold q' hq'] at hh
        exact h.apart q q' hq hq' hh
    · intro q node' hq hnode' k
      have hnode : Function.update m.nodes m.nextNode (some node) q = some node' := hnode'
      rw [hview]
      rcases hreg q hq with rfl | hq
      · rw [Function.update_self] at hnode
        cases hnode
        rw [hempty, hnone]
        simp [OrdSet.Mem]
      · rw [Function.update_of_ne (hlive q hq)] at hnode
        exact h.stored q node' hq hnode k

/-- **One request keeps the tables and tells the nodes.** -/
theorem PlacedInv.parseRequest {m : Master} (h : PlacedInv m) {ev : Event} (hg : PlacingGuard m ev) :
    ∃ out, m.parseRequest ev.env ev.origin ev.request = some out ∧ Served m out.master out.ops ∧ PlacedInv out.master := by
  obtain ⟨e, o, req⟩ := ev
  have hremove : ∀ code path, ∃ out, parseRemove code m o path = some out ∧ Served m out.master out.ops ∧
      PlacedInv out.master := by
    intro code path
    obtain ⟨m', ops, found, hrem, -⟩ := h.toOpenInv.removeFile path
    obtain ⟨htold, hinv⟩ := h.removeFile hrem
    exact ⟨_, by simp only [parseRemove, hrem]; rfl, (htold.reply o _).served, hinv⟩
  cases req with
  | openFile path flag mode =>
      obtain ⟨hsize, hlt⟩ := hg
      have hsafe : OpensSafely m path := by
        unfold OpensSafely
        split
        · exact Or.inr hsize
        · exact Or.inr (Or.inr ⟨hlt, hsize⟩)
      obtain ⟨out, hout, hopen⟩ := h.toOpenInv.parseOpenFile hsafe e o flag mode
      refine ⟨out, hout, ?_⟩
      have hlocal : m.parseOpenLocal e o path flag mode = some out → Served m out.master out.ops ∧ PlacedInv out.master := by
        intro hl
        unfold parseOpenLocal at hl
        split at hl
        · cases hl
        · rename_i m' ops err hof
          cases hl
          obtain ⟨htold, hinv⟩ := h.openFile hsize hlt hopen hof
          exact ⟨(htold.reply o _).served, hinv⟩
        · rename_i m' ops fileNo hof
          split at hl
          · cases hl
          · split at hl
            · cases hl
            · cases hl
              obtain ⟨htold, hinv⟩ := h.openFile hsize hlt hopen hof
              exact ⟨(htold.reply o _).served, hinv⟩
      unfold Master.parseOpenFile at hout
      split at hout
      · split at hout
        · cases hout
          have hsilent : Told m m [] := Told.silent rfl rfl (fun _ => rfl) (fun _ => rfl)
          exact ⟨(hsilent.reply o _).served, h⟩
        · exact hlocal hout
      · exact hlocal hout
  | unlink path => exact hremove UNLINK path
  | rmDir path => exact hremove RM_DIR path
  | rename oldPath newPath newMaster =>
      obtain ⟨rfl, hne⟩ := hg
      obtain ⟨m', ops, hren, -⟩ := h.toOpenInv.renameTables oldPath newPath MYSELF (fun hc => hne hc.2.1)
      obtain ⟨htold, hinv⟩ := h.renameTables hne hren
      exact ⟨_, by simp only [Master.parseRequest, parseRename, hren]; rfl, (htold.reply o _).served, hinv⟩
  | register totalMemory uri =>
      obtain ⟨hserved, hinv⟩ := h.addIOnode uri totalMemory hg
      exact ⟨_, rfl, ⟨hserved.registered, hserved.kept, hserved.new, hserved.quiet⟩, hinv⟩
  | _ => exact absurd hg (by simp [PlacingGuard])

/-- The Master as constructed, with the paths of the storage and no node. -/
theorem initial_placedInv {pool : OrdMap Str FileStat}
    (hpool : ∀ p s, pool.find? p = some s → s.openedFileInfo = none ∧ s.fullPath = p) (masterNumber : Int)
    (mountPoint : Str) (numOfReplica : Nat) : PlacedInv (initial pool masterNumber mountPoint numOfReplica) := by
  have hnone : ∀ q, ¬ Registered (initial pool masterNumber mountPoint numOfReplica) q := by
    rintro q ⟨k, hk⟩
    simp [initial] at hk
  refine ⟨initial_openInv (fun p s hs => (hpool p s hs).1) masterNumber mountPoint numOfReplica, ?_, ?_, ?_⟩
  · intro q q' hq
    exact absurd hq (hnone q)
  · intro p s hs
    exact (hpool p s hs).2
  · intro q node hq
    exact absurd hq (hnone q)

end Master

end HuronFS
