import HuronFS.Common.Wire
import HuronFS.IOnode.Requests
import HuronFS.Master.MessageSize

/-!
# `Protocol.OpenRequest` — an IOnode learns of a file (`_send_open_request_to_IOnodes`, `_open_file`)

The Master packs an open file into one message: the file, its blocks counted, and for the primary the other replicas, counted
as well, each with a string. The IOnode takes it apart in `_open_file`, `_append_block`, `_get_replica_node_info` and
`_get_IOnode_info`, which pop bytes and know nothing of what was pushed. Here the two ends meet.

`IOnode.Basic` has the files of a node; what `_open_file` also keeps is added here: the handles of the other IOnodes
(`IOnode_handle_pool`) and, for each file, those its data is sent on to (`IOnode_pool`).
-/

namespace HuronFS

open Wire

/-- An IOnode with the IOnodes it knows. -/
structure ReplicaNode where
  node : IOnode
  myNodeId : Int
  handlePool : OrdMap Int Handle
  IOnodePools : OrdMap Int (OrdMap Int Handle)

namespace ReplicaNode

/-! ## Taking the message apart -/

/-- The loop of `_open_file` over `_append_block`. -/
def appendBlocks (existFlag : ExistFlag) : (count : Nat) → OrdMap Nat Block → Pop (OrdMap Nat Block)
  | 0, blocks => pure blocks
  | count + 1, blocks => do
      let startPoint ← pop64
      let dataSize ← pop64
      appendBlocks existFlag count (blocks.insert startPoint.toNat (Block.create dataSize.toNat existFlag))

/-- A node of the list: the handles of all nodes and of those of the file. `connect` is the handle
    `_connect_to_new_IOnode` returns for a node. -/
def addIOnode (connect : Int → Str → Handle) (myNodeId nodeId : Int) (nodeIp : Str) (handles pool : OrdMap Int Handle) :
    OrdMap Int Handle × OrdMap Int Handle :=
  if myNodeId ≠ nodeId then
    match handles.find? nodeId with
    | none => (handles.insert nodeId (connect nodeId nodeIp), pool.insert nodeId (connect nodeId nodeIp))
    | some handle => (handles, pool.insert nodeId handle)
  else (handles, pool)

/-- The loop of `_get_replica_node_info` over `_get_IOnode_info`. -/
def getIOnodeInfos (connect : Int → Str → Handle) (myNodeId : Int) :
    (count : Nat) → OrdMap Int Handle → OrdMap Int Handle → Pop (OrdMap Int Handle × OrdMap Int Handle)
  | 0, handles, pool => pure (handles, pool)
  | count + 1, handles, pool => do
      let nodeId ← pop64
      let nodeIp ← popCString
      let added := addIOnode connect myNodeId nodeId.toInt nodeIp.bytes handles pool
      getIOnodeInfos connect myNodeId count added.1 added.2

/-- `_get_replica_node_info`: the flag says whether the node is the primary, and nothing depends on it. -/
def getReplicaNodeInfo (connect : Int → Str → Handle) (myNodeId : Int) (handles : OrdMap Int Handle) :
    Pop (OrdMap Int Handle × OrdMap Int Handle) := do
  let _mainFlag ← pop32
  let count ← pop32
  getIOnodeInfos connect myNodeId count.toInt.toNat handles OrdMap.empty

/-- `_open_file`: a file that is known already is only marked open. -/
def openFile (connect : Int → Str → Handle) (n : ReplicaNode) : Pop ReplicaNode := do
  let fileNo ← pop64
  let _flag ← pop32
  let exist ← pop32
  let path ← popCString
  if (n.node.files.find? fileNo.toInt).isSome then return n
  else
    let existFlag := if exist.toInt = ExistFlag.existing.code then ExistFlag.existing else ExistFlag.notExist
    let count ← pop32
    let blocks ← appendBlocks existFlag count.toInt.toNat OrdMap.empty
    let (handles, pool) ← getReplicaNodeInfo connect n.myNodeId n.handlePool
    return { n with
      node := { n.node with files := n.node.files.put fileNo.toInt ⟨path.bytes, existFlag, false, blocks⟩ }
      handlePool := handles
      IOnodePools := n.IOnodePools.put fileNo.toInt pool }

/-- `_parse_request`, for an `OPEN_FILE` message; other requests are not dealt with here. -/
def parseOpenRequest (connect : Int → Str → Handle) (n : ReplicaNode) : Pop ReplicaNode := do
  let request ← pop32
  if request.toInt = OPEN_FILE then openFile connect n else fun _ => none

end ReplicaNode

/-! ## The loops -/

section

variable {r : Reader} {fs : List Field}

theorem pop64_size {n : Nat} (hn : n < 2 ^ 64) (h : HasFields r (.size n :: fs)) :
    pop64 r = some (BitVec.ofNat 64 n, r.advance 8) ∧ (BitVec.ofNat 64 n).toNat = n ∧ HasFields (r.advance 8) fs := by
  obtain ⟨hpop, hrest⟩ := pop64_eq h
  refine ⟨hpop, ?_, hrest⟩
  rw [BitVec.toNat_ofNat]
  exact Nat.mod_eq_of_lt hn

theorem pop64_long {v : Int} (hlo : -2 ^ 63 ≤ v) (hhi : v < 2 ^ 63) (h : HasFields r (.long v :: fs)) :
    pop64 r = some (BitVec.ofInt 64 v, r.advance 8) ∧ (BitVec.ofInt 64 v).toInt = v ∧ HasFields (r.advance 8) fs := by
  obtain ⟨hpop, hrest⟩ := pop64_eq h
  exact ⟨hpop, BitVec.toInt_ofInt_eq_self (by decide) hlo hhi, hrest⟩

theorem pop32_int {v : Int} (hlo : -2 ^ 31 ≤ v) (hhi : v < 2 ^ 31) (h : HasFields r (.int v :: fs)) :
    pop32 r = some (BitVec.ofInt 32 v, r.advance 4) ∧ (BitVec.ofInt 32 v).toInt = v ∧ HasFields (r.advance 4) fs := by
  obtain ⟨hpop, hrest⟩ := pop32_eq h
  exact ⟨hpop, BitVec.toInt_ofInt_eq_self (by decide) hlo hhi, hrest⟩

end

/-- A node of a Master has this id. -/
def Master.HasId (m : Master) (id : Int) (ref : NodeRef) : Prop := ∃ info, m.nodes ref = some info ∧ info.nodeId = id

namespace ReplicaNode

/-- The blocks that were pushed are appended. -/
theorem appendBlocks_eq (existFlag : ExistFlag) {fs : List Field} : ∀ (l : List (Nat × Nat)), (∀ b ∈ l, b.1 < 2 ^ 64 ∧ b.2 < 2 ^ 64) →
    ∀ {r : Reader} (blocks : OrdMap Nat Block), HasFields r (l.flatMap (fun b => [.size b.1, .size b.2]) ++ fs) →
      appendBlocks existFlag l.length blocks r =
        some (l.foldl (fun m b => m.insert b.1 (Block.create b.2 existFlag)) blocks, r.advance (16 * l.length)) ∧
      HasFields (r.advance (16 * l.length)) fs
  | [], _, r, blocks, h => ⟨rfl, h⟩
  | b :: l, hall, r, blocks, h => by
      obtain ⟨hstart, hsize⟩ := hall b List.mem_cons_self
      obtain ⟨h1, hstart', h⟩ := pop64_size hstart h
      obtain ⟨h2, hsize', h⟩ := pop64_size hsize h
      obtain ⟨h3, h⟩ := appendBlocks_eq existFlag l (fun b hb => hall b (List.mem_cons_of_mem _ hb))
        (blocks.insert b.1 (Block.create b.2 existFlag)) h
      have hadvance : ((r.advance 8).advance 8).advance (16 * l.length) = r.advance (16 * (b :: l).length) := by
        rw [Reader.advance_advance, Reader.advance_advance, List.length_cons]
        congr 1
        omega
      rw [hadvance] at h3 h
      refine ⟨?_, h⟩
      show (do
        let startPoint ← pop64
        let dataSize ← pop64
        appendBlocks existFlag l.length (blocks.insert startPoint.toNat (Block.create dataSize.toNat existFlag))) r = _
      rw [Pop.bind_eq h1, Pop.bind_eq h2, hstart', hsize']
      exact h3

/-- A node of the list is in the pool of the file unless it is the node itself. -/
theorem mem_addIOnode {connect : Int → Str → Handle} {myNodeId nodeId : Int} {nodeIp : Str} {handles pool : OrdMap Int Handle} {id : Int} :
    id ∈ (addIOnode connect myNodeId nodeId nodeIp handles pool).2.keys ↔ id ∈ pool.keys ∨ (id ≠ myNodeId ∧ id = nodeId) := by
  unfold addIOnode
  by_cases hself : myNodeId = nodeId
  · rw [if_neg (not_not.mpr hself)]
    constructor
    · exact .inl
    · rintro (hmem | ⟨hne, rfl⟩)
      · exact hmem
      · exact absurd hself.symm hne
  · rw [if_pos hself]
    have hinsert : ∀ handle, id ∈ (pool.insert nodeId handle).keys ↔ id ∈ pool.keys ∨ (id ≠ myNodeId ∧ id = nodeId) := by
      intro handle
      rw [OrdMap.mem_keys_insert, or_comm]
      refine or_congr_right ⟨?_, And.right⟩
      rintro rfl
      exact ⟨fun h => hself h.symm, rfl⟩
    cases handles.find? nodeId with
    | none => exact hinsert _
    | some handle => exact hinsert _

/-- The nodes that were pushed are in the pool, but for the node itself. -/
theorem getIOnodeInfos_eq {m : Master} (connect : Int → Str → Handle) (myNodeId : Int) {fs : List Field} :
    ∀ (refs : List NodeRef) {fields : List Field}, m.replicaFields refs = some fields → fieldBytes fields + 1 < 256 ^ 8 →
      (∀ ref ∈ refs, ∀ info, m.nodes ref = some info → -2 ^ 63 ≤ info.nodeId ∧ info.nodeId < 2 ^ 63) →
      ∀ {r : Reader} (handles pool : OrdMap Int Handle), HasFields r (fields ++ fs) →
        ∃ handles' pool', getIOnodeInfos connect myNodeId refs.length handles pool r = some ((handles', pool'), r.advance (fieldBytes fields)) ∧
          HasFields (r.advance (fieldBytes fields)) fs ∧
          ∀ id, id ∈ pool'.keys ↔ id ∈ pool.keys ∨ (id ≠ myNodeId ∧ ∃ ref ∈ refs, m.HasId id ref)
  | [], fields, hfields, _, _, r, handles, pool, h => by
      obtain rfl := Option.some.inj hfields
      refine ⟨handles, pool, rfl, h, fun id => ?_⟩
      simp
  | ref :: refs, fields, hfields, hbytes, hrange, r, handles, pool, h => by
      unfold Master.replicaFields at hfields
      split at hfields
      · rename_i info fields' hinfo hfields'
        obtain rfl := Option.some.inj hfields
        simp only [fieldBytes_cons, Field.bytes_long, Field.bytes_str] at hbytes
        obtain ⟨hlo, hhi⟩ := hrange ref List.mem_cons_self info hinfo
        obtain ⟨h1, hid, h⟩ := pop64_long hlo hhi h
        obtain ⟨c, h2, -, h⟩ := popString_cut (by omega) h
        obtain ⟨handles', pool', h3, h, hpool⟩ := getIOnodeInfos_eq connect myNodeId refs hfields' (by omega)
          (fun ref href => hrange ref (List.mem_cons_of_mem _ href))
          (addIOnode connect myNodeId info.nodeId c.bytes handles pool).1
          (addIOnode connect myNodeId info.nodeId c.bytes handles pool).2 h
        have hadvance : ((r.advance 8).advance (info.uri.length + 9)).advance (fieldBytes fields') =
            r.advance (fieldBytes (.long info.nodeId :: .str info.uri :: fields')) := by
          rw [Reader.advance_advance, Reader.advance_advance]
          simp only [fieldBytes_cons, Field.bytes_long, Field.bytes_str, Nat.add_assoc]
        rw [hadvance] at h3 h
        refine ⟨handles', pool', ?_, h, fun id => ?_⟩
        · rw [← h3]
          show (do
            let nodeId ← pop64
            let nodeIp ← popCString
            getIOnodeInfos connect myNodeId refs.length
              (addIOnode connect myNodeId nodeId.toInt nodeIp.bytes handles pool).1
              (addIOnode connect myNodeId nodeId.toInt nodeIp.bytes handles pool).2) r = _
          rw [Pop.bind_eq h1, Pop.bind_eq h2, hid]
        · rw [hpool, mem_addIOnode, or_assoc, ← and_or_left, List.exists_mem_cons_iff]
          refine or_congr_right (and_congr_right fun _ => or_congr_left ?_)
          constructor
          · rintro rfl
            exact ⟨info, hinfo, rfl⟩
          · rintro ⟨info', hinfo', rfl⟩
            rw [hinfo] at hinfo'
            rw [Option.some.inj hinfo']
      · cases hfields

/-! ## The message -/

theorem length_le_replicaFields {m : Master} : ∀ {refs : List NodeRef} {fields : List Field}, m.replicaFields refs = some fields →
    refs.length ≤ fieldBytes fields
  | [], _, _ => Nat.zero_le _
  | ref :: refs, fields, h => by
      unfold Master.replicaFields at h
      split at h
      · rename_i info fields' _ hfields'
        obtain rfl := Option.some.inj h
        have := length_le_replicaFields hfields'
        simp only [fieldBytes_cons, Field.bytes_long, Field.bytes_str, List.length_cons]
        omega
      · cases h

/-- `_get_replica_node_info` on what `_send_replica_nodes_info` pushed. -/
theorem getReplicaNodeInfo_main {m : Master} (connect : Int → Str → Handle) (myNodeId : Int) {nodes : OrdSet NodeRef} {fields : List Field}
    {r : Reader} (handles : OrdMap Int Handle) (hfields : m.sendReplicaNodesInfo nodes = some fields) (hbytes : fieldBytes fields < 2 ^ 31)
    (hrange : ∀ ref ∈ nodes.keys, ∀ info, m.nodes ref = some info → -2 ^ 63 ≤ info.nodeId ∧ info.nodeId < 2 ^ 63)
    (h : HasFields r fields) :
    ∃ handles' pool, getReplicaNodeInfo connect myNodeId handles r = some ((handles', pool), r.advance (fieldBytes fields)) ∧
      ∀ id, id ∈ pool.keys ↔ id ≠ myNodeId ∧ ∃ ref ∈ nodes.keys, m.HasId id ref := by
  unfold Master.sendReplicaNodesInfo at hfields
  split at hfields
  · cases hfields
  · rename_i nodeFields hnodes
    obtain rfl := Option.some.inj hfields
    simp only [fieldBytes_cons, Field.bytes_int] at hbytes
    have hcount : nodes.size ≤ fieldBytes nodeFields := by
      rw [OrdMap.size_eq_keys_length]
      exact length_le_replicaFields hnodes
    obtain ⟨h1, -, h⟩ := pop32_int (by decide) (by decide) h
    obtain ⟨h2, hsize, h⟩ := pop32_int (v := (nodes.size : Int)) (by omega) (by omega) h
    rw [← List.append_nil nodeFields] at h
    obtain ⟨handles', pool, h3, -, hpool⟩ := getIOnodeInfos_eq connect myNodeId nodes.keys hnodes (by omega) hrange handles OrdMap.empty h
    refine ⟨handles', pool, ?_, fun id => ?_⟩
    · unfold getReplicaNodeInfo
      rw [Pop.bind_eq h1, Pop.bind_eq h2, hsize, Int.toNat_natCast, OrdMap.size_eq_keys_length, h3]
      simp only [Reader.advance_advance, fieldBytes_cons, Field.bytes_int, Nat.add_assoc]
    · rw [hpool, OrdMap.keys_empty]
      simp

/-- For the other replicas there is no list. -/
theorem getReplicaNodeInfo_sub (connect : Int → Str → Handle) (myNodeId : Int) {r : Reader} (handles : OrdMap Int Handle)
    (h : HasFields r [.int SUB_REPLICA, .int 0]) :
    getReplicaNodeInfo connect myNodeId handles r = some ((handles, OrdMap.empty), r.advance 8) := by
  obtain ⟨h1, -, h⟩ := pop32_int (by decide) (by decide) h
  obtain ⟨h2, hsize, h⟩ := pop32_int (by decide) (by decide) h
  unfold getReplicaNodeInfo
  rw [Pop.bind_eq h1, Pop.bind_eq h2, hsize]
  rfl

end ReplicaNode

/-! ## What the IOnode knows -/

/-- The numbers of an open file have the range of their C types. -/
structure Master.Numbers64 (m : Master) (file : OpenFileInfo) : Prop where
  fileNo : -2 ^ 63 ≤ file.fileNo ∧ file.fileNo < 2 ^ 63
  blocks : ∀ b ∈ file.blockList.entries, b.1 < 2 ^ 63 ∧ b.2 < 2 ^ 64
  ids : ∀ ref ∈ file.IOnodesSet.keys, ∀ info, m.nodes ref = some info → -2 ^ 63 ≤ info.nodeId ∧ info.nodeId < 2 ^ 63

/-- **The node has the file as the Master has it**: path, flag, blocks and their sizes, and as primary the other replicas. -/
structure Reconstructed (m : Master) (file : OpenFileInfo) (stat : FileStat) (target : NodeRef) (n n' : ReplicaNode) : Prop where
  known : ∃ f, n'.node.files.find? file.fileNo = some f ∧ f.filePath = stat.fullPath ∧ f.existFlag = stat.existFlag ∧
    ∀ k, (f.blocks.find? k).map Block.dataSize = file.blockList.find? k
  pool : ∃ pool, n'.IOnodePools.find? file.fileNo = some pool ∧
    ∀ id, id ∈ pool.keys ↔ some target = file.primaryReplicaNode ∧ id ≠ n.myNodeId ∧ ∃ ref ∈ file.IOnodesSet.keys, m.HasId id ref
  others : ∀ g, g ≠ file.fileNo →
    n'.node.files.find? g = n.node.files.find? g ∧ n'.IOnodePools.find? g = n.IOnodePools.find? g

/-- The blocks of an opened file are those of the list. -/
theorem openedBlocks_dataSize (existFlag : ExistFlag) (bl : BlockList) (k : Nat) :
    ((IOnode.openedBlocks existFlag bl.entries).find? k).map Block.dataSize = bl.find? k := by
  cases hfind : bl.find? k with
  | some d => rw [IOnode.openedBlocks_find hfind]; rfl
  | none =>
    cases hblock : (IOnode.openedBlocks existFlag bl.entries).find? k with
    | none => rfl
    | some b =>
      obtain ⟨d, hmem, -⟩ := IOnode.openedBlocks_mem hblock
      rw [OrdMap.mem_entries.mp hmem] at hfind
      cases hfind

namespace ReplicaNode

/-- The end of the message, for the primary and for the others. -/
theorem getReplicaNodeInfo_tail {m : Master} {file : OpenFileInfo} {target : NodeRef} (connect : Int → Str → Handle) (myNodeId : Int)
    {tail : List Field} {r : Reader} (handles : OrdMap Int Handle)
    (htail : (if some target = file.primaryReplicaNode then m.sendReplicaNodesInfo file.IOnodesSet
      else some [.int SUB_REPLICA, .int 0]) = some tail)
    (hbytes : fieldBytes tail < 2 ^ 31) (hrange : m.Numbers64 file) (h : HasFields r tail) :
    ∃ handles' pool, getReplicaNodeInfo connect myNodeId handles r = some ((handles', pool), r.advance (fieldBytes tail)) ∧
      ∀ id, id ∈ pool.keys ↔ some target = file.primaryReplicaNode ∧ id ≠ myNodeId ∧ ∃ ref ∈ file.IOnodesSet.keys, m.HasId id ref := by
  by_cases hprimary : some target = file.primaryReplicaNode
  · rw [if_pos hprimary] at htail
    obtain ⟨handles', pool, hinfo, hpool⟩ := getReplicaNodeInfo_main connect myNodeId handles htail hbytes hrange.ids h
    refine ⟨handles', pool, hinfo, fun id => ?_⟩
    rw [hpool, and_iff_right hprimary]
  · rw [if_neg hprimary] at htail
    obtain rfl := Option.some.inj htail
    refine ⟨handles, OrdMap.empty, getReplicaNodeInfo_sub connect myNodeId handles h, fun id => ?_⟩
    rw [OrdMap.keys_empty]
    exact iff_of_false List.not_mem_nil (fun hid => hprimary hid.1)

/-- `_open_file` on the message for a file the node does not know. -/
theorem openFile_eq {m : Master} {file : OpenFileInfo} {target : NodeRef} (connect : Int → Str → Handle) {n : ReplicaNode}
    (path : CString) {existFlag : ExistFlag} {tail : List Field} {r : Reader}
    (htail : (if some target = file.primaryReplicaNode then m.sendReplicaNodesInfo file.IOnodesSet
      else some [.int SUB_REPLICA, .int 0]) = some tail)
    (hbytes : path.bytes.length + 16 * file.blockList.size + fieldBytes tail < 2 ^ 31) (hrange : m.Numbers64 file)
    (hunknown : n.node.files.find? file.fileNo = none)
    (h : HasFields r ([.long file.fileNo, .w32 file.flag, .int existFlag.code, .str path.bytes, .int file.blockList.size] ++
      Master.blockFields file.blockList ++ tail)) :
    ∃ handles pool,
      openFile connect n r = some ({ n with
          node := n.node.openFile file.fileNo existFlag path.bytes file.blockList.entries
          handlePool := handles
          IOnodePools := n.IOnodePools.put file.fileNo pool },
        r.advance (29 + path.bytes.length + 16 * file.blockList.size + fieldBytes tail)) ∧
      ∀ id, id ∈ pool.keys ↔ some target = file.primaryReplicaNode ∧ id ≠ n.myNodeId ∧ ∃ ref ∈ file.IOnodesSet.keys, m.HasId id ref := by
  obtain ⟨h1, hfileNo, h⟩ := pop64_long hrange.fileNo.1 hrange.fileNo.2 h
  obtain ⟨h2, h⟩ := pop32_eq h
  obtain ⟨h3, hcode, h⟩ := pop32_int (v := existFlag.code) (by cases existFlag <;> decide) (by cases existFlag <;> decide) h
  obtain ⟨h4, h⟩ := popString_eq (by omega) h
  obtain ⟨h5, hcount, h⟩ := pop32_int (v := (file.blockList.size : Int)) (by omega) (by omega) h
  obtain ⟨h6, h⟩ := appendBlocks_eq existFlag file.blockList.entries
    (fun b hb => ⟨(hrange.blocks b hb).1.trans (by decide), (hrange.blocks b hb).2⟩) OrdMap.empty h
  obtain ⟨handles, pool, h7, hpool⟩ := getReplicaNodeInfo_tail connect n.myNodeId n.handlePool htail (by omega) hrange h
  have hflag : (if existFlag.code = ExistFlag.existing.code then ExistFlag.existing else ExistFlag.notExist) = existFlag := by
    cases existFlag <;> rfl
  have hopen := IOnode.openFile_unknown hunknown existFlag path.bytes file.blockList.entries
  have hadvance : ((((((r.advance 8).advance 4).advance 4).advance (path.bytes.length + 9)).advance 4).advance
      (16 * file.blockList.entries.length)).advance (fieldBytes tail) =
      r.advance (29 + path.bytes.length + 16 * file.blockList.size + fieldBytes tail) := by
    simp only [Reader.advance_advance]
    congr 1
    unfold OrdMap.size
    omega
  refine ⟨handles, pool, ?_, hpool⟩
  unfold openFile
  rw [Pop.bind_eq h1, Pop.bind_eq h2, Pop.bind_eq h3, Pop.bind_eq h4, hfileNo, hcode, hflag, hunknown, if_neg (by decide),
    Pop.bind_eq h5, hcount, hopen]
  refine (Pop.bind_eq h6).trans ((Pop.bind_eq h7).trans ?_)
  rw [hadvance]
  rfl

end ReplicaNode

/-- The parts of the Master's message. -/
theorem Master.openRequest_parts {m : Master} {file : OpenFileInfo} {target : NodeRef} {message : List Field}
    (h : m.openRequest file target = some message) :
    ∃ stat tail, m.fileStatPool.find? file.fileStatus = some stat ∧
      (if some target = file.primaryReplicaNode then m.sendReplicaNodesInfo file.IOnodesSet
        else some [.int SUB_REPLICA, .int 0]) = some tail ∧
      message = .int OPEN_FILE :: ([.long file.fileNo, .w32 file.flag, .int stat.existFlag.code, .str stat.fullPath,
        .int file.blockList.size] ++ blockFields file.blockList ++ tail) := by
  unfold openRequest at h
  split at h
  · cases h
  · rename_i stat hstat
    simp only at h
    split at h
    · rename_i hprimary
      obtain ⟨tail, htail, rfl⟩ := Option.map_eq_some_iff.mp h
      exact ⟨stat, tail, hstat, by rw [if_pos hprimary, htail], rfl⟩
    · rename_i hprimary
      obtain rfl := Option.some.inj h
      exact ⟨stat, _, hstat, if_neg hprimary, rfl⟩

/-- **An IOnode reconstructs the file the Master opened**, and takes the whole message for it: for every message of
    `_send_open_request_to_IOnodes` that fits its buffer, about a file the node does not know. -/
theorem open_request_reconstructs (m : Master) (file : OpenFileInfo) (target : NodeRef) (message : List Field) (stat : FileStat)
    (n : ReplicaNode) (connect : Int → Str → Handle) (stale : Nat → Byte)
    (hmessage : m.openRequest file target = some message) (hstat : m.fileStatPool.find? file.fileStatus = some stat)
    (hfits : fieldBytes message ≤ BASIC_MESSAGE_ROOM) (hrange : m.Numbers64 file) (hpath : 0 ∉ stat.fullPath)
    (hunknown : n.node.files.find? file.fileNo = none) :
    ∃ n' r, ReplicaNode.parseOpenRequest connect n (received stale message) = some (n', r) ∧
      Reconstructed m file stat target n n' ∧ r.point = fieldBytes message := by
  obtain ⟨stat', tail, hstat', htail, hparts⟩ := Master.openRequest_parts hmessage
  obtain rfl : stat = stat' := Option.some.inj (hstat.symm.trans hstat')
  have hfields := received_hasFields hfits stale
  have hbytes : fieldBytes message = 33 + stat.fullPath.length + 16 * file.blockList.size + fieldBytes tail := by
    rw [hparts, fieldBytes_cons, fieldBytes_append, fieldBytes_append, Master.fieldBytes_blockFields]
    simp only [fieldBytes_cons, fieldBytes_nil, Field.bytes_int, Field.bytes_long, Field.bytes_w32, Field.bytes_str]
    omega
  have hsmall : stat.fullPath.length + 16 * file.blockList.size + fieldBytes tail < 2 ^ 31 := by
    have hroom : BASIC_MESSAGE_ROOM < 2 ^ 31 := by decide
    omega
  nth_rewrite 2 [hparts] at hfields
  obtain ⟨h1, hcode, h⟩ := pop32_int (by decide) (by decide) hfields
  obtain ⟨handles, pool, hopen, hpool⟩ := ReplicaNode.openFile_eq connect ⟨stat.fullPath, hpath⟩ htail hsmall hrange hunknown h
  have hnode := IOnode.openFile_unknown hunknown stat.existFlag stat.fullPath file.blockList.entries
  have hrun : ReplicaNode.parseOpenRequest connect n (received stale message) =
      ReplicaNode.openFile connect n ((received stale message).advance 4) := by
    unfold ReplicaNode.parseOpenRequest
    rw [Pop.bind_eq h1, if_pos hcode]
  refine ⟨_, _, hrun.trans hopen, ⟨?_, ⟨pool, OrdMap.find?_put_self _ _ _, hpool⟩, ?_⟩, ?_⟩
  · rw [hnode]
    exact ⟨_, OrdMap.find?_put_self _ _ _, rfl, rfl, openedBlocks_dataSize stat.existFlag file.blockList⟩
  · intro g hg
    rw [hnode]
    exact ⟨OrdMap.find?_put_ne _ _ hg, OrdMap.find?_put_ne _ _ hg⟩
  · rw [Reader.advance_point, Reader.advance_point, received_point, hbytes]
    simp only
    omega

namespace ReplicaNode

/-- Two IOnodes, and an open file of one block and three bytes of the next with its primary on the first of them. -/
def pairFile : OpenFileInfo :=
  ⟨4, (OrdMap.empty.put 0 BLOCK_SIZE).put BLOCK_SIZE 3, OrdSet.add OrdMap.empty 1, some 0, BLOCK_SIZE, 1, 0, [97]⟩

def pairStat : FileStat := ⟨⟨0, 0, 0, BLOCK_SIZE + 3, 0, 0, 0, 0⟩, [97], .internal, 0, [], .existing, some 0, [97]⟩

def pairMaster : Master :=
  { Master.initial (OrdMap.empty.put [97] pairStat) 0 [] 1 with
    nodes := fun r => if r = 0 then some ⟨7, 0, [98], OrdMap.empty, 100, 100⟩
      else if r = 1 then some ⟨8, 1, [99], OrdMap.empty, 100, 100⟩ else none }

end ReplicaNode

open ReplicaNode in
/-- The primary, which has the id 0, learns of both blocks and of the node with the id 1. -/
theorem open_request_reconstructs_pair :
    ∃ message n' r, pairMaster.openRequest pairFile 0 = some message ∧
      parseOpenRequest (fun id _ => id.toNat) ⟨IOnode.start 4 (fun _ _ => 0) (fun _ => none), 0, OrdMap.empty, OrdMap.empty⟩
        (received (fun _ => 9) message) = some (n', r) ∧
      Reconstructed pairMaster pairFile pairStat 0
        ⟨IOnode.start 4 (fun _ _ => 0) (fun _ => none), 0, OrdMap.empty, OrdMap.empty⟩ n' ∧ r.point = fieldBytes message := by
  have hrange : pairMaster.Numbers64 pairFile := by
    refine ⟨by decide, by decide, ?_⟩
    intro ref href info hinfo
    obtain rfl : ref = 1 := List.mem_singleton.mp href
    obtain rfl := Option.some.inj hinfo
    decide
  obtain ⟨n', r, h⟩ := open_request_reconstructs pairMaster pairFile 0 _ pairStat
    ⟨IOnode.start 4 (fun _ _ => 0) (fun _ => none), 0, OrdMap.empty, OrdMap.empty⟩ (fun id _ => id.toNat) (fun _ => 9)
    rfl rfl (by decide) hrange (by decide) rfl
  exact ⟨_, n', r, rfl, h⟩

end HuronFS
