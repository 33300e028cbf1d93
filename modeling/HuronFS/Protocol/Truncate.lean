import HuronFS.IOnode.Truncate
import HuronFS.Master.Rename

/-!
# `Protocol.Truncate` — the block lists of the Master and of the IOnodes after a truncate

The Master sends the new end to the nodes of the file and should then drop the blocks behind it. Its loop compares the blocks with the
size the wrong way round, so it drops none and leaves the size of the last one; the nodes do what they are told. A file that is not open
has no object the handler could look into.
-/

namespace HuronFS

namespace Master

/-- A node of the file. -/
def HoldsFile (f : OpenFileInfo) (q : NodeRef) : Prop := f.primaryReplicaNode = some q ∨ OrdSet.Mem f.IOnodesSet q

/-- The `TRUNCATE` message. -/
def truncateMessage (fileNo : Int) (size : Nat) : List Field :=
  [.int TRUNCATE, .long fileNo, .size (getBlockStartPoint size), .long ((size : Int) - getBlockStartPoint size)]

/-! ## What a truncate should do -/

/-- The Master's list ends with the block that contains the new end. -/
structure ListCut (bl : BlockList) (size : Nat) : Prop where
  later : ∀ k, getBlockStartPoint size < k → bl.find? k = none
  last : bl.find? (getBlockStartPoint size) = some (size - getBlockStartPoint size)

/-- The lists after a file was made shorter, `holders` being the nodes before the message comes. -/
structure ListsAgree (m : Master) (r : FileRef) (f : OpenFileInfo) (size : Nat) (holders : NodeRef → IOnode) (out : Outcome) : Prop where
  cut : ∃ f', out.master.files r = some f' ∧ ListCut f'.blockList size ∧
    ∀ q node, HoldsFile f q → m.nodes q = some node →
      IOnodeTask node (truncateMessage f.fileNo size) ∈ allocatedOn IONODE_COMMUNICATE_QUEUE_NUM out.ops ∧
      ∃ n', (holders q).receiveTruncate (truncateMessage f.fileNo size) = some n' ∧
        ∀ k, (n'.block? (f.fileNo, k)).map Block.dataSize = f'.blockList.find? k

/-- **A truncate of the path is right.** -/
def TruncatesRight (m : Master) (o : Origin) (path : Str) (size : Nat) (holders : NodeRef → IOnode) : Prop :=
  ∃ out s', m.parseTruncateFile o path size = some out ∧
    allocatedOn SERVER_QUEUE_NUM out.ops = [responseTask o [.int m.masterNumber, .int SUCCESS]] ∧
    out.master.fileStatPool.find? path = some s' ∧ s'.status.stSize = size ∧
    ∀ s r f, m.fileStatPool.find? path = some s → s.openedFileInfo = some r → m.files r = some f → size < s.status.stSize →
      m.ListsAgree r f size holders out

/-- When it is: the file is open, and where it gets shorter the Master's list happens to end as it should already, and each node has
    the last block and the Master's blocks before it. -/
def Truncatable (m : Master) (s : FileStat) (size : Nat) (holders : NodeRef → IOnode) : Prop :=
  ∃ r f, s.openedFileInfo = some r ∧ m.files r = some f ∧ (size < s.status.stSize →
    (∃ primary, m.WholeFile r f primary) ∧ ListCut f.blockList size ∧
    ∀ q, HoldsFile f q → (holders q).block? (f.fileNo, getBlockStartPoint size) ≠ none ∧
      ∀ k, k < getBlockStartPoint size → ((holders q).block? (f.fileNo, k)).map Block.dataSize = f.blockList.find? k)

/-- The object of an open path: it points back at its entry, and its number is a `ssize_t`. -/
structure OwnObject (m : Master) (path : Str) : Prop where
  back : ∀ s r f, m.fileStatPool.find? path = some s → s.openedFileInfo = some r → m.files r = some f → f.fileStatus = path
  number : ∀ s r f, m.fileStatPool.find? path = some s → s.openedFileInfo = some r → m.files r = some f →
    -2 ^ 63 ≤ f.fileNo ∧ f.fileNo < 2 ^ 63

/-- With a sound table of open files the object is in order. -/
theorem OpenInv.ownObject {m : Master} (h : OpenInv m) (path : Str) : m.OwnObject path := by
  have hentry : ∀ s r f, m.fileStatPool.find? path = some s → s.openedFileInfo = some r → m.files r = some f →
      m.bufferedFiles.find? f.fileNo = some r ∧ f.fileStatus = path :=
    fun s r f hst ho hf => h.table.buffered_of_opened ((openedAt_of_find hst).trans ho) hf
  refine ⟨fun s r f hst ho hf => (hentry s r f hst ho hf).2, ?_⟩
  intro s r f hst ho hf
  obtain ⟨h0, h1⟩ := h.table.range _ _ (hentry s r f hst ho hf).1
  unfold MAX_FILE_NUMBER at h1
  omega

/-! ## The Master -/

section

variable {m : Master} {o : Origin} {path : Str} {size : Nat} {s : FileStat} {r : FileRef} {f : OpenFileInfo} {holders : NodeRef → IOnode}

/-- `_parse_truncate_file` for an open path: the size is set, and nothing else in the tables. -/
theorem truncateLocal_eq (hst : m.fileStatPool.find? f.fileStatus = some s) (ho : s.openedFileInfo = some r) (hf : m.files r = some f) :
    m.truncateLocal s size =
      if size < s.status.stSize then
        f.primaryReplicaNode.bind (fun primary =>
          (sendEach (m.sendTruncateRequest f.fileNo (getBlockStartPoint size) size) (primary :: f.IOnodesSet.keys)).map
            (fun ops => (m.truncatedFile f s size, ops)))
      else some (m.truncatedFile f s size, []) := by
  unfold truncateLocal
  rw [ho]
  dsimp only
  rw [hf]
  dsimp only
  rw [hst]
  dsimp only
  split
  · unfold shrinkFile
    cases hp : f.primaryReplicaNode with
    | none => rfl
    | some primary =>
        dsimp only
        rw [Option.bind_some]
        cases hsend : sendEach (m.sendTruncateRequest f.fileNo (getBlockStartPoint size) size) (primary :: f.IOnodesSet.keys) with
        | none => rfl
        | some ops =>
            dsimp only
            rw [truncateBlocks_eq, setBlocks_self, setFile_self hf]
            rfl
  · rfl

/-- The answer to a truncate of a path of this Master. -/
theorem parseTruncateFile_local (hst : m.fileStatPool.find? path = some s) (hint : s.isExternal = false) :
    m.parseTruncateFile o path size = (m.truncateLocal s size).map (fun (m', ops) =>
      ⟨m', ops ++ sendResponse o [.int m.masterNumber, .int SUCCESS], [], SUCCESS⟩) := by
  unfold parseTruncateFile
  rw [hst]
  dsimp only
  rw [hint, if_neg (by decide)]

/-- The requests to the nodes. -/
theorem sendTruncate_told {rs : List NodeRef} {ops : List QueueOp}
    (h : sendEach (m.sendTruncateRequest f.fileNo (getBlockStartPoint size) size) rs = some ops) {q : NodeRef} (hq : q ∈ rs) :
    ∃ node, m.nodes q = some node ∧
      IOnodeTask node (truncateMessage f.fileNo size) ∈ allocatedOn IONODE_COMMUNICATE_QUEUE_NUM ops := by
  obtain ⟨ops', hsend, hsub⟩ := sendEach_each h q hq
  obtain ⟨node, hnode, rfl⟩ := Option.map_eq_some_iff.mp hsend
  exact ⟨node, hnode, hsub _ _ List.mem_cons_self⟩

end

end Master

/-! ## The IOnode -/

theorem popTruncate_message {fileNo : Int} {size : Nat} (hno : -2 ^ 63 ≤ fileNo ∧ fileNo < 2 ^ 63) (hsize : size < 2 ^ 63) :
    IOnode.popTruncate (Master.truncateMessage fileNo size) =
      some (fileNo, getBlockStartPoint size, size - getBlockStartPoint size) := by
  have hle : getBlockStartPoint size ≤ size := getBlockStartPoint_le size
  have hfd : (BitVec.ofInt 64 fileNo).toInt = fileNo := BitVec.toInt_ofInt_eq_self (by decide) (by omega) (by omega)
  have hstart : (BitVec.ofNat 64 (getBlockStartPoint size)).toNat = getBlockStartPoint size := by
    rw [BitVec.toNat_ofNat, Nat.mod_eq_of_lt (by omega)]
  have havail : (BitVec.ofInt 64 ((size : Int) - getBlockStartPoint size)).toNat = size - getBlockStartPoint size := by
    rw [BitVec.toNat_ofInt]
    omega
  show (if (BitVec.ofInt 32 TRUNCATE).toInt = TRUNCATE then some ((BitVec.ofInt 64 fileNo).toInt,
    (BitVec.ofNat 64 (getBlockStartPoint size)).toNat, (BitVec.ofInt 64 ((size : Int) - getBlockStartPoint size)).toNat) else none) = _
  rw [if_pos (by decide), hfd, hstart, havail]

/-- **A node after the message**: its list is the cut one exactly when it has the last block and the same blocks before it. -/
theorem receiveTruncate_agrees_iff {n : IOnode} {bl : BlockList} {fileNo : Int} {size : Nat}
    (hno : -2 ^ 63 ≤ fileNo ∧ fileNo < 2 ^ 63) (hsize : size < 2 ^ 63) (hcut : Master.ListCut bl size) :
    (∃ n', n.receiveTruncate (Master.truncateMessage fileNo size) = some n' ∧
      ∀ k, (n'.block? (fileNo, k)).map Block.dataSize = bl.find? k) ↔
    n.block? (fileNo, getBlockStartPoint size) ≠ none ∧
      ∀ k, k < getBlockStartPoint size → (n.block? (fileNo, k)).map Block.dataSize = bl.find? k := by
  unfold IOnode.receiveTruncate
  rw [popTruncate_message hno hsize, Option.bind_some]
  dsimp only
  constructor
  · rintro ⟨n', hn', hsame⟩
    obtain ⟨b, hb, -⟩ := IOnode.truncateFile_some.mp hn'
    refine ⟨by rw [hb]; exact Option.some_ne_none b, ?_⟩
    intro k hk
    have hk' := hsame k
    rw [IOnode.block?_truncateFile hn', if_neg (by omega), if_neg (by omega)] at hk'
    exact hk'
  · rintro ⟨hlast, hbefore⟩
    obtain ⟨b, hb⟩ := Option.ne_none_iff_exists'.mp hlast
    refine ⟨_, IOnode.truncateFile_some.mpr ⟨b, hb, rfl⟩, ?_⟩
    intro k
    rw [IOnode.block?_truncateFile (IOnode.truncateFile_some.mpr ⟨b, hb, rfl⟩)]
    split
    · rename_i hk
      exact (hcut.later k hk).symm
    · split
      · rename_i hk
        rw [hk, hb, hcut.last]
        rfl
      · rename_i hle hne
        exact hbefore k (by omega)

namespace Master

section

variable {m : Master} {o : Origin} {path : Str} {size : Nat} {s : FileStat} {holders : NodeRef → IOnode}

theorem holdsFile_iff {f : OpenFileInfo} {primary q : NodeRef} (hp : f.primaryReplicaNode = some primary) :
    HoldsFile f q ↔ q ∈ primary :: f.IOnodesSet.keys := by
  unfold HoldsFile
  rw [hp, List.mem_cons, OrdSet.mem_keys, Option.some.injEq, eq_comm]

/-- A truncate that has an answer found the open file. -/
theorem open_of_truncateLocal {res : Master × List QueueOp} (h : m.truncateLocal s size = some res) :
    ∃ r f, s.openedFileInfo = some r ∧ m.files r = some f := by
  obtain ⟨m', ops⟩ := res
  obtain ⟨r, f, st, ho, hf, -, -, -⟩ := truncateLocal_some h
  exact ⟨r, f, ho, hf⟩

/-- The lists after a truncate that made the file shorter. -/
theorem listsAgree_iff {r : FileRef} {f : OpenFileInfo} {primary : NodeRef} {ops : List QueueOp} (hf : m.files r = some f)
    (hp : f.primaryReplicaNode = some primary) (hno : -2 ^ 63 ≤ f.fileNo ∧ f.fileNo < 2 ^ 63) (hsize : size < 2 ^ 63)
    (hsend : sendEach (m.sendTruncateRequest f.fileNo (getBlockStartPoint size) size) (primary :: f.IOnodesSet.keys) = some ops) :
    m.ListsAgree r f size holders
        ⟨m.truncatedFile f s size, ops ++ sendResponse o [.int m.masterNumber, .int SUCCESS], [], SUCCESS⟩ ↔
      ListCut f.blockList size ∧ ∀ q, HoldsFile f q → (holders q).block? (f.fileNo, getBlockStartPoint size) ≠ none ∧
        ∀ k, k < getBlockStartPoint size → ((holders q).block? (f.fileNo, k)).map Block.dataSize = f.blockList.find? k := by
  constructor
  · rintro ⟨f', hf', hcut, hnodes⟩
    obtain rfl : f = f' := Option.some.inj (hf.symm.trans hf')
    refine ⟨hcut, ?_⟩
    intro q hq
    obtain ⟨node, hnode, -⟩ := sendTruncate_told hsend ((holdsFile_iff hp).mp hq)
    exact (receiveTruncate_agrees_iff hno hsize hcut).mp (hnodes q node hq hnode).2
  · rintro ⟨hcut, hnodes⟩
    refine ⟨f, hf, hcut, ?_⟩
    intro q node hq hnode
    refine ⟨?_, (receiveTruncate_agrees_iff hno hsize hcut).mpr (hnodes q hq)⟩
    obtain ⟨node', hnode', htold⟩ := sendTruncate_told hsend ((holdsFile_iff hp).mp hq)
    obtain rfl : node = node' := Option.some.inj (hnode.symm.trans hnode')
    rw [allocatedOn_append]
    exact List.mem_append_left _ htold

/-- **When a truncate updates both block lists.** -/
theorem truncatesRight_iff (hst : m.fileStatPool.find? path = some s) (hint : s.isExternal = false) (hown : m.OwnObject path)
    (hsize : size < 2 ^ 63) : m.TruncatesRight o path size holders ↔ m.Truncatable s size holders := by
  unfold TruncatesRight
  rw [parseTruncateFile_local hst hint]
  constructor
  · rintro ⟨out, s', hout, -, -, -, hlists⟩
    obtain ⟨⟨m', ops⟩, htr, rfl⟩ := Option.map_eq_some_iff.mp hout
    obtain ⟨r, f, ho, hf⟩ := open_of_truncateLocal htr
    have hback := hown.back s r f hst ho hf
    have hst' : m.fileStatPool.find? f.fileStatus = some s := by rw [hback, hst]
    refine ⟨r, f, ho, hf, ?_⟩
    intro hlt
    rw [truncateLocal_eq hst' ho hf, if_pos hlt] at htr
    obtain ⟨primary, hp, htr⟩ := Option.bind_eq_some_iff.mp htr
    obtain ⟨ops', hsend, heq⟩ := Option.map_eq_some_iff.mp htr
    cases heq
    refine ⟨⟨primary, hf, hp, ?_⟩, (listsAgree_iff hf hp (hown.number s r f hst ho hf) hsize hsend).mp (hlists s r f hst ho hf hlt)⟩
    intro q hq
    obtain ⟨node, hnode, -⟩ := sendTruncate_told hsend hq
    exact ⟨node, hnode⟩
  · rintro ⟨r, f, ho, hf, hcond⟩
    have hback := hown.back s r f hst ho hf
    have hst' : m.fileStatPool.find? f.fileStatus = some s := by rw [hback, hst]
    have hentry : (m.truncatedFile f s size).fileStatPool.find? path = some (s.setStatus { s.status with stSize := size }) := by
      rw [← hback]
      exact OrdMap.find?_put_self ..
    rw [truncateLocal_eq hst' ho hf]
    by_cases hlt : size < s.status.stSize
    · obtain ⟨⟨primary, hwhole⟩, hcut, hnodes⟩ := hcond hlt
      have hsend : ∃ ops, sendEach (m.sendTruncateRequest f.fileNo (getBlockStartPoint size) size) (primary :: f.IOnodesSet.keys)
          = some ops :=
        sendEach_progress (fun q hq => nodes_map_progress (hwhole.nodes q hq))
      obtain ⟨ops, hsend⟩ := hsend
      have heff : m.NodeSends ops :=
        (truncateLocal_effect (by rw [truncateLocal_eq hst' ho hf, if_pos hlt, hwhole.main, Option.bind_some, hsend]; rfl)).sends
      rw [if_pos hlt, hwhole.main, Option.bind_some, hsend]
      refine ⟨_, _, rfl, allocatedOn_reply heff _ _, hentry, rfl, ?_⟩
      intro s' r' f' hst'' ho' hf' _
      obtain rfl : s = s' := Option.some.inj (hst.symm.trans hst'')
      obtain rfl : r = r' := Option.some.inj (ho.symm.trans ho')
      obtain rfl : f = f' := Option.some.inj (hf.symm.trans hf')
      exact (listsAgree_iff hf hwhole.main (hown.number s r f hst ho hf) hsize hsend).mpr ⟨hcut, hnodes⟩
    · rw [if_neg hlt]
      refine ⟨_, _, rfl, rfl, hentry, rfl, ?_⟩
      intro s' r' f' hst'' _ _ hlt'
      obtain rfl : s = s' := Option.some.inj (hst.symm.trans hst'')
      exact absurd hlt' hlt

end

/-- A Master with one node, where `/a` was opened and these requests have followed. -/
def openedA (requests : List Request) : Master :=
  ((Run.run Master.step (initial OrdMap.empty 0 [] 0)
    ([eventOf (.register 100 pathA), eventOf (.openFile pathA 0 0)] ++ requests.map eventOf))).getD (initial OrdMap.empty 0 [] 0)

/-- The node that was told of the open. -/
def holderA : IOnode := (IOnode.start 1 (fun _ _ => 0) (fun _ => none)).openFile 0 .notExist pathA [(0, 0)]

/-- The new file `/a` made longer and then empty again: its only block never had a byte. -/
theorem truncatesRight_back_to_empty : (openedA [.truncate pathA 7]).TruncatesRight ⟨3, 0⟩ pathA 0 (fun _ => holderA) := by
  have hentry : ∃ s, (openedA [.truncate pathA 7]).fileStatPool.find? pathA = some s ∧ s.isExternal = false ∧
      s.openedFileInfo = some 0 := ⟨_, rfl, rfl, rfl⟩
  have hobject : ∃ f, (openedA [.truncate pathA 7]).files 0 = some f ∧ f.fileStatus = pathA ∧ f.fileNo = 0 ∧
      f.primaryReplicaNode = some 0 ∧ f.IOnodesSet.keys = [] ∧ f.blockList.entries = [(0, 0)] := ⟨_, rfl, rfl, rfl, rfl, rfl, rfl⟩
  obtain ⟨s, hst, hint, ho⟩ := hentry
  obtain ⟨f, hf, hback, hno, hp, hreplicas, hlist⟩ := hobject
  have hblocks : ∀ k, f.blockList.find? k = if k = 0 then some 0 else none := by
    intro k
    unfold OrdMap.find?
    rw [hlist]
    rfl
  have hown : (openedA [.truncate pathA 7]).OwnObject pathA := by
    refine ⟨?_, ?_⟩
    all_goals intro s' r' f' hst' ho' hf'
    all_goals obtain rfl : s = s' := Option.some.inj (hst.symm.trans hst')
    all_goals obtain rfl : 0 = r' := Option.some.inj (ho.symm.trans ho')
    all_goals obtain rfl : f = f' := Option.some.inj (hf.symm.trans hf')
    · exact hback
    · rw [hno]
      decide
  apply (truncatesRight_iff hst hint hown (by decide)).mpr
  refine ⟨0, f, ho, hf, ?_⟩
  intro _
  refine ⟨⟨0, hf, hp, ?_⟩, ⟨?_, ?_⟩, ?_⟩
  · intro q hq
    rw [hreplicas] at hq
    rw [List.mem_singleton.mp hq]
    exact ⟨_, rfl⟩
  · intro k hk
    have hpos : 0 < k := hk
    rw [hblocks, if_neg (Nat.ne_of_gt hpos)]
  · exact hblocks 0
  · intro q _
    rw [hno]
    exact ⟨Option.some_ne_none _, fun k hk => absurd hk (Nat.not_lt_zero k)⟩

/-- Five bytes written to `/a`, which is then cut to two: the Master's list still says five. -/
theorem truncate_keeps_block_size :
    (∃ s, (openedA [.writeFile 0 { Stat.zero with stSize := 5 } 0 5]).fileStatPool.find? pathA = some s ∧ s.isExternal = false ∧
      s.status.stSize = 5) ∧
      ¬ (openedA [.writeFile 0 { Stat.zero with stSize := 5 } 0 5]).TruncatesRight ⟨3, 0⟩ pathA 2 (fun _ => holderA) := by
  have hentry : ∃ s, (openedA [.writeFile 0 { Stat.zero with stSize := 5 } 0 5]).fileStatPool.find? pathA = some s ∧
      s.isExternal = false ∧ s.status.stSize = 5 ∧ s.openedFileInfo = some 0 := ⟨_, rfl, rfl, rfl, rfl⟩
  have hobject : ∃ f, (openedA [.writeFile 0 { Stat.zero with stSize := 5 } 0 5]).files 0 = some f := ⟨_, rfl⟩
  have hafter : ((openedA [.writeFile 0 { Stat.zero with stSize := 5 } 0 5]).parseTruncateFile ⟨3, 0⟩ pathA 2).map
      (fun out => (out.master.files 0).map (fun f => f.blockList.find? 0)) = some (some (some 5)) := by
    decide +kernel
  obtain ⟨s, hst, hint, hold, ho⟩ := hentry
  obtain ⟨f, hf⟩ := hobject
  refine ⟨⟨s, hst, hint, hold⟩, ?_⟩
  rintro ⟨out, s', hout, -, -, -, hlists⟩
  obtain ⟨f', hf', hcut, -⟩ := (hlists s 0 f hst ho hf (by rw [hold]; decide)).cut
  rw [hout, Option.map_some, hf', Option.map_some] at hafter
  have hfive : f'.blockList.find? 0 = some 5 := Option.some.inj (Option.some.inj hafter)
  have htwo : f'.blockList.find? 0 = some 2 := hcut.last
  rw [htwo] at hfive
  cases hfive

end Master

end HuronFS
