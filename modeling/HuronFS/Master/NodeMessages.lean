import HuronFS.Master.Coverage
import HuronFS.Master.NodeFiles

/-!
# `Master.NodeMessages` — one request after the other, seen from a node

`NodeFiles` says what a node makes of all the messages of a request. Here a node stops in between: each request sends a
node its unlinks first, and then messages that all mean the same (`UnlinksFirst`), so the files of a node have their paths
apart after any number of them. The blocks that an `OPEN_FILE` lists are in their places. The requests are all those that
neither truncate a file nor report a failure.
-/

namespace HuronFS

/-! ## Messages in order -/

/-- However many of the messages a node has taken, no two of its files have one path. -/
def FileView.DistinctThrough : FileView → List (List Field) → Prop
  | view, [] => view.Distinct
  | view, message :: rest => view.Distinct ∧ DistinctThrough (NodeMessage.apply view (NodeMessage.decode message)) rest

/-- Unlinks, and then messages that all mean the same. -/
structure UnlinksFirst (messages : List (List Field)) : Prop where
  parts : ∃ unlinks rest msg, messages = unlinks ++ rest ∧ (∀ m ∈ unlinks, ∃ f, NodeMessage.decode m = .unlink f) ∧
    ∀ m ∈ rest, ∀ view, NodeMessage.apply view (NodeMessage.decode m) = NodeMessage.apply view msg

namespace FileView

variable {view : FileView}

theorem DistinctThrough.distinct {messages : List (List Field)} (h : DistinctThrough view messages) : view.Distinct := by
  cases messages with
  | nil => exact h
  | cons message rest => exact h.1

theorem DistinctThrough.append {a b : List (List Field)} (ha : DistinctThrough view a) (hb : DistinctThrough (view.after a) b) :
    DistinctThrough view (a ++ b) := by
  induction a generalizing view with
  | nil => exact hb
  | cons message rest ih => exact ⟨ha.1, ih ha.2 hb⟩

theorem DistinctThrough.after {messages : List (List Field)} (h : DistinctThrough view messages) : (view.after messages).Distinct := by
  induction messages generalizing view with
  | nil => exact h
  | cons message rest ih => exact ih h.2

/-- A file less leaves the others apart. -/
theorem Distinct.unlink (h : view.Distinct) (f : Int) : FileView.Distinct (NodeMessage.apply view (.unlink f)) := by
  have hother : ∀ {g path}, NodeMessage.apply view (.unlink f) g = some path → view g = some path := by
    intro g path hg
    by_cases hgf : g = f
    · subst hgf
      simp [NodeMessage.apply] at hg
    · rwa [NodeMessage.apply, Function.update_of_ne hgf] at hg
  intro g g' path hg hg'
  exact h g g' path (hother hg) (hother hg')

theorem distinctThrough_unlinks {messages : List (List Field)} (hall : ∀ m ∈ messages, ∃ f, NodeMessage.decode m = .unlink f)
    (h : view.Distinct) : DistinctThrough view messages := by
  induction messages generalizing view with
  | nil => exact h
  | cons message rest ih =>
      obtain ⟨f, hf⟩ := hall message List.mem_cons_self
      refine ⟨h, ih (fun m hm => hall m (List.mem_cons_of_mem _ hm)) ?_⟩
      rw [hf]
      exact h.unlink f

/-- Messages that mean the same: after the first of them the view is the last one. -/
theorem distinctThrough_same {msg : NodeMessage} {messages : List (List Field)}
    (hall : ∀ m ∈ messages, ∀ view, NodeMessage.apply view (NodeMessage.decode m) = NodeMessage.apply view msg)
    (h : view.Distinct) (hafter : (view.after messages).Distinct) : DistinctThrough view messages := by
  induction messages generalizing view with
  | nil => exact h
  | cons message rest ih =>
      have hrest := fun m hm => hall m (List.mem_cons_of_mem message hm)
      have hlast : NodeMessage.apply view (NodeMessage.decode message) = view.after (message :: rest) := by
        rw [hall message List.mem_cons_self, FileView.after_same hall, if_neg (List.cons_ne_nil message rest)]
      refine ⟨h, ih hrest ?_ hafter⟩
      rw [hlast]
      exact hafter

/-- **A node that takes such messages one by one** has its files apart all the time, if it has in the end. -/
theorem distinctThrough_unlinksFirst {messages : List (List Field)} (horder : UnlinksFirst messages) (h : view.Distinct)
    (hafter : (view.after messages).Distinct) : DistinctThrough view messages := by
  obtain ⟨unlinks, rest, msg, rfl, hunlinks, hrest⟩ := horder.parts
  have hfirst := distinctThrough_unlinks hunlinks h
  refine hfirst.append (distinctThrough_same hrest hfirst.after ?_)
  rw [← FileView.after_append]
  exact hafter

end FileView

namespace UnlinksFirst

theorem same {messages : List (List Field)} (msg : NodeMessage)
    (hall : ∀ m ∈ messages, ∀ view, NodeMessage.apply view (NodeMessage.decode m) = NodeMessage.apply view msg) :
    UnlinksFirst messages :=
  ⟨[], messages, msg, rfl, fun _ hm => (nomatch hm), hall⟩

theorem unlinks {messages : List (List Field)} (hall : ∀ m ∈ messages, ∃ f, NodeMessage.decode m = .unlink f) :
    UnlinksFirst messages :=
  ⟨messages, [], .other, (List.append_nil _).symm, hall, fun _ hm => (nomatch hm)⟩

end UnlinksFirst

/-- No two files of a node have one path: the Master has one open file at a path. -/
theorem Master.PlacedInv.nodeView_distinct {m : Master} (h : m.PlacedInv) (q : NodeRef) : (m.nodeView q).Distinct := by
  have hentry : ∀ {n path}, m.nodeView q n = some path → ∃ r f, m.files r = some f ∧ f.fileNo = n ∧ m.openedAt path = some r := by
    intro n path hn
    unfold Master.nodeView at hn
    obtain ⟨e, he, hpath⟩ := Option.bind_eq_some_iff.mp hn
    split at hpath
    · obtain ⟨hbuf, hobj⟩ := Master.openFileOf_eq_some.mp he
      obtain ⟨f, hf⟩ := h.table.entry n e.1 hbuf
      obtain rfl := Option.some.inj (hf.object.symm.trans hobj)
      obtain rfl := Option.some.inj hpath
      exact ⟨e.1, e.2, hobj, hf.fileNo, hf.opened⟩
    · cases hpath
  intro n n' path hn hn'
  obtain ⟨r, f, hobj, hno, hopen⟩ := hentry hn
  obtain ⟨r', f', hobj', hno', hopen'⟩ := hentry hn'
  obtain rfl := Option.some.inj (hopen.symm.trans hopen')
  obtain rfl := Option.some.inj (hobj.symm.trans hobj')
  exact hno.symm.trans hno'

/-! ## The blocks of an `OPEN_FILE` -/

/-- The blocks of an opened file start at multiples of the block size and are not longer. -/
def NodeMessage.BlocksAligned : NodeMessage → Prop
  | .openFile _ _ _ blocks => ∀ e ∈ blocks, getBlockStartPoint e.1 = e.1 ∧ e.2 ≤ BLOCK_SIZE
  | _ => True

/-- A start point that has wrapped around is one still: the range of `size_t` is a number of blocks. -/
theorem aligned_mod {start : Nat} (h : getBlockStartPoint start = start) :
    getBlockStartPoint (start % 2 ^ 64) = start % 2 ^ 64 := by
  have hmul : start = start / BLOCK_SIZE * BLOCK_SIZE := h.symm
  have hrange : 2 ^ 64 = 2 ^ 64 / BLOCK_SIZE * BLOCK_SIZE := by decide
  rw [hrange, hmul, Nat.mul_mod_mul_right]
  have hself := getBlockStartPoint_mul_add (start / BLOCK_SIZE % (2 ^ 64 / BLOCK_SIZE)) 0 (by decide)
  rwa [Nat.add_zero] at hself

/-- The pairs that `_open_file` pops are pairs of the list that was pushed, `count` being at most their number. -/
theorem NodeMessage.mem_popBlocks {l : List (Nat × Nat)} {rest : List Field} : ∀ {count : Nat}, count ≤ l.length →
    ∀ e ∈ NodeMessage.popBlocks count (l.flatMap (fun b => [.size b.1, .size b.2]) ++ rest),
      ∃ b ∈ l, e = (b.1 % 2 ^ 64, b.2 % 2 ^ 64) := by
  induction l with
  | nil =>
      intro count hcount e he
      obtain rfl : count = 0 := Nat.le_zero.mp hcount
      unfold NodeMessage.popBlocks at he
      cases he
  | cons b l ih =>
      intro count hcount e he
      cases count with
      | zero =>
          unfold NodeMessage.popBlocks at he
          cases he
      | succ count =>
          have hpop : NodeMessage.popBlocks (count + 1) ((b :: l).flatMap (fun b => [.size b.1, .size b.2]) ++ rest)
              = ((BitVec.ofNat 64 b.1).toNat, (BitVec.ofNat 64 b.2).toNat)
                :: NodeMessage.popBlocks count (l.flatMap (fun b => [.size b.1, .size b.2]) ++ rest) := rfl
          rw [hpop] at he
          rcases List.mem_cons.mp he with rfl | he
          · exact ⟨b, List.mem_cons_self, by rw [BitVec.toNat_ofNat, BitVec.toNat_ofNat]⟩
          · obtain ⟨b', hb', heq⟩ := ih (Nat.le_of_succ_le_succ hcount) e he
            exact ⟨b', List.mem_cons_of_mem b hb', heq⟩

namespace Master

/-- **What an `OPEN_FILE` says**: the number and the path of the file, and blocks in their places. -/
theorem decode_openRequest_aligned {m : Master} {file : OpenFileInfo} {node : NodeRef} {stat : FileStat} {message : List Field}
    {count : Nat} (hstat : m.fileStatPool.find? file.fileStatus = some stat) (hcovers : Covers file.blockList count)
    (h : m.openRequest file node = some message) :
    ∃ existFlag blocks, NodeMessage.decode message = .openFile (BitVec.ofInt 64 file.fileNo).toInt existFlag stat.fullPath blocks ∧
      ∀ e ∈ blocks, getBlockStartPoint e.1 = e.1 ∧ e.2 ≤ BLOCK_SIZE := by
  have hcode : (BitVec.ofInt 32 OPEN_FILE).toInt = OPEN_FILE := by decide
  have hlist : (BitVec.ofInt 32 (file.blockList.size : Int)).toInt.toNat ≤ file.blockList.entries.length := by
    have hle : (BitVec.ofInt 32 (file.blockList.size : Int)).toInt ≤ file.blockList.size := by
      rw [BitVec.toInt_ofInt, Int.bmod_def]
      split <;> omega
    have hsize : file.blockList.size = file.blockList.entries.length := rfl
    omega
  have hdecode : ∀ flag existCode rest, ∃ existFlag blocks, NodeMessage.decode ([.int OPEN_FILE, .long file.fileNo,
      .w32 flag, .int existCode, .str stat.fullPath, .int file.blockList.size] ++ blockFields file.blockList ++ rest)
      = .openFile (BitVec.ofInt 64 file.fileNo).toInt existFlag stat.fullPath blocks ∧
      ∀ e ∈ blocks, getBlockStartPoint e.1 = e.1 ∧ e.2 ≤ BLOCK_SIZE := by
    intro flag existCode rest
    rw [List.append_assoc]
    simp only [List.cons_append, List.nil_append, NodeMessage.decode, Field.int, Field.long, hcode, if_true,
      NodeMessage.popOpenFile]
    refine ⟨_, _, rfl, ?_⟩
    intro e he
    obtain ⟨b, hb, rfl⟩ := NodeMessage.mem_popBlocks hlist e he
    have hfind := OrdMap.mem_entries.mp hb
    obtain ⟨i, -, hi⟩ := (hcovers.mem_iff b.1).mp ⟨b.2, hfind⟩
    have hstart := getBlockStartPoint_mul_add i 0 (by decide)
    rw [Nat.add_zero, ← hi] at hstart
    exact ⟨aligned_mod hstart, Nat.le_trans (Nat.mod_le _ _) (hcovers.size_le b.1 b.2 hfind)⟩
  unfold openRequest at h
  simp only [hstat] at h
  split at h
  · obtain ⟨fs, -, rfl⟩ := Option.map_eq_some_iff.mp h
    exact hdecode _ _ _
  · cases h
    exact hdecode _ _ _

/-! ## What a request sends to one node -/

/-- The messages to a node, in order and with the blocks of every opened file in their places. -/
structure Orderly (messages : List (List Field)) : Prop extends UnlinksFirst messages where
  aligned : ∀ m ∈ messages, (NodeMessage.decode m).BlocksAligned

theorem Orderly.nil : Orderly [] := by
  refine ⟨UnlinksFirst.unlinks ?_, ?_⟩ <;>
  · intro m hm
    cases hm

theorem mem_messagesTo_sendEach {send : NodeRef → Option (List QueueOp)} {handle : Handle} {message : List Field} {rs : List NodeRef} :
    ∀ {ops : List QueueOp}, sendEach send rs = some ops → message ∈ messagesTo handle ops →
    ∃ r ops', send r = some ops' ∧ message ∈ messagesTo handle ops' := by
  induction rs with
  | nil =>
      intro ops h hm
      cases h
      cases hm
  | cons r rs ih =>
      intro ops h hm
      unfold sendEach at h
      split at h
      · rename_i a b ha hb
        cases h
        rw [messagesTo_append] at hm
        rcases List.mem_append.mp hm with hm | hm
        · exact ⟨r, a, ha, hm⟩
        · exact ih hb hm
      · cases h

theorem mem_messagesTo_sendIOnode {handle : Handle} {n : NodeInfo} {message sent : List Field}
    (h : message ∈ messagesTo handle (sendIOnode n sent)) : message = sent := by
  rw [messagesTo_sendIOnode] at h
  split at h
  · exact List.mem_singleton.mp h
  · cases h

/-- A reply to the requester goes to no node. -/
theorem Orderly.reply {handle : Handle} {ops : List QueueOp} (h : Orderly (messagesTo handle ops)) (o : Origin) (message : List Field) :
    Orderly (messagesTo handle (ops ++ sendResponse o message)) := by
  rw [messagesTo_append, messagesTo_sendResponse, List.append_nil]
  exact h

theorem createNewOpenFileInfo_orderly {m m' : Master} {fileNo : Int} {flag : BitVec 32} {path : Str} {ops : List QueueOp}
    {r : FileRef} (hc : m.createNewOpenFileInfo fileNo flag path = some (m', ops, .ok r)) (handle : Handle) :
    Orderly (messagesTo handle ops) := by
  obtain ⟨stat, main, pool, m2, -, -, -, -, hsend⟩ := createNewOpenFileInfo_inv hc
  -- every message opens the same file
  have hall : ∀ message ∈ messagesTo handle ops, ∃ existFlag blocks st,
      m'.fileStatPool.find? (placedFile fileNo flag path stat.status.stSize main pool).fileStatus = some st ∧
      NodeMessage.decode message = .openFile (BitVec.ofInt 64 fileNo).toInt existFlag st.fullPath blocks ∧
      (NodeMessage.decode message).BlocksAligned := by
    intro message hm
    obtain ⟨q, ops', hq, hm⟩ := mem_messagesTo_sendEach hsend hm
    unfold sendOpenRequestToIOnodes at hq
    split at hq
    · rename_i n sent hn hsent
      cases hq
      obtain rfl := mem_messagesTo_sendIOnode hm
      cases hst : m'.fileStatPool.find? (placedFile fileNo flag path stat.status.stSize main pool).fileStatus with
      | none =>
          unfold openRequest at hsent
          rw [hst] at hsent
          cases hsent
      | some st =>
          obtain ⟨existFlag, blocks, hdecode, haligned⟩ :=
            decode_openRequest_aligned hst (createBlockList_covers stat.status.stSize) hsent
          exact ⟨existFlag, blocks, st, rfl, hdecode, by rw [hdecode]; exact haligned⟩
    · cases hq
  refine ⟨?_, ?_⟩
  · cases hst : m'.fileStatPool.find? (placedFile fileNo flag path stat.status.stSize main pool).fileStatus with
    | none =>
        refine UnlinksFirst.unlinks (fun message hm => ?_)
        obtain ⟨-, -, st, hst', -⟩ := hall message hm
        rw [hst] at hst'
        cases hst'
    | some st =>
        refine UnlinksFirst.same (.openFile (BitVec.ofInt 64 fileNo).toInt .notExist st.fullPath []) (fun message hm view => ?_)
        obtain ⟨existFlag, blocks, st', hst', hdecode, -⟩ := hall message hm
        obtain rfl := Option.some.inj (hst.symm.trans hst')
        rw [hdecode]
        rfl
  · intro message hm
    obtain ⟨-, -, -, -, -, haligned⟩ := hall message hm
    exact haligned

theorem openFile_orderly {m m' : Master} {e : Env} {path : Str} {flag mode : BitVec 32} {ops : List QueueOp}
    {res : Except OpenError Int} (hr : m.openFile e path flag mode = some (m', ops, res)) (handle : Handle) :
    Orderly (messagesTo handle ops) := by
  cases res with
  | error err =>
      obtain ⟨rfl, -⟩ := openFile_error hr
      exact Orderly.nil
  | ok fileNo =>
      rcases openFile_ok hr with ⟨-, -, -, -, -, -, -, rfl, -⟩ | ⟨m1, r, -, -, -, hc⟩ | ⟨-, m1, m2, r, -, -, -, hc, -⟩
      · exact Orderly.nil
      · exact createNewOpenFileInfo_orderly hc handle
      · exact createNewOpenFileInfo_orderly hc handle

theorem decode_removal (fileNo : Int) : NodeMessage.decode [.int UNLINK, .long fileNo] = .unlink (BitVec.ofInt 64 fileNo).toInt := by
  have hcode : (BitVec.ofInt 32 UNLINK).toInt = UNLINK := by decide
  simp only [NodeMessage.decode, Field.int, Field.long, hcode]
  rfl

theorem sendRemoveRequests_unlinks {fileNo : Int} {handle : Handle} {rs : List NodeRef} : ∀ {m m' : Master} {ops : List QueueOp},
    sendRemoveRequests fileNo rs m = some (m', ops) → ∀ message ∈ messagesTo handle ops, message = [.int UNLINK, .long fileNo] := by
  induction rs with
  | nil =>
      intro m m' ops h message hm
      cases h
      cases hm
  | cons r rs ih =>
      intro m m' ops h message hm
      unfold sendRemoveRequests at h
      split at h
      · cases h
      · split at h
        · cases h
        · rename_i hrec
          cases h
          rw [messagesTo_append] at hm
          rcases List.mem_append.mp hm with hm | hm
          · exact mem_messagesTo_sendIOnode hm
          · exact ih hrec message hm

theorem removeFile_unlinks {m m' : Master} {path : Str} {ops : List QueueOp} {found : Bool}
    (hr : m.removeFile path = some (m', ops, found)) (handle : Handle) :
    ∀ message ∈ messagesTo handle ops, ∃ f, NodeMessage.decode message = .unlink f := by
  intro message hm
  rcases removeFile_some hr with ⟨-, -, rfl, -⟩ | ⟨-, -, -, rfl, -⟩ | ⟨s, r, m1, -, -, -, hrem, -⟩
  · cases hm
  · cases hm
  · obtain ⟨f, primary, m2, -, -, hsend, -⟩ := removeOpenFile_inv hrem
    rw [sendRemoveRequests_unlinks hsend message hm]
    exact ⟨_, decode_removal f.fileNo⟩

theorem Orderly.unlinks {messages : List (List Field)} (h : ∀ m ∈ messages, ∃ f, NodeMessage.decode m = .unlink f) :
    Orderly messages := by
  refine ⟨UnlinksFirst.unlinks h, ?_⟩
  intro m hm
  obtain ⟨f, hf⟩ := h m hm
  rw [hf]
  trivial

theorem decode_renaming (fileNo : Int) (path : Str) :
    NodeMessage.decode [.int RENAME, .long fileNo, .str path] = .rename (BitVec.ofInt 64 fileNo).toInt path := by
  have hcode : (BitVec.ofInt 32 RENAME).toInt = RENAME := by decide
  simp only [NodeMessage.decode, Field.int, Field.long, hcode]
  rfl

theorem renameLocalFile_renames {m m' : Master} {s : FileStat} {newPath : Str} {ops : List QueueOp}
    (hr : m.renameLocalFile s newPath = some (m', ops)) (handle : Handle) :
    ∃ fileNo : Int, ∀ message ∈ messagesTo handle ops, message = [.int RENAME, .long fileNo, .str newPath] := by
  unfold renameLocalFile at hr
  simp only at hr
  split at hr
  · cases hr
    exact ⟨0, fun message hm => nomatch hm⟩
  · split at hr
    · cases hr
    · rename_i f _
      split at hr
      · cases hr
      · split at hr
        · cases hr
        · rename_i hsend
          cases hr
          refine ⟨f.fileNo, ?_⟩
          intro message hm
          obtain ⟨q, ops', hq, hm⟩ := mem_messagesTo_sendEach hsend hm
          unfold sendRenameRequest at hq
          obtain ⟨n, -, rfl⟩ := Option.map_eq_some_iff.mp hq
          exact mem_messagesTo_sendIOnode hm

/-- A rename unlinks what is in its way first. -/
theorem renameTables_orderly {m m' : Master} {oldPath newPath : Str} {newMaster : Int} {ops : List QueueOp}
    (hr : m.renameTables oldPath newPath newMaster = some (m', ops)) (handle : Handle) : Orderly (messagesTo handle ops) := by
  unfold renameTables at hr
  split at hr
  · split at hr
    · obtain ⟨⟨m1, ops1, found⟩, hrem, heq⟩ := Option.map_eq_some_iff.mp hr
      cases heq
      exact Orderly.unlinks (removeFile_unlinks hrem handle)
    · cases hr
      exact Orderly.nil
  · split at hr
    · split at hr
      · cases hr
      · split at hr
        · cases hr
        · rename_i m1 ops1 found hrem
          split at hr
          · cases hr
          · rename_i m2 ops2 hren
            cases hr
            obtain ⟨fileNo, hrenames⟩ := renameLocalFile_renames hren handle
            have hunlinks := removeFile_unlinks hrem handle
            rw [messagesTo_append]
            refine ⟨⟨_, _, .rename (BitVec.ofInt 64 fileNo).toInt newPath, rfl, hunlinks, ?_⟩, ?_⟩
            · intro message hm view
              rw [hrenames message hm, decode_renaming]
            · intro message hm
              rcases List.mem_append.mp hm with hm | hm
              · obtain ⟨f, hf⟩ := hunlinks message hm
                rw [hf]
                trivial
              · rw [hrenames message hm, decode_renaming]
                trivial
    · cases hr
      exact Orderly.nil

/-! ## Every request but a truncation and a failure -/

/-- What a request needs to leave the tables sound: an open has a node and a number, a local rename goes to another path, a
    node registers on a handle of its own. -/
def ServingGuard (m : Master) (ev : Event) : Prop :=
  match ev.request with
  | .openFile _ _ _ => m.registeredIOnodes.size ≠ 0 ∧ m.fileNumber < MAX_FILE_NUMBER
  | .rename oldPath newPath newMaster => newMaster = MYSELF → oldPath ≠ newPath
  | .register _ _ => ∀ q, Registered m q → m.handleOf q ≠ some ev.origin.handle
  | .truncate _ _ => False
  | .nodeFailure => m.getNodeInfoFromHandle ev.origin.handle = none
  | .IOnodeFailure nodeId => m.registeredIOnodes.find? nodeId = none
  | _ => True

/-- The request is served, and each node hears of it in order. -/
structure ServedOrderly (m m' : Master) (ops : List QueueOp) : Prop extends Served m m' ops where
  orderly : ∀ handle, Orderly (messagesTo handle ops)
  inv : PlacedInv m'

theorem Told.congr {m m' : Master} {ops ops' : List QueueOp} (h : Told m m' ops)
    (hops : ∀ handle, messagesTo handle ops' = messagesTo handle ops) : Told m m' ops' := by
  refine ⟨h.registered, h.handles, ?_, ?_⟩
  · intro q handle hq hh
    rw [hops]
    exact h.views q handle hq hh
  · intro handle hno
    rw [hops]
    exact h.quiet handle hno

/-- A request that the nodes do not hear of. -/
theorem PlacedInv.quietly {m m' : Master} (h : PlacedInv m) (hopen : OpenInv m') (hreg : m'.registeredIOnodes = m.registeredIOnodes)
    (hnodes : m'.nodes = m.nodes) (hfull : ∀ p s, m'.fileStatPool.find? p = some s → s.fullPath = p)
    (hviews : ∀ q, m'.nodeView q = m.nodeView q) {ops : List QueueOp} (hops : ∀ handle, messagesTo handle ops = []) :
    ServedOrderly m m' ops := by
  refine ⟨(Told.silent hreg hnodes hviews hops).served, ?_, h.of_frame hopen hreg hnodes hfull hviews⟩
  intro handle
  rw [hops handle]
  exact Orderly.nil

/-- Nothing changes. -/
theorem PlacedInv.unchanged {m : Master} (h : PlacedInv m) {ops : List QueueOp} (hops : ∀ handle, messagesTo handle ops = []) :
    ServedOrderly m m ops := h.quietly h.toOpenInv rfl rfl h.fullPath (fun _ => rfl) hops

/-- An entry is rewritten, under its path and with its open file. -/
theorem PlacedInv.rewriteStat {m : Master} (h : PlacedInv m) {p : Str} {s : FileStat} (hs : s.openedFileInfo = m.openedAt p)
    (hpath : s.fullPath = p) : PlacedInv (m.setStat p s) := by
  have hopen : OpenInv (m.setStat p s) :=
    ⟨h.table.setStat_same hs, ⟨h.nodes.live, h.nodes.idTaken, h.nodes.cursor, h.nodes.fresh⟩⟩
  refine h.of_frame hopen rfl rfl ?_ (fun _ => rfl)
  intro p' s' hp'
  rw [setStat_pool, OrdMap.find?_put] at hp'
  split at hp'
  · rename_i hpp
    cases hp'
    exact hpath.trans hpp.symm
  · exact h.fullPath p' s' hp'

/-- An open file is rewritten, under its number and on its nodes. -/
theorem PlacedInv.rewriteFile {m : Master} (h : PlacedInv m) {r : FileRef} {f : OpenFileInfo} (f' : OpenFileInfo)
    (hf : m.files r = some f)
    (hno : f'.fileNo = f.fileNo) (hst : f'.fileStatus = f.fileStatus) (hprimary : f'.primaryReplicaNode = f.primaryReplicaNode)
    (hset : f'.IOnodesSet = f.IOnodesSet) : PlacedInv (m.setFile r f') ∧ ∀ q, (m.setFile r f').nodeView q = m.nodeView q := by
  have hrefs : ∀ q, f'.References q ↔ f.References q := by
    intro q
    unfold OpenFileInfo.References
    rw [hprimary, hset]
  have hviews := nodeView_setFile h.table f' hf hst hrefs
  have hopen : OpenInv (m.setFile r f') :=
    ⟨h.table.setFile_same hf hno hst hprimary hset, ⟨h.nodes.live, h.nodes.idTaken, h.nodes.cursor, h.nodes.fresh⟩⟩
  exact ⟨h.of_frame hopen rfl rfl h.fullPath hviews, hviews⟩

theorem decode_other (code : Int) (h : (BitVec.ofInt 32 code).toInt ≠ OPEN_FILE ∧ (BitVec.ofInt 32 code).toInt ≠ UNLINK ∧
    (BitVec.ofInt 32 code).toInt ≠ RENAME) (fileNo : Int) : NodeMessage.decode [.int code, .long fileNo] = .other := by
  simp only [NodeMessage.decode, Field.int, Field.long, if_neg h.1, if_neg h.2.1, if_neg h.2.2]

/-- The primary node hears of a request that is nothing to its files. -/
theorem PlacedInv.tellPrimary {m : Master} (h : PlacedInv m) {fileNo : Int} {r : FileRef} {n : NodeInfo}
    (hbuf : m.bufferedFiles.find? fileNo = some r) (hn : m.primaryOf r = some n) {message : List Field}
    (hmessage : NodeMessage.decode message = .other) {ops : List QueueOp}
    (hops : ∀ handle, messagesTo handle ops = messagesTo handle (sendIOnode n message)) : ServedOrderly m m ops := by
  obtain ⟨f, hentry⟩ := h.table.entry fileNo r hbuf
  obtain ⟨q, hq, hreg⟩ := hentry.primary
  have hnode : m.nodes q = some n := by
    unfold primaryOf at hn
    simpa [hentry.object, hq] using hn
  have hhandle : m.handleOf q = some n.handle := by
    unfold handleOf
    rw [hnode]
    rfl
  have hnotify : Notifies m.handleOf [q] (sendIOnode n message ++ []) .other :=
    (Notifies.nil m.handleOf .other).cons hhandle (fun view => by rw [hmessage])
  rw [List.append_nil] at hnotify
  have htold : Told m m (sendIOnode n message) := by
    refine Told.of_notifies rfl rfl h.apart ?_ hnotify ?_
    · intro q' hq'
      obtain rfl := List.mem_singleton.mp hq'
      exact hreg
    · intro q'
      exact (ite_self _).symm
  refine ⟨(htold.congr hops).served, ?_, h⟩
  intro handle
  rw [hops handle]
  refine ⟨UnlinksFirst.same .other (fun m hm view => ?_), fun m hm => ?_⟩
  · rw [mem_messagesTo_sendIOnode hm, hmessage]
  · rw [mem_messagesTo_sendIOnode hm, hmessage]
    trivial

/-- The messages of an open, an unlink, a rename and a registration. -/
theorem placing_orderly {m : Master} {ev : Event} (hg : PlacingGuard m ev) {out : Outcome}
    (hout : m.parseRequest ev.env ev.origin ev.request = some out) (handle : Handle) : Orderly (messagesTo handle out.ops) := by
  obtain ⟨e, o, req⟩ := ev
  have hremove : ∀ code path, parseRemove code m o path = some out → Orderly (messagesTo handle out.ops) := by
    intro code path h
    unfold parseRemove at h
    split at h
    · cases h
    · rename_i hrem
      cases h
      exact (Orderly.unlinks (removeFile_unlinks hrem handle)).reply o _
  cases req with
  | openFile path flag mode =>
      have hlocal : m.parseOpenLocal e o path flag mode = some out → Orderly (messagesTo handle out.ops) := by
        intro h
        unfold parseOpenLocal at h
        split at h
        · cases h
        · rename_i hof
          cases h
          exact (openFile_orderly hof handle).reply o _
        · rename_i hof
          split at h
          · cases h
          · split at h
            · cases h
            · cases h
              exact (openFile_orderly hof handle).reply o _
      simp only [Master.parseRequest, Master.parseOpenFile] at hout
      split at hout
      · split at hout
        · cases hout
          exact Orderly.nil
        · exact hlocal hout
      · exact hlocal hout
  | unlink path => exact hremove UNLINK path hout
  | rmDir path => exact hremove RM_DIR path hout
  | rename oldPath newPath newMaster =>
      simp only [Master.parseRequest, parseRename] at hout
      obtain ⟨⟨m', ops⟩, hren, rfl⟩ := Option.map_eq_some_iff.mp hout
      exact (renameTables_orderly hren handle).reply o _
  | register totalMemory uri =>
      cases hout
      exact Orderly.nil
  | _ => exact absurd hg (by simp [PlacingGuard])

/-- **Every such request** keeps the tables, and the nodes hear of what changed in order. -/
theorem PlacedInv.serves {m : Master} (h : PlacedInv m) {ev : Event} (hg : ServingGuard m ev) {out : Outcome}
    (hout : m.parseRequest ev.env ev.origin ev.request = some out) : ServedOrderly m out.master out.ops := by
  have hplacing : PlacingGuard m ev → ServedOrderly m out.master out.ops := by
    intro hp
    obtain ⟨out', hout', hserved, hinv⟩ := h.parseRequest hp
    obtain rfl := Option.some.inj (hout'.symm.trans hout)
    exact ⟨hserved, placing_orderly hp hout, hinv⟩
  obtain ⟨e, o, req⟩ := ev
  cases req with
  | openFile path flag mode => exact hplacing hg
  | unlink path => exact hplacing trivial
  | rmDir path => exact hplacing trivial
  | register totalMemory uri => exact hplacing hg
  | rename oldPath newPath newMaster =>
      by_cases hself : newMaster = MYSELF
      · exact hplacing ⟨hself, hg hself⟩
      · simp only [Master.parseRequest, parseRename, Master.renameTables, if_neg hself] at hout
        cases hst : m.fileStatPool.find? oldPath with
        | none =>
            simp only [hst, Option.map_some, Option.some.injEq] at hout
            subst hout
            exact h.unchanged (fun _ => rfl)
        | some s =>
            simp only [hst, Option.map_some, Option.some.injEq] at hout
            subst hout
            have hinv := h.rewriteStat (p := oldPath) (s := { s with externalFlag := .renamed, externalName := newPath })
              (openedAt_of_find hst).symm (h.fullPath oldPath s hst)
            exact h.quietly hinv.toOpenInv rfl rfl hinv.fullPath (fun _ => rfl) (fun _ => rfl)
  | renameMigrating path oldMaster =>
      cases hout
      have hentry : ((m.fileStatPool.find? path).getD (defaultStat path)).openedFileInfo = m.openedAt path ∧
          ((m.fileStatPool.find? path).getD (defaultStat path)).fullPath = path := by
        cases hst : m.fileStatPool.find? path with
        | none => exact ⟨(openedAt_of_none hst).symm, rfl⟩
        | some s => exact ⟨(openedAt_of_find hst).symm, h.fullPath path s hst⟩
      have hinv := h.rewriteStat (p := path) (s := { (m.fileStatPool.find? path).getD (defaultStat path) with
        externalFlag := .ext, externalMaster := oldMaster }) hentry.1 hentry.2
      exact h.quietly hinv.toOpenInv rfl rfl hinv.fullPath (fun _ => rfl) (fun _ => rfl)
  | mkdir path mode =>
      cases hout
      have hentry : ((m.fileStatPool.find? path).getD (defaultStat path)).openedFileInfo = m.openedAt path := by
        cases hst : m.fileStatPool.find? path with
        | none => exact (openedAt_of_none hst).symm
        | some s => exact (openedAt_of_find hst).symm
      have hinv : PlacedInv (m.createNewFileStat e path .notExist (mode ||| S_IFDIR)) := h.rewriteStat hentry rfl
      exact h.quietly hinv.toOpenInv rfl rfl hinv.fullPath (fun _ => rfl) (fun _ => rfl)
  | writeFile fileNo attr startPoint size =>
      simp only [Master.parseRequest, parseWriteFile] at hout
      split at hout
      · cases hout
        exact h.unchanged (fun _ => rfl)
      · rename_i r hbuf
        split at hout
        · cases hout
        · rename_i f hf
          split at hout
          · cases hout
          · rename_i st hst
            split at hout
            · cases hout
            · obtain ⟨msg, -, rfl⟩ := Option.map_eq_some_iff.mp hout
              have hstat := h.rewriteStat (s := st.setStatus (receiveAttr st.status attr)) (openedAt_of_find hst).symm
                (h.fullPath f.fileStatus st hst)
              obtain ⟨hinv, hviews⟩ := hstat.rewriteFile (f.setBlocks
                (allocateNewBlocksForWriting f.blockList startPoint size)) hf rfl rfl rfl rfl
              exact h.quietly hinv.toOpenInv rfl rfl hinv.fullPath hviews (fun _ => rfl)
  | updateMeta fileNo attr =>
      simp only [Master.parseRequest, parseMetaUpdate] at hout
      split at hout
      · cases hout
        exact h.unchanged (fun _ => rfl)
      · split at hout
        · cases hout
        · rename_i f hf
          split at hout
          · cases hout
          · rename_i st hst
            cases hout
            have hinv := h.rewriteStat (s := st.setStatus (receiveAttr st.status attr)) (openedAt_of_find hst).symm
              (h.fullPath f.fileStatus st hst)
            exact h.quietly hinv.toOpenInv rfl rfl hinv.fullPath (fun _ => rfl) (fun _ => rfl)
  | readFile fileNo startPoint size =>
      simp only [Master.parseRequest, parseReadFile] at hout
      split at hout
      · cases hout
        exact h.unchanged (fun _ => rfl)
      · split at hout
        · cases hout
        · split at hout
          · obtain ⟨msg, -, rfl⟩ := Option.map_eq_some_iff.mp hout
            exact h.unchanged (fun _ => rfl)
          · cases hout
  | flushFile fileNo =>
      simp only [Master.parseRequest, parseFlushFile] at hout
      split at hout
      · cases hout
        exact h.unchanged (fun _ => rfl)
      · rename_i r hbuf
        obtain ⟨n, hn, rfl⟩ := Option.map_eq_some_iff.mp hout
        refine h.tellPrimary hbuf hn (decode_other FLUSH_FILE (by decide) fileNo) ?_
        intro handle
        rw [messagesTo_append, messagesTo_append, messagesTo_sendResponse, List.nil_append]
        exact List.append_nil _
  | closeFile fileNo =>
      simp only [Master.parseRequest, parseCloseFile] at hout
      split at hout
      · cases hout
        exact h.unchanged (fun _ => rfl)
      · rename_i r hbuf
        obtain ⟨n, hn, rfl⟩ := Option.map_eq_some_iff.mp hout
        refine h.tellPrimary hbuf hn (decode_other CLOSE_FILE (by decide) fileNo) ?_
        intro handle
        rw [messagesTo_append, messagesTo_sendResponse, List.nil_append]
  | getAttr path =>
      cases hout
      unfold parseAttr
      split
      · exact h.unchanged (fun _ => rfl)
      · split <;> exact h.unchanged (fun _ => rfl)
  | access path mode =>
      cases hout
      unfold parseAccess
      split
      · exact h.unchanged (fun _ => rfl)
      · split <;> exact h.unchanged (fun _ => rfl)
  | readDir path =>
      obtain ⟨files, -, rfl⟩ := Option.map_eq_some_iff.mp hout
      exact h.unchanged (fun _ => rfl)
  | newClient uri =>
      cases hout
      exact h.unchanged (fun _ => rfl)
  | closeClient =>
      cases hout
      exact h.unchanged (fun _ => rfl)
  | nodeFailure =>
      have hnone : m.getNodeInfoFromHandle o.handle = none := hg
      simp only [Master.parseRequest, parseNodeFailure, hnone] at hout
      cases hout
      exact h.unchanged (fun _ => rfl)
  | IOnodeFailure nodeId =>
      have hnone : m.registeredIOnodes.find? nodeId = none := hg
      simp only [Master.parseRequest, parseIOnodeFailure, hnone] at hout
      cases hout
      exact h.unchanged (fun _ => rfl)
  | truncate path size => exact hg.elim

end Master

end HuronFS
