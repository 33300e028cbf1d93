import HuronFS.Client.FileMeta
import HuronFS.Master.Delivery

/-!
# `Client.Coherence` — one size in three places

Any number of clients have one file open and write, truncate and ask for its attributes, one call after
another. The size lives in the Master's entry and in every client's `file_meta`; a write sends the
client's own size along and the Master keeps the larger one. The reference is a plain number. The two
agree as long as no client writes with a size that a truncate has made stale, and `truncate(path, s)`,
which unlike `ftruncate` leaves the caller's `file_meta` alone, comes from a client that has this size.
-/

namespace HuronFS

open Master (OpenInv FileObjects selectNodeBlockSet allocateNewBlocksForWriting)

/-! ## Replies as the client sees them -/

theorem response_reply (m : Master) (o : Origin) (message : List Field) (ret : Int) :
    response o (m.reply o message ret) = some message := by
  simp [response, Master.reply, sendResponse, sendOn, tasksOf, responseTask, addressedTo]

/-- Messages to IOnodes before the reply do not reach the client. -/
theorem response_after {clients : Set Handle} {m m' : Master} (hm : NodesApart clients m) {o : Origin}
    (ho : o.handle ∈ clients) {ops : List QueueOp} (hops : Master.NodeSends m ops) (message : List Field)
    (remote : List RemoteTask) (ret : Int) :
    response o ⟨m', ops ++ sendResponse o message, remote, ret⟩ = some message := by
  obtain ⟨ts, rfl, hts⟩ := hops
  have hnone : ts.find? (addressedTo o) = none := by
    rw [List.find?_eq_none]
    intro t ht hto
    obtain ⟨r, n, hn, he⟩ := hts t ht
    have hh : t.handle = o.handle := by
      simp only [addressedTo, Bool.and_eq_true, beq_iff_eq] at hto
      exact hto.1
    exact hm r n hn (he ▸ hh ▸ ho)
  have htasks : (ts.map (Prod.mk IONODE_COMMUNICATE_QUEUE_NUM)).map Prod.snd = ts := by
    rw [List.map_map]
    exact List.map_id ts
  unfold response
  simp only
  rw [tasksOf_append, tasksOf_sends, htasks, List.find?_append, hnone]
  simp [sendResponse, sendOn, tasksOf, responseTask, addressedTo]

/-! ## The file in the Master -/

/-- The Master's `st_size` for a path. -/
def Master.sizeOf (m : Master) (path : Str) : Nat := ((m.fileStatPool.find? path).map (fun st => st.status.stSize)).getD 0

/-- The file is open under this number, in a sound table, and no IOnode shares a client's handle. -/
structure SharedFile (clients : Set Handle) (m : Master) (path : Str) (fileNo : Int) : Prop where
  table : OpenInv m
  apart : NodesApart clients m
  entry : ∃ st r f, m.fileStatPool.find? path = some st ∧ st.isExternal = false ∧ st.openedFileInfo = some r ∧
    FileObjects m fileNo r f st ∧ f.fileStatus = path

/-- The blocks of a write can be walked once they are allocated. -/
def Walkable (m : Master) (fileNo : Int) (startPoint size : Nat) : Prop :=
  ∀ r f, m.bufferedFiles.find? fileNo = some r → m.files r = some f →
    selectNodeBlockSet (allocateNewBlocksForWriting f.blockList startPoint size) startPoint size ≠ none

namespace SharedFile

variable {clients : Set Handle} {m : Master} {path : Str} {fileNo : Int}

/-- A request the Master survives and answers keeps the table sound and the nodes apart. -/
theorem after_request (h : SharedFile clients m path fileNo) {e : Env} {o : Origin} {req : Request} {out : Outcome}
    (hout : m.parseRequest e o req = some out) (hrep : req.hasReply = true) (honce : m.RepliesOnce req)
    (hsurv : m.Survives o req) : OpenInv out.master ∧ NodesApart clients out.master := by
  obtain ⟨out', hout', hinv⟩ := h.table.parseRequest_survives e o hsurv
  rw [hout] at hout'
  cases hout'
  exact ⟨hinv, h.apart.of_handles (Master.parseRequest_replies hout hrep honce).handles⟩

/-- **A write**: the Master keeps the larger size, and the client takes it over. -/
theorem write (h : SharedFile clients m path fileNo) (e : Env) (o : Origin) (fm : FileMeta)
    (hfm : fm.remoteFileNo = fileNo) {startPoint size : Nat} (hwalk : Walkable m fileNo startPoint size)
    (hbound : max (m.sizeOf path) (max fm.stSize (startPoint + size)) < 2 ^ 64) :
    ∃ m' fm' rest, getBlocksFromMaster m e o .write fm startPoint size = some (m', fm', .ok rest) ∧
      SharedFile clients m' path fileNo ∧ m'.sizeOf path = max (m.sizeOf path) (max fm.stSize (startPoint + size)) ∧
      fm'.stSize = m'.sizeOf path ∧ fm'.remoteFileNo = fileNo := by
  obtain ⟨st, r, f, hst, hext, ho, hobj, hpath⟩ := h.entry
  have hsize : m.sizeOf path = st.status.stSize := by simp [Master.sizeOf, hst]
  obtain ⟨f', st', n, hobj', hop, hn⟩ := h.table.objects hobj.buffered
  obtain rfl : f = f' := Option.some.inj (hobj.object.symm.trans hobj'.object)
  obtain rfl : st = st' := Option.some.inj (hobj.entry.symm.trans hobj'.entry)
  obtain ⟨bl, hbl⟩ := Option.ne_none_iff_exists'.mp (hwalk r f hobj.buffered hobj.object)
  let fm1 := fm.writeUpdateFileSize startPoint size
  have hfm1 : fm1.fileStat.stSize = max fm.stSize (startPoint + size) :=
    FileMeta.writeUpdateFileSize_stSize fm startPoint size
  obtain ⟨msg, hmsg, hout⟩ := Master.parseWriteFile_progress hobj hn hbl o fm1.fileStat
  let m' := m.writtenFile r f st fm1.fileStat startPoint size
  have hreq : m.parseRequest e o (blocksRequest .write fm1 startPoint size) = some (m'.reply o msg SUCCESS) := by
    show m.parseWriteFile o fm1.remoteFileNo fm1.fileStat startPoint size = _
    rw [FileMeta.writeUpdateFileSize_fileNo, hfm]
    exact hout
  -- the size travels in the reply
  have hpop : ∃ rest, popInt msg = some (SUCCESS, .size (max st.status.stSize fm1.fileStat.stSize) :: rest) := by
    unfold Master.sendBlockInfo at hmsg
    split at hmsg
    · cases hmsg
    · cases hmsg
      exact ⟨_, popInt_small (by decide) (by decide) _⟩
  obtain ⟨rest, hpop⟩ := hpop
  have hlt : max st.status.stSize fm1.fileStat.stSize < 2 ^ 64 := by
    rw [hfm1, ← hsize]
    exact hbound
  have hentry : m'.fileStatPool.find? path = some (st.setStatus (Master.receiveAttr st.status fm1.fileStat)) := by
    rw [← hpath]
    exact OrdMap.find?_put_self _ _ _
  have hsize' : m'.sizeOf path = max st.status.stSize fm1.fileStat.stSize := by
    simp [Master.sizeOf, hentry, Master.receiveAttr]
  refine ⟨m', fm1.updateFileSizeFromMaster (max st.status.stSize fm1.fileStat.stSize), rest, ?_, ?_, ?_, ?_, ?_⟩
  · simp only [getBlocksFromMaster, if_pos]
    rw [show fm.writeUpdateFileSize startPoint size = fm1 from rfl, hreq]
    simp only [response_reply, Option.bind_some, hpop, if_pos, popSize_small hlt]
    rfl
  · obtain ⟨htable, hapart⟩ := h.after_request hreq rfl trivial (by
      show ∀ r f, _ → _ → _
      rw [FileMeta.writeUpdateFileSize_fileNo, hfm]
      exact hwalk)
    refine ⟨htable, hapart, st.setStatus (Master.receiveAttr st.status fm1.fileStat), r,
      f.setBlocks (allocateNewBlocksForWriting f.blockList startPoint size), hentry, hext, ho, ⟨hobj.buffered, ?_, ?_⟩, hpath⟩
    · show Function.update m.files r _ r = _
      rw [Function.update_self]
    · show (m.fileStatPool.put f.fileStatus _).find? f.fileStatus = _
      exact OrdMap.find?_put_self _ _ _
  · rw [hsize', hfm1, hsize]
  · rw [FileMeta.updateFileSizeFromMaster_stSize, hsize']
    show max fm1.fileStat.stSize _ = _
    omega
  · rw [FileMeta.updateFileSizeFromMaster_fileNo, FileMeta.writeUpdateFileSize_fileNo]
    exact hfm

/-- **A truncate** sets the Master's size, and nothing at the client. -/
theorem truncate (h : SharedFile clients m path fileNo) (e : Env) {o : Origin} (ho : o.handle ∈ clients) (size : Nat) :
    ∃ m', HuronFS.truncate m e o path size = some (m', SUCCESS) ∧ SharedFile clients m' path fileNo ∧
      m'.sizeOf path = size := by
  obtain ⟨st, r, f, hst, hext, hop, hobj, hpath⟩ := h.entry
  have hsurv : m.Survives o (.truncate path size) := by
    intro s hs
    rw [hst] at hs
    cases hs
    exact Or.inr (by rw [hop]; simp)
  obtain ⟨out, hreq, _⟩ := h.table.parseRequest_survives e o hsurv
  rcases Master.parseTruncateFile_some hreq with ⟨hnone, _⟩ | ⟨s, hs, hx, _⟩ | ⟨s, m', ops, hs, _, htr, hout⟩
  · rw [hst] at hnone
    cases hnone
  · rw [hst] at hs
    cases hs
    rw [hext] at hx
    cases hx
  · rw [hst] at hs
    cases hs
    obtain ⟨r', f', st', hr', hf', hst', hm', _⟩ := Master.truncateLocal_some htr
    rw [hop] at hr'
    cases hr'
    obtain rfl : f = f' := Option.some.inj (hobj.object.symm.trans hf')
    obtain rfl : st = st' := Option.some.inj (hobj.entry.symm.trans hst')
    have hentry : m'.fileStatPool.find? path = some (st.setStatus { st.status with stSize := size }) := by
      rw [hm', ← hpath]
      exact OrdMap.find?_put_self _ _ _
    have hmsg : response o out = some [.int m.masterNumber, .int SUCCESS] := by
      rw [hout]
      exact response_after h.apart ho (Master.truncateLocal_effect htr).sends _ _ _
    refine ⟨m', ?_, ?_, ?_⟩
    · simp only [HuronFS.truncate, hreq, hmsg, Option.bind_some]
      rw [hout]
      rfl
    · obtain ⟨htable, hapart⟩ := h.after_request hreq rfl trivial hsurv
      rw [hout] at htable hapart
      refine ⟨htable, hapart, _, r, f, hentry, hext, hop, ⟨?_, ?_, ?_⟩, hpath⟩
      · rw [hm']; exact hobj.buffered
      · rw [hm']; exact hobj.object
      · rw [hpath]; exact hentry
    · simp [Master.sizeOf, hentry]

end SharedFile

/-! ## Clients and the reference -/

/-- A call on the shared file by client `i`. -/
inductive SizeCall (ι : Type)
  | write (i : ι) (e : Env) (off n : Nat)
  | truncate (i : ι) (e : Env) (size : Nat)
  | ftruncate (i : ι) (e : Env) (size : Nat)
  | getattr (i : ι)

/-- The Master and the `file_meta` of each client. -/
structure SizeSystem (ι : Type) where
  master : Master
  metas : ι → FileMeta

/-- What the size should be, the client that made the last size-changing call (a write of some bytes, a
    truncate or an ftruncate), and the client whose call last made the size another one. -/
structure SizeReference (ι : Type) where
  size : Nat
  last : Option ι
  changed : Option ι

/-- The reference after a size-changing call. -/
def SizeReference.resize {ι : Type} (ref : SizeReference ι) (i : ι) (size : Nat) : SizeReference ι :=
  ⟨size, some i, if size = ref.size then ref.changed else some i⟩

/-- The reference semantics of a call. A write of no bytes calls for no change of the size, and makes
    none while it starts inside the file. -/
def SizeReference.call {ι : Type} (ref : SizeReference ι) : SizeCall ι → SizeReference ι
  | .write i _ off n =>
      if n = 0 then { ref with size := max ref.size (off + n) } else ref.resize i (max ref.size (off + n))
  | .truncate i _ size => ref.resize i size
  | .ftruncate i _ size => ref.resize i size
  | .getattr _ => ref

section

variable {ι : Type} [DecidableEq ι]

/-- A call as the clients and the Master execute it. `_write` returns at once for no bytes; its data
    transfer does not touch sizes. -/
def SizeSystem.call (origin : ι → Origin) (path : Str) (s : SizeSystem ι) : SizeCall ι → Option (SizeSystem ι)
  | .write i e off n =>
      if n = 0 then some s
      else
        (getBlocksFromMaster s.master e (origin i) .write ((s.metas i).updateAccessTime e.now) off n).map
          (fun (m', fm', _) => ⟨m', Function.update s.metas i fm'⟩)
  | .truncate i e size => (truncate s.master e (origin i) path size).map (fun (m', _) => ⟨m', s.metas⟩)
  | .ftruncate i e size =>
      (ftruncate s.master e (origin i) path (s.metas i) size).map (fun (m', fm', _) =>
        ⟨m', Function.update s.metas i fm'⟩)
  | .getattr _ => some s

/-- The system next to its reference. -/
def sizeStep (origin : ι → Origin) (path : Str) (t : SizeSystem ι × SizeReference ι) (c : SizeCall ι) :
    Option (SizeSystem ι × SizeReference ι) :=
  (t.1.call origin path c).map (fun s' => (s', t.2.call c))

/-- **The sizes agree**: the Master has the reference size, and a client that made the last size-changing
    call, or the last change, is told it. -/
structure Coherent (origin : ι → Origin) (path : Str) (t : SizeSystem ι × SizeReference ι) : Prop where
  master : t.1.master.sizeOf path = t.2.size
  told : ∀ i, t.2.last = some i ∨ t.2.changed = some i → ∀ e, ∃ st,
    getattr t.1.master e (origin i) path (some (t.1.metas i)) = some (.ok st) ∧ st.stSize = t.2.size

/-- The condition on a call. -/
def SizeGuard (path : Str) (fileNo : Int) (t : SizeSystem ι × SizeReference ι) : SizeCall ι → Prop
  | .write i _ off n =>
      if n = 0 then off ≤ t.1.master.sizeOf path
      else (t.1.metas i).stSize ≤ max (t.1.master.sizeOf path) (off + n) ∧ off + n < 2 ^ 63 ∧
        Walkable t.1.master fileNo off n
  | .truncate i _ size => (t.1.metas i).stSize = size ∧ size < 2 ^ 63
  | .ftruncate _ _ size => size < 2 ^ 63
  | .getattr _ => True

/-- What every call keeps. -/
structure SizeInv (origin : ι → Origin) (path : Str) (fileNo : Int) (t : SizeSystem ι × SizeReference ι) : Prop where
  file : SharedFile (Set.range (fun i => (origin i).handle)) t.1.master path fileNo
  master : t.1.master.sizeOf path = t.2.size
  bound : t.2.size < 2 ^ 63
  number : ∀ i, (t.1.metas i).remoteFileNo = fileNo
  told : ∀ i, t.2.last = some i ∨ t.2.changed = some i → (t.1.metas i).stSize = t.2.size

namespace SizeInv

variable {origin : ι → Origin} {path : Str} {fileNo : Int} {t : SizeSystem ι × SizeReference ι}

omit [DecidableEq ι] in
theorem coherent (h : SizeInv origin path fileNo t) : Coherent origin path t :=
  ⟨h.master, fun i hi _ => ⟨_, rfl, h.told i hi⟩⟩

/-- A size-changing call of client `i` that leaves both its `file_meta` and the Master at the new size, and
    the other clients alone. -/
theorem resize (h : SizeInv origin path fileNo t) {i : ι} {m' : Master} {fm' : FileMeta} {size : Nat}
    (hfile : SharedFile (Set.range (fun i => (origin i).handle)) m' path fileNo) (hm' : m'.sizeOf path = size)
    (hfm' : fm'.stSize = size) (hno : fm'.remoteFileNo = fileNo) (hbound : size < 2 ^ 63) :
    SizeInv origin path fileNo (⟨m', Function.update t.1.metas i fm'⟩, t.2.resize i size) := by
  refine ⟨hfile, hm', hbound, ?_, ?_⟩
  · intro j
    show (Function.update t.1.metas i fm' j).remoteFileNo = fileNo
    by_cases hj : j = i
    · rw [hj, Function.update_self]
      exact hno
    · rw [Function.update_of_ne hj]
      exact h.number j
  · intro j hj
    show (Function.update t.1.metas i fm' j).stSize = size
    by_cases hji : j = i
    · rw [hji, Function.update_self]
      exact hfm'
    · -- another client can only be the one that last changed the size, and then the size is unchanged
      rw [Function.update_of_ne hji]
      rcases hj with hj | hj
      · exact absurd (Option.some.inj hj).symm hji
      · simp only [SizeReference.resize] at hj
        split at hj
        · rename_i hsame
          rw [hsame]
          exact h.told j (Or.inr hj)
        · exact absurd (Option.some.inj hj).symm hji

/-- **One call.** -/
theorem step (h : SizeInv origin path fileNo t) (c : SizeCall ι) (hg : SizeGuard path fileNo t c) :
    ∃ t', sizeStep origin path t c = some t' ∧ SizeInv origin path fileNo t' := by
  obtain ⟨s, ref⟩ := t
  have hmem : ∀ i, (origin i).handle ∈ Set.range (fun i => (origin i).handle) := fun i => ⟨i, rfl⟩
  cases c with
  | write i e off n =>
      by_cases hn : n = 0
      · simp only [SizeGuard, if_pos hn] at hg
        have hsame : max ref.size (off + n) = ref.size := by
          have hm := h.master
          simp only at hm
          omega
        refine ⟨(s, { ref with size := max ref.size (off + n) }), ?_, ?_⟩
        · simp only [sizeStep, SizeSystem.call, SizeReference.call, if_pos hn, Option.map_some]
        · rw [hsame]
          exact h
      · simp only [SizeGuard, if_neg hn] at hg
        obtain ⟨hstale, hbound, hwalk⟩ := hg
        have hm : s.master.sizeOf path = ref.size := h.master
        have hb : ref.size < 2 ^ 63 := h.bound
        have hmax : max (s.master.sizeOf path) (max (s.metas i).stSize (off + n)) = max ref.size (off + n) := by
          omega
        obtain ⟨m', fm', rest, hcall, hfile, hm', hfm', hno⟩ := h.file.write e (origin i)
          ((s.metas i).updateAccessTime e.now) (h.number i) hwalk (by
            rw [FileMeta.updateAccessTime_stSize, hmax]
            omega)
        rw [FileMeta.updateAccessTime_stSize, hmax] at hm'
        refine ⟨(⟨m', Function.update s.metas i fm'⟩, ref.resize i (max ref.size (off + n))), ?_, ?_⟩
        · simp only [sizeStep, SizeSystem.call, SizeReference.call, if_neg hn, hcall, Option.map_some]
        · exact h.resize hfile hm' (hfm'.trans hm') hno (by omega)
  | truncate i e size =>
      obtain ⟨hsame, hbound⟩ := hg
      obtain ⟨m', hcall, hfile, hm'⟩ := h.file.truncate e (hmem i) size
      refine ⟨(⟨m', s.metas⟩, ref.resize i size), ?_, ?_⟩
      · simp only [sizeStep, SizeSystem.call, SizeReference.call, hcall, Option.map_some]
      · have hinv := h.resize (i := i) hfile hm' hsame (h.number i) hbound
        rwa [Function.update_eq_self] at hinv
  | ftruncate i e size =>
      obtain ⟨m', hcall, hfile, hm'⟩ := h.file.truncate e (hmem i) size
      refine ⟨(⟨m', Function.update s.metas i (((s.metas i).setSize size).updateAccessTime e.now)⟩, ref.resize i size),
        ?_, ?_⟩
      · simp only [sizeStep, SizeSystem.call, SizeReference.call, ftruncate, hcall, Option.map_some]
      · exact h.resize hfile hm' rfl (h.number i) hg
  | getattr i => exact ⟨(s, ref), rfl, h⟩

end SizeInv

/-- **File sizes are coherent over every guarded run** of writes, truncates, ftruncates and getattrs by any
    number of clients, from a Master that has the file open. -/
theorem sizes_coherent {origin : ι → Origin} {path : Str} {fileNo : Int} {s : SizeSystem ι}
    (hfile : SharedFile (Set.range (fun i => (origin i).handle)) s.master path fileNo)
    (hbound : s.master.sizeOf path < 2 ^ 63) (hno : ∀ i, (s.metas i).remoteFileNo = fileNo) (calls : List (SizeCall ι))
    (hg : Run.Guarded (sizeStep origin path) (SizeGuard path fileNo) (s, ⟨s.master.sizeOf path, none, none⟩) calls) :
    ∃ t, Run.run (sizeStep origin path) (s, ⟨s.master.sizeOf path, none, none⟩) calls = some t ∧
      Coherent origin path t := by
  have hinit : SizeInv origin path fileNo (s, ⟨s.master.sizeOf path, none, none⟩) := by
    refine ⟨hfile, rfl, hbound, hno, ?_⟩
    intro i hi
    rcases hi with hi | hi
    · cases hi
    · cases hi
  obtain ⟨t, hrun, hinv⟩ := Run.run_progress (fun t c h hg => SizeInv.step h c hg) hinit hg
  exact ⟨t, hrun, hinv.coherent⟩

end

/-! Two clients, on handles 3 and 4, that have `/a` open, of size zero, with an IOnode on handle 7. -/

def twoOrigins (i : Bool) : Origin := if i then clientA else clientB

def openedA : Master :=
  ((Master.oneNode.parseRequest ⟨0, 0, 0⟩ clientA (.openFile Master.pathA 0 0)).map Outcome.master).getD Master.oneNode

def sharedA : SizeSystem Bool := ⟨openedA, fun _ => ⟨0, Stat.zero⟩⟩

theorem openedA_shared : SharedFile (Set.range (fun i => (twoOrigins i).handle)) openedA Master.pathA 0 := by
  have hpool : ∀ p s, (OrdMap.empty : OrdMap Str FileStat).find? p = some s → s.openedFileInfo = none := by
    intro p s hs
    simp at hs
  have hnode : OpenInv Master.oneNode := (Master.initial_openInv hpool 0 [] 0).addIOnode Master.pathA 100 7
  have hapart : NodesApart (Set.range (fun i => (twoOrigins i).handle)) Master.oneNode := by
    intro r n hn
    obtain ⟨t, _, _, _, hnodes⟩ := Master.parseRegister_replies (Master.initial OrdMap.empty 0 [] 0) ⟨7, 0⟩ 100 Master.pathA
    rcases hnodes r n hn with he | ⟨n', hn', _⟩
    · rw [he]
      rintro ⟨i, hi⟩
      cases i with
      | false => cases hi
      | true => cases hi
    · cases hn'
  have hsome : ∃ out, Master.oneNode.parseRequest ⟨0, 0, 0⟩ clientA (.openFile Master.pathA 0 0) = some out ∧
      out.master = openedA := ⟨_, rfl, rfl⟩
  obtain ⟨out, hout, hm⟩ := hsome
  have hsurv : Master.oneNode.Survives clientA (.openFile Master.pathA 0 0) := Or.inr (by decide)
  obtain ⟨out', hout', hinv⟩ := hnode.parseRequest_survives ⟨0, 0, 0⟩ clientA hsurv
  rw [hout] at hout'
  cases hout'
  have hh := (Master.parseRequest_replies hout rfl trivial).handles
  rw [hm] at hinv hh
  exact ⟨hinv, hapart.of_handles hh, _, 0, _, rfl, rfl, rfl, ⟨rfl, rfl, rfl⟩, rfl⟩

/-- A write and an ftruncate by the first client. -/
theorem sizes_coherent_write_ftruncate :
    ∃ t, Run.run (sizeStep twoOrigins Master.pathA) (sharedA, ⟨openedA.sizeOf Master.pathA, none, none⟩)
        [.write true ⟨0, 0, 0⟩ 0 100, .ftruncate true ⟨0, 0, 0⟩ 10] = some t ∧ Coherent twoOrigins Master.pathA t := by
  refine sizes_coherent openedA_shared (by decide) (fun _ => rfl) _ ⟨?_, ?_⟩
  · refine ⟨by decide, by decide, ?_⟩
    intro r f hr hf
    cases hr
    cases hf
    decide
  · intro t _
    refine ⟨by show 10 < 2 ^ 63; decide, ?_⟩
    intro _ _
    trivial

/-- **A write after a truncate restores the old size.** A client writes 100 bytes, truncates the path to
    10, is told 100, and a write of 5 bytes at the start makes the Master's size 100 again. -/
theorem sizes_incoherent_after_truncate :
    ∃ t t', Run.run (sizeStep twoOrigins Master.pathA) (sharedA, ⟨openedA.sizeOf Master.pathA, none, none⟩)
        [.write true ⟨0, 0, 0⟩ 0 100, .truncate true ⟨0, 0, 0⟩ 10] = some t ∧
      t.2.size = 10 ∧ t.2.last = some true ∧
      (∃ st, getattr t.1.master ⟨0, 0, 0⟩ clientA Master.pathA (some (t.1.metas true)) = some (.ok st) ∧ st.stSize = 100) ∧
      sizeStep twoOrigins Master.pathA t (.write true ⟨0, 0, 0⟩ 0 5) = some t' ∧
      t'.2.size = 10 ∧ t'.1.master.sizeOf Master.pathA = 100 := by
  refine ⟨_, _, rfl, rfl, rfl, ⟨_, rfl, ?_⟩, rfl, rfl, ?_⟩
  · decide
  · decide

end HuronFS
