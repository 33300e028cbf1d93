import HuronFS.Client.Coherence
import HuronFS.Lib.Run

/-!
# `Client.Growth` — concurrent growth of one file

Any number of clients write to one open file. Each sends its own attributes, with the size its write leads to, in
`WRITE_FILE` and `UPDATE_META` messages; the messages of a client are a queue, and the Master takes the oldest one of
any client at any time. A reply may be taken at any later time, after other messages of the same client. The handlers
overwrite the whole record and put the larger size back, so the size is the maximum of all that arrived.
-/

namespace HuronFS

open Master (FileObjects)

namespace Growth

/-- The range of a write. Its end is an `off64_t`. -/
structure Extent where
  startPoint : Nat
  size : Nat
  in_range : startPoint + size < 2 ^ 63

/-- A message on its way to the Master. -/
inductive Sent
  | writeFile (attr : Stat) (range : Extent)
  | updateMeta (attr : Stat)

/-- The `st_size` a message carries. -/
def Sent.stSize : Sent → Nat
  | .writeFile attr _ => attr.stSize
  | .updateMeta attr => attr.stSize

def Sent.request (fileNo : Int) : Sent → Request
  | .writeFile attr range => .writeFile fileNo attr range.startPoint range.size
  | .updateMeta attr => .updateMeta fileNo attr

/-- A reply on its way to a client, next to the Master's size when it was built. -/
structure Answer where
  message : List Field
  built : Nat

/-- The Master, the clients and what is under way. `received` and `answered` record the sizes that have arrived at the
    Master and the writes it has replied to. -/
structure System (ι : Type) where
  master : Master
  metas : ι → FileMeta
  sent : ι → List Sent
  replies : ι → List Answer
  received : List Nat
  answered : List Extent

/-- A client writes (`_write`) or updates the metadata (`_update_meta`), the Master handles a client's oldest message,
    a client takes one of its replies. -/
inductive Event (ι : Type)
  | write (i : ι) (now : BitVec 64) (range : Extent)
  | updateMeta (i : ι) (range : Extent)
  | handle (i : ι) (e : Env)
  | receive (i : ι) (j : Nat)

section

variable {ι : Type} [DecidableEq ι]

/-- The first message of a client has been handled. -/
def System.handled (origin : ι → Origin) (path : Str) (s : System ι) (i : ι) (msg : Sent) (rest : List Sent)
    (out : Outcome) : System ι :=
  { s with
    master := out.master
    sent := Function.update s.sent i rest
    replies := match response (origin i) out with
      | none => s.replies
      | some message => Function.update s.replies i (s.replies i ++ [⟨message, out.master.sizeOf path⟩])
    received := s.received ++ [msg.stSize]
    answered := match msg with
      | .writeFile _ range => range :: s.answered
      | .updateMeta _ => s.answered }

/-- The client's side of a reply: `_update_file_size_from_master` when it is a success. -/
def takeReply (fm : FileMeta) (message : List Field) : Option FileMeta :=
  match popInt message with
  | none => none
  | some (ret, rest) =>
      if ret = SUCCESS then (popSize rest).map (fun (fileSize, _) => fm.updateFileSizeFromMaster fileSize) else some fm

def step (origin : ι → Origin) (path : Str) (fileNo : Int) (s : System ι) : Event ι → Option (System ι)
  | .write i now range =>
      let fm := ((s.metas i).updateAccessTime now).writeUpdateFileSize range.startPoint range.size
      some { s with
        metas := Function.update s.metas i fm
        sent := Function.update s.sent i (s.sent i ++ [.writeFile fm.fileStat range]) }
  | .updateMeta i range =>
      let fm := (s.metas i).writeUpdateFileSize range.startPoint range.size
      some { s with
        metas := Function.update s.metas i fm
        sent := Function.update s.sent i (s.sent i ++ [.updateMeta fm.fileStat]) }
  | .handle i e =>
      match s.sent i with
      | [] => none
      | msg :: rest => (s.master.parseRequest e (origin i) (msg.request fileNo)).map (s.handled origin path i msg rest)
  | .receive i j =>
      match (s.replies i)[j]? with
      | none => none
      | some answer => (takeReply (s.metas i) answer.message).map (fun fm =>
          { s with
            metas := Function.update s.metas i fm
            replies := Function.update s.replies i ((s.replies i).eraseIdx j) })

/-- **No growth is lost**: the size is the largest that ever arrived, whatever the order; it covers every write that has been
    replied to; no step makes it smaller; and a client that takes a reply stores at least the size it was built with. -/
structure SizesGrow (origin : ι → Origin) (path : Str) (fileNo : Int) (initial : Nat) (s : System ι) : Prop where
  size_eq : s.master.sizeOf path = s.received.foldl max initial
  anyOrder : ∀ order : List Nat, order.Perm s.received → order.foldl max initial = s.master.sizeOf path
  covers : ∀ range ∈ s.answered, range.startPoint + range.size ≤ s.master.sizeOf path
  grows : ∀ ev s', step origin path fileNo s ev = some s' → s.master.sizeOf path ≤ s'.master.sizeOf path
  stored : ∀ i j answer, (s.replies i)[j]? = some answer → ∃ s', step origin path fileNo s (.receive i j) = some s' ∧
    answer.built ≤ (s'.metas i).stSize

/-! ## The Master's size -/

/-- The file is open under its number. -/
def Opened (m : Master) (path : Str) (fileNo : Int) : Prop := ∃ r f st, FileObjects m fileNo r f st ∧ f.fileStatus = path

theorem sizeOf_of_entry {m : Master} {path : Str} {st : FileStat} (h : m.fileStatPool.find? path = some st) :
    m.sizeOf path = st.status.stSize := by
  unfold Master.sizeOf
  rw [h]
  rfl

/-- What a message does: the larger size stays, and a write is answered with it. -/
theorem parse_sent {m : Master} {path : Str} {fileNo : Int} (h : Opened m path fileNo) {e : Env} {o : Origin} {msg : Sent}
    {out : Outcome} (hout : m.parseRequest e o (msg.request fileNo) = some out) :
    Opened out.master path fileNo ∧ out.master.sizeOf path = max (m.sizeOf path) msg.stSize ∧
      ∀ message, response o out = some message → ∃ rest,
        message = .int SUCCESS :: .size (out.master.sizeOf path) :: rest := by
  obtain ⟨r, f, st, hobj, rfl⟩ := h
  rw [sizeOf_of_entry hobj.entry]
  cases msg with
  | writeFile attr range =>
      rcases Master.parseWriteFile_some hout with ⟨hnone, -⟩ | ⟨r', f', st', bl, message, hobj', -, hmsg, rfl⟩
      · rw [hobj.buffered] at hnone
        cases hnone
      · obtain rfl : r = r' := Option.some.inj (hobj.buffered.symm.trans hobj'.buffered)
        obtain rfl : f = f' := Option.some.inj (hobj.object.symm.trans hobj'.object)
        obtain rfl : st = st' := Option.some.inj (hobj.entry.symm.trans hobj'.entry)
        have hentry : (m.writtenFile r f st attr range.startPoint range.size).fileStatPool.find? f.fileStatus
            = some (st.setStatus (Master.receiveAttr st.status attr)) := OrdMap.find?_put_self ..
        have hsize := sizeOf_of_entry hentry
        refine ⟨⟨r, _, _, ⟨hobj.buffered, Function.update_self .., hentry⟩, rfl⟩, hsize, ?_⟩
        intro message' hresponse
        rw [response_reply] at hresponse
        obtain rfl := Option.some.inj hresponse
        show ∃ rest, message = .int SUCCESS :: .size
          ((m.writtenFile r f st attr range.startPoint range.size).sizeOf f.fileStatus) :: rest
        rw [hsize]
        unfold Master.sendBlockInfo at hmsg
        split at hmsg
        · cases hmsg
        · cases hmsg
          exact ⟨_, rfl⟩
  | updateMeta attr =>
      obtain ⟨hops, ⟨hnone, -⟩ | ⟨r', f', st', hobj', hmaster⟩⟩ := Master.parseMetaUpdate_some hout
      · rw [hobj.buffered] at hnone
        cases hnone
      · obtain rfl : r = r' := Option.some.inj (hobj.buffered.symm.trans hobj'.buffered)
        obtain rfl : f = f' := Option.some.inj (hobj.object.symm.trans hobj'.object)
        obtain rfl : st = st' := Option.some.inj (hobj.entry.symm.trans hobj'.entry)
        rw [hmaster]
        have hentry : (m.setStat f.fileStatus (st.setStatus (Master.receiveAttr st.status attr))).fileStatPool.find?
            f.fileStatus = some (st.setStatus (Master.receiveAttr st.status attr)) := OrdMap.find?_put_self ..
        refine ⟨⟨r, f, _, ⟨hobj.buffered, hobj.object, hentry⟩, rfl⟩, sizeOf_of_entry hentry, ?_⟩
        -- nothing is sent back
        intro message hresponse
        unfold response at hresponse
        rw [hops] at hresponse
        cases hresponse

/-! ## The invariant -/

/-- What holds at any time. Sizes are `off_t` values, a write in flight carries at least its own end, and a reply carries
    the size it was built with. -/
structure Inv (path : Str) (fileNo : Int) (initial : Nat) (s : System ι) : Prop where
  opened : Opened s.master path fileNo
  size_eq : s.master.sizeOf path = s.received.foldl max initial
  bound : s.master.sizeOf path < 2 ^ 63
  metas : ∀ i, (s.metas i).stSize < 2 ^ 63
  sent : ∀ i msg, msg ∈ s.sent i → msg.stSize < 2 ^ 63 ∧
    ∀ attr range, msg = .writeFile attr range → range.startPoint + range.size ≤ attr.stSize
  replies : ∀ i answer, answer ∈ s.replies i → answer.built < 2 ^ 63 ∧
    ∃ rest, answer.message = .int SUCCESS :: .size answer.built :: rest
  covers : ∀ range ∈ s.answered, range.startPoint + range.size ≤ s.master.sizeOf path

variable {origin : ι → Origin} {path : Str} {fileNo : Int} {initial : Nat} {s s' : System ι}

omit [DecidableEq ι] in
/-- What a client makes of a reply that carries a size. -/
theorem takeReply_eq (fm : FileMeta) {built : Nat} (hbuilt : built < 2 ^ 63) (rest : List Field) :
    takeReply fm (.int SUCCESS :: .size built :: rest) = some (fm.updateFileSizeFromMaster built) := by
  unfold takeReply
  rw [popInt_small (by decide) (by decide)]
  dsimp only
  rw [if_pos rfl, popSize_small (by omega)]
  rfl

/-- **A client's own step**: its size grows to the end of the range, and the message carries that. -/
theorem Inv.send (h : Inv path fileNo initial s) (i : ι) {fm : FileMeta} {msg : Sent} {range : Extent}
    (hfm : fm.stSize = max (s.metas i).stSize (range.startPoint + range.size)) (hmsg : msg.stSize = fm.stSize)
    (hwrite : ∀ attr x, msg = .writeFile attr x → x = range) :
    Inv path fileNo initial { s with
      metas := Function.update s.metas i fm, sent := Function.update s.sent i (s.sent i ++ [msg]) } := by
  have hbound : fm.stSize < 2 ^ 63 := by
    have hmeta := h.metas i
    have hrange := range.in_range
    omega
  refine ⟨h.opened, h.size_eq, h.bound, ?_, ?_, h.replies, h.covers⟩
  · intro j
    show (Function.update s.metas i fm j).stSize < 2 ^ 63
    by_cases hj : j = i
    · rw [hj, Function.update_self]
      exact hbound
    · rw [Function.update_of_ne hj]
      exact h.metas j
  · intro j other hother
    have hother' : other ∈ Function.update s.sent i (s.sent i ++ [msg]) j := hother
    by_cases hj : j = i
    · rw [hj, Function.update_self] at hother'
      rcases List.mem_append.mp hother' with hold | hnew
      · exact h.sent i other hold
      · obtain rfl := List.mem_singleton.mp hnew
        refine ⟨by omega, ?_⟩
        rintro attr x rfl
        obtain rfl := hwrite attr x rfl
        have hattr : attr.stSize = fm.stSize := hmsg
        omega
    · rw [Function.update_of_ne hj] at hother'
      exact h.sent j other hother'

/-- **A message handled.** -/
theorem Inv.handle (h : Inv path fileNo initial s) {i : ι} {e : Env} {msg : Sent} {rest : List Sent} (hsent : s.sent i = msg :: rest)
    {out : Outcome} (hout : s.master.parseRequest e (origin i) (msg.request fileNo) = some out) :
    Inv path fileNo initial (s.handled origin path i msg rest out) ∧ s.master.sizeOf path ≤ out.master.sizeOf path := by
  obtain ⟨hopened, hsize, hreply⟩ := parse_sent h.opened hout
  obtain ⟨hmsg, hwrite⟩ := h.sent i msg (by rw [hsent]; exact List.mem_cons_self)
  have hbound := h.bound
  have hbound' : out.master.sizeOf path < 2 ^ 63 := by omega
  refine ⟨⟨hopened, ?_, hbound', h.metas, ?_, ?_, ?_⟩, by omega⟩
  · show out.master.sizeOf path = (s.received ++ [msg.stSize]).foldl max initial
    rw [List.foldl_append, ← h.size_eq, hsize]
    rfl
  · intro j other hother
    have hother' : other ∈ Function.update s.sent i rest j := hother
    by_cases hj : j = i
    · rw [hj, Function.update_self] at hother'
      exact h.sent i other (by rw [hsent]; exact List.mem_cons_of_mem _ hother')
    · rw [Function.update_of_ne hj] at hother'
      exact h.sent j other hother'
  · intro j answer hanswer
    unfold System.handled at hanswer
    dsimp only at hanswer
    cases hresponse : response (origin i) out with
    | none =>
        rw [hresponse] at hanswer
        exact h.replies j answer hanswer
    | some message =>
        rw [hresponse] at hanswer
        dsimp only at hanswer
        by_cases hj : j = i
        · rw [hj, Function.update_self] at hanswer
          rcases List.mem_append.mp hanswer with hold | hnew
          · exact h.replies i answer hold
          · obtain rfl := List.mem_singleton.mp hnew
            exact ⟨hbound', hreply message hresponse⟩
        · rw [Function.update_of_ne hj] at hanswer
          exact h.replies j answer hanswer
  · intro range hrange
    show range.startPoint + range.size ≤ out.master.sizeOf path
    have hold : range ∈ s.answered → range.startPoint + range.size ≤ out.master.sizeOf path := by
      intro hmem
      have := h.covers range hmem
      omega
    cases msg with
    | writeFile attr x =>
        rcases List.mem_cons.mp hrange with rfl | hmem
        · have := hwrite attr range rfl
          have hattr : (Sent.writeFile attr range).stSize = attr.stSize := rfl
          omega
        · exact hold hmem
    | updateMeta attr => exact hold hrange

/-- **A reply taken.** -/
theorem Inv.receive (h : Inv path fileNo initial s) (origin : ι → Origin) {i : ι} {j : Nat} {answer : Answer} (hj : (s.replies i)[j]? = some answer) :
    ∃ s', step origin path fileNo s (.receive i j) = some s' ∧ Inv path fileNo initial s' ∧ s'.master = s.master ∧
      answer.built ≤ (s'.metas i).stSize := by
  obtain ⟨hbuilt, rest, hmessage⟩ := h.replies i answer (List.mem_of_getElem? hj)
  have htake : takeReply (s.metas i) answer.message = some ((s.metas i).updateFileSizeFromMaster answer.built) := by
    rw [hmessage]
    exact takeReply_eq _ hbuilt rest
  have hstep : step origin path fileNo s (.receive i j) = some { s with
      metas := Function.update s.metas i ((s.metas i).updateFileSizeFromMaster answer.built)
      replies := Function.update s.replies i ((s.replies i).eraseIdx j) } := by
    simp only [step, hj, htake, Option.map_some]
  refine ⟨_, hstep, ⟨h.opened, h.size_eq, h.bound, ?_, h.sent, ?_, h.covers⟩, rfl, ?_⟩
  · intro k
    show (Function.update s.metas i _ k).stSize < 2 ^ 63
    by_cases hk : k = i
    · have hmeta := h.metas i
      rw [hk, Function.update_self, FileMeta.updateFileSizeFromMaster_stSize]
      omega
    · rw [Function.update_of_ne hk]
      exact h.metas k
  · intro k other hother
    have hother' : other ∈ Function.update s.replies i ((s.replies i).eraseIdx j) k := hother
    by_cases hk : k = i
    · rw [hk, Function.update_self] at hother'
      exact h.replies i other (List.mem_of_mem_eraseIdx hother')
    · rw [Function.update_of_ne hk] at hother'
      exact h.replies k other hother'
  · show answer.built ≤ (Function.update s.metas i _ i).stSize
    rw [Function.update_self, FileMeta.updateFileSizeFromMaster_stSize]
    exact Nat.le_max_right _ _

/-- **One step** keeps the invariant, and the size does not get smaller. -/
theorem Inv.step (h : Inv path fileNo initial s) {ev : Event ι} (hs : step origin path fileNo s ev = some s') :
    Inv path fileNo initial s' ∧ s.master.sizeOf path ≤ s'.master.sizeOf path := by
  cases ev with
  | write i now range =>
      cases hs
      refine ⟨h.send i (FileMeta.writeUpdateFileSize_stSize _ _ _) rfl ?_, Nat.le_refl _⟩
      rintro attr x hmsg
      cases hmsg
      rfl
  | updateMeta i range =>
      cases hs
      refine ⟨h.send i (FileMeta.writeUpdateFileSize_stSize _ _ _) rfl ?_, Nat.le_refl _⟩
      rintro attr x hmsg
      cases hmsg
  | handle i e =>
      cases hsent : s.sent i with
      | nil =>
          simp only [Growth.step, hsent] at hs
          cases hs
      | cons msg rest =>
          simp only [Growth.step, hsent] at hs
          obtain ⟨out, hout, rfl⟩ := Option.map_eq_some_iff.mp hs
          exact h.handle hsent hout
  | receive i j =>
      cases hj : (s.replies i)[j]? with
      | none =>
          simp only [Growth.step, hj] at hs
          cases hs
      | some answer =>
          obtain ⟨t, ht, hinv, hmaster, -⟩ := h.receive origin hj
          rw [hs] at ht
          obtain rfl := Option.some.inj ht
          exact ⟨hinv, by rw [hmaster]⟩

/-- The largest of a list of sizes does not depend on their order. -/
theorem foldl_max_perm {a b : List Nat} (h : a.Perm b) (n : Nat) : a.foldl max n = b.foldl max n :=
  h.foldl_eq' (fun _ _ _ _ _ => by omega) n

theorem Inv.grows (h : Inv path fileNo initial s) : SizesGrow origin path fileNo initial s := by
  refine ⟨h.size_eq, ?_, h.covers, ?_, ?_⟩
  · intro order horder
    rw [foldl_max_perm horder, ← h.size_eq]
  · intro ev s' hs
    exact (h.step hs).2
  · intro i j answer hj
    obtain ⟨s', hs, -, -, hle⟩ := h.receive origin hj
    exact ⟨s', hs, hle⟩

/-- A file open at the Master, with nothing under way. -/
def start (m : Master) (metas : ι → FileMeta) : System ι := ⟨m, metas, fun _ => [], fun _ => [], [], []⟩

omit [DecidableEq ι] in
theorem start_inv {m : Master} {metas : ι → FileMeta} (hopen : Opened m path fileNo) (hsize : m.sizeOf path < 2 ^ 63)
    (hmetas : ∀ i, (metas i).stSize < 2 ^ 63) : Inv path fileNo (m.sizeOf path) (start m metas) := by
  refine ⟨hopen, rfl, hsize, hmetas, ?_, ?_, ?_⟩
  · intro i msg hmsg
    cases hmsg
  · intro i answer hanswer
    cases hanswer
  · intro range hrange
    cases hrange

/-- **Concurrent growth is never lost**, for any number of clients and any interleaving. -/
theorem sizes_grow (origin : ι → Origin) {m : Master} {metas : ι → FileMeta} (hopen : Opened m path fileNo)
    (hsize : m.sizeOf path < 2 ^ 63) (hmetas : ∀ i, (metas i).stSize < 2 ^ 63) {events : List (Event ι)}
    (hrun : Run.run (step origin path fileNo) (start m metas) events = some s) :
    SizesGrow origin path fileNo (m.sizeOf path) s := by
  have hstep : ∀ (s : System ι) ev s', Inv path fileNo (m.sizeOf path) s → True → step origin path fileNo s ev = some s' →
      Inv path fileNo (m.sizeOf path) s' := fun s ev s' h _ hs => (h.step hs).1
  exact (Run.run_invariant hstep (start_inv hopen hsize hmetas) (Run.Guarded.of_forall (fun _ _ => trivial)) hrun).grows

end

/-- The second client's older message arrives after the first client's longer write. -/
def overtaken : List (Event Bool) :=
  [.updateMeta false ⟨0, 7, by decide⟩, .write true 0 ⟨0, 100, by decide⟩, .handle true ⟨0, 0, 0⟩, .handle false ⟨0, 0, 0⟩,
    .receive true 0]

theorem sizes_grow_overtaken :
    ∃ s, Run.run (step twoOrigins Master.pathA 0) (start openedA sharedA.metas) overtaken = some s ∧
      s.received = [100, 7] ∧ SizesGrow twoOrigins Master.pathA 0 (openedA.sizeOf Master.pathA) s := by
  obtain ⟨st, r, f, -, -, -, hobj, hpath⟩ := openedA_shared.entry
  obtain ⟨s, hrun, hreceived⟩ : ∃ s, Run.run (step twoOrigins Master.pathA 0) (start openedA sharedA.metas) overtaken = some s ∧
      s.received = [100, 7] := ⟨_, rfl, rfl⟩
  refine ⟨s, hrun, hreceived, sizes_grow twoOrigins ⟨r, f, st, hobj, hpath⟩ (by decide) ?_ hrun⟩
  intro i
  cases i <;> decide

end Growth

end HuronFS
