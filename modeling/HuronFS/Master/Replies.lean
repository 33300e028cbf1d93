import HuronFS.Lib.Run
import HuronFS.Common.TaskQueue
import HuronFS.Master.HandlerSpec

/-!
# `Master.Replies` — one request, one response

Every handler but one allocates, fills and publishes its tasks one after the other: some messages to
IOnodes and one reply to the requester. The exception is `_parse_flush_file` on a known file, which
calls `task_enqueue` once more. This file gives the shape of each handler's queue operations; what
follows for whole runs is in `Master.Delivery`.
-/

namespace HuronFS

/-! ## Sequences of complete sends -/

/-- Allocate, fill and publish, task after task. -/
def sends (ps : List (Nat × OutTask)) : List QueueOp := ps.flatMap (fun p => sendOn p.1 p.2)

@[simp] theorem sends_nil : sends [] = [] := rfl
theorem sends_cons (p : Nat × OutTask) (ps : List (Nat × OutTask)) : sends (p :: ps) = sendOn p.1 p.2 ++ sends ps := rfl
theorem sends_append (ps qs : List (Nat × OutTask)) : sends (ps ++ qs) = sends ps ++ sends qs := by
  unfold sends
  rw [List.flatMap_append]

theorem allocatedOn_sends (q : Nat) (ps : List (Nat × OutTask)) :
    allocatedOn q (sends ps) = (ps.filter (fun p => p.1 = q)).map Prod.snd := by
  induction ps with
  | nil => rfl
  | cons p ps ih =>
      rw [sends_cons, allocatedOn_append, ih]
      by_cases hp : p.1 = q
      · simp [sendOn, allocatedOn, hp]
      · simp [sendOn, allocatedOn, hp]

theorem enqueuesOn_sends (q : Nat) (ps : List (Nat × OutTask)) :
    enqueuesOn q (sends ps) = (allocatedOn q (sends ps)).length := by
  induction ps with
  | nil => rfl
  | cons p ps ih =>
      rw [sends_cons, allocatedOn_append, enqueuesOn_append, ih, List.length_append]
      by_cases hp : p.1 = q
      · simp [sendOn, allocatedOn, enqueuesOn, hp]
      · simp [sendOn, allocatedOn, enqueuesOn, hp]

theorem tasksOf_sends (ps : List (Nat × OutTask)) : tasksOf (sends ps) = ps.map Prod.snd := by
  induction ps with
  | nil => rfl
  | cons p ps ih =>
      rw [sends_cons, tasksOf_append, ih]
      rfl

/-- At no point has more been published than allocated. -/
theorem sends_prefix_le (q : Nat) (ps : List (Nat × OutTask)) : ∀ pre, pre <+: sends ps →
    enqueuesOn q pre ≤ (allocatedOn q pre).length := by
  induction ps with
  | nil =>
      intro pre hpre
      rw [sends_nil, List.prefix_nil] at hpre
      rw [hpre]
      exact Nat.zero_le _
  | cons p ps ih =>
      intro pre hpre
      have hops : sends (p :: ps) = .alloc p.1 p.2 :: .enqueue p.1 :: sends ps := rfl
      rw [hops] at hpre
      cases pre with
      | nil => exact Nat.zero_le _
      | cons x pre =>
          obtain ⟨rfl, hpre'⟩ := List.cons_prefix_cons.mp hpre
          cases pre with
          | nil => exact Nat.zero_le _
          | cons y pre =>
              obtain ⟨rfl, hpre''⟩ := List.cons_prefix_cons.mp hpre'
              have hrest := ih pre hpre''
              by_cases hq : p.1 = q
              · simpa [enqueuesOn, allocatedOn, hq] using hrest
              · simpa [enqueuesOn, allocatedOn, hq] using hrest

namespace Master

/-! ## The shape of the handlers' operations -/

/-- Messages to nodes of `m`, each complete. -/
def NodeSends (m : Master) (ops : List QueueOp) : Prop :=
  ∃ ts : List OutTask, ops = sends (ts.map (Prod.mk IONODE_COMMUNICATE_QUEUE_NUM)) ∧
    ∀ t ∈ ts, ∃ r n, m.nodes r = some n ∧ t.handle = n.handle

theorem NodeSends.nil (m : Master) : NodeSends m [] := ⟨[], rfl, by intro t ht; cases ht⟩

theorem NodeSends.append {m : Master} {a b : List QueueOp} (ha : NodeSends m a) (hb : NodeSends m b) :
    NodeSends m (a ++ b) := by
  obtain ⟨ts, rfl, hts⟩ := ha
  obtain ⟨us, rfl, hus⟩ := hb
  refine ⟨ts ++ us, by rw [List.map_append, sends_append], ?_⟩
  intro t ht
  rcases List.mem_append.mp ht with ht | ht
  · exact hts t ht
  · exact hus t ht

theorem NodeSends.send {m : Master} {r : NodeRef} {n : NodeInfo} (hn : m.nodes r = some n) (message : List Field) :
    NodeSends m (sendIOnode n message) := by
  refine ⟨[IOnodeTask n message], rfl, ?_⟩
  intro t ht
  rw [List.mem_singleton] at ht
  exact ⟨r, n, hn, by rw [ht]; rfl⟩

theorem NodeSends.sendEach {m : Master} {send : NodeRef → Option (List QueueOp)} {rs : List NodeRef}
    (hsend : ∀ r ops, send r = some ops → NodeSends m ops) : ∀ {ops : List QueueOp},
    Master.sendEach send rs = some ops → NodeSends m ops := by
  induction rs with
  | nil => intro ops h; cases h; exact NodeSends.nil m
  | cons r rs ih =>
      intro ops h
      unfold Master.sendEach at h
      split at h
      · rename_i a b ha hb
        cases h
        exact (hsend r a ha).append (ih hb)
      · cases h

theorem NodeSends.map {m : Master} {r : NodeRef} {f : NodeInfo → List Field} {ops : List QueueOp}
    (h : (m.nodes r).map (fun n => sendIOnode n (f n)) = some ops) : NodeSends m ops := by
  obtain ⟨n, hn, rfl⟩ := Option.map_eq_some_iff.mp h
  exact NodeSends.send hn _

/-- Nodes keep their handles. -/
def HandlesFrom (m m' : Master) : Prop :=
  ∀ r n', m'.nodes r = some n' → ∃ n, m.nodes r = some n ∧ n.handle = n'.handle

theorem HandlesFrom.of_eq {m m' : Master} (h : m'.nodes = m.nodes) : HandlesFrom m m' := by
  intro r n' hn'
  rw [h] at hn'
  exact ⟨n', hn', rfl⟩

theorem HandlesFrom.trans {m m' m'' : Master} (h : HandlesFrom m m') (h' : HandlesFrom m' m'') :
    HandlesFrom m m'' := by
  intro r n'' hn''
  obtain ⟨n', hn', he'⟩ := h' r n'' hn''
  obtain ⟨n, hn, he⟩ := h r n' hn'
  exact ⟨n, hn, he.trans he'⟩

theorem NodesTouched.handles {m m' : Master} (h : NodesTouched m m') : HandlesFrom m m' := by
  intro r n' hn'
  cases hn : m.nodes r with
  | none => rw [h.none r hn] at hn'; cases hn'
  | some n =>
      obtain ⟨s, hs⟩ := h.node r n hn
      rw [hs] at hn'
      cases hn'
      exact ⟨n, rfl, rfl⟩

theorem NodeSends.of_handles {m m' : Master} {ops : List QueueOp} (h : HandlesFrom m m') (hs : NodeSends m' ops) :
    NodeSends m ops := by
  obtain ⟨ts, rfl, hts⟩ := hs
  refine ⟨ts, rfl, ?_⟩
  intro t ht
  obtain ⟨r, n', hn', he'⟩ := hts t ht
  obtain ⟨n, hn, he⟩ := h r n' hn'
  exact ⟨r, n, hn, he'.trans he.symm⟩

theorem NodeSends.openRequest {m : Master} {file : OpenFileInfo} {node : NodeRef} {ops : List QueueOp}
    (h : m.sendOpenRequestToIOnodes file node = some ops) : NodeSends m ops := by
  unfold sendOpenRequestToIOnodes at h
  split at h
  · rename_i n msg hn _
    cases h
    exact NodeSends.send hn msg
  · cases h

/-- A helper's effect on nodes and queues: handles stay, and only complete messages to nodes go out. -/
structure NodeEffect (m m' : Master) (ops : List QueueOp) : Prop where
  handles : HandlesFrom m m'
  sends : NodeSends m ops

theorem createNewOpenFileInfo_effect {m m' : Master} {fileNo : Int} {flag : BitVec 32} {path : Str}
    {ops : List QueueOp} {res : Except OpenError FileRef}
    (h : m.createNewOpenFileInfo fileNo flag path = some (m', ops, res)) : NodeEffect m m' ops := by
  cases res with
  | error err =>
      obtain ⟨_, hops, stat, _, hrel⟩ := createNewOpenFileInfo_error h
      obtain ⟨_, _, hm'⟩ := releaseFileNo_some hrel
      refine ⟨HandlesFrom.of_eq (by rw [hm']; rfl), ?_⟩
      rw [hops]
      exact NodeSends.nil m
  | ok r =>
      obtain ⟨stat, main, pool, m2, _, _, hsel, hm', hsend⟩ := createNewOpenFileInfo_inv h
      have ht := (selectIOnode_ok hsel).1
      have hh : HandlesFrom m m' := by
        have h1 : HandlesFrom m2 m' := HandlesFrom.of_eq (by rw [hm']; rfl)
        exact ht.handles.trans h1
      exact ⟨hh, (NodeSends.sendEach (fun r ops => NodeSends.openRequest) hsend).of_handles hh⟩

theorem getFileNo_nodes (m : Master) : m.getFileNo.2.nodes = m.nodes := by
  rcases getFileNo_cases m with ⟨n, _, _, _, hg⟩ | ⟨c, _, hg⟩
  · rw [hg]; rfl
  · rw [hg]

theorem openFile_effect {m m' : Master} {e : Env} {path : Str} {flag mode : BitVec 32} {ops : List QueueOp}
    {res : Except OpenError Int} (h : m.openFile e path flag mode = some (m', ops, res)) : NodeEffect m m' ops := by
  have hno := getFileNo_nodes m
  unfold openFile at h
  split at h
  · simp only at h
    split at h
    · have hm1 : HandlesFrom m (m.getFileNo.2.createNewFileStat e path .notExist (S_IFREG ||| mode)) :=
        HandlesFrom.of_eq hno
      split at h
      · cases h
      · rename_i m2 ops' err hc
        cases h
        have heff := createNewOpenFileInfo_effect hc
        exact ⟨hm1.trans heff.handles, heff.sends.of_handles hm1⟩
      · rename_i m2 ops' r hc
        cases h
        have heff := createNewOpenFileInfo_effect hc
        exact ⟨hm1.trans heff.handles, heff.sends.of_handles hm1⟩
    · cases h
      exact ⟨HandlesFrom.of_eq hno, NodeSends.nil m⟩
  · split at h
    · simp only at h
      have hm1 : HandlesFrom m m.getFileNo.2 := HandlesFrom.of_eq hno
      split at h
      · cases h
      · rename_i m2 ops' err hc
        cases h
        have heff := createNewOpenFileInfo_effect hc
        exact ⟨hm1.trans heff.handles, heff.sends.of_handles hm1⟩
      · rename_i m2 ops' r hc
        have heff := createNewOpenFileInfo_effect hc
        unfold addOpenCount at h
        cases hf : m2.files r with
        | none => rw [hf] at h; cases h
        | some f =>
            rw [hf] at h
            cases h
            exact ⟨hm1.trans heff.handles, heff.sends.of_handles hm1⟩
    · split at h
      · cases h
      · cases h
        exact ⟨HandlesFrom.of_eq rfl, NodeSends.nil m⟩

theorem sendRemoveRequests_effect {fileNo : Int} {rs : List NodeRef} : ∀ {m m' : Master} {ops : List QueueOp},
    sendRemoveRequests fileNo rs m = some (m', ops) → NodeEffect m m' ops := by
  induction rs with
  | nil => intro m m' ops h; cases h; exact ⟨HandlesFrom.of_eq rfl, NodeSends.nil m⟩
  | cons r rs ih =>
      intro m m' ops h
      unfold sendRemoveRequests at h
      cases hn : m.nodes r with
      | none => rw [hn] at h; cases h
      | some n =>
          rw [hn] at h
          simp only at h
          split at h
          · cases h
          · rename_i m1 ops' hrec
            cases h
            have ht := (setNode_touched hn (n.storedFiles.erase fileNo)).handles
            have heff := ih hrec
            exact ⟨ht.trans heff.handles, (NodeSends.send hn _).append (heff.sends.of_handles ht)⟩

theorem removeFile_effect {m m' : Master} {path : Str} {ops : List QueueOp} {found : Bool}
    (h : m.removeFile path = some (m', ops, found)) : NodeEffect m m' ops := by
  rcases removeFile_some h with ⟨_, rfl, rfl, _⟩ | ⟨_, _, _, rfl, _, rfl⟩ | ⟨s, r, m1, _, _, _, hrem, rfl⟩
  · exact ⟨HandlesFrom.of_eq rfl, NodeSends.nil _⟩
  · exact ⟨HandlesFrom.of_eq rfl, NodeSends.nil m⟩
  · obtain ⟨f, primary, m2, _, _, hsend, rfl, _⟩ := removeOpenFile_inv hrem
    have heff := sendRemoveRequests_effect hsend
    exact ⟨heff.handles, heff.sends⟩

theorem renameLocalFile_effect {m m' : Master} {s : FileStat} {newPath : Str} {ops : List QueueOp}
    (h : m.renameLocalFile s newPath = some (m', ops)) : NodeEffect m m' ops := by
  unfold renameLocalFile at h
  simp only at h
  split at h
  · cases h
    exact ⟨HandlesFrom.of_eq rfl, NodeSends.nil m⟩
  · split at h
    · cases h
    · split at h
      · cases h
      · split at h
        · cases h
        · rename_i ops' hsend
          cases h
          refine ⟨HandlesFrom.of_eq rfl, ?_⟩
          refine NodeSends.of_handles (HandlesFrom.of_eq rfl) (NodeSends.sendEach ?_ hsend)
          intro r ops'' hops''
          exact NodeSends.map hops''

theorem renameTables_effect {m m' : Master} {oldPath newPath : Str} {newMaster : Int} {ops : List QueueOp}
    (h : m.renameTables oldPath newPath newMaster = some (m', ops)) : NodeEffect m m' ops := by
  unfold renameTables at h
  split at h
  · split at h
    · obtain ⟨⟨m1, ops1, found⟩, hrem, heq⟩ := Option.map_eq_some_iff.mp h
      cases heq
      exact removeFile_effect hrem
    · cases h
      exact ⟨HandlesFrom.of_eq rfl, NodeSends.nil _⟩
  · split at h
    · split at h
      · cases h
      · split at h
        · cases h
        · rename_i m1 ops1 found hrem
          split at h
          · cases h
          · rename_i m2 ops2 hren
            cases h
            have h1 := removeFile_effect hrem
            have h2 := renameLocalFile_effect hren
            exact ⟨h1.handles.trans h2.handles, h1.sends.append (h2.sends.of_handles h1.handles)⟩
    · cases h
      exact ⟨HandlesFrom.of_eq rfl, NodeSends.nil m⟩

theorem recreateReplica_effect {m m' : Master} {failed : NodeRef} {fileNo : Int} {ops : List QueueOp}
    {new : Option NodeRef} (h : m.recreateReplica failed fileNo = some (m', ops, new)) : NodeEffect m m' ops := by
  unfold recreateReplica at h
  split at h
  · cases h
  · rename_i r file _
    split at h
    · cases h
    · rename_i newIOnode m1 hal
      obtain ⟨⟨c, rfl⟩, _⟩ := allocateReplaceIOnode_state hal
      simp only at h
      split at h
      · split at h
        · split at h
          · cases h
          · split at h
            · rename_i ops1 ops2 hops1 hops2
              cases h
              refine ⟨HandlesFrom.of_eq rfl, NodeSends.append ?_ ?_⟩
              · unfold resendReplicaNodesInfoToNewNode at hops1
                split at hops1
                · rename_i p n fs hp _ _
                  cases hops1
                  exact NodeSends.of_handles (HandlesFrom.of_eq rfl) (NodeSends.send hp _)
                · cases hops1
              · have h2 := NodeSends.openRequest hops2
                exact h2.of_handles (HandlesFrom.of_eq rfl)
            · cases h
        · split at h
          · rename_i ops1 ops2 hops1 hops2
            cases h
            refine ⟨HandlesFrom.of_eq rfl, NodeSends.append ?_ ?_⟩
            · unfold replaceReplicaNodesInfo at hops1
              split at hops1
              · rename_i p n old hp _ _
                cases hops1
                obtain ⟨q, _, hq⟩ := Option.bind_eq_some_iff.mp hp
                exact NodeSends.of_handles (HandlesFrom.of_eq rfl) (NodeSends.send hq _)
              · cases hops1
            · have h2 := NodeSends.openRequest hops2
              exact h2.of_handles (HandlesFrom.of_eq rfl)
          · cases h
      · split at h
        · split at h
          · cases h; exact ⟨HandlesFrom.of_eq rfl, NodeSends.nil m⟩
          · cases h; exact ⟨HandlesFrom.of_eq rfl, NodeSends.nil m⟩
        · cases h; exact ⟨HandlesFrom.of_eq rfl, NodeSends.nil m⟩

theorem recreateEach_effect {failed : NodeRef} {files : List Int} : ∀ {m m' : Master} {ops : List QueueOp}
    {news : List (Int × Option NodeRef)}, recreateEach failed files m = some (m', ops, news) →
    NodeEffect m m' ops := by
  induction files with
  | nil => intro m m' ops news h; cases h; exact ⟨HandlesFrom.of_eq rfl, NodeSends.nil _⟩
  | cons fileNo files ih =>
      intro m m' ops news h
      unfold recreateEach at h
      split at h
      · cases h
      · rename_i m1 ops1 new hone
        split at h
        · cases h
        · rename_i m2 ops2 news2 hrest
          cases h
          have h1 := recreateReplica_effect hone
          have h2 := ih hrest
          exact ⟨h1.handles.trans h2.handles, h1.sends.append (h2.sends.of_handles h1.handles)⟩

theorem removeIOnodeBufferedFile_nodes {failed : NodeRef} {files : List Int} : ∀ {m m' : Master},
    removeIOnodeBufferedFile failed files m = some m' → m'.nodes = m.nodes := by
  induction files with
  | nil => intro m m' h; cases h; rfl
  | cons fileNo files ih =>
      intro m m' h
      unfold removeIOnodeBufferedFile at h
      split at h
      · cases h
      · rename_i m1 hone
        rw [ih h]
        unfold removeBufferedFile at hone
        split at hone
        · cases hone
        · simp only at hone
          split at hone
          · split at hone
            · cases hone
            · cases hone; rfl
          · cases hone; rfl

theorem failure_effect {m : Master} {failed : NodeRef} {out : Outcome}
    (h : failureOutcome (m.IOnodeFailureHandler failed) = some out) : NodeEffect m out.master out.ops := by
  obtain ⟨⟨m', ops, news⟩, hf, rfl⟩ := Option.map_eq_some_iff.mp h
  unfold IOnodeFailureHandler at hf
  split at hf
  · cases hf
  · rename_i node _
    split at hf
    · rename_i ops1 m1 ops2 news2 hsend hrec
      split at hf
      · cases hf
      · rename_i hun
        cases hf
        have hs1 : NodeSends m ops1 := by
          refine NodeSends.sendEach ?_ hsend
          intro r ops' hops'
          split at hops'
          · cases hops'; exact NodeSends.nil m
          · exact NodeSends.map hops'
        have heff : NodeEffect m m1 ops2 := by
          unfold recreateReplicas at hrec
          split at hrec
          · cases hrec
          · split at hrec
            · obtain ⟨m3, hb, heq⟩ := Option.map_eq_some_iff.mp hrec
              cases heq
              exact ⟨HandlesFrom.of_eq (removeIOnodeBufferedFile_nodes hb), NodeSends.nil m⟩
            · exact recreateEach_effect hrec
        have hun' : HandlesFrom m1 m' := by
          intro r n' hn'
          unfold unregisterIOnode removeIOnode at hun
          split at hun
          · cases hun
          · simp only at hun
            split at hun
            · cases hun
            · cases hun
              by_cases hr : r = failed
              · rw [hr] at hn'
                simp at hn'
              · exact ⟨n', by simpa [Function.update_of_ne hr] using hn', rfl⟩
        exact ⟨heff.handles.trans hun', hs1.append heff.sends⟩
    · cases hf

/-! ## One reply for each request -/

/-- A handler's effect when it replies: complete messages to nodes, and one reply among them. -/
structure Replies (m : Master) (o : Origin) (out : Outcome) : Prop where
  handles : HandlesFrom m out.master
  shape : ∃ a t b, out.ops = a ++ sendOn SERVER_QUEUE_NUM t ++ b ∧ NodeSends m a ∧ NodeSends m b ∧
    t.handle = o.handle ∧ t.receiverId = o.queue

theorem Replies.of_reply {m m' : Master} (h : HandlesFrom m m') (o : Origin) (message : List Field) (ret : Int) :
    Replies m o (m'.reply o message ret) :=
  ⟨h, [], responseTask o message, [], rfl, NodeSends.nil m, NodeSends.nil m, rfl, rfl⟩

/-- The messages of a helper, then the reply. -/
theorem Replies.of_effect {m m' : Master} {ops : List QueueOp} (h : NodeEffect m m' ops) (o : Origin)
    (message : List Field) (remote : List RemoteTask) (ret : Int) :
    Replies m o ⟨m', ops ++ sendResponse o message, remote, ret⟩ := by
  refine ⟨h.handles, ops, responseTask o message, [], ?_, h.sends, NodeSends.nil m, rfl, rfl⟩
  rw [List.append_nil]
  rfl

theorem parseOpenLocal_replies {m : Master} {e : Env} {o : Origin} {path : Str} {flag mode : BitVec 32} {out : Outcome}
    (h : m.parseOpenLocal e o path flag mode = some out) : Replies m o out := by
  unfold parseOpenLocal at h
  split at h
  · cases h
  · rename_i m' ops err hopen
    cases h
    exact Replies.of_effect (openFile_effect hopen) o _ _ _
  · rename_i m' ops fileNo hopen
    split at h
    · cases h
    · split at h
      · cases h
      · cases h
        exact Replies.of_effect (openFile_effect hopen) o _ _ _

theorem parseOpenFile_replies {m : Master} {e : Env} {o : Origin} {path : Str} {flag mode : BitVec 32} {out : Outcome}
    (h : m.parseOpenFile e o path flag mode = some out) : Replies m o out := by
  unfold parseOpenFile at h
  split at h
  · split at h
    · cases h
      exact Replies.of_reply (HandlesFrom.of_eq rfl) o _ _
    · exact parseOpenLocal_replies h
  · exact parseOpenLocal_replies h

theorem parseReadFile_replies {m : Master} {o : Origin} {fileNo : Int} {startPoint size : Nat} {out : Outcome}
    (h : m.parseReadFile o fileNo startPoint size = some out) : Replies m o out := by
  unfold parseReadFile at h
  split at h
  · cases h
    exact Replies.of_reply (HandlesFrom.of_eq rfl) o _ _
  · split at h
    · cases h
    · split at h
      · obtain ⟨msg, _, rfl⟩ := Option.map_eq_some_iff.mp h
        exact Replies.of_reply (HandlesFrom.of_eq rfl) o _ _
      · cases h

theorem parseWriteFile_replies {m : Master} {o : Origin} {fileNo : Int} {attr : Stat} {startPoint size : Nat}
    {out : Outcome} (h : m.parseWriteFile o fileNo attr startPoint size = some out) : Replies m o out := by
  unfold parseWriteFile at h
  split at h
  · cases h
    exact Replies.of_reply (HandlesFrom.of_eq rfl) o _ _
  · split at h
    · cases h
    · split at h
      · cases h
      · simp only at h
        split at h
        · cases h
        · obtain ⟨msg, _, rfl⟩ := Option.map_eq_some_iff.mp h
          refine Replies.of_reply ?_ o _ _
          exact HandlesFrom.of_eq rfl

theorem primaryOf_node {m : Master} {r : FileRef} {n : NodeInfo} (h : m.primaryOf r = some n) :
    ∃ q, m.nodes q = some n := by
  unfold primaryOf at h
  split at h
  · cases h
  · obtain ⟨q, _, hq⟩ := Option.bind_eq_some_iff.mp h
    exact ⟨q, hq⟩

theorem parseCloseFile_replies {m : Master} {o : Origin} {fileNo : Int} {out : Outcome}
    (h : m.parseCloseFile o fileNo = some out) : Replies m o out := by
  unfold parseCloseFile at h
  split at h
  · cases h
    exact Replies.of_reply (HandlesFrom.of_eq rfl) o _ _
  · obtain ⟨n, hn, rfl⟩ := Option.map_eq_some_iff.mp h
    obtain ⟨q, hq⟩ := primaryOf_node hn
    exact ⟨HandlesFrom.of_eq rfl, [], responseTask o [.int SUCCESS], _, rfl, NodeSends.nil m,
      NodeSends.send hq _, rfl, rfl⟩

theorem parseRemove_replies {code : Int} {m : Master} {o : Origin} {path : Str} {out : Outcome}
    (h : parseRemove code m o path = some out) : Replies m o out := by
  unfold parseRemove at h
  split at h
  · cases h
  · rename_i m' ops found hrem
    cases h
    exact Replies.of_effect (removeFile_effect hrem) o _ _ _

theorem truncateLocal_effect {m m' : Master} {s : FileStat} {size : Nat} {ops : List QueueOp}
    (h : m.truncateLocal s size = some (m', ops)) : NodeEffect m m' ops := by
  unfold truncateLocal at h
  split at h
  · cases h
  · rename_i r _
    split at h
    · cases h
    · rename_i f _
      split at h
      · cases h
      · obtain ⟨⟨m1, ops1⟩, hsh, heq⟩ := Option.map_eq_some_iff.mp h
        have heff : NodeEffect m m1 ops1 := by
          split at hsh
          · unfold shrinkFile at hsh
            split at hsh
            · cases hsh
            · simp only at hsh
              split at hsh
              · cases hsh
              · rename_i ops2 hsend
                cases hsh
                refine ⟨HandlesFrom.of_eq rfl, NodeSends.sendEach ?_ hsend⟩
                intro q ops' hops'
                exact NodeSends.map hops'
          · cases hsh
            exact ⟨HandlesFrom.of_eq rfl, NodeSends.nil m⟩
        cases heq
        refine ⟨heff.handles.trans ?_, heff.sends⟩
        exact HandlesFrom.of_eq rfl

theorem parseTruncateFile_replies {m : Master} {o : Origin} {path : Str} {size : Nat} {out : Outcome}
    (h : m.parseTruncateFile o path size = some out) : Replies m o out := by
  unfold parseTruncateFile at h
  split at h
  · cases h
    exact Replies.of_reply (HandlesFrom.of_eq rfl) o _ _
  · split at h
    · cases h
      exact Replies.of_reply (HandlesFrom.of_eq rfl) o _ _
    · obtain ⟨⟨m', ops⟩, htr, rfl⟩ := Option.map_eq_some_iff.mp h
      exact Replies.of_effect (truncateLocal_effect htr) o _ _ _

end Master

/-- The requests a client sends and waits on. -/
def Request.hasReply : Request → Bool
  | .register _ _ | .updateMeta _ _ | .closeClient | .nodeFailure | .IOnodeFailure _ => false
  | _ => true

namespace Master

/-- **The reply condition**: a flush names no open file. -/
def RepliesOnce (m : Master) : Request → Prop
  | .flushFile fileNo => m.bufferedFiles.find? fileNo = none
  | _ => True

/-- **Every client request with a reply gets one.** -/
theorem parseRequest_replies {m : Master} {e : Env} {o : Origin} {req : Request} {out : Outcome}
    (h : m.parseRequest e o req = some out) (hrep : req.hasReply = true) (honce : RepliesOnce m req) :
    Replies m o out := by
  have hsame : HandlesFrom m m := HandlesFrom.of_eq rfl
  cases req with
  | newClient uri => cases h; exact Replies.of_reply hsame o _ _
  | openFile path flag mode => exact parseOpenFile_replies h
  | readFile fileNo startPoint size => exact parseReadFile_replies h
  | writeFile fileNo attr startPoint size => exact parseWriteFile_replies h
  | flushFile fileNo =>
      simp only [parseRequest, parseFlushFile, show m.bufferedFiles.find? fileNo = none from honce] at h
      cases h
      exact Replies.of_reply hsame o _ _
  | closeFile fileNo => exact parseCloseFile_replies h
  | getAttr path =>
      cases h
      unfold parseAttr
      split
      · exact Replies.of_reply hsame o _ _
      · split
        · exact Replies.of_reply hsame o _ _
        · exact Replies.of_reply hsame o _ _
  | readDir path =>
      obtain ⟨files, _, rfl⟩ := Option.map_eq_some_iff.mp h
      exact ⟨hsame, [], _, [], rfl, NodeSends.nil m, NodeSends.nil m, rfl, rfl⟩
  | rmDir path => exact parseRemove_replies h
  | unlink path => exact parseRemove_replies h
  | access path mode =>
      cases h
      unfold parseAccess
      split
      · exact Replies.of_reply hsame o _ _
      · split
        · exact Replies.of_reply hsame o _ _
        · exact Replies.of_reply hsame o _ _
  | rename oldPath newPath newMaster =>
      obtain ⟨⟨m', ops⟩, hren, rfl⟩ := Option.map_eq_some_iff.mp h
      exact Replies.of_effect (renameTables_effect hren) o _ _ _
  | renameMigrating path oldMaster =>
      cases h
      refine Replies.of_reply ?_ o _ _
      exact HandlesFrom.of_eq rfl
  | mkdir path mode =>
      cases h
      exact ⟨HandlesFrom.of_eq rfl, [], _, [], rfl, NodeSends.nil m, NodeSends.nil m, rfl, rfl⟩
  | truncate path size => exact parseTruncateFile_replies h
  | register totalMemory uri => cases hrep
  | updateMeta fileNo attr => cases hrep
  | closeClient => cases hrep
  | nodeFailure => cases hrep
  | IOnodeFailure nodeId => cases hrep

/-- A registration adds the requester's handle to the nodes', and answers it. -/
theorem parseRegister_replies (m : Master) (o : Origin) (totalMemory : Nat) (uri : Str) :
    ∃ t, (m.parseRegisterIOnode o totalMemory uri).ops = sendOn SERVER_QUEUE_NUM t ∧
      t.handle = o.handle ∧ t.receiverId = o.queue ∧
      ∀ r n', (m.parseRegisterIOnode o totalMemory uri).master.nodes r = some n' →
        n'.handle = o.handle ∨ ∃ n, m.nodes r = some n ∧ n.handle = n'.handle := by
  refine ⟨_, rfl, rfl, rfl, ?_⟩
  intro r n' hn'
  have hn'' : (m.addIOnode uri totalMemory o.handle).2.nodes r = some n' := hn'
  rcases addIOnode_cases m uri totalMemory o.handle with ⟨pool, c, _, heq⟩ | ⟨id, node, _, _, ⟨hh, _⟩, heq⟩
  · rw [heq] at hn''
    exact Or.inr ⟨n', hn'', rfl⟩
  · rw [heq] at hn''
    by_cases hr : r = m.nextNode
    · left
      have hnode : node = n' := by simpa [registerNode, hr] using hn''
      rw [← hnode]
      exact hh
    · right
      exact ⟨n', by simpa [registerNode, Function.update_of_ne hr] using hn'', rfl⟩

/-- A request without a reply sends complete messages to nodes only. -/
theorem parseRequest_silent {m : Master} {e : Env} {o : Origin} {req : Request} {out : Outcome}
    (h : m.parseRequest e o req = some out) (hrep : req.hasReply = false)
    (hreg : ∀ totalMemory uri, req ≠ .register totalMemory uri) : NodeEffect m out.master out.ops := by
  have hnil : NodeEffect m m [] := ⟨HandlesFrom.of_eq rfl, NodeSends.nil m⟩
  cases req with
  | register totalMemory uri => exact absurd rfl (hreg totalMemory uri)
  | updateMeta fileNo attr =>
      have h' : m.parseMetaUpdate fileNo attr = some out := h
      unfold parseMetaUpdate at h'
      split at h'
      · cases h'; exact hnil
      · split at h'
        · cases h'
        · split at h'
          · cases h'
          · cases h'
            exact ⟨HandlesFrom.of_eq rfl, NodeSends.nil m⟩
  | closeClient => cases h; exact hnil
  | nodeFailure =>
      have h' : m.parseNodeFailure o = some out := h
      unfold parseNodeFailure at h'
      split at h'
      · exact failure_effect h'
      · cases h'; exact hnil
  | IOnodeFailure nodeId =>
      have h' : m.parseIOnodeFailure nodeId = some out := h
      unfold parseIOnodeFailure at h'
      split at h'
      · exact failure_effect h'
      · cases h'; exact hnil
  | _ => cases hrep

end Master

/-- The reply among the operations of a handler that has messages to nodes first. -/
theorem allocatedOn_reply {m : Master} {ops : List QueueOp} (h : m.NodeSends ops) (o : Origin) (message : List Field) :
    allocatedOn SERVER_QUEUE_NUM (ops ++ sendResponse o message) = [responseTask o message] := by
  obtain ⟨ts, rfl, _⟩ := h
  have hnone : allocatedOn SERVER_QUEUE_NUM (sends (ts.map (Prod.mk IONODE_COMMUNICATE_QUEUE_NUM))) = [] := by
    rw [allocatedOn_sends]
    simp
  rw [allocatedOn_append, hnone]
  rfl

end HuronFS
