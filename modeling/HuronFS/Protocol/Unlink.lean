import HuronFS.Protocol.Storage

/-!
# `Protocol.Unlink` — an unlinked path and the write-backs of the IOnode

An accepted `UNLINK` leaves the path to two messengers: the remote-task thread unlinks it on storage, and the
IOnode is told to drop its file. In between the IOnode opens the file of every block that it writes back with
`O_CREAT`, whether or not the file was unlinked. `unlinked` marks the paths that were unlinked and that no request
opened or created since: such a path is on storage only while its unlink is still queued, as long as no dirty block
of it is written back after that.
-/

namespace HuronFS

namespace Cluster

/-- The system next to the paths that are to be gone. -/
structure Watched where
  cluster : Cluster
  unlinked : Str → Bool

namespace Watched

/-- A request that the Master answered with `ret`. -/
def unlinkedAfter (unlinked : Str → Bool) (request : Request) (ret : Int) : Str → Bool :=
  match request with
  | .unlink path => if ret = SUCCESS then Function.update unlinked path true else unlinked
  | .openFile path _ _ => Function.update unlinked path false
  | .mkdir path _ => Function.update unlinked path false
  | .rename _ newPath newMaster => if newMaster = MYSELF then Function.update unlinked newPath false else unlinked
  | .renameMigrating path _ => Function.update unlinked path false
  | _ => unlinked

def step (handle : Handle) (w : Watched) : Event → Option Watched
  | .request ev =>
      match w.cluster.master.parseRequest ev.env ev.origin ev.request, w.cluster.step handle (.request ev) with
      | some out, some cluster => some ⟨cluster, unlinkedAfter w.unlinked ev.request out.ret⟩
      | _, _ => none
  | ev => (w.cluster.step handle ev).map (fun cluster => ⟨cluster, w.unlinked⟩)

/-- The unlink of a path has not been served yet. -/
def UnlinkQueued (s : Cluster) (path : Str) : Prop :=
  ∃ t ∈ s.tasks, t.taskId = UNLINK ∧ t.fileName = s.master.getRealPath path

/-- Writing the block back does not bring back a path that is gone. -/
def SafeToWrite (w : Watched) (k : BlockKey) : Prop :=
  ∀ path, w.cluster.node.WritesBack k path → w.unlinked path = true → UnlinkQueued w.cluster path

/-- A dirty block of an unlinked path is written back, or evicted, before the unlink on storage only. -/
def Guard (w : Watched) : Event → Prop
  | .writeback k => w.SafeToWrite k
  | .swapOut => ∀ k rest, w.cluster.node.queue = k :: rest → w.SafeToWrite k
  | _ => True

/-- An unlinked path is on storage only while its unlink is queued. -/
def Inv (w : Watched) : Prop :=
  ∀ path, w.unlinked path = true → w.cluster.node.storage path ≠ none → UnlinkQueued w.cluster path

/-- Nothing is on its way: no storage operation, no message, no dirty block and no removal. -/
structure Drained (s : Cluster) : Prop where
  tasks : s.tasks = []
  channel : s.channel = []
  clean : ∀ k path, ¬ s.node.WritesBack k path
  removed : s.node.removeFileList = []

/-! ## Steps -/

variable {handle : Handle} {w w' : Watched}

/-- The storage operations and the result of an unlink. -/
theorem parseUnlink_remote {m : Master} {e : Env} {o : Origin} {path : Str} {out : Outcome}
    (h : m.parseRequest e o (.unlink path) = some out) : out.remote = [⟨UNLINK, m.getRealPath path, 0⟩] := by
  simp only [Master.parseRequest, Master.parseUnlink, Master.parseRemove] at h
  split at h
  · cases h
  · cases h
    rfl

theorem getRealPath_config {m m' : Master} (h : m'.config = m.config) (path : Str) :
    m'.getRealPath path = m.getRealPath path := by
  unfold Master.getRealPath
  rw [(Prod.mk.inj h).1]

/-- A path that a request leaves unlinked was so before, or is the one it unlinked. -/
theorem unlinkedAfter_true {unlinked : Str → Bool} {request : Request} {ret : Int} {path : Str}
    (h : unlinkedAfter unlinked request ret path = true) : unlinked path = true ∨ request = .unlink path := by
  have hcleared : ∀ p, Function.update unlinked p false path = true → unlinked path = true := by
    intro p hp
    by_cases hpp : path = p
    · rw [hpp, Function.update_self] at hp
      cases hp
    · rwa [Function.update_of_ne hpp] at hp
  unfold unlinkedAfter at h
  split at h
  · rename_i p
    split at h
    · by_cases hpp : path = p
      · exact Or.inr (by rw [hpp])
      · rw [Function.update_of_ne hpp] at h
        exact Or.inl h
    · exact Or.inl h
  · exact Or.inl (hcleared _ h)
  · exact Or.inl (hcleared _ h)
  · split at h
    · exact Or.inl (hcleared _ h)
    · exact Or.inl h
  · exact Or.inl (hcleared _ h)
  · exact Or.inl h

theorem Inv.request {ev : Master.Event} (h : Inv w) (hs : w.step handle (.request ev) = some w') : Inv w' := by
  simp only [step] at hs
  split at hs
  · rename_i out cluster hout hcluster
    cases hs
    simp only [Cluster.step, hout, Option.map_some, Option.some.injEq] at hcluster
    subst hcluster
    intro path hun hst
    have hreal := getRealPath_config (Master.parseRequest_config hout) path
    rcases unlinkedAfter_true hun with hold | hreq
    · obtain ⟨t, ht, hid, hname⟩ := h path hold hst
      exact ⟨t, List.mem_append_left _ ht, hid, hname.trans hreal.symm⟩
    · rw [hreq] at hout
      refine ⟨⟨UNLINK, w.cluster.master.getRealPath path, 0⟩, List.mem_append_right _ ?_, rfl, hreal.symm⟩
      rw [parseUnlink_remote hout]
      exact List.mem_singleton_self _
  · cases hs

/-- Serving a task removes it from the queue, and its path from storage. -/
theorem Inv.remoteTask (h : Inv w) (hs : w.step handle .remoteTask = some w') : Inv w' := by
  obtain ⟨cluster, hc, rfl⟩ := Option.map_eq_some_iff.mp hs
  simp only [Cluster.step] at hc
  split at hc
  · cases hc
  · rename_i t rest htasks
    cases hc
    intro path hun hst
    have hst' : remoteTaskHandler w.cluster.master.mountPoint t w.cluster.node.storage path ≠ none := hst
    unfold remoteTaskHandler at hst'
    -- the task is not the unlink of a path that is still there
    have hbefore : w.cluster.node.storage path ≠ none ∧
        ¬ (t.taskId = UNLINK ∧ t.fileName = w.cluster.master.getRealPath path) := by
      split at hst'
      · simp only at hst'
        split at hst'
        · exact absurd rfl hst'
        · rename_i hname
          exact ⟨hst', fun hc => hname hc.2.symm⟩
      · rename_i hid
        exact ⟨hst', fun hc => hid hc.1⟩
    obtain ⟨u, hu, hid, hname⟩ := h path hun hbefore.1
    rw [htasks] at hu
    rcases List.mem_cons.mp hu with rfl | hu
    · exact absurd ⟨hid, hname⟩ hbefore.2
    · exact ⟨u, hu, hid, hname⟩

/-- A step of the IOnode: what it adds to storage is a path that is not unlinked, or whose unlink is queued. -/
theorem Inv.node {node : IOnode} (h : Inv w)
    (hstorage : ∀ path, node.storage path ≠ w.cluster.node.storage path → w.unlinked path = true →
      UnlinkQueued w.cluster path) (channel : List (List Field)) :
    Inv ⟨{ w.cluster with node := node, channel := channel }, w.unlinked⟩ := by
  intro path hun hst
  by_cases hsame : node.storage path = w.cluster.node.storage path
  · refine h path hun ?_
    rw [← hsame]
    exact hst
  · exact hstorage path hsame hun

/-- **One step.** -/
theorem Inv.step (h : Inv w) {ev : Event} (hg : w.Guard ev) (hs : w.step handle ev = some w') : Inv w' := by
  have hquiet : ∀ {node : IOnode}, node.storage = w.cluster.node.storage → ∀ path,
      node.storage path ≠ w.cluster.node.storage path → w.unlinked path = true → UnlinkQueued w.cluster path := by
    intro node hnode path hne
    exact absurd (congrFun hnode path) hne
  cases ev with
  | request ev => exact h.request hs
  | remoteTask => exact h.remoteTask hs
  | deliver =>
      obtain ⟨cluster, hc, rfl⟩ := Option.map_eq_some_iff.mp hs
      simp only [Cluster.step] at hc
      split at hc
      · cases hc
      · rename_i message rest _
        cases hc
        exact h.node (hquiet (IOnode.receive_storage _ message)) rest
  | receiveData k offset size data =>
      obtain ⟨cluster, hc, rfl⟩ := Option.map_eq_some_iff.mp hs
      obtain ⟨heq, hstorage⟩ := step_receiveData hc
      rw [heq]
      exact h.node (hquiet hstorage) w.cluster.channel
  | sendData k offset size =>
      obtain ⟨cluster, hc, rfl⟩ := Option.map_eq_some_iff.mp hs
      obtain ⟨heq, hstorage⟩ := step_sendData hc
      rw [heq]
      exact h.node (hquiet hstorage) w.cluster.channel
  | swapOut =>
      obtain ⟨cluster, hc, rfl⟩ := Option.map_eq_some_iff.mp hs
      simp only [Cluster.step] at hc
      split at hc
      · cases hc
      · rename_i k rest hqueue
        split at hc
        · cases hc
        · cases hc
          refine h.node ?_ w.cluster.channel
          intro path hne
          exact hg k rest hqueue path (IOnode.evictPage_storage hne)
  | writeback k =>
      cases hs
      refine h.node ?_ w.cluster.channel
      intro path hne
      exact hg path (IOnode.writeback_storage hne)
  | removeFiles =>
      cases hs
      exact h.node (hquiet (IOnode.intervalProcess_storage _)) w.cluster.channel

/-! ## Runs -/

/-- Every party as constructed, and no path unlinked. -/
def initial (pool : OrdMap Str FileStat) (masterNumber : Int) (mountPoint : Str) (numOfReplica count : Nat)
    (memory : Nat → Nat → Byte) (storage : Str → Option (ByteFile Byte)) : Watched :=
  ⟨Cluster.initial pool masterNumber mountPoint numOfReplica count memory storage, fun _ => false⟩

/-- **An unlinked path stays gone.** In whatever order the parties take their steps: when no dirty block of an
    unlinked path is written back after the path was unlinked on storage, the path is not on storage once the
    remote-task queue is empty. -/
theorem unlinked_stays_gone (pool : OrdMap Str FileStat) (masterNumber : Int) (mountPoint : Str)
    (numOfReplica count : Nat) (memory : Nat → Nat → Byte) (storage : Str → Option (ByteFile Byte)) (handle : Handle)
    (evs : List Event) {w : Watched}
    (hg : Run.Guarded (step handle) Guard (initial pool masterNumber mountPoint numOfReplica count memory storage) evs)
    (hr : Run.run (step handle) (initial pool masterNumber mountPoint numOfReplica count memory storage) evs = some w) :
    w.cluster.tasks = [] → ∀ path, w.unlinked path = true → w.cluster.node.storage path = none := by
  have hinit : Inv (initial pool masterNumber mountPoint numOfReplica count memory storage) := by
    intro path hun
    cases hun
  have hinv : Inv w := Run.run_invariant (fun w ev w' h hg hs => Inv.step h hg hs) hinit hg hr
  intro htasks path hun
  by_contra hst
  obtain ⟨t, ht, -⟩ := hinv path hun hst
  rw [htasks] at ht
  cases ht

/-- `/a` is opened on the IOnode of handle 7, and a byte is written to it. -/
def writtenFile : List Event :=
  [.request ⟨⟨0, 0, 0⟩, ⟨7, 0⟩, .register 100 Master.pathA⟩, .request (Master.eventOf (.openFile Master.pathA 0 0)),
    .deliver, .receiveData (0, 0) 0 1 [5]]

/-- The dirty block is written back while the unlink is queued. -/
def writtenBackFirst : List Event :=
  writtenFile ++ [.request (Master.eventOf (.unlink Master.pathA)), .writeback (0, 0), .remoteTask, .deliver, .removeFiles]

/-- The dirty block is written back after the unlink on storage. -/
def writtenBackLast : List Event :=
  writtenFile ++ [.request (Master.eventOf (.unlink Master.pathA)), .remoteTask, .writeback (0, 0), .deliver, .removeFiles]

theorem unlinked_stays_gone_written_back_first :
    ∃ w, Run.run (step 7) (initial OrdMap.empty 0 [] 0 4 (fun _ _ => 0) (fun _ => none)) writtenBackFirst = some w ∧
      w.unlinked Master.pathA = true ∧ w.cluster.node.storage Master.pathA = none := by
  refine ⟨_, rfl, rfl, ?_⟩
  refine unlinked_stays_gone OrdMap.empty 0 [] 0 4 (fun _ _ => 0) (fun _ => none) 7 writtenBackFirst ?_ rfl rfl _ rfl
  iterate 5
    refine ⟨trivial, ?_⟩
    intro w hw
    cases hw
  refine ⟨?_, ?_⟩
  · intro path _ hun
    have hpath : path = Master.pathA := by
      by_contra hne
      have hother : Function.update (Function.update (fun _ => false) Master.pathA false) Master.pathA true path = true := hun
      rw [Function.update_of_ne hne, Function.update_of_ne hne] at hother
      cases hother
    exact ⟨⟨UNLINK, Master.pathA, 0⟩, List.mem_singleton_self _, rfl, hpath.symm⟩
  intro w hw
  exact ⟨trivial, fun _ _ => ⟨trivial, fun _ _ => ⟨trivial, fun _ _ => trivial⟩⟩⟩

/-- **A write-back brings an unlinked path back.** The thread has unlinked `/a` on storage when the dirty block is
    written back; nothing is on its way any more, and `/a` is there. -/
theorem unlinked_comes_back :
    ∃ w, Run.run (step 7) (initial OrdMap.empty 0 [] 0 4 (fun _ _ => 0) (fun _ => none)) writtenBackLast = some w ∧
      Drained w.cluster ∧ w.unlinked Master.pathA = true ∧ w.cluster.node.storage Master.pathA ≠ none := by
  refine ⟨_, rfl, ⟨rfl, rfl, ?_, rfl⟩, rfl, ?_⟩
  · rintro k path ⟨file, b, hfile, -⟩
    cases hfile
  · intro hc
    cases hc

end Watched

end Cluster

end HuronFS
