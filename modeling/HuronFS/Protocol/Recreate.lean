import HuronFS.Protocol.Unlink
import HuronFS.Protocol.WrittenBytes

/-!
# `Protocol.Recreate` — a path that is unlinked and created again

The unlink on storage waits in the queue of the remote-task thread, and it names a path, not a file. A file that is
opened under the path in the meantime may be written back before the thread gets there; then its bytes on storage go
with the old ones. `written` are the bytes written to each file of the IOnode since it was opened; they are kept in
every run where the thread meets a file of the path only while all of them are in dirty blocks.
-/

namespace HuronFS

namespace Cluster

/-- The system next to the bytes written to each file. -/
structure Recorded where
  cluster : Cluster
  written : IOnode.Ref

namespace Recorded

/-- The bytes written, after a step from `s`. -/
def writtenAfter (s : Cluster) (written : IOnode.Ref) : Event → IOnode.Ref
  | .deliver =>
      match s.channel with
      | [] => written
      | message :: _ => s.node.refReceive written message
  | .receiveData k offset size data =>
      if (s.node.files.find? k.1).isNone then written else IOnode.refWrite written k.1 (k.2 + offset) (data.take size)
  | _ => written

def step (handle : Handle) (w : Recorded) (ev : Event) : Option Recorded :=
  (w.cluster.step handle ev).map (fun cluster => ⟨cluster, writtenAfter w.cluster w.written ev⟩)

/-- No unlink of the file is on its way to the IOnode. -/
def Current (s : Cluster) (f : Int) : Prop := ∀ message ∈ s.channel, NodeMessage.decode message ≠ .unlink f

/-- A file of the IOnode that was not unlinked. -/
structure OnNode (s : Cluster) (f : Int) (file : IOFile) : Prop where
  known : s.node.files.find? f = some file
  live : file.toBeDeleted = false
  current : Current s f

/-- All that was written to the file is in dirty blocks. -/
def OnlyInMemory (w : Recorded) (f : Int) (file : IOFile) : Prop :=
  ∀ pos v, w.written f pos = some v → ∃ b, file.blocks.find? (getBlockStartPoint pos) = some b ∧ b.dirtyFlag = true

/-- The thread unlinks a path on storage before a file that was opened there since is written back. The requests leave
    the Master's tables sound, and a turn of `_receive_data` stays inside its block. -/
def Guard (w : Recorded) : Event → Prop
  | .request ev => Master.ServingGuard w.cluster.master ev
  | .remoteTask => ∀ t rest, w.cluster.tasks = t :: rest → t.taskId = UNLINK → ∀ f file, OnNode w.cluster f file →
      w.cluster.master.getRealPath file.filePath = t.fileName → w.OnlyInMemory f file
  | .receiveData k offset size _ => getBlockStartPoint k.2 = k.2 ∧ offset + size ≤ BLOCK_SIZE
  | _ => True

/-- What was written to the files is there: in memory, or on storage where a reload finds it; and on storage alone once
    nothing is on its way. -/
structure Kept (w : Recorded) : Prop where
  logical : ∀ f file pos v, OnNode w.cluster f file → w.written f pos = some v → w.cluster.node.logical file pos = some v
  reloads : ∀ f file pos v, OnNode w.cluster f file → w.written f pos = some v →
    ∃ b, file.blocks.find? (getBlockStartPoint pos) = some b ∧ (b.elem = none → b.swappedOut = true ∨ b.existFlag = .existing) ∧
      (b.dirtyFlag = false → w.cluster.node.stored file.filePath pos = some v)
  drained : Watched.Drained w.cluster → ∀ f file pos v, OnNode w.cluster f file → w.written f pos = some v →
    w.cluster.node.stored file.filePath pos = some v

/-- The invariant: the IOnode has, or will have, the files that the Master has placed on it, their paths apart all the
    time; and it keeps what was written to those that are not to be unlinked. -/
structure Inv (handle : Handle) (w : Recorded) : Prop where
  placed : w.cluster.master.PlacedInv
  views : ∀ q, Master.Registered w.cluster.master q → w.cluster.master.handleOf q = some handle →
    w.cluster.node.fileView.after w.cluster.channel = w.cluster.master.nodeView q
  idle : (∀ q, Master.Registered w.cluster.master q → w.cluster.master.handleOf q ≠ some handle) →
    w.cluster.channel = [] ∧ w.cluster.node.fileView = fun _ => none
  apart : w.cluster.node.fileView.DistinctThrough w.cluster.channel
  aligned : ∀ message ∈ w.cluster.channel, (NodeMessage.decode message).BlocksAligned
  bytes : w.cluster.node.WrittenInv w.cluster.node.fileView (Current w.cluster) w.written

variable {handle : Handle} {w w' : Recorded}

/-! ## Steps -/

/-- The IOnode changes, and its files and the channel do not. -/
theorem Inv.node (h : Inv handle w) {node : IOnode} {written : IOnode.Ref} (tasks : List RemoteTask)
    (hbytes : node.WrittenInv w.cluster.node.fileView (Current w.cluster) written) :
    Inv handle ⟨{ w.cluster with tasks := tasks, node := node }, written⟩ := by
  have hview := hbytes.view_eq
  refine ⟨h.placed, ?_, ?_, ?_, h.aligned, ?_⟩
  · intro q hq hh
    rw [hview]
    exact h.views q hq hh
  · intro hno
    obtain ⟨hchannel, hnone⟩ := h.idle hno
    exact ⟨hchannel, hview.trans hnone⟩
  · rw [hview]
    exact h.apart
  · rw [hview]
    exact hbytes

theorem Inv.request {ev : Master.Event} (h : Inv handle w) (hg : w.Guard (.request ev))
    (hs : w.step handle (.request ev) = some w') : Inv handle w' := by
  obtain ⟨cluster, hc, rfl⟩ := Option.map_eq_some_iff.mp hs
  obtain ⟨out, hout, rfl⟩ := Option.map_eq_some_iff.mp hc
  have hserved := h.placed.serves hg hout
  -- a file that is not to be unlinked was not before
  have hbytes : w.cluster.node.WrittenInv w.cluster.node.fileView
      (fun f => ∀ message ∈ w.cluster.channel ++ messagesTo handle out.ops, NodeMessage.decode message ≠ .unlink f) w.written :=
    h.bytes.mono (fun f hf message hm => hf message (List.mem_append_left _ hm))
  have haligned : ∀ message ∈ w.cluster.channel ++ messagesTo handle out.ops, (NodeMessage.decode message).BlocksAligned := by
    intro message hm
    rcases List.mem_append.mp hm with hm | hm
    · exact h.aligned message hm
    · exact (hserved.orderly handle).aligned message hm
  by_cases hno : ∀ q, Master.Registered w.cluster.master q → w.cluster.master.handleOf q ≠ some handle
  · -- the IOnode was not registered: it has heard nothing, and hears nothing now
    obtain ⟨hchannel, hnone⟩ := h.idle hno
    have hempty : w.cluster.channel ++ messagesTo handle out.ops = [] := by rw [hchannel, hserved.quiet handle hno, List.append_nil]
    refine ⟨hserved.inv, ?_, fun _ => ⟨hempty, hnone⟩, ?_, haligned, hbytes⟩
    · intro q hq hh
      show w.cluster.node.fileView.after (w.cluster.channel ++ messagesTo handle out.ops) = out.master.nodeView q
      rw [hempty, hnone]
      rcases hserved.new q hq with hold | ⟨hview, -⟩
      · obtain ⟨k, hk⟩ := hold
        obtain ⟨node, hnode, -⟩ := h.placed.nodes.live k q hk
        have hbefore : w.cluster.master.handleOf q = some node.handle := by
          unfold Master.handleOf
          rw [hnode]
          rfl
        obtain ⟨hkept, -⟩ := hserved.kept q node.handle ⟨k, hk⟩ hbefore
        exact absurd (hbefore.trans (hkept.symm.trans hh)) (hno q ⟨k, hk⟩)
      · exact hview.symm
    · show w.cluster.node.fileView.DistinctThrough (w.cluster.channel ++ messagesTo handle out.ops)
      rw [hempty]
      exact h.apart.distinct
  · obtain ⟨q₀, hreg, hhandle⟩ : ∃ q, Master.Registered w.cluster.master q ∧ w.cluster.master.handleOf q = some handle := by
      by_contra hc
      exact hno (fun q hq hh => hc ⟨q, hq, hh⟩)
    obtain ⟨hkept, hview⟩ := hserved.kept q₀ handle hreg hhandle
    have hlast : w.cluster.node.fileView.after (w.cluster.channel ++ messagesTo handle out.ops) = out.master.nodeView q₀ := by
      rw [FileView.after_append, h.views q₀ hreg hhandle]
      exact hview
    refine ⟨hserved.inv, ?_, fun hno => absurd hkept (hno q₀ (hserved.registered q₀ hreg)), ?_, haligned, hbytes⟩
    · intro q hq hh
      -- one registered node has the handle
      obtain rfl : q = q₀ := hserved.inv.apart q q₀ hq (hserved.registered q₀ hreg) (hh.trans hkept.symm)
      exact hlast
    · refine h.apart.append (FileView.distinctThrough_unlinksFirst (hserved.orderly handle).toUnlinksFirst h.apart.after ?_)
      rw [← FileView.after_append, hlast]
      exact hserved.inv.nodeView_distinct q₀

theorem Inv.deliver (h : Inv handle w) (hs : w.step handle .deliver = some w') : Inv handle w' := by
  obtain ⟨cluster, hc, rfl⟩ := Option.map_eq_some_iff.mp hs
  simp only [Cluster.step] at hc
  split at hc
  · cases hc
  · rename_i message rest hchannel
    cases hc
    obtain ⟨hview, -⟩ := h.bytes.listed.receive message
    have hafter : (w.cluster.node.receive message).fileView.after rest = w.cluster.node.fileView.after w.cluster.channel := by
      rw [hview, hchannel]
      rfl
    have hthrough : (w.cluster.node.receive message).fileView.DistinctThrough rest := by
      have h0 := h.apart
      rw [hchannel] at h0
      rw [hview]
      exact h0.2
    have hmem : message ∈ w.cluster.channel := by
      rw [hchannel]
      exact List.mem_cons_self
    refine ⟨h.placed, ?_, ?_, hthrough, ?_, ?_⟩
    · intro q hq hh
      exact hafter.trans (h.views q hq hh)
    · intro hno
      rw [(h.idle hno).1] at hchannel
      cases hchannel
    · intro m hm
      refine h.aligned m ?_
      rw [hchannel]
      exact List.mem_cons_of_mem message hm
    · have hwritten : writtenAfter w.cluster w.written .deliver = w.cluster.node.refReceive w.written message := by
        simp only [writtenAfter, hchannel]
      show (w.cluster.node.receive message).WrittenInv _ _ (writtenAfter w.cluster w.written .deliver)
      rw [hwritten]
      refine h.bytes.receive hthrough.distinct (h.aligned message hmem) ?_
      intro f hf hmessage m hm
      rw [hchannel] at hm
      rcases List.mem_cons.mp hm with rfl | hm
      · exact hmessage
      · exact hf m hm

/-- Serving a task: what it takes from storage is in dirty blocks still. -/
theorem Inv.remoteTask (h : Inv handle w) (hg : w.Guard .remoteTask) (hs : w.step handle .remoteTask = some w') :
    Inv handle w' := by
  obtain ⟨cluster, hc, rfl⟩ := Option.map_eq_some_iff.mp hs
  simp only [Cluster.step] at hc
  split at hc
  · cases hc
  · rename_i t rest htasks
    cases hc
    refine h.node rest (h.bytes.setStorage _ ?_)
    intro f file pos v hcurrent hfile hlive hv
    unfold remoteTaskHandler
    split
    · rename_i hid
      by_cases hpath : w.cluster.master.mountPoint ++ file.filePath = t.fileName
      · exact Or.inr (hg t rest htasks hid f file ⟨hfile, hlive, hcurrent⟩ hpath pos v hv)
      · exact Or.inl (if_neg hpath)
    · exact Or.inl rfl

/-- **One step.** -/
theorem Inv.step (h : Inv handle w) {ev : Event} (hg : w.Guard ev) (hs : w.step handle ev = some w') : Inv handle w' := by
  cases ev with
  | request ev => exact h.request hg hs
  | remoteTask => exact h.remoteTask hg hs
  | deliver => exact h.deliver hs
  | receiveData k offset size data =>
      obtain ⟨cluster, hc, rfl⟩ := Option.map_eq_some_iff.mp hs
      simp only [Cluster.step] at hc
      unfold writtenAfter
      split at hc
      · rename_i hnone
        cases hc
        dsimp only
        rw [if_pos hnone]
        exact h
      · rename_i hsome
        dsimp only
        rw [if_neg hsome]
        split at hc
        · cases hc
        · rename_i hk
          obtain ⟨⟨count, node⟩, hup, rfl⟩ := Option.map_eq_some_iff.mp hc
          exact h.node w.cluster.tasks (h.bytes.updateBlockData hg.1 hg.2 (by simpa using hk) hup)
  | sendData k offset size =>
      obtain ⟨cluster, hc, rfl⟩ := Option.map_eq_some_iff.mp hs
      simp only [Cluster.step] at hc
      split at hc
      · cases hc
        exact h
      · rename_i b hb
        split at hc
        · cases hc
        · rename_i hk
          obtain ⟨⟨piece, node⟩, hsend, rfl⟩ := Option.map_eq_some_iff.mp hc
          exact h.node w.cluster.tasks (h.bytes.sendBlock hb (by simpa using hk) hsend)
  | swapOut =>
      obtain ⟨cluster, hc, rfl⟩ := Option.map_eq_some_iff.mp hs
      simp only [Cluster.step] at hc
      split at hc
      · cases hc
      · rename_i k rest hqueue
        split at hc
        · cases hc
        · cases hc
          exact h.node w.cluster.tasks (h.bytes.evictPage k rest)
  | writeback k =>
      cases hs
      exact h.node w.cluster.tasks (h.bytes.writeback k)
  | removeFiles =>
      cases hs
      exact h.node w.cluster.tasks h.bytes.intervalProcess

/-! ## What the invariant says -/

theorem Inv.kept (h : Inv handle w) : Kept w := by
  refine ⟨?_, ?_, ?_⟩
  · intro f file pos v hon hv
    exact (h.bytes.logical hon.current hon.known hon.live hv).1
  · intro f file pos v hon hv
    exact (h.bytes.logical hon.current hon.known hon.live hv).2
  · intro hdrained f file pos v hon hv
    obtain ⟨-, b, hb, -, hclean⟩ := h.bytes.logical hon.current hon.known hon.live hv
    refine hclean ?_
    -- a dirty block would be written back
    by_contra hdirty
    have hflags := h.bytes.flags f file _ b hon.known hb
    exact hdrained.clean (f, getBlockStartPoint pos) file.filePath ⟨file, b, hon.known,
      IOnode.block?_some_iff.mpr ⟨file, hon.known, hb⟩, by simpa using hdirty, hflags.idle, rfl⟩

/-- **Serving the task loses bytes exactly when** some of a file of its path were no longer in dirty blocks. -/
theorem Inv.remoteTask_iff (h : Inv handle w) (hs : w.step handle .remoteTask = some w') :
    Kept w' ↔ w.Guard .remoteTask := by
  refine ⟨?_, fun hg => (h.remoteTask hg hs).kept⟩
  obtain ⟨cluster, hc, rfl⟩ := Option.map_eq_some_iff.mp hs
  simp only [Cluster.step] at hc
  split at hc
  · cases hc
  · rename_i t rest htasks
    cases hc
    intro hkept t' rest' htasks' hid f file hon hpath pos v hv
    obtain ⟨rfl, rfl⟩ := List.cons.inj (htasks.symm.trans htasks')
    obtain ⟨b, hb, -, hclean⟩ := hkept.reloads f file pos v ⟨hon.known, hon.live, hon.current⟩ hv
    refine ⟨b, hb, ?_⟩
    by_contra hdirty
    have hstored := hclean (by simpa using hdirty)
    have hgone : remoteTaskHandler w.cluster.master.mountPoint t w.cluster.node.storage file.filePath = none := by
      unfold remoteTaskHandler
      rw [if_pos hid]
      exact if_pos hpath
    unfold IOnode.stored at hstored
    dsimp only at hstored
    rw [hgone] at hstored
    cases hstored

/-! ## Runs -/

/-- Every party as constructed, and nothing written. -/
def initial (pool : OrdMap Str FileStat) (masterNumber : Int) (mountPoint : Str) (numOfReplica count : Nat)
    (memory : Nat → Nat → Byte) (storage : Str → Option (ByteFile Byte)) : Recorded :=
  ⟨Cluster.initial pool masterNumber mountPoint numOfReplica count memory storage, fun _ _ => none⟩

theorem initial_inv {pool : OrdMap Str FileStat} (hpool : ∀ p s, pool.find? p = some s → s.openedFileInfo = none ∧ s.fullPath = p)
    (masterNumber : Int) (mountPoint : Str) (numOfReplica count : Nat) (memory : Nat → Nat → Byte)
    (storage : Str → Option (ByteFile Byte)) (handle : Handle) :
    Inv handle (initial pool masterNumber mountPoint numOfReplica count memory storage) := by
  have hbytes := IOnode.WrittenInv.start count memory storage (Current (Cluster.initial pool masterNumber mountPoint numOfReplica
    count memory storage)) (fun _ _ => none)
  refine ⟨Master.initial_placedInv hpool masterNumber mountPoint numOfReplica, ?_, ?_, ?_, ?_, ?_⟩
  · rintro q ⟨k, hk⟩
    simp [initial, Cluster.initial, Master.initial] at hk
  · intro _
    exact ⟨rfl, hbytes.view_eq⟩
  · intro f f' path hf
    cases hf
  · intro message hm
    cases hm
  · rw [← hbytes.view_eq] at hbytes
    exact hbytes

/-- **What is written to a path after its unlink stays.** In whatever order the parties take their steps: when the thread
    unlinks a path on storage only while a file opened there since has all its bytes in dirty blocks, every file of the
    IOnode keeps what was written to it, in memory and on storage. The next task that does not meet this loses bytes. -/
theorem recreated_path_keeps_data {pool : OrdMap Str FileStat}
    (hpool : ∀ p s, pool.find? p = some s → s.openedFileInfo = none ∧ s.fullPath = p) (masterNumber : Int) (mountPoint : Str)
    (numOfReplica count : Nat) (memory : Nat → Nat → Byte) (storage : Str → Option (ByteFile Byte)) (handle : Handle)
    (evs : List Event) {w : Recorded}
    (hg : Run.Guarded (step handle) Guard (initial pool masterNumber mountPoint numOfReplica count memory storage) evs)
    (hr : Run.run (step handle) (initial pool masterNumber mountPoint numOfReplica count memory storage) evs = some w) :
    Kept w ∧ ∀ w', w.step handle .remoteTask = some w' → (Kept w' ↔ w.Guard .remoteTask) := by
  have hinv : Inv handle w := Run.run_invariant (fun w ev w' h hg hs => Inv.step h hg hs)
    (initial_inv hpool masterNumber mountPoint numOfReplica count memory storage handle) hg hr
  exact ⟨hinv.kept, fun w' hs => hinv.remoteTask_iff hs⟩

/-- `/a` is opened and written, unlinked, and opened again: the new file has number 1, and a byte is written to it. -/
def recreatedFile : List Event :=
  Watched.writtenFile ++ [.request (Master.eventOf (.unlink Master.pathA)), .request (Master.eventOf (.openFile Master.pathA 0 0)),
    .deliver, .deliver, .receiveData (1, 0) 0 1 [7]]

/-- The thread unlinks `/a` before the new file is written back. -/
def unlinkedFirst : List Event := recreatedFile ++ [.remoteTask, .writeback (1, 0)]

/-- The new file is written back before the thread unlinks `/a`. -/
def unlinkedLast : List Event := recreatedFile ++ [.writeback (1, 0), .remoteTask]

theorem recreated_path_keeps_data_unlinked_first :
    ∃ w, Run.run (step 7) (initial OrdMap.empty 0 [] 0 4 (fun _ _ => 0) (fun _ => none)) unlinkedFirst = some w ∧
      w.written 1 0 = some 7 ∧ (Kept w ∧ ∀ w', w.step 7 .remoteTask = some w' → (Kept w' ↔ w.Guard .remoteTask)) := by
  refine ⟨_, rfl, rfl, ?_⟩
  have hpool : ∀ p s, (OrdMap.empty : OrdMap Str FileStat).find? p = some s → s.openedFileInfo = none ∧ s.fullPath = p := by
    intro p s hs
    cases hs
  refine recreated_path_keeps_data hpool 0 [] 0 4 (fun _ _ => 0) (fun _ => none) 7 unlinkedFirst ?_ rfl
  refine ⟨?_, ?_⟩
  · rintro q ⟨k, hk⟩
    simp [initial, Cluster.initial, Master.initial] at hk
  intro w hw
  cases hw
  refine ⟨⟨by decide, by decide⟩, ?_⟩
  intro w hw
  cases hw
  refine ⟨trivial, ?_⟩
  intro w hw
  cases hw
  refine ⟨⟨by decide, by decide⟩, ?_⟩
  intro w hw
  cases hw
  refine ⟨trivial, ?_⟩
  intro w hw
  cases hw
  refine ⟨⟨by decide, by decide⟩, ?_⟩
  intro w hw
  cases hw
  refine ⟨trivial, ?_⟩
  intro w hw
  cases hw
  refine ⟨trivial, ?_⟩
  intro w hw
  cases hw
  refine ⟨⟨by decide, by decide⟩, ?_⟩
  intro w hw
  cases hw
  refine ⟨?_, fun _ _ => ⟨trivial, fun _ _ => trivial⟩⟩
  -- the one file of the IOnode has one byte, in a dirty block
  intro t rest _ _ f file hon _ pos v hv
  have hmem := OrdMap.mem_entries.mpr hon.known
  obtain ⟨rfl, rfl⟩ := Prod.mk.inj (List.mem_singleton.mp hmem)
  cases pos with
  | zero => exact ⟨_, rfl, rfl⟩
  | succ pos => cases hv

/-- **The deferred unlink takes the new file's bytes.** The byte written to the new `/a` is on storage when the thread
    serves the old unlink; then nothing is on its way any more, and the byte is gone. -/
theorem recreated_path_loses_data :
    ∃ w file, Run.run (step 7) (initial OrdMap.empty 0 [] 0 4 (fun _ _ => 0) (fun _ => none)) unlinkedLast = some w ∧
      Watched.Drained w.cluster ∧ OnNode w.cluster 1 file ∧ file.filePath = Master.pathA ∧ w.written 1 0 = some 7 ∧
      w.cluster.node.stored Master.pathA 0 = none ∧ ¬ Kept w := by
  have hlost : ∃ w file, Run.run (step 7) (initial OrdMap.empty 0 [] 0 4 (fun _ _ => 0) (fun _ => none)) unlinkedLast = some w ∧
      Watched.Drained w.cluster ∧ OnNode w.cluster 1 file ∧ file.filePath = Master.pathA ∧ w.written 1 0 = some 7 ∧
      w.cluster.node.stored Master.pathA 0 = none := by
    refine ⟨_, _, rfl, ⟨rfl, rfl, ?_, rfl⟩, ⟨rfl, rfl, fun _ hm => (nomatch hm)⟩, rfl, rfl, rfl⟩
    rintro ⟨f, s⟩ path ⟨file, b, hfile, hb, hdirty, -⟩
    obtain ⟨rfl, rfl⟩ := Prod.mk.inj (List.mem_singleton.mp (OrdMap.mem_entries.mpr hfile))
    obtain ⟨file, hknown, hs⟩ := IOnode.block?_some_iff.mp hb
    obtain rfl := Option.some.inj (hfile.symm.trans hknown)
    obtain ⟨rfl, rfl⟩ := Prod.mk.inj (List.mem_singleton.mp (OrdMap.mem_entries.mpr hs))
    cases hdirty
  obtain ⟨w, file, hrun, hdrained, hon, hpath, hwritten, hstored⟩ := hlost
  refine ⟨w, file, hrun, hdrained, hon, hpath, hwritten, hstored, ?_⟩
  intro hkept
  have h := hkept.drained hdrained 1 file 0 7 hon hwritten
  rw [hpath, hstored] at h
  cases h

end Recorded

end Cluster

end HuronFS
