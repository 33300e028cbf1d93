import HuronFS.Lib.Run
import HuronFS.Master.NodeFiles

/-!
# `Protocol.Agreement` — the Master and the IOnodes on the files each node holds

The Master, one FIFO channel to each IOnode and the IOnodes, in any order of requests, deliveries and turns of
`remove_files`. The table of a node, after the messages still in its channel, is the one that the Master keeps
for it (`Agrees`); with nothing in flight the two are equal.

Write-back is synchronous: a turn of the request handler finds no write-back going on, so `remove_files` runs
before each message.
-/

namespace HuronFS

/-- The Master, the channels to the handles and the IOnodes on them. -/
structure Placement where
  master : Master
  channel : Handle → List (List Field)
  nodes : Handle → IOnode

namespace Placement

open Master (Registered)

inductive Event
  /-- A request is handled by the Master. -/
  | request (ev : Master.Event)
  /-- The IOnode on the handle takes the next message from its channel. -/
  | deliver (handle : Handle)
  /-- The IOnode on the handle runs `remove_files`. -/
  | removeFiles (handle : Handle)

def step (s : Placement) : Event → Option Placement
  | .request ev =>
      match s.master.parseRequest ev.env ev.origin ev.request with
      | none => none
      | some out => some { s with
          master := out.master, channel := fun handle => s.channel handle ++ messagesTo handle out.ops }
  | .deliver handle =>
      match s.channel handle with
      | [] => none
      | message :: rest => some { s with
          channel := Function.update s.channel handle rest
          nodes := Function.update s.nodes handle ((s.nodes handle).receive message) }
  | .removeFiles handle =>
      some { s with nodes := Function.update s.nodes handle (s.nodes handle).intervalProcess }

/-- The Master meets the conditions of its requests, and only a message that was sent is delivered. -/
def Guard (s : Placement) : Event → Prop
  | .request ev => Master.PlacingGuard s.master ev
  | .deliver handle => s.channel handle ≠ []
  | .removeFiles _ => True

/-- The invariant: each registered node has, or will have, the files the Master has placed on it. -/
structure Agrees (s : Placement) : Prop where
  placed : s.master.PlacedInv
  listed : ∀ handle, (s.nodes handle).Listed
  views : ∀ q handle, Registered s.master q → s.master.handleOf q = some handle →
    (s.nodes handle).fileView.after (s.channel handle) = s.master.nodeView q
  idle : ∀ handle, (∀ q, Registered s.master q → s.master.handleOf q ≠ some handle) →
    s.channel handle = [] ∧ (s.nodes handle).fileView = fun _ => none

/-- A node and its channel may change as long as what they amount to does not. -/
theorem Agrees.of_node {s : Placement} (h : Agrees s) {handle : Handle} {node : IOnode} {rest : List (List Field)}
    (hlisted : node.Listed) (hafter : node.fileView.after rest = (s.nodes handle).fileView.after (s.channel handle))
    (hidle : s.channel handle = [] → rest = [] ∧ node.fileView = (s.nodes handle).fileView) :
    Agrees { s with channel := Function.update s.channel handle rest, nodes := Function.update s.nodes handle node } := by
  refine ⟨h.placed, ?_, ?_, ?_⟩
  · intro handle'
    by_cases hh : handle' = handle
    · rw [hh]
      show (Function.update s.nodes handle node handle).Listed
      rw [Function.update_self]
      exact hlisted
    · show (Function.update s.nodes handle node handle').Listed
      rw [Function.update_of_ne hh]
      exact h.listed handle'
  · intro q handle' hq hhandle
    have hview := h.views q handle' hq hhandle
    show (Function.update s.nodes handle node handle').fileView.after (Function.update s.channel handle rest handle') = _
    by_cases hh : handle' = handle
    · subst hh
      rw [Function.update_self, Function.update_self, hafter]
      exact hview
    · rw [Function.update_of_ne hh, Function.update_of_ne hh]
      exact hview
  · intro handle' hno
    obtain ⟨hchannel, hview⟩ := h.idle handle' hno
    show Function.update s.channel handle rest handle' = [] ∧ (Function.update s.nodes handle node handle').fileView = _
    by_cases hh : handle' = handle
    · subst hh
      obtain ⟨hrest, hsame⟩ := hidle hchannel
      rw [Function.update_self, Function.update_self, hsame]
      exact ⟨hrest, hview⟩
    · rw [Function.update_of_ne hh, Function.update_of_ne hh]
      exact ⟨hchannel, hview⟩

/-- **One step keeps the agreement.** -/
theorem Agrees.step {s : Placement} (h : Agrees s) (ev : Event) (hg : Guard s ev) :
    ∃ s', s.step ev = some s' ∧ Agrees s' := by
  cases ev with
  | request ev =>
      obtain ⟨out, hout, hserved, hinv⟩ := h.placed.parseRequest hg
      refine ⟨{ s with master := out.master, channel := fun handle => s.channel handle ++ messagesTo handle out.ops },
        by simp only [Placement.step, hout], hinv, h.listed, ?_, ?_⟩
      · intro q handle hq hh
        show (s.nodes handle).fileView.after (s.channel handle ++ messagesTo handle out.ops) = out.master.nodeView q
        rcases hserved.new q hq with hold | ⟨hempty, hapart⟩
        · obtain ⟨n, hn⟩ : ∃ n, s.master.handleOf q = some n := by
            obtain ⟨k, hk⟩ := hold
            obtain ⟨node, hnode, -⟩ := h.placed.nodes.live k q hk
            exact ⟨node.handle, by unfold Master.handleOf; rw [hnode]; rfl⟩
          obtain ⟨hkept, hview⟩ := hserved.kept q n hold hn
          obtain rfl := Option.some.inj (hkept.symm.trans hh)
          rw [FileView.after_append, h.views q n hold hn]
          exact hview
        · -- a node that registers has heard nothing so far
          have hno : ∀ q', Registered s.master q' → s.master.handleOf q' ≠ some handle := by
            intro q' hq'
            rw [← hh]
            exact hapart q' hq'
          obtain ⟨hchannel, hview⟩ := h.idle handle hno
          rw [hchannel, hserved.quiet handle hno, hview, hempty]
          rfl
      · intro handle hno
        have hno' : ∀ q, Registered s.master q → s.master.handleOf q ≠ some handle := by
          intro q hq hh
          exact hno q (hserved.registered q hq) (hserved.kept q handle hq hh).1
        obtain ⟨hchannel, hview⟩ := h.idle handle hno'
        refine ⟨?_, hview⟩
        show s.channel handle ++ messagesTo handle out.ops = []
        rw [hchannel, hserved.quiet handle hno', List.append_nil]
  | deliver handle =>
      cases hc : s.channel handle with
      | nil => exact absurd hc hg
      | cons message rest =>
          obtain ⟨hview, hlisted⟩ := (h.listed handle).receive message
          refine ⟨_, by simp only [Placement.step, hc]; rfl, ?_⟩
          refine h.of_node hlisted ?_ (fun hnil => by rw [hc] at hnil; cases hnil)
          rw [hview, hc]
          rfl
  | removeFiles handle =>
      refine ⟨_, rfl, ?_⟩
      obtain ⟨hview, hlive⟩ := (h.listed handle).intervalProcess
      have hlisted : (s.nodes handle).intervalProcess.Listed := by
        intro f file hf
        rw [IOnode.intervalProcess_removeFileList]
        simp [hlive f file hf]
      have hafter : (s.nodes handle).intervalProcess.fileView.after (s.channel handle)
          = (s.nodes handle).fileView.after (s.channel handle) := by rw [hview]
      have hagrees := h.of_node hlisted hafter (fun hnil => ⟨hnil, hview⟩)
      rw [Function.update_eq_self] at hagrees
      exact hagrees

/-- Every party as constructed: a Master with the paths of the storage, and IOnodes without a file. -/
def initial (pool : OrdMap Str FileStat) (masterNumber : Int) (mountPoint : Str) (numOfReplica count : Nat)
    (memory : Nat → Nat → Byte) (storage : Str → Option (ByteFile Byte)) : Placement :=
  { master := Master.initial pool masterNumber mountPoint numOfReplica, channel := fun _ => []
    nodes := fun _ => IOnode.start count memory storage }

/-- What the two sides agree on, for a node of the Master and the IOnode on its handle: the numbers in `_files`
    are its `stored_files`, and each file has the path under which `_file_stat_pool` holds it. -/
structure NodeAgrees (m : Master) (node : NodeInfo) (n : IOnode) : Prop where
  keys : ∀ f, (n.files.find? f).isSome ↔ OrdSet.Mem node.storedFiles f
  paths : ∀ f file, n.files.find? f = some file →
    ∃ r, m.bufferedFiles.find? f = some r ∧ m.openedAt file.filePath = some r

theorem Agrees.nodeAgrees {s : Placement} (h : Agrees s) {q : NodeRef} {node : NodeInfo} (hq : Registered s.master q)
    (hnode : s.master.nodes q = some node) (hchannel : s.channel node.handle = [])
    (hlist : (s.nodes node.handle).removeFileList = []) : NodeAgrees s.master node (s.nodes node.handle) := by
  have hhandle : s.master.handleOf q = some node.handle := by
    unfold Master.handleOf
    rw [hnode]
    rfl
  have hview := h.views q node.handle hq hhandle
  rw [hchannel] at hview
  have hfiles : ∀ f, ((s.nodes node.handle).files.find? f).map IOFile.filePath = s.master.nodeView q f := by
    intro f
    rw [(h.listed node.handle).files_eq hlist f, ← hview]
    rfl
  refine ⟨?_, ?_⟩
  · intro f
    rw [h.placed.stored q node hq hnode f, ← hfiles f, Option.isSome_map]
  · intro f file hf
    have hpath := hfiles f
    rw [hf, Option.map_some] at hpath
    unfold Master.nodeView at hpath
    cases ho : s.master.openFileOf f with
    | none =>
        rw [ho] at hpath
        cases hpath
    | some e =>
        rw [ho] at hpath
        have hpath' : some file.filePath = if e.2.References q then some e.2.fileStatus else none := hpath
        split at hpath'
        · obtain ⟨hb, hobj⟩ := Master.openFileOf_eq_some.mp ho
          obtain ⟨g, hg⟩ := h.placed.table.entry f e.1 hb
          obtain rfl := Option.some.inj (hg.object.symm.trans hobj)
          rw [Option.some.inj hpath']
          exact ⟨e.1, hb, hg.opened⟩
        · cases hpath'

theorem initial_agrees {pool : OrdMap Str FileStat}
    (hpool : ∀ p s, pool.find? p = some s → s.openedFileInfo = none ∧ s.fullPath = p) (masterNumber : Int)
    (mountPoint : Str) (numOfReplica count : Nat) (memory : Nat → Nat → Byte) (storage : Str → Option (ByteFile Byte)) :
    Agrees (initial pool masterNumber mountPoint numOfReplica count memory storage) := by
  refine ⟨Master.initial_placedInv hpool masterNumber mountPoint numOfReplica, ?_, ?_, ?_⟩
  · intro handle f file hf
    simp [initial, IOnode.start] at hf
  · rintro q handle ⟨k, hk⟩
    simp [initial, Master.initial] at hk
  · intro handle _
    exact ⟨rfl, rfl⟩

/-- **The Master and the IOnodes agree on the files and their paths.** The run is over opens, unlinks, rmdirs,
    local renames and registrations, with the messages delivered at any time; none of its steps meets undefined
    behaviour. Once a node has taken all its messages and has run `remove_files`, it holds the files that the
    Master has stored on it, under their paths. -/
theorem nodes_agree {pool : OrdMap Str FileStat}
    (hpool : ∀ p s, pool.find? p = some s → s.openedFileInfo = none ∧ s.fullPath = p) (masterNumber : Int)
    (mountPoint : Str) (numOfReplica count : Nat) (memory : Nat → Nat → Byte) (storage : Str → Option (ByteFile Byte))
    (evs : List Event)
    (hg : Run.Guarded step Guard (initial pool masterNumber mountPoint numOfReplica count memory storage) evs) :
    ∃ s, Run.run step (initial pool masterNumber mountPoint numOfReplica count memory storage) evs = some s ∧
      ∀ q node, Registered s.master q → s.master.nodes q = some node → s.channel node.handle = [] →
        (s.nodes node.handle).removeFileList = [] → NodeAgrees s.master node (s.nodes node.handle) := by
  obtain ⟨s, hrun, hagrees⟩ := Run.run_progress (fun s ev h hg => Agrees.step h ev hg)
    (initial_agrees hpool masterNumber mountPoint numOfReplica count memory storage) hg
  refine ⟨s, hrun, ?_⟩
  intro q node hq hnode hchannel hlist
  exact hagrees.nodeAgrees hq hnode hchannel hlist

/-- An IOnode registers on handle 7, `/a` is opened and renamed to `/b`, and the node takes both messages. -/
def openAndRename : List Event :=
  [.request ⟨⟨0, 0, 0⟩, ⟨7, 0⟩, .register 100 Master.pathA⟩, .request (Master.eventOf (.openFile Master.pathA 0 0)),
    .request (Master.eventOf (.rename Master.pathA [47, 98] MYSELF)), .deliver 7, .deliver 7]

theorem nodes_agree_renamed :
    ∃ s, Run.run step (initial OrdMap.empty 0 [] 0 4 (fun _ _ => 0) (fun _ => none)) openAndRename = some s ∧
      ∀ q node, Registered s.master q → s.master.nodes q = some node → s.channel node.handle = [] →
        (s.nodes node.handle).removeFileList = [] → NodeAgrees s.master node (s.nodes node.handle) := by
  refine nodes_agree (by intro p s hs; simp at hs) 0 [] 0 4 _ _ openAndRename ?_
  refine ⟨?_, ?_⟩
  · rintro q ⟨k, hk⟩
    simp [initial, Master.initial] at hk
  intro s1 h1
  cases h1
  refine ⟨⟨by decide, by decide⟩, ?_⟩
  intro s2 h2
  cases h2
  refine ⟨⟨rfl, by decide⟩, ?_⟩
  intro s3 h3
  cases h3
  refine ⟨by simp [Guard]; decide, ?_⟩
  intro s4 h4
  cases h4
  refine ⟨by simp [Guard]; decide, ?_⟩
  intro s5 h5
  trivial

end Placement

end HuronFS
