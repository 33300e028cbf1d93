import HuronFS.Master.Config
import HuronFS.Master.Failure
import HuronFS.Master.OpenTable

/-!
# `Master.Registry` — ids of IOnodes and the round-robin cursor

An IOnode registers under an id of a `bool` pool. Whatever the Master is asked, the set of handles and the
registry have the same nodes, and the cursor is a registered node or `end`. The pool is the set of registered
ids only as long as no id leaks: `_add_IOnode` takes one before it looks the uri up, and `_remove_IOnode`,
unlike `_delete_IOnode`, never gives one back.
-/

namespace HuronFS

namespace Master

/-- The registry is sound, and the handles are those of its nodes. -/
structure RegistryInv (m : Master) : Prop where
  nodes : NodeInv m
  same : ∀ r, OrdSet.Mem m.IOnodeHandle r ↔ Registered m r

/-- An id is taken just when it is registered. -/
structure IdsExact (m : Master) : Prop where
  taken : ∀ i : Nat, m.nodeIdPool i = true ↔ ∃ r, m.registeredIOnodes.find? i = some r
  range : ∀ i : Nat, m.nodeIdPool i = true → i < MAX_IONODE

section

variable {m m' : Master}

/-! ## What every request keeps -/

theorem NodeInv.keeps (h : NodeInv m) (hk : Keeps m m') : NodeInv m' := by
  have hreg := hk.registered_eq
  have hpool : m'.nodeIdPool = m.nodeIdPool := congrArg (fun c => c.2.2.1) hk.core
  have hnext : m'.nextNode = m.nextNode := congrArg (fun c => c.2.2.2.1) hk.core
  refine ⟨?_, ?_, hk.cursor h.cursor, ?_⟩
  · intro id r hr
    rw [hreg] at hr
    obtain ⟨n, hn, hid⟩ := h.live id r hr
    have hnode := hk.node r
    rw [hn, Option.map_some] at hnode
    obtain ⟨n', hn', hid'⟩ := Option.map_eq_some_iff.mp hnode
    exact ⟨n', hn', hid'.trans hid⟩
  · intro id r hr
    rw [hreg] at hr
    rw [hpool]
    exact h.idTaken id r hr
  · intro r hr
    rw [hnext] at hr
    have hnode := hk.node r
    rw [h.fresh r hr, Option.map_none] at hnode
    exact Option.map_eq_none_iff.mp hnode

theorem RegistryInv.keeps (h : RegistryInv m) (hk : Keeps m m') : RegistryInv m' := by
  refine ⟨h.nodes.keeps hk, ?_⟩
  intro r
  have hhandles : m'.IOnodeHandle = m.IOnodeHandle := congrArg (fun c => c.2.1) hk.core
  unfold Registered
  rw [hhandles, hk.registered_eq]
  exact h.same r

/-- The nodes after a registration. -/
theorem registered_registerNode {id : Nat} {node : NodeInfo} (hkey : m.registeredIOnodes.find? (id : Int) = none) {r : NodeRef} :
    Registered (m.registerNode id node) r ↔ r = m.nextNode ∨ Registered m r := by
  have hreg : (m.registerNode id node).registeredIOnodes = m.registeredIOnodes.put id m.nextNode :=
    OrdMap.insert_of_none hkey _
  unfold Registered
  rw [hreg]
  constructor
  · rintro ⟨k, hk⟩
    rw [OrdMap.find?_put] at hk
    split at hk
    · exact Or.inl (Option.some.inj hk).symm
    · exact Or.inr ⟨k, hk⟩
  · rintro (rfl | ⟨k, hk⟩)
    · exact ⟨id, OrdMap.find?_put_self ..⟩
    · have hne : k ≠ (id : Int) := fun hc => by rw [hc, hkey] at hk; cases hk
      exact ⟨k, by rw [OrdMap.find?_put_ne _ _ hne]; exact hk⟩

theorem RegistryInv.addIOnode (h : RegistryInv m) (uri : Str) (totalMemory : Nat) (handle : Handle) :
    RegistryInv (m.addIOnode uri totalMemory handle).2 := by
  refine ⟨h.nodes.addIOnode uri totalMemory handle, ?_⟩
  cases addIOnode_inv m uri totalMemory handle with
  | full _ heq =>
      rw [heq]
      exact h.same
  | noId _ heq =>
      rw [heq]
      exact h.same
  | known id _ _ _ _ heq =>
      rw [heq]
      exact h.same
  | added id node _ hfree _ _ _ heq =>
      rw [heq]
      intro r
      rw [registered_registerNode (h.nodes.free_id hfree), ← h.same r]
      exact OrdSet.mem_add

/-- The removal of a node takes its id, and no other, out of the registry. -/
theorem RegistryInv.unregister_registered (h : RegistryInv m) {id : Int} {failed : NodeRef}
    (hid : m.registeredIOnodes.find? id = some failed) (hun : m.unregisterIOnode failed = some m') :
    m'.registeredIOnodes = m.registeredIOnodes.erase id := by
  obtain ⟨node, hnode, hnid⟩ := h.nodes.live id failed hid
  obtain ⟨_, _, _, _, hm'⟩ := unregisterIOnode_some hnode (registered_ne_zero ⟨id, hid⟩) hun
  rw [hm', hnid]

/-- **The removal of a node** leaves a sound registry; the cursor it moves on was not at `end`. -/
theorem RegistryInv.unregister (h : RegistryInv m) {failed : NodeRef} (hfailed : Registered m failed)
    (hun : m.unregisterIOnode failed = some m') :
    RegistryInv m' ∧ ∃ id : Nat, m'.nodeIdPool id = true ∧ m'.registeredIOnodes.find? id = none := by
  obtain ⟨id, hid⟩ := hfailed
  obtain ⟨node, hnode, hnid⟩ := h.nodes.live id failed hid
  obtain ⟨k, q, _, hk, hm'⟩ := unregisterIOnode_some hnode (registered_ne_zero ⟨id, hid⟩) hun
  have hreg := h.unregister_registered hid hun
  have hold : ∀ j r, m'.registeredIOnodes.find? j = some r → j ≠ id ∧ m.registeredIOnodes.find? j = some r := by
    intro j r hj
    rw [hreg, OrdMap.find?_erase] at hj
    split at hj
    · cases hj
    · rename_i hne
      exact ⟨hne, hj⟩
  refine ⟨⟨⟨?_, ?_, ?_, ?_⟩, ?_⟩, ?_⟩
  · intro j r hj
    obtain ⟨hne, hj⟩ := hold j r hj
    obtain ⟨n, hn, hnj⟩ := h.nodes.live j r hj
    have hr : r ≠ failed := by
      rintro rfl
      exact hne (h.nodes.id_inj hj hid)
    refine ⟨n, ?_, hnj⟩
    rw [hm']
    exact (Function.update_of_ne hr _ _).trans hn
  · intro j r hj
    obtain ⟨_, hj⟩ := hold j r hj
    rw [hm']
    exact h.nodes.idTaken j r hj
  · intro j hj
    rw [hm', hnid] at hj
    replace hj : (if k = id then m.registeredIOnodes.nextKey k else some k) = some j := hj
    rw [hreg]
    split at hj
    · rename_i heq
      obtain ⟨r, hr⟩ := OrdMap.nextKey_mem hj
      have hgt := OrdMap.nextKey_gt hj
      exact ⟨r, by rw [OrdMap.find?_erase_ne _ (by omega)]; exact hr⟩
    · rename_i hne
      obtain rfl := Option.some.inj hj
      exact ⟨q, by rw [OrdMap.find?_erase_ne _ hne]; exact hk⟩
  · intro r hr
    rw [hm'] at hr ⊢
    have hnone := h.nodes.fresh r hr
    show Function.update m.nodes failed none r = none
    by_cases hrf : r = failed
    · rw [hrf, Function.update_self]
    · rw [Function.update_of_ne hrf]
      exact hnone
  · intro r
    have hiff := registered_erase h.nodes hnode ⟨id, hid⟩ r
    have hreg' : Registered m' r ↔ Registered m r ∧ r ≠ failed := by
      unfold Registered
      rw [hreg, ← hnid]
      exact hiff
    have hhandles : m'.IOnodeHandle = m.IOnodeHandle.erase failed := by rw [hm']
    rw [hreg', hhandles, OrdSet.mem_erase, h.same r]
    exact and_comm
  · -- the id of the node is still taken
    obtain ⟨h0, htaken⟩ := h.nodes.idTaken id failed hid
    refine ⟨id.toNat, ?_, ?_⟩
    · rw [hm']
      exact htaken
    · rw [hreg, Int.toNat_of_nonneg h0]
      exact OrdMap.find?_erase_self ..

/-- A node reported as failed is a registered one. -/
theorem RegistryInv.failed_registered (h : RegistryInv m) {o : Origin} {req : Request} {failed : NodeRef}
    (hf : m.failedNode o req = some failed) : Registered m failed := by
  unfold failedNode at hf
  split at hf
  · apply (h.same failed).mp
    exact OrdSet.mem_keys.mp (List.mem_of_find?_eq_some hf)
  · exact ⟨_, hf⟩
  · cases hf

theorem Keeps.registered (hk : Keeps m m') {r : NodeRef} (hr : Registered m r) : Registered m' r := by
  unfold Registered
  rw [hk.registered_eq]
  exact hr

/-- **Every request keeps the registry sound.** -/
theorem RegistryInv.step (h : RegistryInv m) {ev : Event} (hstep : m.step ev = some m') : RegistryInv m' := by
  obtain ⟨out, hout, rfl⟩ := Option.map_eq_some_iff.mp hstep
  cases parseRequest_registry hout with
  | keeps hk => exact h.keeps hk
  | registers totalMemory uri _ hadd =>
      rw [hadd]
      exact h.addIOnode uri totalMemory _
  | removes failed m1 hfailed hk hun => exact ((h.keeps hk).unregister (hk.registered (h.failed_registered hfailed)) hun).1

/-- A report of a failure takes no other node out of the registry. -/
theorem RegistryInv.reported (h : RegistryInv m) {env : Env} {origin : Origin} {id : Int}
    (hstep : m.step ⟨env, origin, .IOnodeFailure id⟩ = some m') {k : Int} (hk : k ≠ id) :
    m'.registeredIOnodes.find? k = m.registeredIOnodes.find? k := by
  obtain ⟨out, hout, rfl⟩ := Option.map_eq_some_iff.mp hstep
  cases parseRequest_registry hout with
  | keeps hkeeps => rw [hkeeps.registered_eq]
  | registers totalMemory uri hreq _ => cases hreq
  | removes failed m1 hfailed hkeeps hun =>
      have hid : m1.registeredIOnodes.find? id = some failed := by
        rw [hkeeps.registered_eq]
        exact hfailed
      rw [(h.keeps hkeeps).unregister_registered hid hun, OrdMap.find?_erase_ne _ hk, hkeeps.registered_eq]

theorem initial_registryInv (pool : OrdMap Str FileStat) (masterNumber : Int) (mountPoint : Str) (numOfReplica : Nat) :
    RegistryInv (initial pool masterNumber mountPoint numOfReplica) := by
  refine ⟨⟨?_, ?_, ?_, fun _ _ => rfl⟩, ?_⟩
  · intro id r hr
    cases hr
  · intro id r hr
    cases hr
  · intro k hk
    cases hk
  · intro r
    refine ⟨fun hc => absurd hc (OrdSet.not_mem_empty r), ?_⟩
    rintro ⟨k, hk⟩
    cases hk

/-! ## Ids that do not leak -/

/-- No more nodes are registered than there are ids. -/
theorem IdsExact.size_le (h : IdsExact m) (hm : NodeInv m) : m.registeredIOnodes.size ≤ MAX_IONODE := by
  have hsub : m.registeredIOnodes.keys ⊆ (List.range MAX_IONODE).map (fun k : Nat => (k : Int)) := by
    intro k hk
    obtain ⟨r, hr⟩ := OrdMap.mem_keys.mp hk
    obtain ⟨h0, htaken⟩ := hm.idTaken k r hr
    exact List.mem_map.mpr ⟨k.toNat, List.mem_range.mpr (h.range _ htaken), Int.toNat_of_nonneg h0⟩
  have hle := (List.subperm_of_subset (OrdMap.keys_nodup _) hsub).length_le
  rwa [List.length_map, List.length_range, ← OrdMap.size_eq_keys_length] at hle

/-- When every id is taken, all nodes are there. -/
theorem IdsExact.full (h : IdsExact m) (hm : NodeInv m) (hids : ∀ i, i < MAX_IONODE → m.nodeIdPool i = true) :
    m.registeredIOnodes.size = MAX_IONODE := by
  have hge := length_ge_of_all_mem (fun n hn => OrdMap.mem_keys.mpr ((h.taken n).mp (hids n hn)))
  rw [← OrdMap.size_eq_keys_length] at hge
  exact le_antisymm (h.size_le hm) hge

theorem IdsExact.keeps (h : IdsExact m) (hk : Keeps m m') : IdsExact m' := by
  have hpool : m'.nodeIdPool = m.nodeIdPool := congrArg (fun c => c.2.2.1) hk.core
  refine ⟨?_, ?_⟩
  · rw [hpool, hk.registered_eq]
    exact h.taken
  · rw [hpool]
    exact h.range

/-- A registration that takes an id and registers no node. -/
def takesIdInVain (m : Master) : Request → Bool
  | .register _ uri => m.findByUri uri && m.registeredIOnodes.size != MAX_IONODE
  | _ => false

/-- **The condition on a step**: a uri that registers is new, unless every id is used up, and a failure
    reported is not that of a registered node. -/
def RegistryGuard (m : Master) (ev : Event) : Prop :=
  m.takesIdInVain ev.request = false ∧ m.failedNode ev.origin ev.request = none

instance (m : Master) (ev : Event) : Decidable (RegistryGuard m ev) := inferInstanceAs (Decidable (_ ∧ _))

/-- A registration under the condition takes one id, for the node it registers. -/
theorem IdsExact.addIOnode (h : IdsExact m) (hm : NodeInv m) {uri : Str} (totalMemory : Nat) (handle : Handle)
    (hg : m.takesIdInVain (.register totalMemory uri) = false) : IdsExact (m.addIOnode uri totalMemory handle).2 := by
  cases addIOnode_inv m uri totalMemory handle with
  | full _ heq =>
      rw [heq]
      exact h
  | noId _ heq =>
      rw [heq]
      exact ⟨h.taken, h.range⟩
  | known id _ _ huri hroom _ =>
      replace hg : (m.findByUri uri && m.registeredIOnodes.size != MAX_IONODE) = false := hg
      rw [huri, Bool.true_and, bne_eq_false_iff_eq] at hg
      exact absurd hg hroom
  | added id node hlt hfree _ _ _ heq =>
      rw [heq]
      have hkey := hm.free_id hfree
      have hreg : (m.registerNode id node).registeredIOnodes = m.registeredIOnodes.put id m.nextNode :=
        OrdMap.insert_of_none hkey _
      have hpool : (m.registerNode id node).nodeIdPool = Function.update m.nodeIdPool id true := rfl
      refine ⟨?_, ?_⟩
      · intro i
        rw [hpool, hreg]
        by_cases hi : i = id
        · subst hi
          rw [Function.update_self, OrdMap.find?_put_self]
          exact ⟨fun _ => ⟨_, rfl⟩, fun _ => rfl⟩
        · rw [Function.update_of_ne hi, OrdMap.find?_put_ne _ _ (by omega)]
          exact h.taken i
      · intro i hi
        rw [hpool] at hi
        by_cases hid : i = id
        · rw [hid]
          exact hlt
        · rw [Function.update_of_ne hid] at hi
          exact h.range i hi

/-- **A step under the condition** leaks no id. -/
theorem IdsExact.step (h : IdsExact m) (hm : NodeInv m) {ev : Event} (hg : RegistryGuard m ev) (hstep : m.step ev = some m') :
    IdsExact m' := by
  obtain ⟨out, hout, rfl⟩ := Option.map_eq_some_iff.mp hstep
  cases parseRequest_registry hout with
  | keeps hk => exact h.keeps hk
  | registers totalMemory uri hreq hadd =>
      rw [hadd]
      apply h.addIOnode hm
      rw [← hreq]
      exact hg.1
  | removes failed m1 hfailed hk hun =>
      rw [hg.2] at hfailed
      cases hfailed

/-- **A step outside the condition** leaks one. -/
theorem IdsExact.unguarded (h : IdsExact m) (hm : RegistryInv m) {ev : Event} (hg : ¬ RegistryGuard m ev) (hstep : m.step ev = some m') :
    ¬ IdsExact m' := by
  obtain ⟨out, hout, rfl⟩ := Option.map_eq_some_iff.mp hstep
  rcases not_and_or.mp hg with hvain | hfails
  · revert hout hvain
    cases ev.request with
    | register totalMemory uri =>
        intro hout hvain
        cases hout
        show ¬ IdsExact (m.addIOnode uri totalMemory ev.origin.handle).2
        replace hvain : ¬ (m.findByUri uri && m.registeredIOnodes.size != MAX_IONODE) = false := hvain
        rw [Bool.not_eq_false, Bool.and_eq_true, bne_iff_ne] at hvain
        cases addIOnode_inv m uri totalMemory ev.origin.handle with
        | full hfull _ => exact absurd hfull hvain.2
        | noId hids _ => exact absurd (h.full hm.nodes hids) hvain.2
        | known id _ hfree _ _ heq =>
            rw [heq]
            intro hc
            obtain ⟨r, hr⟩ := (hc.taken id).mp (Function.update_self ..)
            have hnone := hm.nodes.free_id hfree
            rw [show m.registeredIOnodes.find? (id : Int) = some r from hr] at hnone
            cases hnone
        | added id node _ _ hnew _ _ _ =>
            rw [hvain.1] at hnew
            cases hnew
    | _ =>
        intro _ hvain
        exact absurd rfl hvain
  · obtain ⟨failed, hfailed⟩ := Option.ne_none_iff_exists'.mp hfails
    have hall : ∀ m1, Keeps m m1 → m1.unregisterIOnode failed = some out.master → ¬ IdsExact out.master := by
      intro m1 hk hun hc
      obtain ⟨_, id, htaken, hnone⟩ := (hm.keeps hk).unregister (hk.registered (hm.failed_registered hfailed)) hun
      obtain ⟨r, hr⟩ := (hc.taken id).mp htaken
      rw [hnone] at hr
      cases hr
    have hfail : failureOutcome (m.IOnodeFailureHandler failed) = some out := by
      revert hout hfailed
      cases ev.request with
      | nodeFailure =>
          intro hout hfailed
          simp only [parseRequest, parseNodeFailure] at hout
          rw [show m.getNodeInfoFromHandle ev.origin.handle = some failed from hfailed] at hout
          exact hout
      | IOnodeFailure nodeId =>
          intro hout hfailed
          simp only [parseRequest, parseIOnodeFailure] at hout
          rw [show m.registeredIOnodes.find? nodeId = some failed from hfailed] at hout
          exact hout
      | _ =>
          intro _ hfailed
          cases hfailed
    obtain ⟨⟨m2, ops, news⟩, hh, heq⟩ := Option.map_eq_some_iff.mp hfail
    cases heq
    obtain ⟨m1, hk, hun⟩ := IOnodeFailureHandler_inv hh
    exact hall m1 hk hun

end

/-! ## Runs -/

/-- What holds of the registry: ids are exact, both tables have the same nodes, a new uri is refused only
    when there is no room, a new node gets an id that no node has, and the cursor is valid. -/
structure RegistryOk (m : Master) : Prop where
  ids : ∀ i : Nat, i < MAX_IONODE → (m.nodeIdPool i = true ↔ ∃ r, m.registeredIOnodes.find? i = some r)
  same : ∀ r, OrdSet.Mem m.IOnodeHandle r ↔ Registered m r
  refusal : ∀ uri totalMemory handle, m.findByUri uri = false → (m.addIOnode uri totalMemory handle).1 = -1 →
    m.registeredIOnodes.size = MAX_IONODE
  newId : ∀ uri totalMemory handle, (m.addIOnode uri totalMemory handle).1 ≠ -1 →
    m.registeredIOnodes.find? (m.addIOnode uri totalMemory handle).1 = none
  cursor : m.CursorValid

theorem RegistryInv.ok {m : Master} (h : RegistryInv m) (hids : IdsExact m) : RegistryOk m := by
  refine ⟨fun i _ => hids.taken i, h.same, ?_, ?_, h.nodes.cursor⟩
  · intro uri totalMemory handle hnew href
    cases addIOnode_inv m uri totalMemory handle with
    | full hfull _ => exact hfull
    | noId hall _ => exact hids.full h.nodes hall
    | known id _ _ huri _ _ =>
        rw [hnew] at huri
        cases huri
    | added id node _ _ _ _ _ heq =>
        rw [heq] at href
        have : ((id : Int)) = -1 := href
        omega
  · intro uri totalMemory handle hne
    cases addIOnode_inv m uri totalMemory handle with
    | full _ heq =>
        rw [heq] at hne
        exact absurd rfl hne
    | noId _ heq =>
        rw [heq] at hne
        exact absurd rfl hne
    | known id _ _ _ _ heq =>
        rw [heq] at hne
        exact absurd rfl hne
    | added id node _ hfree _ _ _ heq =>
        rw [heq]
        exact h.nodes.free_id hfree

/-- A request about the membership: a registration, or a failure. -/
def AboutNodes : Request → Prop
  | .register _ _ => True
  | .nodeFailure => True
  | .IOnodeFailure _ => True
  | _ => False

/-- Such a request, under the condition, is handled without undefined behaviour. -/
theorem step_aboutNodes {m : Master} {ev : Event} (hreq : AboutNodes ev.request) (hg : RegistryGuard m ev) :
    ∃ m', m.step ev = some m' := by
  have hnone := hg.2
  unfold Master.step
  revert hreq hnone
  cases ev.request with
  | register totalMemory uri => exact fun _ _ => ⟨_, rfl⟩
  | nodeFailure =>
      intro _ hnone
      simp only [parseRequest, parseNodeFailure]
      rw [show m.getNodeInfoFromHandle ev.origin.handle = none from hnone]
      exact ⟨_, rfl⟩
  | IOnodeFailure nodeId =>
      intro _ hnone
      simp only [parseRequest, parseIOnodeFailure]
      rw [show m.registeredIOnodes.find? nodeId = none from hnone]
      exact ⟨_, rfl⟩
  | _ =>
      intro hreq
      cases hreq

/-- **Every run**, whatever it asks, leaves both tables with the same nodes and a cursor that is valid. -/
theorem registry_same_nodes (pool : OrdMap Str FileStat) (masterNumber : Int) (mountPoint : Str) (numOfReplica : Nat)
    (evs : List Event) {m : Master} (hrun : Run.run Master.step (initial pool masterNumber mountPoint numOfReplica) evs = some m) :
    RegistryInv m :=
  @Run.run_invariant _ _ Master.step (fun _ _ => True) RegistryInv (fun _ _ _ h _ hstep => h.step hstep) _ _ evs
    (initial_registryInv pool masterNumber mountPoint numOfReplica) (Run.Guarded.of_forall (fun _ _ => trivial)) hrun

/-- **Ids do not leak and the cursor stays valid**, in every state of every run whose steps meet the
    condition; when the run is about the membership only, it meets no undefined behaviour. -/
theorem registry_exact (pool : OrdMap Str FileStat) (masterNumber : Int) (mountPoint : Str) (numOfReplica : Nat)
    (evs : List Event) (hg : Run.Guarded Master.step RegistryGuard (initial pool masterNumber mountPoint numOfReplica) evs) :
    (∀ m, Run.run Master.step (initial pool masterNumber mountPoint numOfReplica) evs = some m → RegistryOk m) ∧
    ((∀ ev ∈ evs, AboutNodes ev.request) →
      ∃ m, Run.run Master.step (initial pool masterNumber mountPoint numOfReplica) evs = some m) := by
  have hids : IdsExact (initial pool masterNumber mountPoint numOfReplica) := by
    refine ⟨?_, ?_⟩
    · intro i
      constructor
      · intro hc
        cases hc
      · rintro ⟨r, hr⟩
        cases hr
    · intro i hc
      cases hc
  have hinit := initial_registryInv pool masterNumber mountPoint numOfReplica
  refine ⟨?_, ?_⟩
  · intro m hrun
    obtain ⟨hm, hex⟩ := Run.run_invariant (fun s e s' (h : RegistryInv s ∧ IdsExact s) hge hs =>
      (⟨h.1.step hs, h.2.step h.1.nodes hge hs⟩ : RegistryInv s' ∧ IdsExact s')) ⟨hinit, hids⟩ hg hrun
    exact hm.ok hex
  · intro hall
    clear hids hinit
    generalize initial pool masterNumber mountPoint numOfReplica = m0 at hg
    induction evs generalizing m0 with
    | nil => exact ⟨m0, rfl⟩
    | cons ev evs ih =>
        obtain ⟨m1, hstep⟩ := step_aboutNodes (hall ev (List.mem_cons_self ..)) hg.1
        obtain ⟨m, hrun⟩ := ih (fun ev' hev' => hall ev' (List.mem_cons_of_mem _ hev')) m1 (hg.2 m1 hstep)
        refine ⟨m, ?_⟩
        simp only [Run.run, hstep]
        exact hrun

/-- Two nodes with different uris. -/
theorem registry_exact_two : ∃ m, Run.run Master.step (initial OrdMap.empty 0 [] 0)
      [eventOf (.register 0 [97]), eventOf (.register 0 [98])] = some m ∧ RegistryOk m := by
  obtain ⟨hok, hsome⟩ := registry_exact OrdMap.empty 0 [] 0 [eventOf (.register 0 [97]), eventOf (.register 0 [98])] (by decide)
  obtain ⟨m, hm⟩ := hsome (by
    intro ev hev
    rcases List.mem_cons.mp hev with rfl | hev
    · trivial
    · rw [List.mem_singleton.mp hev]
      trivial)
  exact ⟨m, hm, hok m hm⟩

/-- The same uri twice: id 1 is taken and belongs to no node. -/
theorem registered_twice_leaks : ∃ m, Run.run Master.step (initial OrdMap.empty 0 [] 0)
      [eventOf (.register 0 [97]), eventOf (.register 0 [97])] = some m ∧
    m.nodeIdPool 1 = true ∧ m.registeredIOnodes.find? 1 = none ∧ ¬ RegistryOk m := by
  refine ⟨_, rfl, rfl, rfl, ?_⟩
  intro hok
  obtain ⟨r, hr⟩ := (hok.ids 1 (by decide)).mp rfl
  cases hr

end Master

end HuronFS
