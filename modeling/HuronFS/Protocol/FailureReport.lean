import HuronFS.Common.Queries
import HuronFS.Master.Registry

/-!
# `Protocol.FailureReport` — a client reports an IOnode that failed (`_report_IOnode_failure`)

A client keeps a table for each Master (`SCBB`): the handle of the Master and those of its IOnodes by id. When a response fails it looks
for the table that has the handle of the query, and tells a Master that an IOnode failed. The lookup of the Master's number and the
IOnode's id is commented out in the source, so both stay 0 whatever table was found.

The Masters take out of their registry whatever node is named. Reports travel: between a failure and its arrival anything can happen at
the Masters. `foundDead` is kept beside the system, for what clients have found out.
-/

namespace HuronFS

/-- `SCBB`: a Master and its IOnodes, as a client knows them. -/
structure SCBB where
  masterHandle : Handle
  IOnodeList : OrdMap Int Handle

/-- An `IONODE_FAILURE` message: the number and the handle of the Master it goes to, and the id it carries. -/
structure FailureMessage where
  masterNumber : Nat
  handle : Handle
  IOnodeId : Int
deriving DecidableEq, Repr

/-- What is pushed. -/
def FailureMessage.fields (message : FailureMessage) : List Field := [.int IONODE_FAILURE, .long message.IOnodeId]

namespace FailureReport

/-- `_find_scbb_by_handle` -/
def findScbbByHandle (masterHandleList : List SCBB) (handle : Handle) : Option SCBB :=
  masterHandleList.find? (fun scbb => scbb.IOnodeList.entries.any (fun IOnode => handle == IOnode.2))

/-- `_report_IOnode_failure`. `none` is `FAILURE`, and nothing is sent. -/
def reportIOnodeFailure (masterHandleList : List SCBB) (handle : Handle) : Option FailureMessage :=
  match findScbbByHandle masterHandleList handle with
  | none => none
  | some _ =>
      let masterNumber := 0
      let IOnodeId := 0
      (masterHandleList[masterNumber]?).map (fun scbb => ⟨masterNumber, scbb.masterHandle, IOnodeId⟩)

/-- The end of `get_query_response`: what a task with an error makes the client send. -/
def responseFailed (masterHandleList : List SCBB) (query ret : QueryTask) : Option FailureMessage :=
  if ret.error ≠ SUCCESS then reportIOnodeFailure masterHandleList query.handle else none

/-! ## The node that failed -/

/-- The handle is that of the IOnode with this id, of this Master. -/
def Stored (masterHandleList : List SCBB) (masterNumber : Nat) (id : Int) (handle : Handle) : Prop :=
  ∃ scbb, masterHandleList[masterNumber]? = some scbb ∧ scbb.IOnodeList.find? id = some handle

/-- **The node that failed is blamed**: if the handle is an IOnode's, the message goes to its Master and carries its id. -/
def Blames (masterHandleList : List SCBB) (handle : Handle) (sent : Option FailureMessage) : Prop :=
  (∃ masterNumber id, Stored masterHandleList masterNumber id handle) →
    ∃ message, sent = some message ∧ Stored masterHandleList message.masterNumber message.IOnodeId handle ∧
      (masterHandleList[message.masterNumber]?).map SCBB.masterHandle = some message.handle

/-- The handle is no IOnode's, or that of the IOnode 0 of the Master 0. -/
def Zero (masterHandleList : List SCBB) (handle : Handle) : Prop :=
  (∃ masterNumber id, Stored masterHandleList masterNumber id handle) → Stored masterHandleList 0 0 handle

theorem findScbbByHandle_isSome {masterHandleList : List SCBB} {handle : Handle} {masterNumber : Nat} {id : Int}
    (h : Stored masterHandleList masterNumber id handle) : ∃ scbb, findScbbByHandle masterHandleList handle = some scbb := by
  obtain ⟨scbb, hscbb, hid⟩ := h
  apply Option.isSome_iff_exists.mp
  unfold findScbbByHandle
  rw [List.find?_isSome]
  refine ⟨scbb, List.mem_of_getElem? hscbb, ?_⟩
  rw [List.any_eq_true]
  exact ⟨(id, handle), OrdMap.mem_entries.mpr hid, beq_self_eq_true _⟩

theorem stored_of_findScbbByHandle {masterHandleList : List SCBB} {handle : Handle} {scbb : SCBB}
    (h : findScbbByHandle masterHandleList handle = some scbb) : ∃ masterNumber id, Stored masterHandleList masterNumber id handle := by
  obtain ⟨masterNumber, hscbb⟩ := List.mem_iff_getElem?.mp (List.mem_of_find?_eq_some h)
  have hany := List.find?_some h
  obtain ⟨⟨id, other⟩, hmem, heq⟩ := List.any_eq_true.mp hany
  obtain rfl : handle = other := eq_of_beq heq
  exact ⟨masterNumber, id, scbb, hscbb, OrdMap.mem_entries.mp hmem⟩

/-- Whatever IOnode it is, the message is about the IOnode 0 of the Master 0. -/
theorem reportIOnodeFailure_eq {masterHandleList : List SCBB} {handle : Handle} {masterNumber : Nat} {id : Int}
    (h : Stored masterHandleList masterNumber id handle) :
    ∃ scbb, masterHandleList[0]? = some scbb ∧ reportIOnodeFailure masterHandleList handle = some ⟨0, scbb.masterHandle, 0⟩ := by
  obtain ⟨found, hfound⟩ := findScbbByHandle_isSome h
  unfold reportIOnodeFailure
  rw [hfound]
  obtain _ | ⟨scbb, rest⟩ := masterHandleList
  · cases hfound
  · exact ⟨scbb, rfl, rfl⟩

theorem blames_iff (masterHandleList : List SCBB) (handle : Handle) :
    Blames masterHandleList handle (reportIOnodeFailure masterHandleList handle) ↔ Zero masterHandleList handle := by
  refine forall_congr' ?_
  rintro ⟨masterNumber, id, hstored⟩
  obtain ⟨scbb, hfirst, hsent⟩ := reportIOnodeFailure_eq hstored
  rw [hsent]
  constructor
  · rintro ⟨message, hmessage, hright, -⟩
    obtain rfl := Option.some.inj hmessage
    exact hright
  · intro hzero
    exact ⟨_, rfl, hzero, by rw [hfirst, Option.map_some]⟩

/-- Where a handle is stored. -/
def storedAt (masterHandleList : List SCBB) (handle : Handle) : List (Nat × Int) :=
  masterHandleList.zipIdx.flatMap (fun (scbb, masterNumber) =>
    (scbb.IOnodeList.entries.filter (fun IOnode => IOnode.2 = handle)).map (fun IOnode => (masterNumber, IOnode.1)))

theorem mem_storedAt {masterHandleList : List SCBB} {handle : Handle} {masterNumber : Nat} {id : Int} :
    (masterNumber, id) ∈ storedAt masterHandleList handle ↔ Stored masterHandleList masterNumber id handle := by
  unfold storedAt Stored
  simp only [List.mem_flatMap, Prod.exists, List.mem_zipIdx_iff_getElem?, List.mem_map, List.mem_filter, decide_eq_true_eq, Prod.mk.injEq]
  constructor
  · rintro ⟨scbb, _, hscbb, _, _, ⟨hmem, rfl⟩, rfl, rfl⟩
    exact ⟨scbb, hscbb, OrdMap.mem_entries.mp hmem⟩
  · rintro ⟨scbb, hscbb, hid⟩
    exact ⟨scbb, masterNumber, hscbb, id, handle, ⟨OrdMap.mem_entries.mpr hid, rfl⟩, rfl, rfl⟩

/-! ## Clients and Masters -/

/-- The Masters, the reports on their way to them, and the IOnodes that clients have found dead. -/
structure System where
  masters : Nat → Master
  reports : List (Nat × Int)
  foundDead : List (Nat × Int)

/-- A request at a Master, other than a report; a response that fails at a client with these tables; a report that arrives. -/
inductive Event
  | request (masterNumber : Nat) (ev : Master.Event)
  | fails (masterHandleList : List SCBB) (query ret : QueryTask)
  | deliver (masterNumber : Nat) (id : Int) (env : Env) (origin : Origin)

/-- The Masters as they are started, each with the path entries of its storage. -/
def start (pool : Nat → OrdMap Str FileStat) (mountPoint : Str) (numOfReplica : Nat) : System :=
  ⟨fun i => Master.initial (pool i) i mountPoint numOfReplica, [], []⟩

/-- A Master handles a request. -/
def System.atMaster (s : System) (masterNumber : Nat) (ev : Master.Event) : Option System :=
  ((s.masters masterNumber).step ev).map (fun m => { s with masters := Function.update s.masters masterNumber m })

def step (s : System) : Event → Option System
  | .request masterNumber ev =>
      match ev.request with
      | .IOnodeFailure _ => none
      | _ => s.atMaster masterNumber ev
  | .fails masterHandleList query ret =>
      if ret.error = SUCCESS then none
      else some { s with
        reports := s.reports ++ (responseFailed masterHandleList query ret).toList.map (fun message => (message.masterNumber, message.IOnodeId))
        foundDead := s.foundDead ++ storedAt masterHandleList query.handle }
  | .deliver masterNumber id env origin =>
      if (masterNumber, id) ∈ s.reports then
        { s with reports := s.reports.erase (masterNumber, id) }.atMaster masterNumber ⟨env, origin, .IOnodeFailure id⟩
      else none

/-- An IOnode that a report takes out of the registry of a Master is one that a client has found dead. -/
def OnlyDead (s : System) : Event → Prop
  | .deliver masterNumber id env origin =>
      ∀ s', step s (.deliver masterNumber id env origin) = some s' → ∀ i k, (s.masters i).registeredIOnodes.find? k ≠ none →
        (s'.masters i).registeredIOnodes.find? k = none → (i, k) ∈ s.foundDead
  | _ => True

/-- The responses that fail are those the report is right about. -/
def Named (_ : System) : Event → Prop
  | .fails masterHandleList query _ => Zero masterHandleList query.handle
  | _ => True

/-- Reports are about what was found dead. -/
structure Inv (s : System) : Prop where
  masters : ∀ i, (s.masters i).RegistryInv
  reports : ∀ r ∈ s.reports, r ∈ s.foundDead

theorem Inv.atMaster {s s' : System} (h : Inv s) {masterNumber : Nat} {ev : Master.Event} (hs : s.atMaster masterNumber ev = some s') : Inv s' := by
  obtain ⟨m, hm, rfl⟩ := Option.map_eq_some_iff.mp hs
  refine ⟨?_, h.reports⟩
  intro i
  by_cases hi : i = masterNumber
  · rw [hi]
    show (Function.update s.masters masterNumber m masterNumber).RegistryInv
    rw [Function.update_self]
    exact (h.masters masterNumber).step hm
  · show (Function.update s.masters masterNumber m i).RegistryInv
    rw [Function.update_of_ne hi]
    exact h.masters i

/-- What a right report names was found dead. -/
theorem responseFailed_dead {masterHandleList : List SCBB} {query ret : QueryTask} (hzero : Zero masterHandleList query.handle)
    {message : FailureMessage} (hsent : responseFailed masterHandleList query ret = some message) :
    (message.masterNumber, message.IOnodeId) ∈ storedAt masterHandleList query.handle := by
  unfold responseFailed at hsent
  split at hsent
  · cases hfound : findScbbByHandle masterHandleList query.handle with
    | none =>
      unfold reportIOnodeFailure at hsent
      rw [hfound] at hsent
      cases hsent
    | some scbb =>
      obtain ⟨masterNumber, id, hstored⟩ := stored_of_findScbbByHandle hfound
      obtain ⟨first, -, hfirst⟩ := reportIOnodeFailure_eq hstored
      rw [hfirst] at hsent
      obtain rfl := Option.some.inj hsent
      exact mem_storedAt.mpr (hzero ⟨masterNumber, id, hstored⟩)
  · cases hsent

theorem Inv.step {s s' : System} {e : Event} (h : Inv s) (hnamed : Named s e) (hs : step s e = some s') : Inv s' := by
  cases e with
  | request masterNumber ev =>
    simp only [FailureReport.step] at hs
    split at hs
    · cases hs
    · exact h.atMaster hs
  | fails masterHandleList query ret =>
    simp only [FailureReport.step] at hs
    split at hs
    · cases hs
    · obtain rfl := Option.some.inj hs
      refine ⟨h.masters, ?_⟩
      intro r hr
      obtain hr | hr := List.mem_append.mp hr
      · exact List.mem_append_left _ (h.reports r hr)
      · obtain ⟨message, hmessage, rfl⟩ := List.mem_map.mp hr
        exact List.mem_append_right _ (responseFailed_dead hnamed (Option.mem_toList.mp hmessage))
  | deliver masterNumber id env origin =>
    simp only [FailureReport.step] at hs
    split at hs
    · have herase : Inv { s with reports := s.reports.erase (masterNumber, id) } :=
        ⟨h.masters, fun r hr => h.reports r (List.mem_of_mem_erase hr)⟩
      exact herase.atMaster hs
    · cases hs

/-- A report takes no id but the one it names out of the registry. -/
theorem onlyDead_of_inv {s : System} {e : Event} (h : Inv s) : OnlyDead s e := by
  cases e with
  | request masterNumber ev => trivial
  | fails masterHandleList query ret => trivial
  | deliver masterNumber id env origin =>
    intro s' hs i k hbefore hafter
    simp only [step] at hs
    split at hs
    · rename_i hreport
      obtain ⟨m, hm, rfl⟩ := Option.map_eq_some_iff.mp hs
      replace hafter : (Function.update s.masters masterNumber m i).registeredIOnodes.find? k = none := hafter
      have hi : i = masterNumber := by
        by_contra hi
        apply hbefore
        rwa [Function.update_of_ne hi] at hafter
      subst hi
      rw [Function.update_self] at hafter
      have hk : k = id := by
        by_contra hk
        apply hbefore
        rwa [(h.masters i).reported hm hk] at hafter
      rw [hk]
      exact h.reports _ hreport
    · cases hs

/-- **Clients blame the node that failed** exactly when it is the IOnode 0 of the Master 0 (or no IOnode at all), and in every run in
    which only such nodes fail, no report takes a node out of a registry that no client has found dead. -/
theorem blame_exact (masterHandleList : List SCBB) (query : QueryTask) :
    (∀ ret : QueryTask, ret.error ≠ SUCCESS →
      (Blames masterHandleList query.handle (responseFailed masterHandleList query ret) ↔ Zero masterHandleList query.handle)) ∧
    (∀ (pool : Nat → OrdMap Str FileStat) (mountPoint : Str) (numOfReplica : Nat) (events : List Event),
      Run.Guarded step Named (start pool mountPoint numOfReplica) events →
      Run.Guarded step OnlyDead (start pool mountPoint numOfReplica) events) := by
  constructor
  · intro ret herror
    rw [responseFailed, if_pos herror]
    exact blames_iff masterHandleList query.handle
  · intro pool mountPoint numOfReplica events hnamed
    apply Run.Guarded.of_invariant (fun s e s' h hn hs => Inv.step h hn hs) (fun s e h _ => onlyDead_of_inv h) _ hnamed
    refine ⟨fun i => Master.initial_registryInv (pool i) i mountPoint numOfReplica, ?_⟩
    intro r hr
    cases hr

/-- A Master with two IOnodes; the second one fails, and the client names the first. -/
theorem wrong_node_blamed :
    responseFailed [⟨5, (OrdMap.empty.put 0 10).put 1 11⟩] ⟨11, false, SUCCESS⟩ ⟨11, false, SOCKET_KILLED⟩ = some ⟨0, 5, 0⟩ ∧
    ¬ Blames [⟨5, (OrdMap.empty.put 0 10).put 1 11⟩] 11
      (responseFailed [⟨5, (OrdMap.empty.put 0 10).put 1 11⟩] ⟨11, false, SUCCESS⟩ ⟨11, false, SOCKET_KILLED⟩) := by
  refine ⟨rfl, ?_⟩
  intro h
  obtain ⟨message, hsent, ⟨scbb, hscbb, hid⟩, -⟩ := h ⟨0, 1, _, rfl, rfl⟩
  obtain rfl := Option.some.inj hsent
  obtain rfl := Option.some.inj hscbb
  exact absurd hid (by decide)

end FailureReport

end HuronFS
