import HuronFS.Client.Calls
import HuronFS.Client.Coherence

/-!
# `Protocol.Migration` — a file renamed to a path of another Master (`_rename`, `_parse_rename_migrating`)

A path belongs to the Master its hash names. A rename to a path of another Master is two queries: the old Master
marks its entry `RENAMED`, the new one gets an entry `EXTERNAL` that names the old Master. The calls that take a path
are then meant to find the file: the new Master answers with the number of the old one, and a loop at the client goes
there.

Neither half works. The old Master looks at the mark of no entry, so the old path goes on being answered; and the loop
is left after its first turn, so the client pops a status that the new Master did not send.
-/

namespace HuronFS

/-- The Masters, and what each client has open. -/
structure Federation where
  masters : Nat → Master
  number : Nat
  hash : Str → Nat
  clients : Nat → OrdMap Str FileMeta

/-- A call that takes a path. -/
inductive PathCall
  | getattr (path : Str)
  | access (path : Str) (mode : BitVec 32)
  | truncate (path : Str) (size : Nat)
  | open (path : Str) (flag mode : BitVec 32)
deriving DecidableEq, Repr

def PathCall.path : PathCall → Str
  | .getattr path => path
  | .access path _ => path
  | .truncate path _ => path
  | .open path _ _ => path

/-- An open may create the path it is given. -/
def PathCall.creates : PathCall → Bool
  | .open _ flag _ => Master.hasCreate flag
  | _ => false

/-- What a call returns. -/
inductive PathAnswer
  | attr (st : Stat)
  | done
  | failed (status : Int)
deriving DecidableEq, Repr

/-- A call of a client, with the environment of the Master that handles it. -/
structure PathEvent where
  client : Nat
  env : Env
  origin : Origin
  call : PathCall

namespace Federation

/-- `_get_master_number_from_path`: `std::hash` of the path, modulo the number of Masters. -/
def masterOf (fed : Federation) (path : Str) : Nat := fed.hash path % fed.number

/-- A query to one Master and its reply. -/
def exchange (fed : Federation) (i : Nat) (e : Env) (o : Origin) (req : Request) : Option (Federation × List Field) :=
  match (fed.masters i).parseRequest e o req with
  | none => none
  | some out =>
      (response o out).map (fun reply => ({ fed with masters := Function.update fed.masters i out.master }, reply))

/-- `response_dequeue` returns what `pthread_mutex_unlock` does for the queue of the query: zero. -/
def responseDequeue : Int := 0

/-- The loop of `remote_getattr`, `remote_access` and `_truncate`, up to the rest of the last reply. A number that no
    Master has is an exception that nobody catches. -/
def redirect (e : Env) (o : Origin) (req : Request) : (turns number : Nat) → Federation → Option (Federation × List Field)
  | 0, _, _ => none
  | turns + 1, number, fed =>
      match fed.exchange number e o req with
      | none => none
      | some (fed, reply) =>
          match popInt reply with
          | none => none
          | some (ret, rest) =>
              if ret < 0 ∨ (fed.number : Int) ≤ ret then none
              else if ret ≠ number ∧ responseDequeue ≠ 0 then redirect e o req turns ret.toNat fed
              else some (fed, rest)

/-- The loop from the Master of the path. The Masters do not change while they redirect, so a loop longer than their
    number does not end. -/
def ask (fed : Federation) (e : Env) (o : Origin) (path : Str) (req : Request) : Option (Federation × List Field) :=
  redirect e o req (fed.number + 1) (fed.masterOf path) fed

/-- The status a call returns. -/
def statusAnswer (fed : Federation) (reply : List Field) : Option (Federation × PathAnswer) :=
  (popInt reply).map (fun (ret, _) => (fed, if ret = SUCCESS then .done else .failed ret))

/-- `_getattr`. -/
def getattr (fed : Federation) (c : Nat) (e : Env) (o : Origin) (path : Str) : Option (Federation × PathAnswer) :=
  match (fed.clients c).find? path with
  | some fm => some (fed, .attr fm.fileStat)
  | none =>
      match fed.ask e o path (.getAttr path) with
      | none => none
      | some (fed, reply) =>
          match popInt reply with
          | none => none
          | some (ret, rest) =>
              if ret = SUCCESS then (receiveStat rest).map (fun (st, _) => (fed, .attr st)) else some (fed, .failed ret)

/-- `_access`. -/
def access (fed : Federation) (c : Nat) (e : Env) (o : Origin) (path : Str) (mode : BitVec 32) :
    Option (Federation × PathAnswer) :=
  match (fed.clients c).find? path with
  | some _ => some (fed, .done)
  | none => (fed.ask e o path (.access path mode)).bind (fun (fed, reply) => fed.statusAnswer reply)

/-- `_truncate`. -/
def truncate (fed : Federation) (e : Env) (o : Origin) (path : Str) (size : Nat) : Option (Federation × PathAnswer) :=
  (fed.ask e o path (.truncate path size)).bind (fun (fed, reply) => fed.statusAnswer reply)

/-- The request of `remote_open`, as the Master pops it: the flag is sent only with `O_CREAT`. -/
def openRequest (path : Str) (flag mode : BitVec 32) : Option Request :=
  if Master.hasCreate flag then some (.openFile path flag mode)
  else if Master.hasCreate mode then none
  else some (.openFile path mode Master.defaultMode)

/-- `_open`. Its loop asks one Master only, for it never pops the number; a status other than `SUCCESS` leaves a null
    `file_meta` that is dereferenced. -/
def openPath (fed : Federation) (c : Nat) (e : Env) (o : Origin) (path : Str) (flag mode : BitVec 32) :
    Option (Federation × PathAnswer) :=
  match (fed.clients c).find? path with
  | some _ => some (fed, .done)
  | none => do
      let req ← openRequest path flag mode
      let (fed, reply) ← fed.exchange (fed.masterOf path) e o req
      let (ret, rest) ← popInt reply
      if ret = SUCCESS then
        let (fileNo, rest) ← popLong rest
        let (_, rest) ← popSize rest
        let (st, _) ← receiveStat rest
        some ({ fed with clients := Function.update fed.clients c ((fed.clients c).put path ⟨fileNo, st⟩) }, .done)
      else none

/-- A call of a client. -/
def answer (fed : Federation) (ev : PathEvent) : Option (Federation × PathAnswer) :=
  match ev.call with
  | .getattr path => fed.getattr ev.client ev.env ev.origin path
  | .access path mode => fed.access ev.client ev.env ev.origin path mode
  | .truncate path size => fed.truncate ev.env ev.origin path size
  | .open path flag mode => fed.openPath ev.client ev.env ev.origin path flag mode

def step (fed : Federation) (ev : PathEvent) : Option Federation := (fed.answer ev).map Prod.fst

/-- The local part of `_rename`: an entry at the new path stays. -/
def renameLocal (fed : Federation) (c : Nat) (oldName newName : Str) : Federation :=
  match (fed.clients c).find? oldName with
  | none => fed
  | some fm =>
      { fed with clients := Function.update fed.clients c (((fed.clients c).insert newName fm).erase oldName) }

/-- `_rename` to a path of another Master; the status of the first reply is overwritten by the second. -/
def rename (fed : Federation) (c : Nat) (e : Env) (o : Origin) (oldName newName : Str) : Option (Federation × Int) := do
  let oldMaster := fed.masterOf oldName
  let newMaster := fed.masterOf newName
  let (fed, reply) ← (fed.renameLocal c oldName newName).exchange oldMaster e o (.rename oldName newName newMaster)
  let _ ← popInt reply
  let (fed, reply) ← fed.exchange newMaster e o (.renameMigrating newName oldMaster)
  let (ret, _) ← popInt reply
  some (fed, if ret = SUCCESS then 0 else ret)

/-! ## What a rename is for -/

/-- The file was moved: whatever calls on the two paths follow, they have a result, the old path is not there, and the
    new one is the file. A truncate may change its size, and an open may create a path. -/
def Moved (fed : Federation) (oldName newName : Str) (st : Stat) : Prop :=
  ∀ events : List PathEvent,
    (∀ ev ∈ events, (ev.call.path = oldName ∧ ev.call.creates = false) ∨ ev.call.path = newName) →
    ∃ fed', Run.run step fed events = some fed' ∧
      (∀ ev, ev.call.path = oldName → ev.call.creates = false →
        ∃ fed'', fed'.answer ev = some (fed'', .failed (-ENOENT))) ∧
      (∀ ev, ev.call = .getattr newName → ∃ fed'' st', fed'.answer ev = some (fed'', .attr st') ∧
        ((∀ ev ∈ events, ∀ size, ev.call ≠ .truncate newName size) → st' = st)) ∧
      (∀ ev, ev.call.path = newName → (∀ path, ev.call ≠ .getattr path) → ∃ fed'', fed'.answer ev = some (fed'', .done))

/-- Each Master has the number the clients know it by, and the numbers fit an `int`. -/
structure Numbered (fed : Federation) : Prop where
  small : fed.number ≤ 2 ^ 31
  number : ∀ i < fed.number, (fed.masters i).masterNumber = i

/-! ## The two queries -/

/-- The entry a rename leaves at the old path. -/
def renamedEntry (s : FileStat) (newName : Str) : FileStat := { s with externalFlag := .renamed, externalName := newName }

/-- The entry it leaves at the new one. -/
def externalEntry (m : Master) (newName : Str) (oldMaster : Nat) : FileStat :=
  { (m.fileStatPool.find? newName).getD (Master.defaultStat newName) with
    externalFlag := .ext, externalMaster := oldMaster }

/-- The Masters after a rename: the old entry is marked, the new one names the old Master. -/
def migrated (fed : Federation) (oldName newName : Str) (s : FileStat) : Nat → Master :=
  let m1 := fed.masters (fed.masterOf oldName)
  let m2 := fed.masters (fed.masterOf newName)
  Function.update (Function.update fed.masters (fed.masterOf oldName) (m1.setStat oldName (renamedEntry s newName)))
    (fed.masterOf newName) (m2.setStat newName (externalEntry m2 newName (fed.masterOf oldName)))

theorem renameLocal_masters (fed : Federation) (c : Nat) (oldName newName : Str) :
    (fed.renameLocal c oldName newName).masters = fed.masters := by
  unfold renameLocal
  split
  · rfl
  · rfl

theorem renameLocal_number (fed : Federation) (c : Nat) (oldName newName : Str) :
    (fed.renameLocal c oldName newName).number = fed.number := by
  unfold renameLocal
  split
  · rfl
  · rfl

theorem renameLocal_hash (fed : Federation) (c : Nat) (oldName newName : Str) :
    (fed.renameLocal c oldName newName).hash = fed.hash := by
  unfold renameLocal
  split
  · rfl
  · rfl

theorem exchange_eq {fed : Federation} {i : Nat} {e : Env} {o : Origin} {req : Request} {out : Outcome}
    {reply : List Field} (hreq : (fed.masters i).parseRequest e o req = some out) (hreply : response o out = some reply) :
    fed.exchange i e o req = some ({ fed with masters := Function.update fed.masters i out.master }, reply) := by
  simp only [exchange, hreq, hreply, Option.map_some]

/-- The old Master marks the entry and sends nothing but its reply. -/
theorem parseRename_away {m : Master} {oldName newName : Str} {s : FileStat} (hold : m.fileStatPool.find? oldName = some s)
    (o : Origin) (newMaster : Nat) :
    m.parseRename o oldName newName newMaster =
      some ((m.setStat oldName (renamedEntry s newName)).reply o [.int SUCCESS] SUCCESS) := by
  have hne : ¬ (newMaster : Int) = MYSELF := by
    unfold MYSELF
    omega
  simp only [Master.parseRename, Master.renameTables, hold, if_neg hne, Option.map_some, List.nil_append, Master.reply,
    renamedEntry]

/-- **A rename to another Master returns zero**, whatever it finds at the new path. -/
theorem rename_eq {fed : Federation} {oldName newName : Str} {s : FileStat}
    (hold : (fed.masters (fed.masterOf oldName)).fileStatPool.find? oldName = some s)
    (hne : fed.masterOf oldName ≠ fed.masterOf newName) (c : Nat) (e : Env) (o : Origin) :
    fed.rename c e o oldName newName =
      some ({ fed.renameLocal c oldName newName with masters := fed.migrated oldName newName s }, 0) := by
  have hfirst : (fed.renameLocal c oldName newName).exchange (fed.masterOf oldName) e o
      (.rename oldName newName (fed.masterOf newName)) = some ({ fed.renameLocal c oldName newName with
        masters := Function.update fed.masters (fed.masterOf oldName)
          ((fed.masters (fed.masterOf oldName)).setStat oldName (renamedEntry s newName)) }, [.int SUCCESS]) := by
    have hreq : ((fed.renameLocal c oldName newName).masters (fed.masterOf oldName)).parseRequest e o
        (.rename oldName newName (fed.masterOf newName)) = some (((fed.masters (fed.masterOf oldName)).setStat oldName
          (renamedEntry s newName)).reply o [.int SUCCESS] SUCCESS) := by
      rw [renameLocal_masters]
      exact parseRename_away hold o (fed.masterOf newName)
    rw [exchange_eq hreq (response_reply _ o _ _), renameLocal_masters]
    rfl
  simp only [rename, hfirst, bind, Option.bind]
  rw [popInt_small (by decide) (by decide)]
  -- the new Master is not the one that was just changed
  have hother : Function.update fed.masters (fed.masterOf oldName)
      ((fed.masters (fed.masterOf oldName)).setStat oldName (renamedEntry s newName)) (fed.masterOf newName) =
      fed.masters (fed.masterOf newName) := Function.update_of_ne (Ne.symm hne) _ _
  have hsecond : Federation.exchange { fed.renameLocal c oldName newName with
        masters := Function.update fed.masters (fed.masterOf oldName)
          ((fed.masters (fed.masterOf oldName)).setStat oldName (renamedEntry s newName)) } (fed.masterOf newName) e o
      (.renameMigrating newName (fed.masterOf oldName)) = some ({ fed.renameLocal c oldName newName with
        masters := fed.migrated oldName newName s }, [.int SUCCESS]) := by
    refine (exchange_eq rfl (response_reply _ o _ _)).trans ?_
    simp only [Master.reply, hother]
    rfl
  rw [hsecond]
  simp only
  rw [popInt_small (by decide) (by decide)]
  rfl

/-! ## The calls that follow -/

/-- The loop ends with the reply of the first Master it asks. -/
theorem ask_eq {fed fed' : Federation} {e : Env} {o : Origin} {path : Str} {req : Request} {number : Nat}
    {rest : List Field} (hx : fed.exchange (fed.masterOf path) e o req = some (fed', .int number :: rest))
    (hnumber : number < fed'.number) (hsmall : fed'.number ≤ 2 ^ 31) : fed.ask e o path req = some (fed', rest) := by
  have hpop : popInt (.int number :: rest) = some ((number : Int), rest) := popInt_small (by omega) (by omega) rest
  have hrange : ¬ ((number : Int) < 0 ∨ (fed'.number : Int) ≤ number) := by omega
  simp only [ask, redirect, hx, hpop, if_neg hrange]
  rw [if_neg]
  rintro ⟨_, hne⟩
  exact hne rfl

theorem receiveStat_isSome (st : Stat) : ∃ st', receiveStat (sendAttr st) = some (st', []) := ⟨_, rfl⟩

/-- A path with an entry that is not external is answered by its Master, marked or not. -/
theorem getattr_internal {fed : Federation} {path : Str} {s : FileStat} (hn : fed.number ≤ 2 ^ 31)
    (hlt : fed.masterOf path < fed.number)
    (hnumber : (fed.masters (fed.masterOf path)).masterNumber = fed.masterOf path)
    (hs : (fed.masters (fed.masterOf path)).fileStatPool.find? path = some s) (hext : s.isExternal = false) (c : Nat)
    (e : Env) (o : Origin) : ∃ fed' st, fed.getattr c e o path = some (fed', .attr st) := by
  cases hlocal : (fed.clients c).find? path with
  | some fm => exact ⟨fed, fm.fileStat, by simp only [getattr, hlocal]⟩
  | none =>
      have hreq : (fed.masters (fed.masterOf path)).parseRequest e o (.getAttr path) = some
          ((fed.masters (fed.masterOf path)).reply o ([.int (fed.masterOf path), .int SUCCESS] ++ sendAttr s.status) SUCCESS) := by
        simp only [Master.parseRequest, Master.parseAttr, hs, hext, hnumber]
        rfl
      obtain ⟨fed', hask⟩ : ∃ fed', fed.ask e o path (.getAttr path) = some (fed', .int SUCCESS :: sendAttr s.status) :=
        ⟨_, ask_eq (exchange_eq hreq (response_reply _ o _ _)) hlt hn⟩
      obtain ⟨st, hst⟩ := receiveStat_isSome s.status
      refine ⟨fed', st, ?_⟩
      simp only [getattr, hlocal, hask]
      rw [popInt_small (by decide) (by decide)]
      simp only [if_true, hst, Option.map_some]

/-- An external entry is answered with a number alone, and the client pops a status all the same. -/
theorem getattr_external {fed : Federation} {path : Str} {s : FileStat} (number : Nat) (hn : fed.number ≤ 2 ^ 31)
    (hlt : number < fed.number) (hs : (fed.masters (fed.masterOf path)).fileStatPool.find? path = some s)
    (hext : s.isExternal = true) (hmaster : s.externalMaster = number) {c : Nat}
    (hlocal : (fed.clients c).find? path = none) (e : Env) (o : Origin) : fed.getattr c e o path = none := by
  have hreq : (fed.masters (fed.masterOf path)).parseRequest e o (.getAttr path) = some
      ((fed.masters (fed.masterOf path)).reply o [.int number] SUCCESS) := by
    simp only [Master.parseRequest, Master.parseAttr, hs, hext, hmaster, if_true]
  have hask := ask_eq (exchange_eq hreq (response_reply _ o _ _)) hlt hn
  simp only [getattr, hlocal, hask, popInt]

/-- A path that is still answered was not moved. -/
theorem not_moved {fed : Federation} {oldName newName : Str} {st : Stat}
    (h : ∀ c e o, ∃ fed' st, fed.getattr c e o oldName = some (fed', .attr st)) : ¬ fed.Moved oldName newName st := by
  intro hmoved
  obtain ⟨fed', hrun, hold, _⟩ := hmoved [] (fun _ hev => nomatch hev)
  cases hrun
  obtain ⟨fed1, h1⟩ := hold ⟨0, ⟨0, 0, 0⟩, ⟨0, 0⟩, .getattr oldName⟩ rfl rfl
  obtain ⟨fed2, st', h2⟩ := h 0 ⟨0, 0, 0⟩ ⟨0, 0⟩
  have h2' : fed.answer ⟨0, ⟨0, 0, 0⟩, ⟨0, 0⟩, .getattr oldName⟩ = some (fed2, .attr st') := h2
  rw [h1] at h2'
  cases h2'

/-- **A rename between Masters never moves the file.** With two Masters or more, for every file and every path of
    another Master, the call returns zero; then the old path is still answered with attributes, to every client, and
    no client that has the new path not open gets an answer for it. -/
theorem rename_never_moves {fed : Federation} (hn : fed.Numbered) (htwo : 2 ≤ fed.number) {oldName newName : Str}
    {s : FileStat} (hold : (fed.masters (fed.masterOf oldName)).fileStatPool.find? oldName = some s)
    (hne : fed.masterOf oldName ≠ fed.masterOf newName) (c : Nat) (e : Env) (o : Origin) :
    ∃ fed', fed.rename c e o oldName newName = some (fed', 0) ∧ ¬ fed'.Moved oldName newName s.status ∧
      (∀ c' e' o', ∃ fed'' st, fed'.getattr c' e' o' oldName = some (fed'', .attr st)) ∧
      (∀ c' e' o', (fed'.clients c').find? newName = none → fed'.getattr c' e' o' newName = none) := by
  have hlt : ∀ path, fed.masterOf path < fed.number := fun path => Nat.mod_lt _ (by omega)
  refine ⟨_, rename_eq hold hne c e o, ?_⟩
  generalize hfed' : ({ fed.renameLocal c oldName newName with masters := fed.migrated oldName newName s } : Federation) =
    fed'
  have hmasters : fed'.masters = fed.migrated oldName newName s := by rw [← hfed']
  have hnum : fed'.number = fed.number := by
    rw [← hfed']
    exact renameLocal_number ..
  have hmasterOf : fed'.masterOf = fed.masterOf := by
    funext path
    rw [← hfed']
    simp only [masterOf, renameLocal_number, renameLocal_hash]
  have hm1 : fed'.masters (fed.masterOf oldName) =
      (fed.masters (fed.masterOf oldName)).setStat oldName (renamedEntry s newName) := by
    rw [hmasters]
    simp only [migrated]
    rw [Function.update_of_ne hne, Function.update_self]
  have hm2 : fed'.masters (fed.masterOf newName) = (fed.masters (fed.masterOf newName)).setStat newName
      (externalEntry (fed.masters (fed.masterOf newName)) newName (fed.masterOf oldName)) := by
    rw [hmasters]
    simp only [migrated]
    rw [Function.update_self]
  have hanswered : ∀ c' e' o', ∃ fed'' st, fed'.getattr c' e' o' oldName = some (fed'', .attr st) := by
    intro c' e' o'
    refine getattr_internal (s := renamedEntry s newName) (by rw [hnum]; exact hn.small) ?_ ?_ ?_ rfl c' e' o'
    · rw [hmasterOf, hnum]
      exact hlt oldName
    · rw [hmasterOf, hm1]
      exact hn.number _ (hlt oldName)
    · rw [hmasterOf, hm1]
      exact OrdMap.find?_put_self ..
  refine ⟨not_moved hanswered, hanswered, ?_⟩
  intro c' e' o' hlocal
  refine getattr_external (s := externalEntry (fed.masters (fed.masterOf newName)) newName (fed.masterOf oldName))
    (fed.masterOf oldName) (by rw [hnum]; exact hn.small) ?_ ?_ rfl rfl hlocal e' o'
  · rw [hnum]
    exact hlt oldName
  · rw [hmasterOf, hm2]
    exact OrdMap.find?_put_self ..

/-- Two Masters, one file `/a` at the first; a path belongs to the Master its length names. -/
def twoMasters : Federation :=
  { masters := fun i => if i = 0 then Master.initial (OrdMap.empty.put Master.pathA (Master.defaultStat Master.pathA)) 0 [] 0
      else Master.initial OrdMap.empty 1 [] 0
    number := 2, hash := List.length, clients := fun _ => OrdMap.empty }

theorem twoMasters_numbered : twoMasters.Numbered where
  small := by decide
  number i hi := by
    rcases Nat.lt_succ_iff_lt_or_eq.mp hi with h | h
    · obtain rfl : i = 0 := by omega
      rfl
    · subst h
      rfl

theorem rename_never_moves_twoMasters :
    ∃ fed', twoMasters.rename 0 ⟨0, 0, 0⟩ ⟨3, 0⟩ Master.pathA [47, 98, 98] = some (fed', 0) ∧
      ¬ fed'.Moved Master.pathA [47, 98, 98] (Master.defaultStat Master.pathA).status ∧
      (∀ c' e' o', ∃ fed'' st, fed'.getattr c' e' o' Master.pathA = some (fed'', .attr st)) ∧
      (∀ c' e' o', (fed'.clients c').find? [47, 98, 98] = none → fed'.getattr c' e' o' [47, 98, 98] = none) :=
  rename_never_moves twoMasters_numbered (by decide) rfl (by decide) 0 ⟨0, 0, 0⟩ ⟨3, 0⟩

/-- **The old path is still there.** A client renames `/a` to `/bb`, a path of the other Master, and is told that all
    went well; another one asks for the attributes of `/a` and gets them. -/
theorem renamed_path_still_answered :
    ∃ fed', twoMasters.rename 0 ⟨0, 0, 0⟩ ⟨3, 0⟩ Master.pathA [47, 98, 98] = some (fed', 0) ∧
      (fed'.getattr 1 ⟨0, 0, 0⟩ ⟨4, 0⟩ Master.pathA).map Prod.snd = some (.attr (Master.defaultStat Master.pathA).status) ∧
      fed'.getattr 1 ⟨0, 0, 0⟩ ⟨4, 0⟩ [47, 98, 98] = none ∧
      ¬ fed'.Moved Master.pathA [47, 98, 98] (Master.defaultStat Master.pathA).status := by
  refine ⟨_, rfl, rfl, rfl, ?_⟩
  intro hmoved
  obtain ⟨fed', hrun, hold, _⟩ := hmoved [] (fun _ hev => nomatch hev)
  cases hrun
  obtain ⟨fed1, h1⟩ := hold ⟨1, ⟨0, 0, 0⟩, ⟨4, 0⟩, .getattr Master.pathA⟩ rfl rfl
  cases h1

end Federation

end HuronFS
