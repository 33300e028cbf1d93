import HuronFS.Client.QueueOps
import HuronFS.Lib.Run

/-!
# `Client.QueueSafety` — which calls give back the queues they lock

An operation that is made of exchanges is `Balanced`: whatever the responses are, it ends with the queues it started with. The two
shapes that are not balanced are carried out by hand (`forwarded_run`, `rename_run`). With `Program.run_killed` for the answers that are
errors, `Clean` is exactly when a call gives back what it has locked and nothing else.
-/

namespace HuronFS

namespace Operation

variable {α β : Type}

/-- With responses for answers it throws nothing, and has the queues at its end that it had at its start. -/
def Balanced (m : Operation α) : Prop := ∀ t own, (m t).wp own (fun out own' => out.1.isSome ∧ own' = own)

theorem Balanced.bind {m : Operation α} {f : α → Operation β} (hm : m.Balanced) (hf : ∀ a, (f a).Balanced) : (m >>= f).Balanced := by
  intro t own
  apply Program.wp_bind
  apply Program.wp_mono _ (hm t own)
  rintro ⟨a, t'⟩ own' ⟨hsome, rfl⟩
  obtain ⟨b, rfl⟩ := Option.isSome_iff_exists.mp hsome
  exact hf b t' own'

theorem balanced_pure (a : α) : (pure a : Operation α).Balanced := fun _ _ => ⟨rfl, rfl⟩

theorem balanced_undefined : (undefined : Operation α).Balanced := fun _ _ => trivial

theorem balanced_get : get.Balanced := fun _ _ => ⟨rfl, rfl⟩

theorem balanced_set (t : ClientState) : (set t).Balanced := fun _ _ => ⟨rfl, rfl⟩

theorem balanced_ofOption : ∀ o : Option α, (ofOption o).Balanced
  | some a => balanced_pure a
  | none => balanced_undefined

theorem balanced_updateFiles (f : FileTables → Option FileTables) : (updateFiles f).Balanced := by
  apply balanced_get.bind
  intro t
  apply (balanced_ofOption _).bind
  intro files
  exact balanced_set _

/-- What an exchange does with the response, it does while it holds one queue more. -/
theorem Balanced.exchange {body : Response → Operation α} (h : ∀ r, (body r).Balanced) : (exchange body).Balanced := by
  intro t own id hid r
  have hbody : ((body r >>= fun a => releaseCommunicationQueue id >>= fun _ => pure a) t).wp (id :: own)
      (fun out own' => out.1.isSome ∧ own' = own) := by
    apply Program.wp_bind
    apply Program.wp_mono _ (h r t (id :: own))
    rintro ⟨a, t'⟩ own' ⟨hsome, rfl⟩
    obtain ⟨b, rfl⟩ := Option.isSome_iff_exists.mp hsome
    exact ⟨List.mem_cons_self, rfl, List.erase_cons_head id own⟩
  exact hbody

theorem balanced_status : status.Balanced := by
  apply Balanced.exchange
  intro r
  apply (balanced_ofOption _).bind
  intro popped
  exact balanced_pure _

theorem balanced_registerToMaster : ∀ (n : Nat) (ret : Int), (registerToMaster n ret).Balanced
  | 0, ret => balanced_pure ret
  | n + 1, _ => by
      intro t own
      apply Program.wp_bind
      refine Program.wp_mono ?_ (Balanced.exchange ?_ t own)
      on_goal 2 =>
        intro r
        apply (balanced_ofOption _).bind
        intro popped
        apply balanced_get.bind
        intro t
        apply (balanced_set _).bind
        exact fun _ => balanced_pure _
      rintro ⟨a, t'⟩ own' ⟨hsome, rfl⟩
      obtain ⟨ret, rfl⟩ := Option.isSome_iff_exists.mp hsome
      exact balanced_registerToMaster n ret t' own'

theorem balanced_checkInit (env : ClientEnv) : (checkInit env).Balanced := by
  apply balanced_get.bind
  intro t
  split
  · exact balanced_pure _
  · apply (balanced_registerToMaster _ _).bind
    intro ret
    apply balanced_get.bind
    intro t
    split
    · exact balanced_pure _
    · exact balanced_set _

theorem balanced_getMasterHandle (number : Int) : (getMasterHandle number).Balanced := by
  apply balanced_get.bind
  intro t
  split
  · exact balanced_pure _
  · exact balanced_undefined

theorem balanced_getMasterHandleFromPath (env : ClientEnv) (path : Str) : (getMasterHandleFromPath env path).Balanced := by
  unfold getMasterHandleFromPath
  split
  · exact balanced_undefined
  · exact balanced_getMasterHandle _

theorem balanced_remoteOpen (env : ClientEnv) (path : Str) : (remoteOpen env path).Balanced := by
  apply (balanced_getMasterHandleFromPath env path).bind
  intro _
  apply Balanced.exchange
  intro r
  apply (balanced_ofOption _).bind
  rintro ⟨ret, rest⟩
  dsimp only
  split
  · apply (balanced_ofOption _).bind
    intro fileNo
    apply (balanced_ofOption _).bind
    intro blockSize
    apply (balanced_ofOption _).bind
    exact fun _ => balanced_pure _
  · exact balanced_pure _

theorem balanced_openOnce (env : ClientEnv) (path : Str) (flag : BitVec 32) : (openOnce env path flag).Balanced := by
  apply (balanced_checkInit env).bind
  intro _
  apply balanced_get.bind
  intro t
  split
  · exact balanced_pure _
  · apply (balanced_set _).bind
    intro _
    split
    · exact balanced_undefined
    · apply (balanced_ofOption _).bind
      intro attached
      apply (balanced_set _).bind
      exact fun _ => balanced_pure _
    · apply (balanced_remoteOpen env path).bind
      intro opened
      split
      · exact balanced_undefined
      · apply balanced_get.bind
        intro t
        apply (balanced_ofOption _).bind
        intro attached
        apply (balanced_set _).bind
        exact fun _ => balanced_pure _

theorem balanced_fileOf (fd : Int) : (fileOf fd).Balanced := by
  apply balanced_get.bind
  intro t
  apply (balanced_ofOption _).bind
  intro file
  apply (balanced_ofOption _).bind
  exact fun _ => balanced_pure _

theorem balanced_closeOnce (env : ClientEnv) (fd : Int) : (closeOnce env fd).Balanced := by
  apply (balanced_checkInit env).bind
  intro _
  apply (balanced_fileOf fd).bind
  intro file
  apply balanced_status.bind
  intro ret
  split
  · apply (balanced_updateFiles _).bind
    exact fun _ => balanced_pure _
  · exact balanced_pure _

theorem balanced_flushOnce (env : ClientEnv) (fd : Int) : (flushOnce env fd).Balanced := by
  apply (balanced_fileOf fd).bind
  intro file
  apply (balanced_checkInit env).bind
  intro _
  apply balanced_status.bind
  intro ret
  split
  · exact balanced_pure _
  · exact balanced_pure _

theorem balanced_closeLoop (env : ClientEnv) (r : MetaRef) : ∀ fds : List Int, (closeLoop env r fds).Balanced
  | [] => balanced_pure _
  | fd :: rest => by
      apply (balanced_closeOnce env fd).bind
      intro _
      apply balanced_get.bind
      intro t
      apply (balanced_ofOption _).bind
      intro m
      split
      · apply (balanced_set _).bind
        exact fun _ => balanced_closeLoop env r rest
      · exact balanced_undefined

theorem balanced_closeLocalOpenedFile (env : ClientEnv) (path : Str) : (closeLocalOpenedFile env path).Balanced := by
  apply balanced_get.bind
  intro t
  split
  · exact balanced_pure _
  · exact balanced_undefined
  · apply (balanced_ofOption _).bind
    intro m
    apply (balanced_closeLoop env _ _).bind
    exact fun _ => balanced_updateFiles _

theorem balanced_pathOnce (env : ClientEnv) (path : Str) : (pathOnce env path).Balanced := by
  apply (balanced_checkInit env).bind
  intro _
  apply (balanced_getMasterHandleFromPath env path).bind
  exact fun _ => balanced_status

theorem balanced_unlinkOnce (env : ClientEnv) (path : Str) : (unlinkOnce env path).Balanced := by
  apply (balanced_pathOnce env path).bind
  intro ret
  split
  · apply (balanced_closeLocalOpenedFile env path).bind
    exact fun _ => balanced_pure _
  · exact balanced_pure _

theorem balanced_readdirLoop : ∀ n : Nat, (readdirLoop n).Balanced
  | 0 => balanced_pure _
  | n + 1 => by
      apply Balanced.bind
      · apply Balanced.exchange
        intro r
        apply (balanced_ofOption _).bind
        rintro ⟨ret, rest⟩
        dsimp only
        split
        · apply (balanced_ofOption _).bind
          exact fun _ => balanced_pure _
        · exact balanced_pure _
      · intro ret
        split
        · exact balanced_readdirLoop n
        · exact balanced_pure _

theorem balanced_readdirOnce (env : ClientEnv) : (readdirOnce env).Balanced := by
  apply (balanced_checkInit env).bind
  intro _
  apply balanced_get.bind
  exact fun t => balanced_readdirLoop t.masters

theorem balanced_getLocalAttr (e : PathEntry) : (getLocalAttr e).Balanced := by
  unfold getLocalAttr
  split
  · exact balanced_undefined
  · apply balanced_get.bind
    intro t
    apply (balanced_ofOption _).bind
    exact fun _ => balanced_pure _

/-! ## Transfers -/

theorem balanced_getIOnodeHandle (master : Nat) (id : Int) : (getIOnodeHandle master id).Balanced := by
  apply balanced_get.bind
  intro t
  split
  · exact balanced_pure _
  · apply Balanced.exchange
    intro r
    apply (balanced_ofOption _).bind
    rintro ⟨ret, rest⟩
    dsimp only
    split
    · apply balanced_get.bind
      intro t
      apply (balanced_set _).bind
      exact fun _ => balanced_pure _
    · exact balanced_pure _

theorem balanced_parseNodes (master : Nat) : ∀ (n : Nat) (fields : List Field) (nodePool : OrdMap Int Bool),
    (parseNodes master n fields nodePool).Balanced
  | 0, _, _ => balanced_pure _
  | n + 1, fields, nodePool => by
      apply (balanced_ofOption _).bind
      intro id
      apply (balanced_ofOption _).bind
      intro uri
      apply (balanced_getIOnodeHandle master _).bind
      exact fun _ => balanced_parseNodes master n _ _

theorem balanced_growFile (r : MetaRef) (size : Nat) : (growFile r size).Balanced := balanced_updateFiles _

theorem balanced_getBlocksFromMaster (master : Nat) (r : MetaRef) (mode : IOMode) (startPoint size : Nat) (blocks : BlockList)
    (nodePool : OrdMap Int Bool) : (getBlocksFromMaster master r mode startPoint size blocks nodePool).Balanced := by
  unfold getBlocksFromMaster
  split
  -- a write sends the size it leads to first
  on_goal 1 => refine (balanced_growFile _ _).bind (fun _ => ?_)
  all_goals
    apply Balanced.exchange
    intro response
    apply (balanced_ofOption _).bind
    rintro ⟨ret, rest⟩
    dsimp only
    split
    · apply (balanced_ofOption _).bind
      intro fileSize
      apply (balanced_growFile _ _).bind
      intro _
      apply (balanced_ofOption _).bind
      intro count
      apply (balanced_parseNodes _ _ _ _).bind
      intro parsed
      apply (balanced_ofOption _).bind
      intro count
      apply (balanced_ofOption _).bind
      exact fun _ => balanced_pure _
    · exact balanced_pure _

theorem balanced_updateMeta (r : MetaRef) (startPoint size : Nat) : (updateMeta r startPoint size).Balanced := by
  apply (balanced_growFile _ _).bind
  intro _ t own id hid
  exact ⟨List.mem_cons_self, rfl, List.erase_cons_head id own⟩

theorem balanced_transferLoop (mode : IOMode) : ∀ fuel left ans : Nat, (transferLoop mode fuel left ans).Balanced
  | 0, left, ans => by
      unfold transferLoop
      split
      · exact balanced_pure _
      · exact balanced_undefined
  | fuel + 1, left, ans => by
      unfold transferLoop
      split
      · exact balanced_pure _
      · apply Balanced.bind
        · apply Balanced.exchange
          intro r
          apply (balanced_ofOption _).bind
          exact fun _ => balanced_pure _
        · rintro ⟨ret, received⟩
          dsimp only
          split
          · exact balanced_transferLoop mode fuel _ _
          · exact balanced_transferLoop mode fuel _ _

theorem balanced_prepareIo (env : ClientEnv) (master : Nat) (r : MetaRef) (mode : IOMode) (startPoint size : Nat) (cached : Cached) :
    (prepareIo env master r mode startPoint size cached).Balanced := by
  unfold prepareIo
  split
  · split
    · exact balanced_pure _
    · apply (balanced_getBlocksFromMaster _ _ _ _ _ _ _).bind
      exact fun _ => balanced_pure _
    · apply (balanced_updateMeta _ _ _).bind
      exact fun _ => balanced_pure _
    · exact balanced_pure _
  · apply (balanced_getBlocksFromMaster _ _ _ _ _ _ _).bind
    exact fun _ => balanced_pure _

theorem balanced_transfer (fuel : Nat) (r : MetaRef) (mode : IOMode) (startPoint size : Nat) (blocks : BlockList) (nodePool : OrdMap Int Bool) :
    (transfer fuel r mode startPoint size blocks nodePool).Balanced := by
  apply balanced_get.bind
  intro t
  apply (balanced_ofOption _).bind
  intro m
  apply (balanced_ofOption _).bind
  intro first
  apply (balanced_ofOption _).bind
  intro node
  split
  · exact balanced_pure _
  · split
    · exact balanced_transferLoop _ _ _ _
    · exact balanced_undefined

theorem balanced_remoteIo (env : ClientEnv) (fuel master : Nat) (r : MetaRef) (mode : IOMode) (startPoint size : Nat) (cached : Cached) :
    (remoteIo env fuel master r mode startPoint size cached).Balanced := by
  apply (balanced_prepareIo _ _ _ _ _ _ _).bind
  intro prepared
  split
  · exact balanced_pure _
  · exact balanced_pure _
  · apply (balanced_transfer _ _ _ _ _ _ _).bind
    exact fun _ => balanced_pure _

theorem balanced_transferOnce (env : ClientEnv) (fuel master : Nat) (mode : IOMode) (fd : Int) (size : Nat) (cached : Cached) :
    (transferOnce env fuel master mode fd size cached).Balanced := by
  apply (balanced_checkInit env).bind
  intro _
  split
  · exact balanced_pure _
  · apply balanced_get.bind
    intro t
    split
    · exact balanced_pure _
    · apply (balanced_ofOption _).bind
      intro m
      split
      · exact balanced_pure _
      · apply (balanced_remoteIo _ _ _ _ _ _ _ _).bind
        intro answered
        split
        · exact balanced_pure _
        · apply (balanced_updateFiles _).bind
          exact fun _ => balanced_pure _

/-! ## Carrying an operation out -/

/-- What a part of an operation that is balanced leaves for the rest. -/
structure Resumes (p p' : Pool) : Prop where
  stray : p'.stray = p.stray
  before : p'.before = p.before
  own : p'.own = p.own
  number : p'.number = p.number
  answers : ∃ used, p.answers = used ++ p'.answers
  busy : ∃ looked, p.busy = looked ++ p'.busy

theorem Resumes.refl (p : Pool) : Resumes p p := ⟨rfl, rfl, rfl, rfl, ⟨[], rfl⟩, ⟨[], rfl⟩⟩

theorem Resumes.trans {p p' p'' : Pool} (h : Resumes p p') (h' : Resumes p' p'') : Resumes p p'' := by
  obtain ⟨used, hused⟩ := h.answers
  obtain ⟨used', hused'⟩ := h'.answers
  obtain ⟨looked, hlooked⟩ := h.busy
  obtain ⟨looked', hlooked'⟩ := h'.busy
  refine ⟨h'.stray.trans h.stray, h'.before.trans h.before, h'.own.trans h.own, h'.number.trans h.number,
    ⟨used ++ used', ?_⟩, ⟨looked ++ looked', ?_⟩⟩
  · rw [hused, hused', List.append_assoc]
  · rw [hlooked, hlooked', List.append_assoc]

theorem Resumes.getLast? {p p' : Pool} (h : Resumes p p') {a : Answer} (ha : p'.answers.getLast? = some a) : p.answers.getLast? = some a := by
  obtain ⟨used, hused⟩ := h.answers
  rw [hused, List.getLast?_append, ha]
  rfl

theorem AllResponses.resumes {p p' : Pool} (h : AllResponses p.answers) (hp : Resumes p p') : AllResponses p'.answers := by
  obtain ⟨used, hused⟩ := hp.answers
  intro a ha
  apply h a
  rw [hused]
  exact List.mem_append.mpr (Or.inr ha)

variable {t t' : ClientState} {p p' : Pool}

/-- The pool that an operation is carried out in: it is between two exchanges, and answers are responses. -/
structure Between (p : Pool) : Prop where
  own : p.own = []
  stray : p.stray = false
  responses : AllResponses p.answers

theorem Between.resumes (h : Between p) (hp : Resumes p p') : Between p' :=
  ⟨hp.own.trans h.own, hp.stray.trans h.stray, AllResponses.resumes h.responses hp⟩

theorem Balanced.run {m : Operation α} (h : m.Balanced) (hp : Between p) {out : Option α × ClientState} (hrun : (m t).run p = (some out, p')) :
    (∃ a, out.1 = some a) ∧ Resumes p p' := by
  obtain ⟨hstray, hbefore, hown⟩ := Program.run_of_wp (h t p.own) hp.stray hp.responses
  have hnodup : p.own.Nodup := by
    rw [hp.own]
    exact List.nodup_nil
  obtain ⟨used, hused, -, -⟩ := Program.run_killed (m t) hnodup
  obtain ⟨hnumber, hlooked⟩ := Program.run_looks (m t) p
  rw [hrun] at hstray hbefore hown hused hnumber hlooked
  obtain ⟨hsome, hown⟩ := hown out rfl
  exact ⟨Option.isSome_iff_exists.mp hsome, hstray.trans hp.stray.symm, hbefore, hown, hnumber, ⟨used, hused⟩, hlooked⟩

/-- An operation goes no further than its first part, or from where that ends. -/
theorem Balanced.bind_cases {m : Operation α} {f : α → Operation β} (h : m.Balanced) (hp : Between p) :
    (∃ p₁, ((m >>= f) t).run p = (none, p₁) ∧ p₁.stray = false) ∨
    ∃ a t₁ p₁, (m t).run p = (some (some a, t₁), p₁) ∧ Resumes p p₁ ∧ ((m >>= f) t).run p = (f a t₁).run p₁ := by
  have hbind : ((m >>= f) t).run p = _ := Program.run_bind (m t) (andThen f) p
  cases hm : (m t).run p with
  | mk first p₁ =>
      rw [hm] at hbind
      cases first with
      | none =>
          have hstray := (Program.run_of_wp (h t p.own) hp.stray hp.responses).1
          rw [hm] at hstray
          exact Or.inl ⟨p₁, hbind, hstray⟩
      | some first =>
          obtain ⟨⟨a, ha⟩, hres⟩ := h.run hp hm
          obtain ⟨o, t₁⟩ := first
          cases ha
          exact Or.inr ⟨a, t₁, p₁, rfl, hres, hbind⟩

theorem Balanced.run_bind {m : Operation α} {f : α → Operation β} (h : m.Balanced) (hp : Between p) {out : Option β × ClientState}
    (hrun : ((m >>= f) t).run p = (some out, p')) :
    ∃ a t₁ p₁, (m t).run p = (some (some a, t₁), p₁) ∧ Resumes p p₁ ∧ (f a t₁).run p₁ = (some out, p') := by
  rcases h.bind_cases (f := f) hp with ⟨p₁, hnone, -⟩ | ⟨a, t₁, p₁, hm, hres, hrest⟩
  · rw [hrun] at hnone
    cases hnone
  · exact ⟨a, t₁, p₁, hm, hres, hrest ▸ hrun⟩

theorem ofOption_cases {o : Option α} {f : α → Operation β} : ((ofOption o >>= f) t).run p = (none, p) ∨
    ∃ a, o = some a ∧ ((ofOption o >>= f) t).run p = (f a t).run p := by
  cases o with
  | none => exact Or.inl rfl
  | some a => exact Or.inr ⟨a, rfl, rfl⟩

theorem run_ofOption {o : Option α} {f : α → Operation β} {out : Option β × ClientState} (hrun : ((ofOption o >>= f) t).run p = (some out, p')) :
    ∃ a, o = some a ∧ (f a t).run p = (some out, p') := by
  rcases @ofOption_cases _ _ t p o f with hnone | ⟨a, ha, hrest⟩
  · rw [hrun] at hnone
    cases hnone
  · exact ⟨a, ha, hrest ▸ hrun⟩

theorem getMasterHandle_cases {number : Int} {f : Unit → Operation β} : ((getMasterHandle number >>= f) t).run p = (none, p) ∨
    ((getMasterHandle number >>= f) t).run p = (f () t).run p := by
  change ((if 0 ≤ number ∧ number < t.masters then (pure () : Operation Unit) else undefined) t |>.bind _).run p = _ ∨
    ((if 0 ≤ number ∧ number < t.masters then (pure () : Operation Unit) else undefined) t |>.bind _).run p = _
  split
  · exact Or.inr rfl
  · exact Or.inl rfl

theorem receiveAttr_cases {attr : Bool} {ret : Int} {rest : List Field} {f : Unit → Operation β} :
    ((receiveAttr attr ret rest >>= f) t).run p = (none, p) ∨ ((receiveAttr attr ret rest >>= f) t).run p = (f () t).run p := by
  unfold receiveAttr
  split
  · cases receiveStat rest with
    | none => exact Or.inl rfl
    | some stat => exact Or.inr rfl
  · exact Or.inr rfl

theorem run_allocateNewQuery (f : Nat → Operation β) : ((allocateNewQuery >>= f) t).run p =
    match p.lock with
    | none => (none, p)
    | some next => (f next.1 t).run next.2 := by
  change (Program.getNewCommunicationQueue (fun id => f id t)).run p = _
  rw [Program.run]
  cases p.lock with
  | none => rfl
  | some next => rfl

theorem run_getQueryResponse {id : Nat} {r : Response} {answers : List Answer} (f : Response → Operation β)
    (h : p.answers = .response r :: answers) : ((getQueryResponse id >>= f) t).run p = (f r t).run { p with answers } := by
  change (Program.getQueryResponse id (fun r => andThen f (r, t))).run p = _
  rw [Program.run, h]
  rfl

theorem run_getQueryResponse_none {id : Nat} (f : Response → Operation β) (h : p.answers = []) :
    ((getQueryResponse id >>= f) t).run p = (none, p) := by
  change (Program.getQueryResponse id (fun r => andThen f (r, t))).run p = _
  rw [Program.run, h]

/-- A query and its response: the queue that is found, and the first of the answers. -/
theorem query_cases (f : Nat → Response → Operation β) (hall : AllResponses p.answers) :
    (∃ p₁, ((allocateNewQuery >>= fun query => getQueryResponse query >>= f query) t).run p = (none, p₁) ∧ p₁.stray = p.stray) ∨
    ∃ b busy id r answers, p.busy = b :: busy ∧ Pool.scan p.number p.locked b = some id ∧ p.answers = .response r :: answers ∧
      ((allocateNewQuery >>= fun query => getQueryResponse query >>= f query) t).run p =
        (f id r t).run { p with own := id :: p.own, busy, answers } := by
  rw [run_allocateNewQuery]
  cases hlock : p.lock with
  | none => exact Or.inl ⟨p, rfl, rfl⟩
  | some next =>
      obtain ⟨id, p₁⟩ := next
      obtain ⟨b, busy, hbusy, hscan, rfl⟩ := Pool.lock_eq hlock
      by_cases hempty : p.answers = []
      · exact Or.inl ⟨_, @run_getQueryResponse_none β t { p with own := id :: p.own, busy } id (f id) hempty, rfl⟩
      · obtain ⟨a, answers, hanswers⟩ := List.exists_cons_of_ne_nil hempty
        obtain ⟨r, rfl⟩ := hall a (hanswers ▸ List.mem_cons_self)
        exact Or.inr ⟨b, busy, id, r, answers, hbusy, hscan, hanswers,
          @run_getQueryResponse β t { p with own := id :: p.own, busy } id r answers (f id) hanswers⟩

theorem run_query {f : Nat → Response → Operation β} {out : Option β × ClientState} (hall : AllResponses p.answers)
    (hrun : ((allocateNewQuery >>= fun query => getQueryResponse query >>= f query) t).run p = (some out, p')) :
    ∃ b busy id r answers, p.busy = b :: busy ∧ Pool.scan p.number p.locked b = some id ∧ p.answers = .response r :: answers ∧
      (f id r t).run { p with own := id :: p.own, busy, answers } = (some out, p') := by
  rcases @query_cases _ t p f hall with ⟨p₁, hnone, -⟩ | ⟨b, busy, id, r, answers, hbusy, hscan, hanswers, hrest⟩
  · rw [hrun] at hnone
    cases hnone
  · exact ⟨b, busy, id, r, answers, hbusy, hscan, hanswers, hrest ▸ hrun⟩

theorem registerToMaster_files : ∀ (n : Nat) (ret : Int) (t : ClientState) (own : List Nat),
    (registerToMaster n ret t).wp own (fun out _ => out.2.files = t.files)
  | 0, _, _, _ => rfl
  | n + 1, _, t, own => by
      intro id hid r
      dsimp only [Program.bind, andThen]
      cases hpop : popInt r.fields with
      | none => exact trivial
      | some popped => exact ⟨List.mem_cons_self, registerToMaster_files n popped.1 { t with masters := t.masters + 1 } _⟩

theorem checkInit_files (env : ClientEnv) (t : ClientState) (own : List Nat) :
    (checkInit env t).wp own (fun out _ => out.2.files = t.files) := by
  change (((if t.threadStarted = true then pure () else _ : Operation Unit) t)).wp own _
  split
  · rfl
  · apply Program.wp_bind
    apply Program.wp_mono _ (registerToMaster_files env.masterIps 0 t own)
    rintro ⟨o, t₁⟩ own' hfiles
    cases o with
    | none => exact hfiles
    | some ret =>
        change (((if ret = -1 then pure () else set { t₁ with threadStarted := true } : Operation Unit) t₁)).wp own' _
        split
        · exact hfiles
        · exact hfiles

/-- `CHECK_INIT` leaves the tables of files as they are. -/
theorem checkInit_cases {env : ClientEnv} {f : Unit → Operation β} (hp : Between p) :
    (∃ p₁, ((checkInit env >>= f) t).run p = (none, p₁) ∧ p₁.stray = false) ∨
    ∃ t₁ p₁, t₁.files = t.files ∧ Resumes p p₁ ∧ ((checkInit env >>= f) t).run p = (f () t₁).run p₁ := by
  rcases (balanced_checkInit env).bind_cases (t := t) (f := f) hp with hnone | ⟨_, t₁, p₁, hinit, hres, hrest⟩
  · exact Or.inl hnone
  · have hfiles := (Program.run_of_wp (checkInit_files env t p.own) hp.stray hp.responses).2.2
    rw [hinit] at hfiles
    exact Or.inr ⟨t₁, p₁, hfiles _ rfl, hres, hrest⟩

theorem run_checkInit {env : ClientEnv} {f : Unit → Operation β} {out : Option β × ClientState} (hp : Between p)
    (hrun : ((checkInit env >>= f) t).run p = (some out, p')) :
    ∃ t₁ p₁, t₁.files = t.files ∧ Resumes p p₁ ∧ (f () t₁).run p₁ = (some out, p') := by
  rcases @checkInit_cases _ t p env f hp with ⟨p₁, hnone, -⟩ | ⟨t₁, p₁, hfiles, hres, hrest⟩
  · rw [hrun] at hnone
    cases hnone
  · exact ⟨t₁, p₁, hfiles, hres, hrest ▸ hrun⟩

theorem fileOf_cases {fd : Int} {f : OpenedFile × ClientMeta → Operation β} : ((fileOf fd >>= f) t).run p = (none, p) ∨
    ∃ file m, t.files.fileList.find? (fd - INIT_FD) = some file ∧ t.files.metas file.fileMeta = some m ∧
      ((fileOf fd >>= f) t).run p = (f (file, m) t).run p := by
  change (((ofOption (t.files.fileList.find? (fd - INIT_FD)) >>= fun file => ofOption (t.files.metas file.fileMeta) >>= fun fileMeta =>
    (pure (file, fileMeta) : Operation _)) >>= f) t).run p = _ ∨ ∃ file m, t.files.fileList.find? (fd - INIT_FD) = some file ∧
      t.files.metas file.fileMeta = some m ∧ (((ofOption (t.files.fileList.find? (fd - INIT_FD)) >>= fun file =>
        ofOption (t.files.metas file.fileMeta) >>= fun fileMeta => (pure (file, fileMeta) : Operation _)) >>= f) t).run p = _
  cases t.files.fileList.find? (fd - INIT_FD) with
  | none => exact Or.inl rfl
  | some file =>
      cases hmeta : t.files.metas file.fileMeta with
      | none =>
          left
          change (((ofOption (t.files.metas file.fileMeta) >>= fun fileMeta => (pure (file, fileMeta) : Operation _)) >>= f) t).run p = _
          rw [hmeta]
          rfl
      | some m =>
          refine Or.inr ⟨file, m, rfl, hmeta, ?_⟩
          change (((ofOption (t.files.metas file.fileMeta) >>= fun fileMeta => (pure (file, fileMeta) : Operation _)) >>= f) t).run p = _
          rw [hmeta]
          rfl

/-! ## Redirected paths -/

/-- The call gave back what it had locked, and nothing else. -/
def Released (before : List Nat) (p' : Pool) : Prop := p'.stray = false ∧ p'.locked = before

/-- A pool with one queue locked, which is given back. -/
theorem released_one {id : Nat} (hown : p.own = [id]) (hstray : p.stray = false) : Released p.before (p.unlock id) := by
  rw [Pool.unlock_own (by rw [hown]; exact List.mem_singleton_self id)]
  refine ⟨hstray, ?_⟩
  show p.own.erase id ++ p.before = p.before
  rw [hown, List.erase_cons_head]
  rfl

theorem not_released_of_stray {before : List Nat} (h : p.stray = true) : ¬ Released before p := by
  intro hr
  rw [hr.1] at h
  cases h

theorem forwardedEnd_run {query : Nat} {attr : Bool} {rest : List Field} {out : Option Int × ClientState}
    (hrun : (forwardedEnd query attr rest t).run p = (some out, p')) : (∃ ret, out.1 = some ret) ∧ p' = p.unlock query := by
  obtain ⟨popped, -, hrun⟩ := run_ofOption hrun
  rcases @receiveAttr_cases _ t p attr popped.1 popped.2 (fun _ => releaseCommunicationQueue query >>= fun _ => pure popped.1) with
    hnone | hrest
  · cases hnone.symm.trans hrun
  · cases hrest.symm.trans hrun
    exact ⟨⟨_, rfl⟩, rfl⟩

theorem forwardedEnd_answers (query : Nat) (attr : Bool) (rest : List Field) (t : ClientState) (p : Pool) :
    ((forwardedEnd query attr rest t).run p).2.answers = p.answers := by
  unfold forwardedEnd
  rcases @ofOption_cases _ _ t p (popInt rest) _ with hnone | ⟨popped, -, hrest⟩
  · rw [hnone]
  · rw [hrest]
    rcases @receiveAttr_cases _ t p attr popped.1 popped.2 (fun _ => releaseCommunicationQueue query >>= fun _ => pure popped.1) with
      hnone | hlast
    · exact congrArg (fun out => out.2.answers) hnone
    · exact (congrArg (fun out => out.2.answers) hlast).trans (Pool.unlock_answers p query)

theorem forwardedEnd_stray {query : Nat} (attr : Bool) (rest : List Field) (hown : p.own = [query]) (hstray : p.stray = false) :
    ((forwardedEnd query attr rest t).run p).2.stray = false := by
  unfold forwardedEnd
  rcases @ofOption_cases _ _ t p (popInt rest) _ with hnone | ⟨popped, -, hrest⟩
  · rw [hnone]
    exact hstray
  · rw [hrest]
    rcases @receiveAttr_cases _ t p attr popped.1 popped.2 (fun _ => releaseCommunicationQueue query >>= fun _ => pure popped.1) with
      hnone | hlast
    · exact (congrArg (fun out => out.2.stray) hnone).trans hstray
    · exact (congrArg (fun out => out.2.stray) hlast).trans (released_one hown hstray).1

/-- The queue of the query is given back once, if the response is of the master that was asked, and twice otherwise. -/
theorem forwardedRest_run {number : Nat} {attr : Bool} {out : Option Int × ClientState} (hp : Between p)
    (hrun : ((allocateNewQuery >>= fun query => getQueryResponse query >>= fun response => forwardedRest number query attr response) t).run p =
      (some out, p')) :
    (∃ ret, out.1 = some ret) ∧ (p'.answers = [] → ∃ r, p.answers = [.response r] ∧
      (Released p.before p' ↔ (popInt r.fields).map Prod.fst = some (number : Int))) := by
  obtain ⟨b, busy, id, r, answers, -, -, hanswers, hquery⟩ := run_query hp.responses hrun
  obtain ⟨⟨ret, rest⟩, hpop, hmaster⟩ := run_ofOption hquery
  have hloop : ((leaveLoop ((number : Int) != ret) id >>= fun _ => forwardedEnd id attr rest) t).run
      { p with own := id :: p.own, busy, answers } = (some out, p') := by
    rcases @getMasterHandle_cases _ t { p with own := id :: p.own, busy, answers } ret
      (fun _ => leaveLoop ((number : Int) != ret) id >>= fun _ => forwardedEnd id attr rest) with hnone | hrest
    · cases hnone.symm.trans hmaster
    · exact hrest.symm.trans hmaster
  generalize hq : ({ p with own := id :: p.own, busy, answers } : Pool) = q at hloop
  have hown : q.own = [id] := by
    rw [← hq, hp.own]
  have hstray : q.stray = false := by
    rw [← hq]
    exact hp.stray
  have hbefore : q.before = p.before := by rw [← hq]
  have hleft : q.answers = answers := by rw [← hq]
  by_cases hsame : (number : Int) = ret
  · have hskip : (forwardedEnd id attr rest t).run q = (some out, p') := by
      rw [← hloop, leaveLoop, if_neg (by simp [hsame])]
      rfl
    obtain ⟨hret, rfl⟩ := forwardedEnd_run hskip
    refine ⟨hret, fun hend => ?_⟩
    rw [Pool.unlock_answers, hleft] at hend
    refine ⟨r, by rw [hanswers, hend], iff_of_true (hbefore ▸ released_one hown hstray) ?_⟩
    rw [hpop, hsame]
    rfl
  · have htwice : (forwardedEnd id attr rest t).run (q.unlock id) = (some out, p') := by
      rw [← hloop, leaveLoop, if_pos (by simp [hsame])]
      rfl
    obtain ⟨hret, rfl⟩ := forwardedEnd_run htwice
    refine ⟨hret, fun hend => ?_⟩
    rw [Pool.unlock_answers, Pool.unlock_answers, hleft] at hend
    refine ⟨r, by rw [hanswers, hend], iff_of_false (not_released_of_stray (Pool.unlock_twice ?_ id)) ?_⟩
    · rw [hown]
      exact List.nodup_singleton id
    · rw [hpop]
      exact fun hc => hsame (Option.some.inj hc).symm

/-- Also while it goes on, the queue is not given back twice. -/
theorem forwardedRest_stray {number : Nat} {attr : Bool} (hp : Between p)
    (hdirect : ∀ r, p.answers = [.response r] → (popInt r.fields).map Prod.fst = some (number : Int))
    (hend : (((allocateNewQuery >>= fun query => getQueryResponse query >>= fun response => forwardedRest number query attr response) t).run
      p).2.answers = []) :
    (((allocateNewQuery >>= fun query => getQueryResponse query >>= fun response => forwardedRest number query attr response) t).run
      p).2.stray = false := by
  rcases @query_cases _ t p (fun query response => forwardedRest number query attr response) hp.responses with
    ⟨p₁, hnone, hstray⟩ | ⟨b, busy, id, r, answers, -, -, hanswers, hquery⟩
  · rw [hnone]
    exact hstray.trans hp.stray
  rw [hquery] at hend ⊢
  generalize hq : ({ p with own := id :: p.own, busy, answers } : Pool) = q at hend ⊢
  have hown : q.own = [id] := by
    rw [← hq, hp.own]
  have hstray : q.stray = false := by
    rw [← hq]
    exact hp.stray
  have hleft : q.answers = answers := by rw [← hq]
  unfold forwardedRest at hend ⊢
  rcases @ofOption_cases _ _ t q (popInt r.fields) _ with hnone | ⟨⟨ret, rest⟩, hpop, hmaster⟩
  · rw [hnone]
    exact hstray
  rw [hmaster] at hend ⊢
  rcases @getMasterHandle_cases _ t q ret (fun _ => leaveLoop ((number : Int) != ret) id >>= fun _ => forwardedEnd id attr rest) with
    hnone | hloop
  · exact (congrArg (fun out => out.2.stray) hnone).trans hstray
  have hafter := hend
  change (((getMasterHandle ret >>= fun _ => leaveLoop ((number : Int) != ret) id >>= fun _ => forwardedEnd id attr rest) t).run q).2.answers = []
    at hafter
  change (((getMasterHandle ret >>= fun _ => leaveLoop ((number : Int) != ret) id >>= fun _ => forwardedEnd id attr rest) t).run q).2.stray = false
  rw [hloop] at hafter ⊢
  by_cases hsame : (number : Int) = ret
  · rw [leaveLoop, if_neg (by simp [hsame])]
    exact forwardedEnd_stray attr rest hown hstray
  · rw [leaveLoop, if_pos (by simp [hsame])] at hafter
    change ((forwardedEnd id attr rest t).run (q.unlock id)).2.answers = [] at hafter
    rw [forwardedEnd_answers, Pool.unlock_answers, hleft] at hafter
    have hnumber := hdirect r (by rw [hanswers, hafter])
    rw [hpop] at hnumber
    exact absurd (Option.some.inj hnumber).symm hsame

/-- `remote_getattr`, `remote_access` and `_truncate`: it is the last response that has the number. -/
theorem forwarded_run {env : ClientEnv} {path : Str} {attr : Bool} {out : Option Int × ClientState} (hp : Between p)
    (hrun : (forwarded env path attr t).run p = (some out, p')) :
    (∃ ret, out.1 = some ret) ∧ (p'.answers = [] → ∃ r, p.answers.getLast? = some (.response r) ∧
      (Released p.before p' ↔ (popInt r.fields).map Prod.fst = some (masterNumber env path : Int))) := by
  obtain ⟨t₁, p₁, -, hinit, hrun⟩ := run_checkInit hp hrun
  have hp₁ := hp.resumes hinit
  obtain ⟨_, t₂, p₂, -, hhandle, hrun⟩ := (balanced_getMasterHandleFromPath env path).run_bind hp₁ hrun
  have hall := hinit.trans hhandle
  obtain ⟨hret, hrest⟩ := forwardedRest_run (hp₁.resumes hhandle) hrun
  refine ⟨hret, fun hend => ?_⟩
  obtain ⟨r, hlast, hiff⟩ := hrest hend
  exact ⟨r, hall.getLast? (by rw [hlast]; rfl), hall.before ▸ hiff⟩

theorem forwarded_stray {env : ClientEnv} {path : Str} {attr : Bool} (hp : Between p)
    (hdirect : ∀ r, p.answers.getLast? = some (.response r) → (popInt r.fields).map Prod.fst = some (masterNumber env path : Int))
    (hend : ((forwarded env path attr t).run p).2.answers = []) : ((forwarded env path attr t).run p).2.stray = false := by
  unfold forwarded at hend ⊢
  rcases @checkInit_cases _ t p env _ hp with ⟨p₁, hnone, hstray⟩ | ⟨t₁, p₁, -, hinit, hrest⟩
  · rw [hnone]
    exact hstray
  rw [hrest] at hend ⊢
  have hp₁ := hp.resumes hinit
  rcases (balanced_getMasterHandleFromPath env path).bind_cases (t := t₁) hp₁ with ⟨p₂, hnone, hstray⟩ | ⟨_, t₂, p₂, -, hhandle, hrest⟩
  · rw [hnone]
    exact hstray
  rw [hrest] at hend ⊢
  apply forwardedRest_stray (hp₁.resumes hhandle) _ hend
  intro r hr
  apply hdirect
  exact (hinit.trans hhandle).getLast? (by rw [hr]; rfl)

/-! ## Renaming -/

/-- The first queue is given back twice when there are two queries, and the second query may have another queue. -/
theorem renameRest_run {migrating : Bool} {out : Option Int × ClientState} (hp : Between p)
    (hrun : ((allocateNewQuery >>= fun query => getQueryResponse query >>= fun response => renameRest migrating query response) t).run p =
      (some out, p')) :
    (∃ ret, out.1 = some ret) ∧ (migrating = false → Released p.before p') ∧ (migrating = true → p'.busy = [] → ∃ b b', p.busy = [b, b'] ∧
      (Released p.before p' ↔ Pool.scan p.number p.before b = Pool.scan p.number p.before b')) := by
  obtain ⟨b, busy, id, r, answers, hbusy, hscan, hanswers, hquery⟩ := run_query hp.responses hrun
  obtain ⟨⟨ret, rest⟩, hpop, hmaster⟩ := run_ofOption hquery
  have hlocked : p.locked = p.before := by
    unfold Pool.locked
    rw [hp.own]
    rfl
  rw [hlocked] at hscan
  generalize hq : ({ p with own := id :: p.own, busy, answers } : Pool) = q at hmaster
  have hown : q.own = [id] := by
    rw [← hq, hp.own]
  have hstray : q.stray = false := by
    rw [← hq]
    exact hp.stray
  cases migrating with
  | false =>
      cases hmaster
      refine ⟨⟨_, rfl⟩, fun _ => ?_, fun hc => (nomatch hc)⟩
      have hr := released_one hown hstray
      rw [← hq] at hr ⊢
      exact hr
  | true =>
      change ((allocateNewQuery >>= fun newQuery => getQueryResponse newQuery >>= fun newResponse =>
        ofOption (popInt newResponse.fields) >>= fun popped => releaseCommunicationQueue id >>= fun _ => pure popped.1) t).run (q.unlock id) =
        (some out, p') at hmaster
      have hunlock : q.unlock id = { p with own := [], busy, answers } := by
        rw [Pool.unlock_own (by rw [hown]; exact List.mem_singleton_self id), hown, List.erase_cons_head, ← hq]
      rw [hunlock] at hmaster
      have hleft : AllResponses answers := fun a ha => hp.responses a (hanswers ▸ List.mem_cons_of_mem _ ha)
      obtain ⟨b', busy', id', r', answers', hbusy', hscan', -, hquery'⟩ := run_query hleft hmaster
      obtain ⟨popped, -, hlast⟩ := run_ofOption hquery'
      cases hlast
      refine ⟨⟨_, rfl⟩, fun hc => (nomatch hc), fun _ hend => ⟨b, b', ?_, ?_⟩⟩
      · have hnone : busy' = [] := by
          rw [(Pool.unlock_busy _ id).1] at hend
          exact hend
        rw [hbusy]
        exact congrArg (b :: ·) (hbusy'.trans (congrArg (b' :: ·) hnone))
      · have hsecond : Pool.scan p.number p.before b' = some id' := hscan'
        rw [hscan, hsecond]
        by_cases hsame : id = id'
        · subst hsame
          exact iff_of_true (released_one rfl hp.stray) rfl
        · refine iff_of_false (not_released_of_stray (Pool.unlock_stray ?_)) fun hc => hsame (Option.some.inj hc)
          exact fun hmem => hsame (List.mem_singleton.mp hmem)

/-- `_rename`: the last two queues that it looked for. -/
theorem renameOnce_run {env : ClientEnv} {oldName newName : Str} {out : Option Int × ClientState} (hp : Between p)
    (hrun : (renameOnce env oldName newName t).run p = (some out, p')) :
    (∃ ret, out.1 = some ret) ∧ (masterNumber env newName = masterNumber env oldName → Released p.before p') ∧
      (masterNumber env newName ≠ masterNumber env oldName → p'.busy = [] → ∃ looked b b', p.busy = looked ++ [b, b'] ∧
        (Released p.before p' ↔ Pool.scan p.number p.before b = Pool.scan p.number p.before b')) := by
  obtain ⟨t₁, p₁, -, hinit, hrun⟩ := run_checkInit hp hrun
  have hp₁ := hp.resumes hinit
  obtain ⟨_, t₂, p₂, -, hold, hrun⟩ := (balanced_getMasterHandleFromPath env oldName).run_bind hp₁ hrun
  have hp₂ := hp₁.resumes hold
  obtain ⟨_, t₃, p₃, -, hnew, hrun⟩ := (balanced_getMasterHandleFromPath env newName).run_bind hp₂ hrun
  have hp₃ := hp₂.resumes hnew
  obtain ⟨_, t₄, p₄, -, hlocal, hrun⟩ := (balanced_updateFiles _).run_bind hp₃ hrun
  have hall := ((hinit.trans hold).trans hnew).trans hlocal
  obtain ⟨hret, hone, htwo⟩ := renameRest_run (hp₃.resumes hlocal) hrun
  rw [hall.before, hall.number] at htwo
  rw [hall.before] at hone
  refine ⟨hret, fun hsame => hone (by simp [hsame]), fun hne hend => ?_⟩
  obtain ⟨b, b', hbusy, hiff⟩ := htwo (by simp [hne]) hend
  obtain ⟨looked, hlooked⟩ := hall.busy
  exact ⟨looked, b, b', hbusy ▸ hlooked, hiff⟩

/-- Also while it goes on, a queue that is given back twice was locked twice. -/
theorem renameRest_stray {migrating : Bool} (hp : Between p)
    (hscan : migrating = true → ∀ b b', p.busy = [b, b'] → Pool.scan p.number p.before b = Pool.scan p.number p.before b')
    (hend : (((allocateNewQuery >>= fun query => getQueryResponse query >>= fun response => renameRest migrating query response) t).run
      p).2.busy = []) :
    (((allocateNewQuery >>= fun query => getQueryResponse query >>= fun response => renameRest migrating query response) t).run
      p).2.stray = false := by
  rcases @query_cases _ t p (fun query response => renameRest migrating query response) hp.responses with
    ⟨p₁, hnone, hstray⟩ | ⟨b, busy, id, r, answers, hbusy, hfirst, hanswers, hquery⟩
  · rw [hnone]
    exact hstray.trans hp.stray
  rw [hquery] at hend ⊢
  have hlocked : p.locked = p.before := by
    unfold Pool.locked
    rw [hp.own]
    rfl
  rw [hlocked] at hfirst
  generalize hq : ({ p with own := id :: p.own, busy, answers } : Pool) = q at hend ⊢
  have hown : q.own = [id] := by
    rw [← hq, hp.own]
  have hstray : q.stray = false := by
    rw [← hq]
    exact hp.stray
  unfold renameRest at hend ⊢
  rcases @ofOption_cases _ _ t q (popInt r.fields) _ with hnone | ⟨⟨ret, rest⟩, -, hrest⟩
  · rw [hnone]
    exact hstray
  rw [hrest] at hend ⊢
  cases migrating with
  | false => exact (released_one hown hstray).1
  | true =>
      change (((allocateNewQuery >>= fun newQuery => getQueryResponse newQuery >>= fun newResponse =>
        ofOption (popInt newResponse.fields) >>= fun popped => releaseCommunicationQueue id >>= fun _ => pure popped.1) t).run
        (q.unlock id)).2.busy = [] at hend
      change (((allocateNewQuery >>= fun newQuery => getQueryResponse newQuery >>= fun newResponse =>
        ofOption (popInt newResponse.fields) >>= fun popped => releaseCommunicationQueue id >>= fun _ => pure popped.1) t).run
        (q.unlock id)).2.stray = false
      have hunlock : q.unlock id = { p with own := [], busy, answers } := by
        rw [Pool.unlock_own (by rw [hown]; exact List.mem_singleton_self id), hown, List.erase_cons_head, ← hq]
      rw [hunlock] at hend ⊢
      have hleft : AllResponses answers := fun a ha => hp.responses a (hanswers ▸ List.mem_cons_of_mem _ ha)
      rcases @query_cases _ t { p with own := [], busy, answers } (fun _ newResponse =>
        ofOption (popInt newResponse.fields) >>= fun popped => releaseCommunicationQueue id >>= fun _ => pure popped.1) hleft with
        ⟨p₁, hnone, hs⟩ | ⟨b', busy', id', r', answers', hbusy', hsecond, -, hquery'⟩
      · rw [hnone]
        exact hs.trans hp.stray
      rw [hquery'] at hend ⊢
      rcases @ofOption_cases _ _ t { p with own := [id'], busy := busy', answers := answers' } (popInt r'.fields)
        (fun popped => releaseCommunicationQueue id >>= fun _ => pure popped.1) with hnone | ⟨popped, -, hlast⟩
      · exact (congrArg (fun out => out.2.stray) hnone).trans hp.stray
      · have hnone : busy' = [] := by
          have hdone := (congrArg (fun out => out.2.busy) hlast).symm.trans hend
          exact (Pool.unlock_busy { p with own := [id'], busy := busy', answers := answers' } id).1.symm.trans hdone
        have hboth : p.busy = [b, b'] := by
          rw [hbusy]
          exact congrArg (b :: ·) (hbusy'.trans (congrArg (b' :: ·) hnone))
        have hsame := hscan rfl b b' hboth
        rw [hfirst] at hsame
        have hid : id = id' := Option.some.inj (hsame.trans hsecond)
        subst hid
        exact (congrArg (fun out => out.2.stray) hlast).trans
          (@released_one { p with own := [id], busy := busy', answers := answers' } id rfl hp.stray).1

theorem renameOnce_stray {env : ClientEnv} {oldName newName : Str} (hp : Between p)
    (hscan : masterNumber env newName ≠ masterNumber env oldName → ∀ looked b b', p.busy = looked ++ [b, b'] →
      Pool.scan p.number p.before b = Pool.scan p.number p.before b')
    (hend : ((renameOnce env oldName newName t).run p).2.busy = []) : ((renameOnce env oldName newName t).run p).2.stray = false := by
  unfold renameOnce at hend ⊢
  rcases @checkInit_cases _ t p env _ hp with ⟨p₁, hnone, hstray⟩ | ⟨t₁, p₁, -, hinit, hrest⟩
  · rw [hnone]
    exact hstray
  rw [hrest] at hend ⊢
  have hp₁ := hp.resumes hinit
  rcases (balanced_getMasterHandleFromPath env oldName).bind_cases (t := t₁) hp₁ with ⟨p₂, hnone, hstray⟩ | ⟨_, t₂, p₂, -, hold, hrest⟩
  · rw [hnone]
    exact hstray
  rw [hrest] at hend ⊢
  have hp₂ := hp₁.resumes hold
  rcases (balanced_getMasterHandleFromPath env newName).bind_cases (t := t₂) hp₂ with ⟨p₃, hnone, hstray⟩ | ⟨_, t₃, p₃, -, hnew, hrest⟩
  · rw [hnone]
    exact hstray
  rw [hrest] at hend ⊢
  have hp₃ := hp₂.resumes hnew
  rcases (balanced_updateFiles (fun files => files.renameLocal oldName newName)).bind_cases (t := t₃) hp₃ with
    ⟨p₄, hnone, hstray⟩ | ⟨_, t₄, p₄, -, hlocal, hrest⟩
  · rw [hnone]
    exact hstray
  rw [hrest] at hend ⊢
  have hall := ((hinit.trans hold).trans hnew).trans hlocal
  apply renameRest_stray (hp₃.resumes hlocal) _ hend
  intro hne b b' hbusy
  obtain ⟨looked, hlooked⟩ := hall.busy
  rw [hall.number, hall.before]
  apply hscan (by simpa using hne) looked
  rw [hlooked, hbusy]

/-! ## Calls -/

/-- An attempt that throws nothing is the last. -/
theorem retry_run {attempt : Nat → Operation Int} {n i : Nat} (failure : Int)
    (hsome : ∀ out p₁, (attempt i t).run p = (some out, p₁) → ∃ ret, out.1 = some ret) :
    (retry attempt failure (n + 1) i t).run p = (attempt i t).run p := by
  change ((attempt i t).bind _).run p = _
  rw [Program.run_bind]
  cases hone : (attempt i t).run p with
  | mk first p₁ =>
      cases first with
      | none => rfl
      | some first =>
          obtain ⟨ret, hret⟩ := hsome first p₁ hone
          obtain ⟨o, t₁⟩ := first
          cases hret
          rfl

theorem released_of_resumes (hp : Between p) (h : Resumes p p') : Released p.before p' := by
  refine ⟨h.stray.trans hp.stray, ?_⟩
  unfold Pool.locked
  rw [h.own, hp.own, h.before]
  rfl

end Operation

namespace QueueCall

open Operation

/-- The path of a query that a master may redirect. -/
def forwardedPath (files : FileTables) : QueueCall → Option Str
  | .getattr path => if (files.pathFileMetaMap.find? path).isSome then none else some path
  | .access path => if (files.pathFileMetaMap.find? path).isSome then none else some path
  | .truncate path => some path
  | .ftruncate fd _ =>
      match (files.fileList.find? (fd - INIT_FD)).bind (fun file => files.metas file.fileMeta) with
      | some m => m.it.map PathIterator.path
      | none => none
  | _ => none

/-- What a call may meet: no error; for a path that a master may redirect, the number of the master that was asked in the last response;
    and for a rename between two masters, the same queue for both queries. -/
structure Clean (env : ClientEnv) (t : ClientState) (p : Pool) (c : QueueCall) : Prop where
  responses : AllResponses p.answers
  direct : ∀ path, c.forwardedPath t.files = some path → ∀ r, p.answers.getLast? = some (.response r) →
    (popInt r.fields).map Prod.fst = some (masterNumber env path : Int)
  sameQueue : ∀ oldName newName, c = .rename oldName newName → masterNumber env newName ≠ masterNumber env oldName →
    ∀ looked b b', p.busy = looked ++ [b, b'] → Pool.scan p.number p.before b = Pool.scan p.number p.before b'

variable {env : ClientEnv} {fuel : Nat} {t : ClientState} {p p' : Pool} {out : Option Int × ClientState}

/-- What is said of an attempt whose answers are responses. -/
def AttemptOk (env : ClientEnv) (t : ClientState) (p p' : Pool) (out : Option Int × ClientState) (c : QueueCall) : Prop :=
  (∃ ret, out.1 = some ret) ∧ (p'.answers = [] → p'.busy = [] → (Released p.before p' ↔ c.Clean env t p))

theorem clean_of_none {c : QueueCall} (hp : Between p) (hpath : c.forwardedPath t.files = none) (hname : ∀ o n, c ≠ .rename o n) : c.Clean env t p :=
  ⟨hp.responses, fun _ hc => (nomatch hpath.symm.trans hc), fun o n hc => absurd hc (hname o n)⟩

theorem attempt_of_balanced {c : QueueCall} {m : Operation Int} (hm : m.Balanced) (hp : Between p) (hrun : (m t).run p = (some out, p'))
    (hpath : c.forwardedPath t.files = none) (hname : ∀ o n, c ≠ .rename o n) : AttemptOk env t p p' out c := by
  obtain ⟨hret, hres⟩ := hm.run hp hrun
  exact ⟨hret, fun _ _ => iff_of_true (released_of_resumes hp hres) (clean_of_none hp hpath hname)⟩

theorem attempt_of_forwarded {c : QueueCall} {path : Str} {attr : Bool} {t₁ : ClientState} {p₁ : Pool} (hp : Between p) (hres : Resumes p p₁)
    (hrun : (forwarded env path attr t₁).run p₁ = (some out, p')) (hpath : c.forwardedPath t.files = some path)
    (hname : ∀ o n, c ≠ .rename o n) : AttemptOk env t p p' out c := by
  obtain ⟨hret, hlast⟩ := forwarded_run (hp.resumes hres) hrun
  refine ⟨hret, fun hanswers _ => ?_⟩
  obtain ⟨r, hr, hiff⟩ := hlast hanswers
  have hall := hres.getLast? hr
  rw [← hres.before, hiff]
  constructor
  · intro hnumber
    refine ⟨hp.responses, ?_, fun o n hc => absurd hc (hname o n)⟩
    intro path' hpath' r' hr'
    rw [hpath] at hpath'
    cases hpath'
    rw [hall] at hr'
    cases hr'
    exact hnumber
  · exact fun hclean => hclean.direct path hpath r hall

/-- A path that the client has open is answered without a query. -/
theorem attempt_of_path {c : QueueCall} {path : Str} {attr : Bool} {known : PathEntry → Operation Int}
    (hknown : ∀ e, (known e).Balanced) (hp : Between p)
    (hrun : ((checkInit env >>= fun _ => get >>= fun t => match t.files.pathFileMetaMap.find? path with
      | some e => known e
      | none => forwarded env path attr) t).run p = (some out, p'))
    (hpath : c.forwardedPath t.files = if (t.files.pathFileMetaMap.find? path).isSome then none else some path)
    (hname : ∀ o n, c ≠ .rename o n) : AttemptOk env t p p' out c := by
  obtain ⟨t₁, p₁, hfiles, hres, hrun⟩ := run_checkInit hp hrun
  change ((match t₁.files.pathFileMetaMap.find? path with
    | some e => known e
    | none => forwarded env path attr) t₁).run p₁ = (some out, p') at hrun
  rw [hfiles] at hrun
  cases hfind : t.files.pathFileMetaMap.find? path with
  | none =>
      rw [hfind] at hrun hpath
      exact attempt_of_forwarded hp hres hrun hpath hname
  | some e =>
      rw [hfind] at hrun hpath
      obtain ⟨hret, hres'⟩ := (hknown e).run (hp.resumes hres) hrun
      exact ⟨hret, fun _ _ => iff_of_true (released_of_resumes hp (hres.trans hres')) (clean_of_none hp hpath hname)⟩

theorem attempt_of_rename {oldName newName : Str} (hp : Between p) (hrun : (renameOnce env oldName newName t).run p = (some out, p')) :
    AttemptOk env t p p' out (.rename oldName newName) := by
  obtain ⟨hret, hone, htwo⟩ := renameOnce_run hp hrun
  refine ⟨hret, fun _ hbusy => ?_⟩
  by_cases hsame : masterNumber env newName = masterNumber env oldName
  · refine iff_of_true (hone hsame) ⟨hp.responses, fun _ hc => (nomatch hc), ?_⟩
    rintro o n hc hne
    cases hc
    exact absurd hsame hne
  · obtain ⟨looked, b, b', hlast, hiff⟩ := htwo hsame hbusy
    rw [hiff]
    constructor
    · intro hscan
      refine ⟨hp.responses, fun _ hc => (nomatch hc), ?_⟩
      intro o n _ _ looked₁ b₁ b₁' hlast₁
      obtain ⟨-, hpair⟩ := List.append_inj' (hlast.symm.trans hlast₁) rfl
      cases hpair
      exact hscan
    · exact fun hclean => hclean.sameQueue oldName newName rfl hsame looked b b' hlast

theorem attempt_released_iff (c : QueueCall) (i : Nat) (hp : Between p) (hrun : (c.attempt env fuel i t).run p = (some out, p')) :
    AttemptOk env t p p' out c := by
  cases c with
  | «open» path flag => exact attempt_of_balanced (balanced_openOnce env path flag) hp hrun rfl (fun _ _ hc => (nomatch hc))
  | read master fd size cached =>
      exact attempt_of_balanced (balanced_transferOnce _ _ _ _ _ _ _) hp hrun rfl (fun _ _ hc => (nomatch hc))
  | write master fd size cached =>
      exact attempt_of_balanced (balanced_transferOnce _ _ _ _ _ _ _) hp hrun rfl (fun _ _ hc => (nomatch hc))
  | close fd => exact attempt_of_balanced (balanced_closeOnce env fd) hp hrun rfl (fun _ _ hc => (nomatch hc))
  | flush fd => exact attempt_of_balanced (balanced_flushOnce env fd) hp hrun rfl (fun _ _ hc => (nomatch hc))
  | getattr path => exact attempt_of_path balanced_getLocalAttr hp hrun rfl (fun _ _ hc => (nomatch hc))
  | readdir => exact attempt_of_balanced (balanced_readdirOnce env) hp hrun rfl (fun _ _ hc => (nomatch hc))
  | unlink path => exact attempt_of_balanced (balanced_unlinkOnce env path) hp hrun rfl (fun _ _ hc => (nomatch hc))
  | rmdir path => exact attempt_of_balanced (balanced_pathOnce env path) hp hrun rfl (fun _ _ hc => (nomatch hc))
  | access path =>
      exact attempt_of_path (fun _ => balanced_pure 0) hp hrun rfl (fun _ _ hc => (nomatch hc))
  | rename oldName newName => exact attempt_of_rename hp hrun
  | mkdir path => exact attempt_of_balanced (balanced_pathOnce env path) hp hrun rfl (fun _ _ hc => (nomatch hc))
  | truncate path => exact attempt_of_forwarded hp (Resumes.refl p) hrun rfl (fun _ _ hc => (nomatch hc))
  | ftruncate fd size =>
      obtain ⟨t₁, p₁, hfiles, hres, hrun⟩ := run_checkInit hp hrun
      rcases @fileOf_cases _ t₁ p₁ fd _ with hnone | ⟨file, m, hfile, hmeta, hrest⟩
      · cases hnone.symm.trans hrun
      obtain ⟨it, hit, hrun⟩ := run_ofOption (o := m.it) (hrest.symm.trans hrun)
      rw [hfiles] at hfile hmeta
      refine attempt_of_forwarded hp hres hrun ?_ (fun _ _ hc => (nomatch hc))
      simp only [forwardedPath, hfile, Option.bind_some, hmeta, hit, Option.map_some]

theorem path_stray {c : QueueCall} {path : Str} {attr : Bool} {known : PathEntry → Operation Int} (hknown : ∀ e, (known e).Balanced)
    (hp : Between p) (hclean : c.Clean env t p)
    (hpath : c.forwardedPath t.files = if (t.files.pathFileMetaMap.find? path).isSome then none else some path)
    (hend : (((checkInit env >>= fun _ => get >>= fun t => match t.files.pathFileMetaMap.find? path with
      | some e => known e
      | none => forwarded env path attr) t).run p).2.answers = []) :
    (((checkInit env >>= fun _ => get >>= fun t => match t.files.pathFileMetaMap.find? path with
      | some e => known e
      | none => forwarded env path attr) t).run p).2.stray = false := by
  rcases @checkInit_cases _ t p env (fun _ => get >>= fun t => match t.files.pathFileMetaMap.find? path with
      | some e => known e
      | none => forwarded env path attr) hp with ⟨p₁, hnone, hstray⟩ | ⟨t₁, p₁, hfiles, hinit, hrest⟩
  · rw [hnone]
    exact hstray
  rw [hrest] at hend ⊢
  change ((((match t₁.files.pathFileMetaMap.find? path with
    | some e => known e
    | none => forwarded env path attr) t₁).run p₁).2.answers = []) at hend
  change (((match t₁.files.pathFileMetaMap.find? path with
    | some e => known e
    | none => forwarded env path attr) t₁).run p₁).2.stray = false
  have hp₁ := hp.resumes hinit
  rw [hfiles] at hend ⊢
  cases hfind : t.files.pathFileMetaMap.find? path with
  | none =>
      rw [hfind] at hend hpath
      apply forwarded_stray hp₁ _ hend
      exact fun r hr => hclean.direct path hpath r (hinit.getLast? hr)
  | some e => exact (Program.run_of_wp (hknown e t₁ p₁.own) hp₁.stray hp₁.responses).1

theorem attempt_stray (c : QueueCall) (i : Nat) (hp : Between p) (hclean : c.Clean env t p)
    (hanswers : ((c.attempt env fuel i t).run p).2.answers = []) (hbusy : ((c.attempt env fuel i t).run p).2.busy = []) :
    ((c.attempt env fuel i t).run p).2.stray = false := by
  have hbalanced : ∀ {m : Operation Int}, m.Balanced → ((m t).run p).2.stray = false :=
    fun hm => (Program.run_of_wp (hm t p.own) hp.stray hp.responses).1
  cases c with
  | «open» path flag => exact hbalanced (balanced_openOnce env path flag)
  | read master fd size cached => exact hbalanced (balanced_transferOnce _ _ _ _ _ _ _)
  | write master fd size cached => exact hbalanced (balanced_transferOnce _ _ _ _ _ _ _)
  | close fd => exact hbalanced (balanced_closeOnce env fd)
  | flush fd => exact hbalanced (balanced_flushOnce env fd)
  | getattr path => exact path_stray balanced_getLocalAttr hp hclean rfl hanswers
  | readdir => exact hbalanced (balanced_readdirOnce env)
  | unlink path => exact hbalanced (balanced_unlinkOnce env path)
  | rmdir path => exact hbalanced (balanced_pathOnce env path)
  | access path => exact path_stray (fun _ => balanced_pure 0) hp hclean rfl hanswers
  | rename oldName newName => exact renameOnce_stray hp (hclean.sameQueue oldName newName rfl) hbusy
  | mkdir path => exact hbalanced (balanced_pathOnce env path)
  | truncate path => exact forwarded_stray hp (hclean.direct path rfl) hanswers
  | ftruncate fd size =>
      change ((ftruncateOnce env fd size t).run p).2.answers = [] at hanswers
      change ((ftruncateOnce env fd size t).run p).2.stray = false
      unfold ftruncateOnce at hanswers ⊢
      rcases @checkInit_cases _ t p env _ hp with ⟨p₁, hnone, hstray⟩ | ⟨t₁, p₁, hfiles, hinit, hrest⟩
      · rw [hnone]
        exact hstray
      rw [hrest] at hanswers ⊢
      have hp₁ := hp.resumes hinit
      rcases @fileOf_cases _ t₁ p₁ fd _ with hnone | ⟨file, m, hfile, hmeta, hrest⟩
      · rw [hnone]
        exact hp₁.stray
      rw [hrest] at hanswers ⊢
      rw [hfiles] at hfile hmeta
      rcases @ofOption_cases _ _ { t₁ with files := t₁.files.setMeta file.fileMeta { m with fileStat := { m.fileStat with stSize := size } } }
        p₁ m.it (fun it => truncateOnce env it.path) with hnone | ⟨it, hit, hrest⟩
      · exact (congrArg (fun out => out.2.stray) hnone).trans hp₁.stray
      · have hend := (congrArg (fun out => out.2.answers) hrest).symm.trans hanswers
        refine (congrArg (fun out => out.2.stray) hrest).trans (forwarded_stray hp₁ ?_ hend)
        intro r hr
        apply hclean.direct it.path _ r (hinit.getLast? hr)
        simp only [forwardedPath, hfile, Option.bind_some, hmeta, hit, Option.map_some]

/-- A call that meets responses ends with its first attempt. -/
theorem operation_run (c : QueueCall) (hp : Between p) : (c.operation env fuel t).run p = (c.attempt env fuel 0 t).run p :=
  retry_run (n := 9) c.failure fun _ _ hrun => (attempt_released_iff c 0 hp hrun).1

theorem between_start {number : Nat} {before : List Nat} {busy : List (Nat → Bool)} {answers : List Answer} (h : AllResponses answers) :
    Between (Pool.start number before busy answers) := ⟨rfl, rfl, h⟩

/-- A call that ends has given back what it locked exactly if it is clean. -/
theorem released_iff_clean (c : QueueCall) {number : Nat} {before : List Nat} {busy : List (Nat → Bool)} {answers : List Answer}
    (hrun : (c.operation env fuel t).run (Pool.start number before busy answers) = (some out, p')) (hanswers : p'.answers = [])
    (hbusy : p'.busy = []) : Released before p' ↔ c.Clean env t (Pool.start number before busy answers) := by
  by_cases hall : AllResponses answers
  · have hp : Between (Pool.start number before busy answers) := between_start hall
    rw [operation_run c hp] at hrun
    exact (attempt_released_iff c 0 hp hrun).2 hanswers hbusy
  · obtain ⟨used, hused, -, hstray⟩ := Program.run_killed (c.operation env fuel t) (p := Pool.start number before busy answers) List.nodup_nil
    rw [hrun, hanswers, List.append_nil] at hused
    rw [hrun] at hstray
    change answers = used at hused
    have hall' : ¬ AllResponses used := fun hc => hall (hused ▸ hc)
    exact iff_of_false (not_released_of_stray (hstray (Or.inr hall'))) fun hclean => hall hclean.responses

/-- A clean call unlocks what it has locked only, whether it ends or not. -/
theorem stray_of_clean (fuel : Nat) (c : QueueCall) (hp : Between p) (hclean : c.Clean env t p)
    (hanswers : ((c.operation env fuel t).run p).2.answers = []) (hbusy : ((c.operation env fuel t).run p).2.busy = []) :
    ((c.operation env fuel t).run p).2.stray = false := by
  rw [operation_run c hp] at hanswers hbusy ⊢
  exact attempt_stray c 0 hp hclean hanswers hbusy

end QueueCall

/-! ## One call after another -/

/-- A call and what it meets: the queues that others hold whenever it looks for one, and the answers. -/
structure MetCall where
  call : QueueCall
  busy : List (Nat → Bool)
  answers : List Answer

namespace MetCall

open Operation

/-- The tables and the queues that are locked, after a call that ends. -/
def step (env : ClientEnv) (fuel number : Nat) (s : ClientState × List Nat) (m : MetCall) : Option (ClientState × List Nat) :=
  match (m.call.operation env fuel s.1).run (Pool.start number s.2 m.busy m.answers) with
  | (some out, p') => if p'.answers.isEmpty ∧ p'.busy.isEmpty then some (out.2, p'.locked) else none
  | (none, _) => none

def Clean (env : ClientEnv) (number : Nat) (s : ClientState × List Nat) (m : MetCall) : Prop :=
  m.call.Clean env s.1 (Pool.start number s.2 m.busy m.answers)

theorem step_locked {env : ClientEnv} {fuel number : Nat} {s s' : ClientState × List Nat} {m : MetCall} (hclean : m.Clean env number s)
    (hs : step env fuel number s m = some s') : s'.2 = s.2 := by
  unfold step at hs
  split at hs
  · rename_i out p' hrun
    split at hs
    · rename_i hdone
      cases hs
      exact ((QueueCall.released_iff_clean m.call hrun (List.isEmpty_iff.mp hdone.1) (List.isEmpty_iff.mp hdone.2)).mpr hclean).2
    · cases hs
  · cases hs

/-- **Queues are given back exactly once.** A call that ends has unlocked just what it has locked if and only if it meets no error, no
    redirection and, for a rename between two masters, one queue for both queries; a call that meets none of these unlocks no queue that it
    does not hold, whether it ends or not; and after any number of such calls there is a queue for the next. -/
theorem queues_given_back_iff (env : ClientEnv) (fuel number : Nat) :
    (∀ (c : QueueCall) (t : ClientState) (before : List Nat) (busy : List (Nat → Bool)) (answers : List Answer)
      (out : Option (Option Int × ClientState)) (p' : Pool),
      (c.operation env fuel t).run (Pool.start number before busy answers) = (out, p') → p'.answers = [] → p'.busy = [] →
        (out.isSome → (Released before p' ↔ c.Clean env t (Pool.start number before busy answers))) ∧
        (c.Clean env t (Pool.start number before busy answers) → p'.stray = false)) ∧
    ∀ (calls : List MetCall) (t : ClientState) (s : ClientState × List Nat), Run.Guarded (step env fuel number) (Clean env number) (t, []) calls →
      Run.run (step env fuel number) (t, []) calls = some s → s.2 = [] ∧ (0 < number → Pool.scan number s.2 (fun _ => false) = some 0) := by
  refine ⟨?_, ?_⟩
  · intro c t before busy answers out p' hrun hanswers hbusy
    refine ⟨fun hsome => ?_, fun hclean => ?_⟩
    · obtain ⟨o, rfl⟩ := Option.isSome_iff_exists.mp hsome
      exact QueueCall.released_iff_clean c hrun hanswers hbusy
    · have hp : Between (Pool.start number before busy answers) := QueueCall.between_start hclean.responses
      have hstray := QueueCall.stray_of_clean fuel c hp hclean
      rw [hrun] at hstray
      exact hstray hanswers hbusy
  · intro calls t s hguard hrun
    have hnone : s.2 = [] := @Run.run_invariant _ _ (step env fuel number) (Clean env number) (fun s => s.2 = [])
      (fun s m s' h hclean hs => (step_locked hclean hs).trans h) _ _ _ rfl hguard hrun
    refine ⟨hnone, fun hpos => ?_⟩
    obtain ⟨k, rfl⟩ := Nat.exists_eq_succ_of_ne_zero hpos.ne'
    unfold Pool.scan
    rw [hnone, List.range_succ_eq_map]
    rfl

/-- A client of one master, to which it is connected, with no file open. -/
def oneMaster : ClientEnv := { hash := List.length, size := 1, masterIps := 1, usingCache := false }

def connected : ClientState := { files := FileTables.start, nodes := fun _ => OrdMap.empty, masters := 1, threadStarted := true }

def success : Answer := .response ⟨[.int 0], 0⟩

/-- A directory is made, and once more. -/
def mkdirTwice : List MetCall := [⟨.mkdir Master.pathA, [fun _ => false], [success]⟩, ⟨.mkdir Master.pathA, [fun _ => false], [success]⟩]

theorem queues_given_back_mkdir : Run.run (step oneMaster 1 2) (connected, []) mkdirTwice = some (connected, []) ∧
    Pool.scan 2 [] (fun _ => false) = some 0 := by
  have hclean : ∀ s : ClientState × List Nat, MetCall.Clean oneMaster 2 s ⟨.mkdir Master.pathA, [fun _ => false], [success]⟩ := by
    intro s
    refine ⟨?_, fun _ hc => (nomatch hc), fun _ _ hc => (nomatch hc)⟩
    exact fun a ha => ⟨_, List.mem_singleton.mp ha⟩
  have hrun : Run.run (step oneMaster 1 2) (connected, []) mkdirTwice = some (connected, []) := rfl
  refine ⟨hrun, ((queues_given_back_iff oneMaster 1 2).2 mkdirTwice connected _ ?_ hrun).2 (by decide)⟩
  exact ⟨hclean _, fun _ _ => ⟨hclean _, fun _ _ => trivial⟩⟩

/-- The connection is lost in the first attempt to make a directory, and the second one succeeds: the call returns zero and has unlocked
    a queue twice. -/
theorem queue_unlocked_twice : ∃ t' p', (QueueCall.operation oneMaster 1 (.mkdir Master.pathA) connected).run
      (Pool.start 2 [] [fun _ => false, fun _ => false] [.killed false, success]) = (some (some 0, t'), p') ∧ ¬ Released [] p' :=
  ⟨_, _, rfl, fun hc => (nomatch hc.1)⟩

end MetCall

end HuronFS
