import HuronFS.Master.Handler

/-!
# `Master.TablesSpec` — what each table helper can do

One inversion lemma per helper (what a result of it looks like) and, where the callers need it, one
progress lemma (when it has a result at all). `NodesTouched` is the frame of every helper that only
updates `stored_files` and the round-robin cursor.
-/

namespace HuronFS

namespace Master

/-! ## Free slots -/

theorem freeFrom_some {pool : Nat → Bool} {fuel : Nat} : ∀ {start n : Nat},
    freeFrom pool fuel start = some n → start ≤ n ∧ n < start + fuel ∧ pool n = false := by
  induction fuel with
  | zero => intro start n h; cases h
  | succ fuel ih =>
      intro start n h
      unfold freeFrom at h
      cases hp : pool start with
      | true =>
          rw [hp, if_pos rfl] at h
          obtain ⟨h1, h2, h3⟩ := ih h
          exact ⟨by omega, by omega, h3⟩
      | false =>
          rw [hp, if_neg (by decide)] at h
          cases h
          exact ⟨le_refl _, by omega, hp⟩

theorem freeFrom_none {pool : Nat → Bool} {fuel : Nat} : ∀ {start : Nat},
    freeFrom pool fuel start = none → ∀ n, start ≤ n → n < start + fuel → pool n = true := by
  induction fuel with
  | zero => intro start _ n h1 h2; omega
  | succ fuel ih =>
      intro start h n h1 h2
      unfold freeFrom at h
      cases hp : pool start with
      | false => rw [hp, if_neg (by decide)] at h; cases h
      | true =>
          rw [hp, if_pos rfl] at h
          by_cases hn : n = start
          · subst hn; exact hp
          · exact ih h n (by omega) (by omega)

theorem freeSlot_some {pool : Nat → Bool} {limit cursor n : Nat} (h : freeSlot pool limit cursor = some n) :
    n < limit ∧ pool n = false := by
  unfold freeSlot at h
  cases hf : freeFrom pool (limit - cursor) cursor with
  | some k =>
      rw [hf] at h
      cases h
      obtain ⟨h1, h2, h3⟩ := freeFrom_some hf
      exact ⟨by omega, h3⟩
  | none =>
      rw [hf] at h
      obtain ⟨_, h2, h3⟩ := freeFrom_some h
      exact ⟨by omega, h3⟩

theorem freeSlot_none {pool : Nat → Bool} {limit cursor : Nat} (h : freeSlot pool limit cursor = none) :
    ∀ n, n < limit → pool n = true := by
  unfold freeSlot at h
  cases hf : freeFrom pool (limit - cursor) cursor with
  | some k => rw [hf] at h; cases h
  | none =>
      rw [hf] at h
      intro n hn
      exact freeFrom_none h n (Nat.zero_le n) (by omega)

/-- The state after `_get_file_no` has handed out `n`. -/
def takeFileNo (m : Master) (n : Nat) : Master :=
  { m with
    fileNoPool := Function.update m.fileNoPool n true
    fileNumber := m.fileNumber + 1
    currentFileNo := n + 1 }

/-- `_get_file_no` hands out a free number, or moves the cursor at most and answers `-1`. -/
theorem getFileNo_cases (m : Master) :
    (∃ n, n < MAX_FILE_NUMBER ∧ m.fileNoPool n = false ∧ m.fileNumber ≠ MAX_FILE_NUMBER ∧
      m.getFileNo = ((n : Int), m.takeFileNo n)) ∨
    (∃ c, (m.fileNumber = MAX_FILE_NUMBER ∨ ∀ n, n < MAX_FILE_NUMBER → m.fileNoPool n = true) ∧
      m.getFileNo = (-1, { m with currentFileNo := c })) := by
  unfold getFileNo
  by_cases hfull : m.fileNumber = MAX_FILE_NUMBER
  · right
    exact ⟨m.currentFileNo, Or.inl hfull, by rw [if_pos hfull]⟩
  · rw [if_neg hfull]
    cases hs : freeSlot m.fileNoPool MAX_FILE_NUMBER m.currentFileNo with
    | some n =>
        left
        obtain ⟨hlt, hfree⟩ := freeSlot_some hs
        exact ⟨n, hlt, hfree, hfull, rfl⟩
    | none =>
        right
        exact ⟨MAX_FILE_NUMBER, Or.inr (freeSlot_none hs), rfl⟩

theorem releaseFileNo_some {m m' : Master} {fileNo : Int} (h : m.releaseFileNo fileNo = some m') :
    0 ≤ fileNo ∧ fileNo < MAX_FILE_NUMBER ∧
      m' = { m with
        fileNumber := m.fileNumber - 1
        fileNoPool := Function.update m.fileNoPool fileNo.toNat false } := by
  unfold releaseFileNo at h
  split at h
  · rename_i hr
    cases h
    exact ⟨hr.1, hr.2, rfl⟩
  · cases h

/-! ## Nodes -/

/-- `r` is the node of some registered id. -/
def Registered (m : Master) (r : NodeRef) : Prop := ∃ id, m.registeredIOnodes.find? id = some r

/-- The registry is sound: its nodes exist under their own ids, the cursor is a registered node or
    `end`, and unused addresses hold nothing. -/
structure NodeInv (m : Master) : Prop where
  live : ∀ id r, m.registeredIOnodes.find? id = some r → ∃ n, m.nodes r = some n ∧ n.nodeId = id
  idTaken : ∀ id r, m.registeredIOnodes.find? id = some r → 0 ≤ id ∧ m.nodeIdPool id.toNat = true
  cursor : ∀ k, m.currentIOnode = some k → ∃ r, m.registeredIOnodes.find? k = some r
  fresh : ∀ r, m.nextNode ≤ r → m.nodes r = none

theorem NodeInv.exists_node {m : Master} (h : NodeInv m) {r : NodeRef} (hr : Registered m r) :
    ∃ n, m.nodes r = some n := by
  obtain ⟨id, hid⟩ := hr
  obtain ⟨n, hn, _⟩ := h.live id r hid
  exact ⟨n, hn⟩

/-- `m'` differs from `m` in the stored files of nodes and in the cursor, which stays valid. -/
structure NodesTouched (m m' : Master) : Prop where
  eq : m' = { m with nodes := m'.nodes, currentIOnode := m'.currentIOnode }
  node : ∀ r n, m.nodes r = some n → ∃ s, m'.nodes r = some { n with storedFiles := s }
  none : ∀ r, m.nodes r = none → m'.nodes r = none
  cursor : (∀ k, m.currentIOnode = some k → ∃ r, m.registeredIOnodes.find? k = some r) →
    ∀ k, m'.currentIOnode = some k → ∃ r, m.registeredIOnodes.find? k = some r

namespace NodesTouched

variable {m m' m'' : Master}

theorem refl (m : Master) : NodesTouched m m :=
  ⟨rfl, fun _ n hn => ⟨n.storedFiles, hn⟩, fun _ h => h, fun h => h⟩

theorem registered_eq (h : NodesTouched m m') : m'.registeredIOnodes = m.registeredIOnodes := by rw [h.eq]
theorem pool_eq (h : NodesTouched m m') : m'.fileStatPool = m.fileStatPool := by rw [h.eq]
theorem buffered_eq (h : NodesTouched m m') : m'.bufferedFiles = m.bufferedFiles := by rw [h.eq]
theorem files_eq (h : NodesTouched m m') : m'.files = m.files := by rw [h.eq]
theorem fileNoPool_eq (h : NodesTouched m m') : m'.fileNoPool = m.fileNoPool := by rw [h.eq]
theorem fileNumber_eq (h : NodesTouched m m') : m'.fileNumber = m.fileNumber := by rw [h.eq]
theorem nodeIdPool_eq (h : NodesTouched m m') : m'.nodeIdPool = m.nodeIdPool := by rw [h.eq]
theorem nextNode_eq (h : NodesTouched m m') : m'.nextNode = m.nextNode := by rw [h.eq]
theorem nextFile_eq (h : NodesTouched m m') : m'.nextFile = m.nextFile := by rw [h.eq]
theorem masterNumber_eq (h : NodesTouched m m') : m'.masterNumber = m.masterNumber := by rw [h.eq]

theorem trans (h : NodesTouched m m') (h' : NodesTouched m' m'') : NodesTouched m m'' := by
  refine ⟨?_, ?_, ?_, ?_⟩
  · rw [h'.eq, h.eq]
  · intro r n hn
    obtain ⟨s, hs⟩ := h.node r n hn
    obtain ⟨s', hs'⟩ := h'.node r _ hs
    exact ⟨s', hs'⟩
  · intro r hr
    exact h'.none r (h.none r hr)
  · intro hc
    have h1 := h.cursor hc
    rw [← h.registered_eq] at h1
    have h2 := h'.cursor h1
    rw [h.registered_eq] at h2
    exact h2

theorem registered_iff (h : NodesTouched m m') {r : NodeRef} : Registered m' r ↔ Registered m r := by
  unfold Registered
  rw [h.registered_eq]

theorem nodeInv (h : NodesTouched m m') (hm : NodeInv m) : NodeInv m' := by
  refine ⟨?_, ?_, ?_, ?_⟩
  · intro id r hr
    rw [h.registered_eq] at hr
    obtain ⟨n, hn, hid⟩ := hm.live id r hr
    obtain ⟨s, hs⟩ := h.node r n hn
    exact ⟨_, hs, hid⟩
  · intro id r hr
    rw [h.registered_eq] at hr
    rw [h.nodeIdPool_eq]
    exact hm.idTaken id r hr
  · intro k hk
    rw [h.registered_eq]
    exact h.cursor hm.cursor k hk
  · intro r hr
    rw [h.nextNode_eq] at hr
    exact h.none r (hm.fresh r hr)

end NodesTouched

/-- Rewriting the stored files of one node. -/
theorem setNode_touched {m : Master} {r : NodeRef} {n : NodeInfo} (hn : m.nodes r = some n) (s : OrdSet Int) :
    NodesTouched m (m.setNode r { n with storedFiles := s }) := by
  refine ⟨rfl, ?_, ?_, fun h => h⟩
  · intro q n' hq
    by_cases hqr : q = r
    · subst hqr
      have : n' = n := by rw [hn] at hq; exact (Option.some.inj hq).symm
      subst this
      exact ⟨s, by simp⟩
    · exact ⟨n'.storedFiles, by simp [Function.update_of_ne hqr, hq]⟩
  · intro q hq
    have hqr : q ≠ r := fun hc => by rw [hc, hn] at hq; cases hq
    simp [Function.update_of_ne hqr, hq]

/-! ## The choice of IOnodes -/

theorem storeFile_touched {m m' : Master} {r : NodeRef} {fileNo : Int} (h : m.storeFile r fileNo = some m') :
    NodesTouched m m' := by
  unfold storeFile at h
  cases hn : m.nodes r with
  | none => rw [hn] at h; cases h
  | some n =>
      rw [hn] at h
      cases h
      exact setNode_touched hn _

theorem storeFile_cursor {m m' : Master} {r : NodeRef} {fileNo : Int} (h : m.storeFile r fileNo = some m') :
    m'.currentIOnode = m.currentIOnode := by
  unfold storeFile at h
  split at h
  · cases h
  · cases h; rfl

theorem storeFile_progress {m : Master} {r : NodeRef} {n : NodeInfo} (hn : m.nodes r = some n) (fileNo : Int) :
    ∃ m', m.storeFile r fileNo = some m' := by
  unfold storeFile
  rw [hn]
  exact ⟨_, rfl⟩

/-- The iterator after the wrap stands on a registered node, unless nothing is registered. -/
theorem wrapIOnode_progress {m : Master} (hsize : m.registeredIOnodes.size ≠ 0) {it : Option Int}
    (hit : ∀ k, it = some k → ∃ r, m.registeredIOnodes.find? k = some r) :
    ∃ k r, m.wrapIOnode it = some k ∧ m.registeredIOnodes.find? k = some r := by
  cases it with
  | some k =>
      obtain ⟨r, hr⟩ := hit k rfl
      exact ⟨k, r, rfl, hr⟩
  | none =>
      cases hf : m.registeredIOnodes.firstKey with
      | none => exact absurd (OrdMap.firstKey_none.mp hf) hsize
      | some k =>
          obtain ⟨r, hr⟩ := OrdMap.firstKey_mem hf
          exact ⟨k, r, hf, hr⟩

theorem getNextIOnode_inv {m m' : Master} {r : NodeRef} (h : m.getNextIOnode = some (some r, m')) :
    ∃ k, m.wrapIOnode m.currentIOnode = some k ∧ m.registeredIOnodes.find? k = some r ∧
      m' = { m with currentIOnode := m.registeredIOnodes.nextKey k } := by
  unfold getNextIOnode at h
  split at h
  · cases h
  · cases hw : m.wrapIOnode m.currentIOnode with
    | none => rw [hw] at h; cases h
    | some k =>
        rw [hw] at h
        simp only at h
        cases hk : m.registeredIOnodes.find? k with
        | none => rw [hk] at h; cases h
        | some q =>
            rw [hk] at h
            cases h
            exact ⟨k, rfl, hk, rfl⟩

theorem getNextIOnode_some {m m' : Master} {r : NodeRef} (h : m.getNextIOnode = some (some r, m')) :
    NodesTouched m m' ∧ Registered m r := by
  obtain ⟨k, _, hk, rfl⟩ := getNextIOnode_inv h
  refine ⟨⟨rfl, fun _ n hn => ⟨n.storedFiles, hn⟩, fun _ h => h, ?_⟩, ⟨k, hk⟩⟩
  intro _ j hj
  exact OrdMap.nextKey_mem hj

theorem getNextIOnode_progress {m : Master} (hsize : m.registeredIOnodes.size ≠ 0)
    (hcur : ∀ k, m.currentIOnode = some k → ∃ r, m.registeredIOnodes.find? k = some r) :
    ∃ r m', m.getNextIOnode = some (some r, m') := by
  obtain ⟨k, r, hk, hr⟩ := wrapIOnode_progress hsize hcur
  refine ⟨r, { m with currentIOnode := m.registeredIOnodes.nextKey k }, ?_⟩
  simp only [getNextIOnode, if_neg hsize, hk, hr]

theorem selectReplicas_some {fileNo : Int} {num : Nat} : ∀ {it : Option Int} {pool pool' : OrdSet NodeRef}
    {m m' : Master}, selectReplicas fileNo num it pool m = some (pool', m') →
    NodesTouched m m' ∧ ∀ q, OrdSet.Mem pool' q → OrdSet.Mem pool q ∨ Registered m q := by
  induction num with
  | zero =>
      intro it pool pool' m m' h
      cases h
      exact ⟨NodesTouched.refl m, fun q hq => Or.inl hq⟩
  | succ num ih =>
      intro it pool pool' m m' h
      unfold selectReplicas at h
      cases hw : m.wrapIOnode it with
      | none => rw [hw] at h; cases h
      | some k =>
          rw [hw] at h
          simp only at h
          cases hk : m.registeredIOnodes.find? k with
          | none => rw [hk] at h; cases h
          | some r =>
              rw [hk] at h
              simp only at h
              cases hs : m.storeFile r fileNo with
              | none => rw [hs] at h; cases h
              | some m1 =>
                  rw [hs] at h
                  obtain ⟨ht, hmem⟩ := ih h
                  have ht1 := storeFile_touched hs
                  refine ⟨ht1.trans ht, ?_⟩
                  intro q hq
                  rcases hmem q hq with hq' | hq'
                  · rcases OrdSet.mem_add.mp hq' with heq | hin
                    · exact Or.inr (heq ▸ ⟨k, hk⟩)
                    · exact Or.inl hin
                  · exact Or.inr (ht1.registered_iff.mp hq')

theorem selectReplicas_progress (fileNo : Int) (num : Nat) : ∀ (it : Option Int) (pool : OrdSet NodeRef)
    {m : Master}, NodeInv m → m.registeredIOnodes.size ≠ 0 →
    (∀ k, it = some k → ∃ r, m.registeredIOnodes.find? k = some r) →
    ∃ res, selectReplicas fileNo num it pool m = some res := by
  induction num with
  | zero => intro it pool m _ _ _; exact ⟨_, rfl⟩
  | succ num ih =>
      intro it pool m hm hsize hit
      obtain ⟨k, r, hk, hr⟩ := wrapIOnode_progress hsize hit
      obtain ⟨n, hn⟩ := hm.exists_node ⟨k, hr⟩
      obtain ⟨m1, hs⟩ := storeFile_progress hn fileNo
      have ht := storeFile_touched hs
      obtain ⟨res, hres⟩ := ih (m.registeredIOnodes.nextKey k) (OrdSet.add pool r) (ht.nodeInv hm) (by rw [ht.registered_eq]; exact hsize) (by
        intro j hj
        rw [ht.registered_eq]
        exact OrdMap.nextKey_mem hj)
      refine ⟨res, ?_⟩
      simp only [selectReplicas, hk, hr, hs]
      exact hres

theorem selectIOnode_inv {m m' : Master} {fileNo : Int} {num : Nat} {main : NodeRef} {pool : OrdSet NodeRef}
    (h : m.selectIOnode fileNo num = some (.ok (main, pool, m'))) :
    ∃ m1 m2, m.getNextIOnode = some (some main, m1) ∧ m1.storeFile main fileNo = some m2 ∧
      selectReplicas fileNo (min (m2.registeredIOnodes.size - 1) num) m2.currentIOnode OrdMap.empty m2
        = some (pool, m') := by
  unfold selectIOnode at h
  split at h
  · cases h
  · split at h
    · cases h
    · cases h
    · rename_i r m1 hg
      split at h
      · cases h
      · rename_i m2 hs
        simp only at h
        split at h
        · cases h
        · rename_i pool' m3 hsel
          cases h
          exact ⟨m1, m2, hg, hs, hsel⟩

/-- A choice of nodes: the primary and the replicas are registered, and only `stored_files` and the
    cursor change. -/
theorem selectIOnode_ok {m m' : Master} {fileNo : Int} {num : Nat} {main : NodeRef} {pool : OrdSet NodeRef}
    (h : m.selectIOnode fileNo num = some (.ok (main, pool, m'))) :
    NodesTouched m m' ∧ Registered m main ∧ ∀ q, OrdSet.Mem pool q → Registered m q := by
  obtain ⟨m1, m2, hg, hs, hsel⟩ := selectIOnode_inv h
  obtain ⟨ht1, hreg⟩ := getNextIOnode_some hg
  have ht2 := ht1.trans (storeFile_touched hs)
  obtain ⟨ht3, hmem⟩ := selectReplicas_some hsel
  refine ⟨ht2.trans ht3, hreg, ?_⟩
  intro q hq
  rcases hmem q hq with hq' | hq'
  · exact absurd hq' (OrdSet.not_mem_empty q)
  · exact ht2.registered_iff.mp hq'

theorem selectIOnode_error {m : Master} {fileNo : Int} {num : Nat} {err : OpenError}
    (h : m.selectIOnode fileNo num = some (.error err)) : m.registeredIOnodes.size = 0 := by
  by_contra hsize
  unfold selectIOnode at h
  rw [if_neg hsize] at h
  split at h
  · cases h
  · cases h
  · split at h
    · cases h
    · simp only at h
      split at h
      · cases h
      · cases h

theorem selectIOnode_progress {m : Master} (hm : NodeInv m) (hsize : m.registeredIOnodes.size ≠ 0)
    (fileNo : Int) (num : Nat) : ∃ main pool m', m.selectIOnode fileNo num = some (.ok (main, pool, m')) := by
  obtain ⟨r, m1, hg⟩ := getNextIOnode_progress hsize hm.cursor
  obtain ⟨ht1, hreg⟩ := getNextIOnode_some hg
  obtain ⟨n, hn⟩ := (ht1.nodeInv hm).exists_node (ht1.registered_iff.mpr hreg)
  obtain ⟨m2, hs⟩ := storeFile_progress hn fileNo
  have ht2 := ht1.trans (storeFile_touched hs)
  have hm2 := ht2.nodeInv hm
  obtain ⟨⟨pool, m3⟩, hsel⟩ := selectReplicas_progress fileNo
    (min (m2.registeredIOnodes.size - 1) num) m2.currentIOnode OrdMap.empty hm2 (by rw [ht2.registered_eq]; exact hsize) hm2.cursor
  refine ⟨r, pool, m3, ?_⟩
  simp only [selectIOnode, if_neg hsize, hg, hs, hsel]

/-! ## Messages to nodes -/

theorem sendEach_progress {send : NodeRef → Option (List QueueOp)} {rs : List NodeRef}
    (h : ∀ r ∈ rs, ∃ ops, send r = some ops) : ∃ ops, sendEach send rs = some ops := by
  induction rs with
  | nil => exact ⟨[], rfl⟩
  | cons r rs ih =>
      obtain ⟨ops, hops⟩ := h r (by simp)
      obtain ⟨ops', hops'⟩ := ih (fun q hq => h q (by simp [hq]))
      exact ⟨ops ++ ops', by simp only [sendEach, hops, hops']⟩

theorem sendEach_mem {send : NodeRef → Option (List QueueOp)} {rs : List NodeRef} : ∀ {ops : List QueueOp},
    sendEach send rs = some ops → ∀ r ∈ rs, ∃ ops', send r = some ops' := by
  induction rs with
  | nil => intro ops _ r hr; cases hr
  | cons q rs ih =>
      intro ops h r hr
      unfold sendEach at h
      split at h
      · rename_i a b ha hb
        rcases List.mem_cons.mp hr with hr | hr
        · exact ⟨a, hr ▸ ha⟩
        · exact ih hb r hr
      · cases h

theorem replicaFields_progress {m : Master} {rs : List NodeRef} (h : ∀ r ∈ rs, ∃ n, m.nodes r = some n) :
    ∃ fs, m.replicaFields rs = some fs := by
  induction rs with
  | nil => exact ⟨[], rfl⟩
  | cons r rs ih =>
      obtain ⟨n, hn⟩ := h r (by simp)
      obtain ⟨fs, hfs⟩ := ih (fun q hq => h q (by simp [hq]))
      exact ⟨_, by simp only [replicaFields, hn, hfs]; rfl⟩

theorem sendReplicaNodesInfo_progress {m : Master} {s : OrdSet NodeRef}
    (h : ∀ r, OrdSet.Mem s r → ∃ n, m.nodes r = some n) : ∃ fs, m.sendReplicaNodesInfo s = some fs := by
  have hkeys : ∀ r ∈ s.keys, ∃ n, m.nodes r = some n := fun r hr => h r (OrdSet.mem_keys.mp hr)
  obtain ⟨fs, hfs⟩ := replicaFields_progress hkeys
  exact ⟨_, by simp only [sendReplicaNodesInfo, hfs]; rfl⟩

/-- An open request can be built when the file's path entry and all nodes involved exist. -/
theorem sendOpenRequestToIOnodes_progress {m : Master} {file : OpenFileInfo} {st : FileStat} {node : NodeRef}
    {n : NodeInfo} (hst : m.fileStatPool.find? file.fileStatus = some st) (hn : m.nodes node = some n)
    (hset : ∀ r, OrdSet.Mem file.IOnodesSet r → ∃ n, m.nodes r = some n) :
    ∃ ops, m.sendOpenRequestToIOnodes file node = some ops := by
  obtain ⟨fs, hfs⟩ := sendReplicaNodesInfo_progress hset
  have hreq : ∃ msg, m.openRequest file node = some msg := by
    unfold openRequest
    rw [hst]
    simp only
    split
    · rw [hfs]; exact ⟨_, rfl⟩
    · exact ⟨_, rfl⟩
  obtain ⟨msg, hmsg⟩ := hreq
  exact ⟨sendIOnode n msg, by simp only [sendOpenRequestToIOnodes, hn, hmsg]⟩

theorem nodes_map_progress {m : Master} {r : NodeRef} {f : NodeInfo → List QueueOp}
    (h : ∃ n, m.nodes r = some n) : ∃ ops, (m.nodes r).map f = some ops := by
  obtain ⟨n, hn⟩ := h
  exact ⟨f n, by rw [hn]; rfl⟩

/-! ## Opening -/

theorem createNewOpenFileInfo_inv {m m' : Master} {fileNo : Int} {flag : BitVec 32} {path : Str}
    {ops : List QueueOp} {r : FileRef} (h : m.createNewOpenFileInfo fileNo flag path = some (m', ops, .ok r)) :
    ∃ stat main pool m2, m.fileStatPool.find? path = some stat ∧ r = m.nextFile ∧
      (m.enterOpenFile fileNo flag path stat).selectIOnode fileNo (min m.numOfReplica m.registeredIOnodes.size)
        = some (.ok (main, pool, m2)) ∧
      m' = m2.setFile r (placedFile fileNo flag path stat.status.stSize main pool) ∧
      sendEach (m'.sendOpenRequestToIOnodes (placedFile fileNo flag path stat.status.stSize main pool))
        (main :: pool.keys) = some ops := by
  unfold createNewOpenFileInfo at h
  cases hst : m.fileStatPool.find? path with
  | none => rw [hst] at h; cases h
  | some stat =>
      rw [hst] at h
      simp only at h
      cases hsel : (m.enterOpenFile fileNo flag path stat).selectIOnode fileNo
          (min m.numOfReplica m.registeredIOnodes.size) with
      | none => rw [hsel] at h; cases h
      | some res =>
          rw [hsel] at h
          cases res with
          | error err =>
              simp only at h
              split at h
              · cases h
              · cases h
          | ok res =>
              obtain ⟨main, pool, m2⟩ := res
              simp only at h
              split at h
              · cases h
              · rename_i ops' hops
                cases h
                exact ⟨stat, main, pool, m2, rfl, rfl, hsel, rfl, hops⟩

/-- **A new open file.** The object is entered in the tables and gets registered nodes and the block
    list of the file's size. -/
theorem createNewOpenFileInfo_ok {m m' : Master} {fileNo : Int} {flag : BitVec 32} {path : Str}
    {ops : List QueueOp} {r : FileRef} (h : m.createNewOpenFileInfo fileNo flag path = some (m', ops, .ok r)) :
    ∃ stat main pool m2, m.fileStatPool.find? path = some stat ∧ r = m.nextFile ∧
      NodesTouched (m.enterOpenFile fileNo flag path stat) m2 ∧ Registered m main ∧
      (∀ q, OrdSet.Mem pool q → Registered m q) ∧
      m' = m2.setFile r (placedFile fileNo flag path stat.status.stSize main pool) := by
  obtain ⟨stat, main, pool, m2, hst, hr, hsel, hm', _⟩ := createNewOpenFileInfo_inv h
  obtain ⟨ht, hmain, hpool⟩ := selectIOnode_ok hsel
  exact ⟨stat, main, pool, m2, hst, hr, ht, hmain, hpool, hm'⟩

/-- Without a registered IOnode the number is released and the entries stay. -/
theorem createNewOpenFileInfo_error {m m' : Master} {fileNo : Int} {flag : BitVec 32} {path : Str}
    {ops : List QueueOp} {err : OpenError}
    (h : m.createNewOpenFileInfo fileNo flag path = some (m', ops, .error err)) :
    m.registeredIOnodes.size = 0 ∧ ops = [] ∧ ∃ stat, m.fileStatPool.find? path = some stat ∧
      (m.enterOpenFile fileNo flag path stat).releaseFileNo fileNo = some m' := by
  unfold createNewOpenFileInfo at h
  cases hst : m.fileStatPool.find? path with
  | none => rw [hst] at h; cases h
  | some stat =>
      rw [hst] at h
      simp only at h
      cases hsel : (m.enterOpenFile fileNo flag path stat).selectIOnode fileNo
          (min m.numOfReplica m.registeredIOnodes.size) with
      | none => rw [hsel] at h; cases h
      | some res =>
          rw [hsel] at h
          cases res with
          | error err' =>
              simp only at h
              split at h
              · cases h
              · rename_i m2 hrel
                cases h
                have hnone : (m.enterOpenFile fileNo flag path stat).registeredIOnodes.size = 0 :=
                  selectIOnode_error hsel
                exact ⟨hnone, rfl, stat, rfl, hrel⟩
          | ok res =>
              simp only at h
              split at h
              · cases h
              · cases h

theorem createNewOpenFileInfo_error_eq {m m' : Master} {fileNo : Int} {flag : BitVec 32} {path : Str}
    {ops : List QueueOp} {err : OpenError}
    (h : m.createNewOpenFileInfo fileNo flag path = some (m', ops, .error err)) : err = .runtimeError := by
  obtain ⟨hsize, _, stat, hst, _⟩ := createNewOpenFileInfo_error h
  have hz : (m.enterOpenFile fileNo flag path stat).registeredIOnodes.size = 0 := hsize
  simp only [createNewOpenFileInfo, hst, selectIOnode, if_pos hz] at h
  split at h
  · cases h
  · cases h; rfl

theorem createNewOpenFileInfo_progress {m : Master} {path : Str} {stat : FileStat} (hm : NodeInv m)
    (hst : m.fileStatPool.find? path = some stat) (hsize : m.registeredIOnodes.size ≠ 0)
    (fileNo : Int) (flag : BitVec 32) :
    ∃ m' ops, m.createNewOpenFileInfo fileNo flag path = some (m', ops, .ok m.nextFile) := by
  have hm1 : NodeInv (m.enterOpenFile fileNo flag path stat) := ⟨hm.live, hm.idTaken, hm.cursor, hm.fresh⟩
  obtain ⟨main, pool, m2, hsel⟩ := selectIOnode_progress hm1 hsize fileNo
    (min m.numOfReplica m.registeredIOnodes.size)
  obtain ⟨ht, hmain, hpool⟩ := selectIOnode_ok hsel
  have hm2 := ht.nodeInv hm1
  let file := placedFile fileNo flag path stat.status.stSize main pool
  -- the path entry was written when the object was entered
  have hentry : (m2.setFile m.nextFile file).fileStatPool.find? file.fileStatus
      = some { stat with openedFileInfo := some m.nextFile } := by
    show m2.fileStatPool.find? path = _
    rw [ht.pool_eq]
    exact OrdMap.find?_put_self _ _ _
  have hnodes : ∀ q, q ∈ main :: pool.keys → ∃ n, (m2.setFile m.nextFile file).nodes q = some n := by
    intro q hq
    rcases List.mem_cons.mp hq with heq | hin
    · exact hm2.exists_node (ht.registered_iff.mpr (heq ▸ hmain))
    · exact hm2.exists_node (ht.registered_iff.mpr (hpool q (OrdSet.mem_keys.mp hin)))
  have hsend : ∀ q ∈ main :: pool.keys,
      ∃ ops, (m2.setFile m.nextFile file).sendOpenRequestToIOnodes file q = some ops := by
    intro q hq
    obtain ⟨n, hn⟩ := hnodes q hq
    refine sendOpenRequestToIOnodes_progress hentry hn ?_
    intro r hr
    exact hnodes r (List.mem_cons_of_mem _ (OrdSet.mem_keys.mpr hr))
  obtain ⟨ops, hops⟩ := sendEach_progress hsend
  refine ⟨m2.setFile m.nextFile file, ops, ?_⟩
  simp only [createNewOpenFileInfo, hst, hsel]
  rw [hops]

/-- How an open succeeds: on an open path it counts, otherwise it takes a number and creates. -/
theorem openFile_ok {m m' : Master} {e : Env} {path : Str} {flag mode : BitVec 32} {ops : List QueueOp}
    {fileNo : Int} (h : m.openFile e path flag mode = some (m', ops, .ok fileNo)) :
    (∃ s r f, m.fileStatPool.find? path = some s ∧ s.openedFileInfo = some r ∧ m.files r = some f ∧
      fileNo = f.fileNo ∧ ops = [] ∧ m' = m.setFile r { f with openCount := f.openCount + 1 }) ∨
    (∃ m1 r, m.getFileNo = (fileNo, m1) ∧ m.fileStatPool.find? path = none ∧ fileNo ≠ -1 ∧
      (m1.createNewFileStat e path .notExist (S_IFREG ||| mode)).createNewOpenFileInfo fileNo flag path
        = some (m', ops, .ok r)) ∨
    (∃ s m1 m2 r, m.getFileNo = (fileNo, m1) ∧ m.fileStatPool.find? path = some s ∧ s.openedFileInfo = none ∧
      m1.createNewOpenFileInfo fileNo flag path = some (m2, ops, .ok r) ∧ m2.addOpenCount r = some m') := by
  unfold openFile at h
  cases hst : m.fileStatPool.find? path with
  | none =>
      rw [hst] at h
      simp only at h
      cases hg : m.getFileNo with
      | mk no m1 =>
          rw [hg] at h
          simp only at h
          split at h
          · rename_i hne
            split at h
            · cases h
            · cases h
            · rename_i m2 ops' r hc
              cases h
              exact Or.inr (Or.inl ⟨m1, r, rfl, rfl, hne, hc⟩)
          · cases h
  | some s =>
      rw [hst] at h
      simp only at h
      cases ho : s.openedFileInfo with
      | none =>
          rw [ho] at h
          simp only at h
          cases hg : m.getFileNo with
          | mk no m1 =>
              rw [hg] at h
              simp only at h
              split at h
              · cases h
              · cases h
              · rename_i m2 ops' r hc
                split at h
                · cases h
                · rename_i m3 hadd
                  cases h
                  exact Or.inr (Or.inr ⟨s, m1, m2, r, rfl, rfl, ho, hc, hadd⟩)
      | some r =>
          rw [ho] at h
          simp only at h
          cases hf : m.files r with
          | none => rw [hf] at h; cases h
          | some f =>
              rw [hf] at h
              cases h
              exact Or.inl ⟨s, r, f, rfl, ho, hf, rfl, rfl, rfl⟩

/-- How an open fails: no number for a new path, or no IOnode for a file that is not open. -/
theorem openFile_error {m m' : Master} {e : Env} {path : Str} {flag mode : BitVec 32} {ops : List QueueOp}
    {err : OpenError} (h : m.openFile e path flag mode = some (m', ops, .error err)) :
    ops = [] ∧ ((m.fileStatPool.find? path = none ∧ err = .badAlloc ∧ m.getFileNo = (-1, m')) ∨
      (m.registeredIOnodes.size = 0 ∧ err = .runtimeError ∧
        ∀ s, m.fileStatPool.find? path = some s → s.openedFileInfo = none)) := by
  have hreg : m.getFileNo.2.registeredIOnodes = m.registeredIOnodes := by
    rcases getFileNo_cases m with ⟨n, _, _, _, hg⟩ | ⟨c, _, hg⟩
    · rw [hg]; rfl
    · rw [hg]
  unfold openFile at h
  cases hst : m.fileStatPool.find? path with
  | none =>
      rw [hst] at h
      simp only at h
      cases hg : m.getFileNo with
      | mk no m1 =>
          rw [hg] at h hreg
          simp only at h hreg
          split at h
          · split at h
            · cases h
            · rename_i m2 ops' err' hc
              cases h
              obtain ⟨hz, hops, _⟩ := createNewOpenFileInfo_error hc
              refine ⟨hops, Or.inr ⟨?_, createNewOpenFileInfo_error_eq hc, by intro s hs; cases hs⟩⟩
              rw [← hreg]; exact hz
            · cases h
          · rename_i hno
            cases h
            have hno' : no = -1 := by simpa using hno
            exact ⟨rfl, Or.inl ⟨rfl, rfl, by rw [hno']⟩⟩
  | some s =>
      rw [hst] at h
      simp only at h
      cases ho : s.openedFileInfo with
      | none =>
          rw [ho] at h
          simp only at h
          cases hg : m.getFileNo with
          | mk no m1 =>
              rw [hg] at h hreg
              simp only at h hreg
              split at h
              · cases h
              · rename_i m2 ops' err' hc
                cases h
                obtain ⟨hz, hops, _⟩ := createNewOpenFileInfo_error hc
                refine ⟨hops, Or.inr ⟨?_, createNewOpenFileInfo_error_eq hc, ?_⟩⟩
                · rw [← hreg]; exact hz
                · intro s' hs'; cases hs'; exact ho
              · split at h <;> cases h
      | some r =>
          rw [ho] at h
          simp only at h
          cases hf : m.files r with
          | none => rw [hf] at h; cases h
          | some f => rw [hf] at h; cases h

/-! ## Removal and rename -/

theorem sendRemoveRequests_some {fileNo : Int} {rs : List NodeRef} : ∀ {m m' : Master} {ops : List QueueOp},
    sendRemoveRequests fileNo rs m = some (m', ops) → NodesTouched m m' := by
  induction rs with
  | nil => intro m m' ops h; cases h; exact NodesTouched.refl m
  | cons r rs ih =>
      intro m m' ops h
      unfold sendRemoveRequests at h
      cases hn : m.nodes r with
      | none => rw [hn] at h; cases h
      | some n =>
          rw [hn] at h
          simp only at h
          split at h
          · cases h
          · rename_i m1 ops' hrec
            cases h
            exact (setNode_touched hn _).trans (ih hrec)

theorem sendRemoveRequests_progress (fileNo : Int) {rs : List NodeRef} : ∀ {m : Master},
    (∀ r ∈ rs, ∃ n, m.nodes r = some n) → ∃ res, sendRemoveRequests fileNo rs m = some res := by
  induction rs with
  | nil => intro m _; exact ⟨_, rfl⟩
  | cons r rs ih =>
      intro m h
      obtain ⟨n, hn⟩ := h r (by simp)
      have ht := setNode_touched hn (n.storedFiles.erase fileNo)
      obtain ⟨⟨m1, ops⟩, hrec⟩ := ih (m := m.setNode r { n with storedFiles := n.storedFiles.erase fileNo }) (by
        intro q hq
        obtain ⟨n', hn'⟩ := h q (by simp [hq])
        obtain ⟨s, hs⟩ := ht.node q n' hn'
        exact ⟨_, hs⟩)
      refine ⟨(m1, sendIOnode n [.int UNLINK, .long fileNo] ++ ops), ?_⟩
      simp only [sendRemoveRequests, hn, hrec]

/-- The tables without the open file at `r`, whose number goes back to the pool. -/
def dropOpenFile (m : Master) (r : FileRef) (fileNo : Int) : Master :=
  { m with
    bufferedFiles := m.bufferedFiles.erase fileNo
    files := Function.update m.files r none
    fileNumber := m.fileNumber - 1
    fileNoPool := Function.update m.fileNoPool fileNo.toNat false }

theorem removeOpenFile_inv {m m' : Master} {r : FileRef} {ops : List QueueOp}
    (h : m.removeOpenFile r = some (m', ops)) :
    ∃ f primary m1, m.files r = some f ∧ f.primaryReplicaNode = some primary ∧
      sendRemoveRequests f.fileNo (primary :: f.IOnodesSet.keys) m = some (m1, ops) ∧
      m' = m1.dropOpenFile r f.fileNo ∧ 0 ≤ f.fileNo ∧ f.fileNo < MAX_FILE_NUMBER := by
  unfold removeOpenFile at h
  cases hf : m.files r with
  | none => rw [hf] at h; cases h
  | some f =>
      rw [hf] at h
      simp only at h
      cases hp : f.primaryReplicaNode with
      | none => rw [hp] at h; cases h
      | some primary =>
          rw [hp] at h
          simp only at h
          split at h
          · cases h
          · rename_i m1 ops' hsend
            split at h
            · cases h
            · rename_i m3 hrel
              cases h
              obtain ⟨h0, h1, heq⟩ := releaseFileNo_some hrel
              exact ⟨f, primary, m1, rfl, hp, hsend, heq, h0, h1⟩

theorem removeOpenFile_some {m m' : Master} {r : FileRef} {ops : List QueueOp}
    (h : m.removeOpenFile r = some (m', ops)) :
    ∃ f m1, m.files r = some f ∧ NodesTouched m m1 ∧ m' = m1.dropOpenFile r f.fileNo := by
  obtain ⟨f, _, m1, hf, _, hsend, hm', _⟩ := removeOpenFile_inv h
  exact ⟨f, m1, hf, sendRemoveRequests_some hsend, hm'⟩

theorem removeOpenFile_progress {m : Master} {r : FileRef} {f : OpenFileInfo} {primary : NodeRef}
    (hf : m.files r = some f) (hp : f.primaryReplicaNode = some primary)
    (hnodes : ∀ q ∈ primary :: f.IOnodesSet.keys, ∃ n, m.nodes q = some n)
    (h0 : 0 ≤ f.fileNo) (h1 : f.fileNo < MAX_FILE_NUMBER) : ∃ res, m.removeOpenFile r = some res := by
  obtain ⟨⟨m1, ops⟩, hsend⟩ := sendRemoveRequests_progress f.fileNo hnodes
  refine ⟨(m1.dropOpenFile r f.fileNo, ops), ?_⟩
  simp only [removeOpenFile, hf, hp, hsend, releaseFileNo, if_pos (And.intro h0 h1)]
  rfl

theorem removeFile_some {m m' : Master} {path : Str} {ops : List QueueOp} {found : Bool}
    (h : m.removeFile path = some (m', ops, found)) :
    (m.fileStatPool.find? path = none ∧ m' = m ∧ ops = [] ∧ found = false) ∨
    (∃ s, m.fileStatPool.find? path = some s ∧ s.openedFileInfo = none ∧ ops = [] ∧ found = true ∧
      m' = { m with fileStatPool := m.fileStatPool.erase path }) ∨
    (∃ s r m1, m.fileStatPool.find? path = some s ∧ s.openedFileInfo = some r ∧ found = true ∧
      m.removeOpenFile r = some (m1, ops) ∧ m' = { m1 with fileStatPool := m1.fileStatPool.erase path }) := by
  unfold removeFile at h
  cases hst : m.fileStatPool.find? path with
  | none =>
      rw [hst] at h
      cases h
      exact Or.inl ⟨rfl, rfl, rfl, rfl⟩
  | some s =>
      rw [hst] at h
      simp only at h
      cases ho : s.openedFileInfo with
      | none =>
          rw [ho] at h
          cases h
          exact Or.inr (Or.inl ⟨s, rfl, ho, rfl, rfl, rfl⟩)
      | some r =>
          rw [ho] at h
          simp only at h
          split at h
          · cases h
          · rename_i m1 ops' hrem
            cases h
            exact Or.inr (Or.inr ⟨s, r, m1, rfl, ho, rfl, hrem, rfl⟩)

/-- The path entry and the open file, as `_rename_local_file` leaves them on a free new path. -/
def movedFile (m : Master) (s : FileStat) (newPath : Str) (r : FileRef) (f : OpenFileInfo) : Master :=
  (m.setStat newPath { s with fullPath := newPath }).setFile r { f with fileStatus := newPath }

theorem renameLocalFile_progress {m : Master} {s : FileStat} {newPath : Str} {r : FileRef} {f : OpenFileInfo}
    {primary : NodeRef} (hnew : m.fileStatPool.find? newPath = none) (ho : s.openedFileInfo = some r)
    (hf : m.files r = some f) (hp : f.primaryReplicaNode = some primary)
    (hnodes : ∀ q ∈ primary :: f.IOnodesSet.keys, ∃ n, m.nodes q = some n) :
    ∃ ops, m.renameLocalFile s newPath = some (m.movedFile s newPath r f, ops) := by
  have hsend : ∀ q ∈ primary :: f.IOnodesSet.keys,
      ∃ ops, (m.movedFile s newPath r f).sendRenameRequest f.fileNo newPath q = some ops := by
    intro q hq
    exact nodes_map_progress (m := m.movedFile s newPath r f) (hnodes q hq)
  obtain ⟨ops, hops⟩ := sendEach_progress hsend
  refine ⟨ops, ?_⟩
  obtain ⟨status, name, externalFlag, externalMaster, externalName, existFlag, opened, fullPath⟩ := s
  obtain rfl : opened = some r := ho
  obtain ⟨fileNo, blockList, nodes, primaryNode, blockSize, openCount, flag, fileStatus⟩ := f
  obtain rfl : primaryNode = some primary := hp
  simp only [movedFile] at hops ⊢
  simp only [renameLocalFile, hnew, Option.getD_none, setStat_files, hf, hops]

/-! ## Registration -/

/-- The registry with a new node under `id`. -/
def registerNode (m : Master) (id : Nat) (node : NodeInfo) : Master :=
  { m with
    nodeIdPool := Function.update m.nodeIdPool id true
    currentNodeNumber := id
    nextNode := m.nextNode + 1
    nodes := Function.update m.nodes m.nextNode (some node)
    registeredIOnodes := m.registeredIOnodes.insert id m.nextNode
    IOnodeHandle := OrdSet.add m.IOnodeHandle m.nextNode }

/-- What `_add_IOnode` can do. An id is taken before the uri is looked up, and stays taken when the uri turns
    out to be registered. -/
inductive AddedIOnode (m : Master) (uri : Str) (totalMemory : Nat) (handle : Handle) : Prop
  | full (hfull : m.registeredIOnodes.size = MAX_IONODE) (heq : m.addIOnode uri totalMemory handle = (-1, m))
  | noId (hids : ∀ i, i < MAX_IONODE → m.nodeIdPool i = true)
      (heq : m.addIOnode uri totalMemory handle = (-1, { m with currentNodeNumber := MAX_IONODE }))
  | known (id : Nat) (hlt : id < MAX_IONODE) (hfree : m.nodeIdPool id = false) (huri : m.findByUri uri = true)
      (hroom : m.registeredIOnodes.size ≠ MAX_IONODE)
      (heq : m.addIOnode uri totalMemory handle =
        (-1, { m with nodeIdPool := Function.update m.nodeIdPool id true, currentNodeNumber := id }))
  | added (id : Nat) (node : NodeInfo) (hlt : id < MAX_IONODE) (hfree : m.nodeIdPool id = false) (huri : m.findByUri uri = false)
      (hid : node.nodeId = (id : Int)) (hnode : node.handle = handle ∧ node.storedFiles = OrdMap.empty)
      (heq : m.addIOnode uri totalMemory handle = ((id : Int), m.registerNode id node))

theorem addIOnode_inv (m : Master) (uri : Str) (totalMemory : Nat) (handle : Handle) : AddedIOnode m uri totalMemory handle := by
  by_cases hfull : m.registeredIOnodes.size = MAX_IONODE
  · apply AddedIOnode.full hfull
    unfold addIOnode getNodeId
    simp only [if_pos hfull]
    rfl
  · cases hs : freeSlot m.nodeIdPool MAX_IONODE m.currentNodeNumber with
    | none =>
        apply AddedIOnode.noId (freeSlot_none hs)
        unfold addIOnode getNodeId
        simp only [if_neg hfull, hs]
        rfl
    | some id =>
        obtain ⟨hlt, hfree⟩ := freeSlot_some hs
        have hne : ¬ ((id : Int) = -1) := by omega
        cases huri : m.findByUri uri with
        | true =>
            apply AddedIOnode.known id hlt hfree huri hfull
            unfold addIOnode getNodeId
            simp only [if_neg hfull, hs, if_neg hne]
            exact if_pos huri
        | false =>
            have hnew : m.addIOnode uri totalMemory handle = ((id : Int), m.registerNode id
                { handle := handle, nodeId := id, uri := uri, storedFiles := OrdMap.empty,
                  avaliableMemory := totalMemory, totalMemory := totalMemory }) := by
              unfold addIOnode getNodeId
              simp only [if_neg hfull, hs, if_neg hne]
              exact if_neg (fun hc => absurd (huri.symm.trans hc) (by decide))
            exact AddedIOnode.added id _ hlt hfree huri rfl ⟨rfl, rfl⟩ hnew

/-- `_add_IOnode` registers a node under a free id, or changes only the id pool. -/
theorem addIOnode_cases (m : Master) (uri : Str) (totalMemory : Nat) (handle : Handle) :
    (∃ pool c, (∀ i, m.nodeIdPool i = true → pool i = true) ∧
      m.addIOnode uri totalMemory handle = (-1, { m with nodeIdPool := pool, currentNodeNumber := c })) ∨
    (∃ id node, m.nodeIdPool id = false ∧ node.nodeId = (id : Int) ∧
      (node.handle = handle ∧ node.storedFiles = OrdMap.empty) ∧
      m.addIOnode uri totalMemory handle = ((id : Int), m.registerNode id node)) := by
  cases addIOnode_inv m uri totalMemory handle with
  | full _ heq => exact Or.inl ⟨m.nodeIdPool, m.currentNodeNumber, fun i h => h, heq⟩
  | noId _ heq => exact Or.inl ⟨m.nodeIdPool, MAX_IONODE, fun i h => h, heq⟩
  | known id _ _ _ _ heq =>
      refine Or.inl ⟨Function.update m.nodeIdPool id true, id, ?_, heq⟩
      intro i hi
      by_cases hid : i = id
      · subst hid; simp
      · rw [Function.update_of_ne hid]; exact hi
  | added id node _ hfree _ hid hnode heq => exact Or.inr ⟨id, node, hfree, hid, hnode, heq⟩

/-- The id of a new node is no key of the registry. -/
theorem NodeInv.free_id {m : Master} (h : NodeInv m) {id : Nat} (hfree : m.nodeIdPool id = false) :
    m.registeredIOnodes.find? (id : Int) = none := by
  cases hf : m.registeredIOnodes.find? (id : Int) with
  | none => rfl
  | some q =>
      have := (h.idTaken _ q hf).2
      rw [Int.toNat_natCast, hfree] at this
      cases this

/-- **A registration** keeps the registry sound. -/
theorem NodeInv.addIOnode {m : Master} (h : NodeInv m) (uri : Str) (totalMemory : Nat) (handle : Handle) :
    NodeInv (m.addIOnode uri totalMemory handle).2 := by
  rcases addIOnode_cases m uri totalMemory handle with ⟨pool, c, hpool, heq⟩ | ⟨id, node, hfree, hid, _, heq⟩
  · rw [heq]
    refine ⟨h.live, ?_, h.cursor, h.fresh⟩
    intro k r hr
    obtain ⟨h0, h1⟩ := h.idTaken k r hr
    exact ⟨h0, hpool _ h1⟩
  · rw [heq]
    have hkey := h.free_id hfree
    have hreg : (m.registerNode id node).registeredIOnodes = m.registeredIOnodes.put id m.nextNode :=
      OrdMap.insert_of_none hkey _
    refine ⟨?_, ?_, ?_, ?_⟩
    · intro k r hr
      rw [hreg, OrdMap.find?_put] at hr
      split at hr
      · rename_i hk
        cases hr
        exact ⟨node, by simp [registerNode], hid.trans hk.symm⟩
      · obtain ⟨n, hn, hnid⟩ := h.live k r hr
        have hne : r ≠ m.nextNode := fun hc => by
          have := h.fresh r (le_of_eq hc.symm)
          rw [hn] at this; cases this
        exact ⟨n, by simpa [registerNode, Function.update_of_ne hne] using hn, hnid⟩
    · intro k r hr
      rw [hreg, OrdMap.find?_put] at hr
      split at hr
      · rename_i hk
        rw [hk]
        exact ⟨by omega, by simp [registerNode]⟩
      · obtain ⟨h0, h1⟩ := h.idTaken k r hr
        refine ⟨h0, ?_⟩
        have hne : k.toNat ≠ id := fun hc => by rw [hc, hfree] at h1; cases h1
        simpa [registerNode, Function.update_of_ne hne] using h1
    · intro k hk
      obtain ⟨r, hr⟩ := h.cursor k hk
      have hne : k ≠ (id : Int) := fun hc => by rw [hc, hkey] at hr; cases hr
      exact ⟨r, by rw [hreg, OrdMap.find?_put_ne _ _ hne]; exact hr⟩
    · intro r hr
      have hr' : m.nextNode + 1 ≤ r := hr
      have hne : r ≠ m.nextNode := Nat.ne_of_gt hr'
      simpa [registerNode, Function.update_of_ne hne] using h.fresh r (Nat.le_of_succ_le hr')

/-! ## Replacement nodes -/

/-- `_get_next_IOnode` changes the cursor alone, which stays valid. -/
theorem getNextIOnode_state {m m' : Master} {next : Option NodeRef} (h : m.getNextIOnode = some (next, m')) :
    (∃ c, m' = { m with currentIOnode := c }) ∧ NodesTouched m m' := by
  cases next with
  | some r =>
      obtain ⟨k, _, _, hm'⟩ := getNextIOnode_inv h
      exact ⟨⟨_, hm'⟩, (getNextIOnode_some h).1⟩
  | none =>
      unfold getNextIOnode at h
      split at h
      · cases h
        exact ⟨⟨m.currentIOnode, rfl⟩, NodesTouched.refl m⟩
      · split at h
        · cases h
        · split at h
          · cases h
          · cases h

theorem replaceLoop_state {nodePool : OrdSet NodeRef} {oldNode : NodeRef} {fuel : Nat} : ∀ {m m' : Master}
    {next : Option NodeRef}, replaceLoop nodePool oldNode fuel m = some (next, m') →
    (∃ c, m' = { m with currentIOnode := c }) ∧ NodesTouched m m' := by
  induction fuel with
  | zero => intro m m' next h; cases h
  | succ fuel ih =>
      intro m m' next h
      unfold replaceLoop at h
      split at h
      · cases h
      · rename_i next' m1 hg
        obtain ⟨⟨c, hc⟩, ht⟩ := getNextIOnode_state hg
        split at h
        · obtain ⟨⟨c', hc'⟩, ht'⟩ := ih h
          exact ⟨⟨c', by rw [hc', hc]⟩, ht.trans ht'⟩
        · cases h
          exact ⟨⟨c, hc⟩, ht⟩

/-- `_allocate_replace_IOnode` changes the cursor alone, which stays valid. -/
theorem allocateReplaceIOnode_state {m m' : Master} {nodePool : OrdSet NodeRef} {oldNode : NodeRef}
    {next : Option NodeRef} (h : m.allocateReplaceIOnode nodePool oldNode = some (next, m')) :
    (∃ c, m' = { m with currentIOnode := c }) ∧ NodesTouched m m' := by
  unfold allocateReplaceIOnode at h
  split at h
  · cases h
    exact ⟨⟨m.currentIOnode, rfl⟩, NodesTouched.refl m⟩
  · exact replaceLoop_state h

end Master

end HuronFS
