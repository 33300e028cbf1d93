import HuronFS.Master.Handler
import HuronFS.Master.TablesSpec

/-!
# `Master.Failure` — replication metadata after an IOnode fails

`ReplicasSound` is what the open files and the nodes owe each other: the primary and the replicas of a
file are registered nodes, the primary is not among the replicas, and a node's `stored_files` are the
files that name it. `_IOnode_failure_handler` restores it for the surviving nodes only when it promotes
or drops copies and allocates no replacement: a replacement is never entered in the `stored_files` of
the new node, may be a node that has the file already or the failed node itself, and a primary without
replicas is either taken from an empty set or left dangling.
-/

namespace HuronFS

/-! ## What the metadata means -/

/-- The file has a copy on this node. -/
def OpenFileInfo.References (f : OpenFileInfo) (q : NodeRef) : Prop :=
  f.primaryReplicaNode = some q ∨ OrdSet.Mem f.IOnodesSet q

namespace Master

/-- The open file with this number. -/
def OpenAs (m : Master) (n : Int) (r : FileRef) (f : OpenFileInfo) : Prop :=
  m.bufferedFiles.find? n = some r ∧ m.files r = some f

/-- **Replication metadata is sound.** -/
structure ReplicasSound (m : Master) : Prop where
  primary : ∀ n r f, m.OpenAs n r f → ∃ q, f.primaryReplicaNode = some q ∧ Registered m q
  replicas : ∀ n r f, m.OpenAs n r f → ∀ q, OrdSet.Mem f.IOnodesSet q →
    Registered m q ∧ f.primaryReplicaNode ≠ some q
  stored : ∀ q node, Registered m q → m.nodes q = some node → ∀ n,
    OrdSet.Mem node.storedFiles n ↔ ∃ r f, m.OpenAs n r f ∧ f.References q

/-- Every entry of `_buffered_files` has its own object. -/
def Objects (m : Master) : Prop := ∀ n r, m.bufferedFiles.find? n = some r → ∃ f, m.files r = some f ∧ f.fileNo = n

/-- The state before the failure: sound metadata over a sound heap and registry. -/
structure FailureReady (m : Master) : Prop where
  sound : ReplicasSound m
  nodes : NodeInv m
  objects : Objects m

/-- **What the failure handler owes** when it leaves `m'` and allocated the replacements `news`. -/
structure FailureSound (m : Master) (failed : NodeRef) (m' : Master) (news : List (Int × Option NodeRef)) : Prop where
  /-- no open file names the failed node -/
  gone : ∀ n r f, m'.OpenAs n r f → ¬ f.References failed
  /-- a file with another copy is led by one of its copies -/
  promoted : ∀ n r f, m.OpenAs n r f → (∃ q, q ≠ failed ∧ f.References q) →
    ∃ f' p, m'.OpenAs n r f' ∧ f'.primaryReplicaNode = some p ∧ Registered m' p ∧ p ≠ failed ∧
      f.References p ∧ ¬ OrdSet.Mem f'.IOnodesSet p
  /-- a replacement is registered, and had no copy -/
  replacement : ∀ n r f new, m.OpenAs n r f → (n, some new) ∈ news →
    Registered m' new ∧ new ≠ failed ∧ ¬ f.References new
  /-- the surviving nodes store the files that name them -/
  stored : ∀ q node, Registered m' q → m'.nodes q = some node → ∀ n,
    OrdSet.Mem node.storedFiles n ↔ ∃ r f, m'.OpenAs n r f ∧ f.References q

theorem Objects.exists_open {m : Master} (h : Objects m) {n : Int} {r : FileRef}
    (hn : m.bufferedFiles.find? n = some r) : ∃ f, m.OpenAs n r f := by
  obtain ⟨f, hf, _⟩ := h n r hn
  exact ⟨f, hn, hf⟩

/-- Two numbers, two objects. -/
theorem Objects.ref_ne {m : Master} (h : Objects m) {n k : Int} {r q : FileRef} {f g : OpenFileInfo}
    (hn : m.OpenAs n r f) (hk : m.OpenAs k q g) (hne : n ≠ k) : r ≠ q := by
  intro hr
  obtain ⟨f', hf', rfl⟩ := h n r hn.1
  obtain ⟨g', hg', rfl⟩ := h k q hk.1
  rw [hr, hg'] at hf'
  cases hf'
  exact hne rfl

theorem Objects.rewrite {m : Master} (h : Objects m) {n : Int} {r : FileRef} {f f' : OpenFileInfo}
    (hf : m.OpenAs n r f) (hno : f'.fileNo = f.fileNo) (c : Option Int) :
    Objects ({ m with currentIOnode := c }.setFile r f') := by
  intro k q hk
  show ∃ g, Function.update m.files r (some f') q = some g ∧ g.fileNo = k
  obtain ⟨g, hg, hgk⟩ := h k q hk
  by_cases hq : q = r
  · refine ⟨f', by rw [hq, Function.update_self], ?_⟩
    rw [hq, hf.2] at hg
    cases hg
    exact hno.trans hgk
  · exact ⟨g, by rw [Function.update_of_ne hq]; exact hg, hgk⟩

/-- Rewriting one object leaves the other open files. -/
theorem OpenAs.other {m : Master} (h : Objects m) {n k : Int} {r q : FileRef} {f g : OpenFileInfo}
    (hn : m.OpenAs n r f) (hk : m.OpenAs k q g) (hne : n ≠ k) (g' : OpenFileInfo) (c : Option Int) :
    ({ m with currentIOnode := c }.setFile q g').OpenAs n r f := by
  refine ⟨hn.1, ?_⟩
  show Function.update m.files q (some g') r = some f
  rw [Function.update_of_ne (h.ref_ne hn hk hne)]
  exact hn.2

theorem OpenAs.rewritten {m : Master} {n : Int} {r : FileRef} {f : OpenFileInfo} (hf : m.OpenAs n r f)
    (f' : OpenFileInfo) (c : Option Int) : ({ m with currentIOnode := c }.setFile r f').OpenAs n r f' := by
  refine ⟨hf.1, ?_⟩
  show Function.update m.files r (some f') r = some f'
  rw [Function.update_self]

theorem OpenAs.unique {m : Master} {n : Int} {r q : FileRef} {f g : OpenFileInfo} (hf : m.OpenAs n r f)
    (hg : m.OpenAs n q g) : r = q ∧ f = g := by
  have hr : r = q := Option.some.inj (hf.1.symm.trans hg.1)
  subst hr
  exact ⟨rfl, Option.some.inj (hf.2.symm.trans hg.2)⟩

theorem NodeInv.id_inj {m : Master} (h : NodeInv m) {k k' : Int} {r : NodeRef}
    (hk : m.registeredIOnodes.find? k = some r) (hk' : m.registeredIOnodes.find? k' = some r) : k = k' := by
  obtain ⟨n, hn, rfl⟩ := h.live k r hk
  obtain ⟨n', hn', rfl⟩ := h.live k' r hk'
  rw [hn] at hn'
  cases hn'
  rfl

/-! ## One file -/

/-- The file with its copy on the failed node dropped, and a replica promoted where that one led. -/
def survivor (f : OpenFileInfo) (failed : NodeRef) : OpenFileInfo :=
  let rest := f.IOnodesSet.erase failed
  if f.primaryReplicaNode = some failed then
    match rest.firstKey with
    | some primary => { f with primaryReplicaNode := some primary, IOnodesSet := rest.erase primary }
    | none => { f with IOnodesSet := rest }
  else { f with IOnodesSet := rest }

@[simp] theorem survivor_fileNo (f : OpenFileInfo) (failed : NodeRef) : (survivor f failed).fileNo = f.fileNo := by
  unfold survivor
  simp only
  split
  · split
    · rfl
    · rfl
  · rfl

/-- A file below its number of replicas is dealt with, and the cursor stays. -/
theorem recreateReplica_survives {m : Master} {n : Int} {r : FileRef} {f : OpenFileInfo} (hf : m.OpenAs n r f)
    (hsize : f.IOnodesSet.size < m.numOfReplica) (failed : NodeRef) :
    m.recreateReplica failed n = some (m.setFile r (survivor f failed), [], none) := by
  unfold recreateReplica openFileOf survivor
  simp only [hf.1, hf.2, Option.map_some, allocateReplaceIOnode, if_pos hsize]
  split
  · cases (f.IOnodesSet.erase failed).firstKey with
    | some primary => rfl
    | none => rfl
  · rfl

/-- What is known of a file once its copy on the failed node was dealt with. -/
def Recreated (m : Master) (failed : NodeRef) (f f' : OpenFileInfo) (new : Option NodeRef) : Prop :=
  if f.IOnodesSet.size < m.numOfReplica then f' = survivor f failed ∧ new = none
  else ∃ q, new = some q ∧ OrdSet.Mem f'.IOnodesSet q

theorem replaceLoop_next {nodePool : OrdSet NodeRef} {oldNode : NodeRef} {fuel : Nat} : ∀ {m m' : Master}
    {next : Option NodeRef}, m.registeredIOnodes.size ≠ 0 → replaceLoop nodePool oldNode fuel m = some (next, m') →
    ∃ q, next = some q := by
  induction fuel with
  | zero => intro m m' next _ h; cases h
  | succ fuel ih =>
      intro m m' next hne h
      unfold replaceLoop at h
      cases hn : m.getNextIOnode with
      | none => rw [hn] at h; cases h
      | some res =>
          obtain ⟨newNode, m1⟩ := res
          rw [hn] at h
          simp only at h
          split at h
          · obtain ⟨⟨c, hm1⟩, _⟩ := getNextIOnode_state hn
            have hne1 : m1.registeredIOnodes.size ≠ 0 := by rw [hm1]; exact hne
            exact ih hne1 h
          · cases h
            unfold getNextIOnode at hn
            rw [if_neg hne] at hn
            split at hn
            · cases hn
            · split at hn
              · cases hn
              · cases hn
                exact ⟨_, rfl⟩

/-- **One file of the failed node**: nothing but the cursor and this file's object changes. -/
theorem recreateReplica_inv {m m' : Master} {failed : NodeRef} {n : Int} {ops : List QueueOp} {new : Option NodeRef}
    (hne : m.registeredIOnodes.size ≠ 0) (h : m.recreateReplica failed n = some (m', ops, new)) :
    ∃ r f f' c, m.OpenAs n r f ∧ m' = { m with currentIOnode := c }.setFile r f' ∧ f'.fileNo = f.fileNo ∧
      Recreated m failed f f' new := by
  unfold recreateReplica openFileOf at h
  cases hb : m.bufferedFiles.find? n with
  | none => rw [hb] at h; cases h
  | some r =>
      cases hf : m.files r with
      | none => simp [hb, hf] at h
      | some f =>
          simp only [hb, hf, Option.map_some] at h
          by_cases hsize : f.IOnodesSet.size < m.numOfReplica
          · -- no replacement: the copy is dropped
            have heq := recreateReplica_survives ⟨hb, hf⟩ hsize failed
            have h' : m.recreateReplica failed n = some (m', ops, new) := by
              unfold recreateReplica openFileOf
              simpa only [hb, hf, Option.map_some] using h
            rw [heq] at h'
            cases h'
            refine ⟨r, f, survivor f failed, m.currentIOnode, ⟨hb, hf⟩, rfl, survivor_fileNo f failed, ?_⟩
            unfold Recreated
            rw [if_pos hsize]
            exact ⟨rfl, rfl⟩
          · -- a replacement: the new node joins the replicas, whatever the branch
            cases hal : m.allocateReplaceIOnode f.IOnodesSet failed with
            | none => rw [hal] at h; cases h
            | some res =>
                obtain ⟨next, m1⟩ := res
                obtain ⟨⟨c, rfl⟩, _⟩ := allocateReplaceIOnode_state hal
                rw [hal] at h
                simp only at h
                have hnext : ∃ q, next = some q := by
                  unfold allocateReplaceIOnode at hal
                  rw [if_neg hsize] at hal
                  exact replaceLoop_next hne hal
                obtain ⟨q, rfl⟩ := hnext
                simp only at h
                have hshape : ∃ f', m' = { m with currentIOnode := c }.setFile r f' ∧ f'.fileNo = f.fileNo ∧
                    new = some q ∧ OrdSet.Mem f'.IOnodesSet q := by
                  split at h
                  · split at h
                    · cases h
                    · rename_i primary _
                      split at h
                      · cases h
                        exact ⟨promotedFile f _ primary q, rfl, rfl, rfl, OrdSet.mem_add.mpr (Or.inl rfl)⟩
                      · cases h
                  · split at h
                    · cases h
                      exact ⟨replacedFile f _ q, rfl, rfl, rfl, OrdSet.mem_add.mpr (Or.inl rfl)⟩
                    · cases h
                obtain ⟨f', hm', hno, hnew, hmem⟩ := hshape
                refine ⟨r, f, f', c, ⟨hb, hf⟩, hm', hno, ?_⟩
                unfold Recreated
                rw [if_neg hsize]
                exact ⟨q, hnew, hmem⟩

/-! ## All files of the failed node -/

/-- **The loop of `_recreate_replicas`.** A file outside the list keeps its object, a file of the list is
    recreated once, and besides only the cursor moves. -/
theorem recreateEach_inv {failed : NodeRef} {files : List Int} : ∀ {m m' : Master} {ops : List QueueOp}
    {news : List (Int × Option NodeRef)}, Objects m → files.Nodup → m.registeredIOnodes.size ≠ 0 →
    recreateEach failed files m = some (m', ops, news) →
    (∃ c, m' = { m with currentIOnode := c, files := m'.files }) ∧
    (∀ n r f, m.OpenAs n r f → n ∉ files → m'.files r = some f) ∧
    (∀ n r f, m.OpenAs n r f → n ∈ files →
      ∃ f' new, m'.files r = some f' ∧ Recreated m failed f f' new ∧ (n, new) ∈ news) ∧
    (∀ n new, (n, new) ∈ news → n ∈ files ∧
      ∃ r f f', m.OpenAs n r f ∧ m'.files r = some f' ∧ Recreated m failed f f' new) := by
  induction files with
  | nil =>
      intro m m' ops news _ _ _ h
      cases h
      refine ⟨⟨m.currentIOnode, rfl⟩, fun n r f hf _ => hf.2, ?_, ?_⟩
      · intro n r f _ hn; cases hn
      · intro n new hn; cases hn
  | cons k files ih =>
      intro m m' ops news hobj hnd hne h
      obtain ⟨hk, hnd'⟩ := List.nodup_cons.mp hnd
      unfold recreateEach at h
      split at h
      · cases h
      · rename_i m1 ops1 new1 hone
        split at h
        · cases h
        · rename_i m2 ops2 news2 hrest
          cases h
          obtain ⟨r1, f1, f1', c1, hf1, rfl, hno, hrec⟩ := recreateReplica_inv hne hone
          have hobj1 := hobj.rewrite hf1 hno c1
          obtain ⟨⟨c, hstate⟩, hkeep, hdone, hnews⟩ := ih hobj1 hnd' hne hrest
          refine ⟨⟨c, ?_⟩, ?_, ?_, ?_⟩
          · rw [hstate]
            rfl
          · intro n r f hf hn
            rw [List.mem_cons, not_or] at hn
            exact hkeep n r f (hf.other hobj hf1 hn.1 f1' c1) hn.2
          · intro n r f hf hn
            by_cases hnk : n = k
            · subst hnk
              obtain ⟨rfl, rfl⟩ := hf.unique hf1
              refine ⟨f1', new1, ?_, hrec, List.mem_cons_self⟩
              exact hkeep n r f1' (hf.rewritten f1' c1) hk
            · have hn' : n ∈ files := (List.mem_cons.mp hn).resolve_left hnk
              obtain ⟨f', new, hfin, hrec', hmem⟩ := hdone n r f (hf.other hobj hf1 hnk f1' c1) hn'
              exact ⟨f', new, hfin, hrec', List.mem_cons_of_mem _ hmem⟩
          · intro n new hmem
            rcases List.mem_cons.mp hmem with heq | hmem
            · cases heq
              refine ⟨List.mem_cons_self, r1, f1, f1', hf1, ?_, hrec⟩
              exact hkeep k r1 f1' (hf1.rewritten f1' c1) hk
            · obtain ⟨hn, r, f, f', hf, hfin, hrec'⟩ := hnews n new hmem
              have hnk : n ≠ k := fun hc => hk (hc ▸ hn)
              obtain ⟨g, hg⟩ := hobj.exists_open (n := n) (r := r) hf.1
              obtain ⟨_, rfl⟩ := (hg.other hobj hf1 hnk f1' c1).unique hf
              exact ⟨List.mem_cons_of_mem _ hn, r, g, f', hg, hfin, hrec'⟩

/-- When every file of the list is below its number of replicas the loop goes through without a
    replacement, and the cursor stays. -/
theorem recreateEach_survives {failed : NodeRef} {files : List Int} : ∀ {m : Master}, Objects m → files.Nodup →
    (∀ n ∈ files, ∃ r f, m.OpenAs n r f ∧ f.IOnodesSet.size < m.numOfReplica) →
    ∃ m' ops news, recreateEach failed files m = some (m', ops, news) ∧ m'.currentIOnode = m.currentIOnode := by
  induction files with
  | nil => intro m _ _ _; exact ⟨m, [], [], rfl, rfl⟩
  | cons k files ih =>
      intro m hobj hnd hall
      obtain ⟨hk, hnd'⟩ := List.nodup_cons.mp hnd
      obtain ⟨r1, f1, hf1, hsize⟩ := hall k List.mem_cons_self
      have hone := recreateReplica_survives hf1 hsize failed
      have hobj1 := hobj.rewrite hf1 (survivor_fileNo f1 failed) m.currentIOnode
      have hall1 : ∀ n ∈ files, ∃ r f, (m.setFile r1 (survivor f1 failed)).OpenAs n r f ∧
          f.IOnodesSet.size < m.numOfReplica := by
        intro n hn
        obtain ⟨r, f, hf, hlt⟩ := hall n (List.mem_cons_of_mem _ hn)
        have hne : n ≠ k := fun hc => hk (hc ▸ hn)
        exact ⟨r, f, hf.other hobj hf1 hne _ m.currentIOnode, hlt⟩
      obtain ⟨m', ops, news, hrest, hcur⟩ := ih hobj1 hnd' hall1
      exact ⟨m', [] ++ ops, (k, none) :: news, by simp only [recreateEach, hone, hrest], hcur⟩

/-! ## The survivor of a file -/

/-- **A surviving file** keeps the copies it had elsewhere, one of which leads. -/
theorem survivor_references {f : OpenFileInfo} {failed p : NodeRef} (hp : f.primaryReplicaNode = some p)
    (happart : ∀ q, OrdSet.Mem f.IOnodesSet q → f.primaryReplicaNode ≠ some q)
    (hleft : f.primaryReplicaNode ≠ some failed ∨ f.IOnodesSet.size ≠ 0) :
    (∃ p', (survivor f failed).primaryReplicaNode = some p' ∧ p' ≠ failed ∧ f.References p' ∧
      ¬ OrdSet.Mem (survivor f failed).IOnodesSet p') ∧
    ∀ q, (survivor f failed).References q ↔ q ≠ failed ∧ f.References q := by
  by_cases hfail : f.primaryReplicaNode = some failed
  · -- the failed node led: it is not among the replicas, and there is one to promote
    have hnot : ¬ OrdSet.Mem f.IOnodesSet failed := fun hc => happart failed hc hfail
    have hrest : ∀ q, OrdSet.Mem (f.IOnodesSet.erase failed) q ↔ OrdSet.Mem f.IOnodesSet q := by
      intro q
      rw [OrdSet.mem_erase]
      refine ⟨fun h => h.2, fun h => ⟨?_, h⟩⟩
      rintro rfl
      exact hnot h
    cases hkey : (f.IOnodesSet.erase failed).firstKey with
    | none =>
        exfalso
        have hempty := OrdSet.size_eq_zero.mp (OrdMap.firstKey_none.mp hkey)
        have hzero : f.IOnodesSet.size = 0 := OrdSet.size_eq_zero.mpr (fun q hq => hempty q ((hrest q).mpr hq))
        rcases hleft with h | h
        · exact h hfail
        · exact h hzero
    | some p' =>
        have hp' : OrdSet.Mem f.IOnodesSet p' := (hrest p').mp (OrdSet.firstKey_mem hkey)
        have hne : p' ≠ failed := by
          rintro rfl
          exact hnot hp'
        have hsurv : survivor f failed = { f with
            primaryReplicaNode := some p'
            IOnodesSet := (f.IOnodesSet.erase failed).erase p' } := by
          unfold survivor
          simp only [if_pos hfail, hkey]
        rw [hsurv]
        refine ⟨⟨p', rfl, hne, Or.inr hp', ?_⟩, ?_⟩
        · intro hc
          exact (OrdSet.mem_erase.mp hc).1 rfl
        · intro q
          unfold OpenFileInfo.References
          simp only [OrdSet.mem_erase, hfail, Option.some.injEq]
          constructor
          · rintro (rfl | ⟨_, hq, hmem⟩)
            · exact ⟨hne, Or.inr hp'⟩
            · exact ⟨hq, Or.inr hmem⟩
          · rintro ⟨hq, rfl | hmem⟩
            · exact absurd rfl hq
            · by_cases hqp : p' = q
              · exact Or.inl hqp
              · exact Or.inr ⟨fun hc => hqp hc.symm, hq, hmem⟩
  · have hsurv : survivor f failed = { f with IOnodesSet := f.IOnodesSet.erase failed } := by
      unfold survivor
      simp only [if_neg hfail]
    have hne : p ≠ failed := by
      rintro rfl
      exact hfail hp
    rw [hsurv]
    refine ⟨⟨p, hp, hne, Or.inl hp, ?_⟩, ?_⟩
    · intro hc
      exact happart p (OrdSet.mem_erase.mp hc).2 hp
    · intro q
      unfold OpenFileInfo.References
      simp only [OrdSet.mem_erase, hp, Option.some.injEq]
      constructor
      · rintro (rfl | hmem)
        · exact ⟨hne, Or.inl rfl⟩
        · exact ⟨hmem.1, Or.inr hmem.2⟩
      · rintro ⟨hq, rfl | hmem⟩
        · exact Or.inl rfl
        · exact Or.inr ⟨hq, hmem⟩

theorem firstKey_erase_empty {set : OrdSet NodeRef} (h : set.size = 0) (failed : NodeRef) :
    (set.erase failed).firstKey = none := by
  rw [OrdMap.firstKey_none]
  apply OrdSet.size_eq_zero.mpr
  intro q hq
  exact OrdSet.size_eq_zero.mp h q (OrdSet.mem_erase.mp hq).2

/-- A primary without replicas keeps pointing at the failed node. -/
theorem survivor_dangles {f : OpenFileInfo} {failed : NodeRef} (hp : f.primaryReplicaNode = some failed)
    (hempty : f.IOnodesSet.size = 0) : (survivor f failed).References failed := by
  left
  unfold survivor
  simp only [if_pos hp, firstKey_erase_empty hempty failed]
  exact hp

/-! ## The whole handler -/

/-- With one node registered, every open file is on it alone. -/
theorem ReplicasSound.single_node {m : Master} (h : ReplicasSound m) (hone : m.registeredIOnodes.size = 1)
    {failed : NodeRef} (hfailed : Registered m failed) {n : Int} {r : FileRef} {f : OpenFileInfo} (hf : m.OpenAs n r f) :
    f.primaryReplicaNode = some failed ∧ f.IOnodesSet.size = 0 := by
  have hall : ∀ q, Registered m q → q = failed := by
    rintro q ⟨k, hk⟩
    obtain ⟨k', hk'⟩ := hfailed
    have hkk : k = k' := OrdMap.key_eq_of_size_one hone hk hk'
    rw [hkk, hk'] at hk
    exact (Option.some.inj hk).symm
  obtain ⟨p, hp, hreg⟩ := h.primary n r f hf
  rw [hall p hreg] at hp
  refine ⟨hp, OrdSet.size_eq_zero.mpr ?_⟩
  intro q hq
  obtain ⟨hregq, hne⟩ := h.replicas n r f hf q hq
  rw [hall q hregq] at hne
  exact hne hp

/-- The two branches of `_recreate_replicas` agree in a sound state: with a single node, a stored file
    makes the handler take `*begin()` of an empty set. -/
theorem recreateReplicas_eq {m : Master} (hm : FailureReady m) {failed : NodeRef} (hfailed : Registered m failed)
    {node : NodeInfo} (hn : m.nodes failed = some node) {res : Master × List QueueOp × List (Int × Option NodeRef)}
    (h : m.recreateReplicas failed = some res) : recreateEach failed node.storedFiles.keys m = some res := by
  unfold recreateReplicas at h
  rw [hn] at h
  simp only at h
  split at h
  · rename_i hone
    cases hkeys : node.storedFiles.keys with
    | nil =>
        rw [hkeys] at h
        exact h
    | cons n files =>
        exfalso
        have hmem : OrdSet.Mem node.storedFiles n := OrdSet.mem_keys.mp (by rw [hkeys]; exact List.mem_cons_self)
        obtain ⟨r, f, hf, _⟩ := (hm.sound.stored failed node hfailed hn n).mp hmem
        obtain ⟨hp, hempty⟩ := hm.sound.single_node hone hfailed hf
        have hkey := firstKey_erase_empty hempty failed
        rw [hkeys] at h
        simp [removeIOnodeBufferedFile, removeBufferedFile, openFileOf, hf.1, hf.2, hp, hkey] at h
  · exact h

/-- `_unregister_IOnode` dereferences the cursor, moves it off the node and removes the node. -/
theorem unregisterIOnode_some {m m' : Master} {failed : NodeRef} {node : NodeInfo} (hn : m.nodes failed = some node)
    (hne : m.registeredIOnodes.size ≠ 0) (h : m.unregisterIOnode failed = some m') :
    ∃ k q, m.currentIOnode = some k ∧ m.registeredIOnodes.find? k = some q ∧ m' = { m with
      IOnodeHandle := m.IOnodeHandle.erase failed
      currentIOnode := if k = node.nodeId then m.registeredIOnodes.nextKey k else some k
      registeredIOnodes := m.registeredIOnodes.erase node.nodeId
      nodes := Function.update m.nodes failed none } := by
  unfold unregisterIOnode removeIOnode at h
  simp only [hn, if_neg hne] at h
  cases hc : m.currentIOnode with
  | none => rw [hc] at h; cases h
  | some k =>
      rw [hc] at h
      simp only at h
      cases hk : m.registeredIOnodes.find? k with
      | none => rw [hk] at h; cases h
      | some q =>
          rw [hk] at h
          exact ⟨k, q, rfl, hk, (Option.some.inj h).symm⟩

theorem unregisterIOnode_progress {m : Master} {failed : NodeRef} {node : NodeInfo} (hn : m.nodes failed = some node)
    {k : Int} {q : NodeRef} (hc : m.currentIOnode = some k) (hk : m.registeredIOnodes.find? k = some q) :
    ∃ m', m.unregisterIOnode failed = some m' := by
  have hne : m.registeredIOnodes.size ≠ 0 := by
    intro hz
    rw [OrdMap.size_eq_zero.mp hz k] at hk
    cases hk
  unfold unregisterIOnode removeIOnode
  simp only [hn, if_neg hne, hc, hk]
  exact ⟨_, rfl⟩

/-- What the handler does when it returns: the failed node leaves the registry, the files it stored are
    recreated, every other object stays, and the cursor was not `end`. -/
structure FailureEffect (m : Master) (failed : NodeRef) (m' : Master) (news : List (Int × Option NodeRef)) : Prop where
  buffered : m'.bufferedFiles = m.bufferedFiles
  node : ∀ q, q ≠ failed → m'.nodes q = m.nodes q
  registered : ∀ q, Registered m' q ↔ Registered m q ∧ q ≠ failed
  kept : ∀ n r f, m.OpenAs n r f → ¬ f.References failed → m'.files r = some f
  recreated : ∀ n r f, m.OpenAs n r f → f.References failed →
    ∃ f' new, m'.files r = some f' ∧ Recreated m failed f f' new ∧ (n, new) ∈ news
  listed : ∀ n new, (n, new) ∈ news → ∃ r f f', m.OpenAs n r f ∧ f.References failed ∧ Recreated m failed f f' new
  cursor : (∀ n r f, m.OpenAs n r f → f.References failed → f.IOnodesSet.size < m.numOfReplica) →
    m.currentIOnode ≠ none

theorem registered_ne_zero {m : Master} {q : NodeRef} (h : Registered m q) : m.registeredIOnodes.size ≠ 0 := by
  obtain ⟨k, hk⟩ := h
  intro hz
  rw [OrdMap.size_eq_zero.mp hz k] at hk
  cases hk

theorem registered_erase {m : Master} (h : NodeInv m) {failed : NodeRef} {node : NodeInfo}
    (hn : m.nodes failed = some node) (hfailed : Registered m failed) (q : NodeRef) :
    (∃ k, (m.registeredIOnodes.erase node.nodeId).find? k = some q) ↔ Registered m q ∧ q ≠ failed := by
  obtain ⟨k0, hk0⟩ := hfailed
  have hid : node.nodeId = k0 := by
    obtain ⟨n, hn', hid⟩ := h.live k0 failed hk0
    rw [hn] at hn'
    cases hn'
    exact hid
  constructor
  · rintro ⟨k, hk⟩
    rw [OrdMap.find?_erase] at hk
    split at hk
    · cases hk
    · rename_i hkid
      refine ⟨⟨k, hk⟩, ?_⟩
      rintro rfl
      exact hkid (hid ▸ h.id_inj hk hk0)
  · rintro ⟨⟨k, hk⟩, hq⟩
    refine ⟨k, ?_⟩
    rw [OrdMap.find?_erase_ne]
    · exact hk
    · rintro rfl
      rw [hid, hk0] at hk
      exact hq (Option.some.inj hk).symm

/-- **The effect of `_IOnode_failure_handler`** on a sound state. -/
theorem IOnodeFailureHandler_effect {m m' : Master} (hm : FailureReady m) {failed : NodeRef}
    (hfailed : Registered m failed) {ops : List QueueOp} {news : List (Int × Option NodeRef)}
    (h : m.IOnodeFailureHandler failed = some (m', ops, news)) : FailureEffect m failed m' news := by
  obtain ⟨node, hn⟩ := hm.nodes.exists_node hfailed
  have hne := registered_ne_zero hfailed
  unfold IOnodeFailureHandler at h
  rw [hn] at h
  simp only at h
  split at h
  · rename_i ops1 m1 ops2 news1 _ hrec
    split at h
    · cases h
    · rename_i m2 hun
      cases h
      have heach := recreateReplicas_eq hm hfailed hn hrec
      have hnd : node.storedFiles.keys.Nodup := OrdMap.keys_nodup _
      obtain ⟨⟨c, hstate⟩, hkeep, hdone, hnews⟩ := recreateEach_inv hm.objects hnd hne heach
      have hn1 : m1.nodes failed = some node := by rw [hstate]; exact hn
      have hne1 : m1.registeredIOnodes.size ≠ 0 := by rw [hstate]; exact hne
      obtain ⟨k, _, hcur, _, hm'⟩ := unregisterIOnode_some hn1 hne1 hun
      have hstored : ∀ n, n ∈ node.storedFiles.keys ↔ ∃ r f, m.OpenAs n r f ∧ f.References failed := by
        intro n
        rw [OrdSet.mem_keys]
        exact hm.sound.stored failed node hfailed hn n
      have hfiles : m'.files = m1.files := by rw [hm']
      refine ⟨?_, ?_, ?_, ?_, ?_, ?_, ?_⟩
      · rw [hm', hstate]
      · intro q hq
        rw [hm', hstate]
        exact Function.update_of_ne hq none m.nodes
      · intro q
        have hreg : m'.registeredIOnodes = m.registeredIOnodes.erase node.nodeId := by rw [hm', hstate]
        unfold Registered
        rw [hreg]
        exact registered_erase hm.nodes hn hfailed q
      · intro n r f hf href
        rw [hfiles]
        apply hkeep n r f hf
        intro hmem
        obtain ⟨r', f', hf', href'⟩ := (hstored n).mp hmem
        obtain ⟨_, rfl⟩ := hf.unique hf'
        exact href href'
      · intro n r f hf href
        rw [hfiles]
        exact hdone n r f hf ((hstored n).mpr ⟨r, f, hf, href⟩)
      · intro n new hmem
        obtain ⟨hn', r, f, f', hf, _, hrec'⟩ := hnews n new hmem
        obtain ⟨r', g, hg, href⟩ := (hstored n).mp hn'
        obtain ⟨_, rfl⟩ := hf.unique hg
        exact ⟨r, f, f', hf, href, hrec'⟩
      · intro hall
        have hall' : ∀ n ∈ node.storedFiles.keys, ∃ r f, m.OpenAs n r f ∧ f.IOnodesSet.size < m.numOfReplica := by
          intro n hmem
          obtain ⟨r, f, hf, href⟩ := (hstored n).mp hmem
          exact ⟨r, f, hf, hall n r f hf href⟩
        obtain ⟨m3, _, _, hrec', hcur'⟩ := recreateEach_survives hm.objects hnd hall'
        rw [heach] at hrec'
        cases hrec'
        rw [← hcur', hcur]
        exact Option.some_ne_none k
  · cases h

/-- **The condition**: the cursor is on a node, and every file stored on the failed node has fewer
    replicas than `NUM_OF_REPLICA` and, if the failed node leads it, at least one. -/
def FailureGuard (m : Master) (failed : NodeRef) : Prop :=
  m.currentIOnode ≠ none ∧ ∀ n r f, m.OpenAs n r f → f.References failed →
    f.IOnodesSet.size < m.numOfReplica ∧ (f.primaryReplicaNode ≠ some failed ∨ f.IOnodesSet.size ≠ 0)

/-- Under the condition the handler returns. -/
theorem IOnodeFailureHandler_progress {m : Master} (hm : FailureReady m) {failed : NodeRef}
    (hfailed : Registered m failed) (hg : FailureGuard m failed) :
    ∃ m' ops news, m.IOnodeFailureHandler failed = some (m', ops, news) := by
  obtain ⟨node, hn⟩ := hm.nodes.exists_node hfailed
  have hstored : ∀ n, n ∈ node.storedFiles.keys → ∃ r f, m.OpenAs n r f ∧ f.References failed := by
    intro n hmem
    exact (hm.sound.stored failed node hfailed hn n).mp (OrdSet.mem_keys.mp hmem)
  have hall : ∀ n ∈ node.storedFiles.keys, ∃ r f, m.OpenAs n r f ∧ f.IOnodesSet.size < m.numOfReplica := by
    intro n hmem
    obtain ⟨r, f, hf, href⟩ := hstored n hmem
    exact ⟨r, f, hf, (hg.2 n r f hf href).1⟩
  have hnd : node.storedFiles.keys.Nodup := OrdMap.keys_nodup _
  obtain ⟨m1, ops1, news, heach, hcur⟩ := recreateEach_survives hm.objects hnd hall
  have hrec : ∃ m1 ops1 news, m.recreateReplicas failed = some (m1, ops1, news) ∧
      recreateEach failed node.storedFiles.keys m = some (m1, ops1, news) ∧ m1.currentIOnode = m.currentIOnode := by
    unfold recreateReplicas
    rw [hn]
    simp only
    split
    · rename_i hone
      -- a stored file would be led by the failed node without a replica
      have hkeys : node.storedFiles.keys = [] := by
        rw [List.eq_nil_iff_forall_not_mem]
        intro n hmem
        obtain ⟨r, f, hf, href⟩ := hstored n hmem
        obtain ⟨hp, hempty⟩ := hm.sound.single_node hone hfailed hf
        rcases (hg.2 n r f hf href).2 with hc | hc
        · exact hc hp
        · exact hc hempty
      rw [hkeys]
      exact ⟨m, [], [], rfl, rfl, rfl⟩
    · exact ⟨m1, ops1, news, heach, heach, hcur⟩
  obtain ⟨m1, ops1, news, hrec, heach, hcur⟩ := hrec
  obtain ⟨⟨c, hstate⟩, _⟩ := recreateEach_inv hm.objects hnd (registered_ne_zero hfailed) heach
  have hsend : ∃ ops, m.sendRemoveIOnodeRequest failed node.nodeId = some ops := by
    unfold sendRemoveIOnodeRequest
    apply sendEach_progress
    intro q hq
    split
    · exact ⟨[], rfl⟩
    · obtain ⟨e, he, rfl⟩ := List.mem_map.mp hq
      obtain ⟨n, hn', _⟩ := hm.nodes.live e.1 e.2 (OrdMap.mem_entries.mp he)
      rw [hn']
      exact ⟨_, rfl⟩
  obtain ⟨ops, hops⟩ := hsend
  obtain ⟨k, hk⟩ := Option.ne_none_iff_exists'.mp hg.1
  obtain ⟨q, hq⟩ := hm.nodes.cursor k hk
  have hun : ∃ m', m1.unregisterIOnode failed = some m' := by
    apply unregisterIOnode_progress (k := k) (q := q)
    · show m1.nodes failed = some node
      rw [hstate]
      exact hn
    · rw [hcur]
      exact hk
    · rw [hstate]
      exact hq
  obtain ⟨m', hm'⟩ := hun
  refine ⟨m', ops ++ ops1, news, ?_⟩
  unfold IOnodeFailureHandler
  simp only [hn, hops, hrec, hm']

/-- Under the condition every open file loses its copy on the failed node and no other, and a copy leads. -/
theorem FailureEffect.final_file {m m' : Master} {failed : NodeRef} {news : List (Int × Option NodeRef)}
    (he : FailureEffect m failed m' news) (hm : FailureReady m) (hg : FailureGuard m failed) {n : Int} {r : FileRef}
    {f : OpenFileInfo} (hf : m.OpenAs n r f) : ∃ f', m'.OpenAs n r f' ∧
      (∃ p, f'.primaryReplicaNode = some p ∧ p ≠ failed ∧ f.References p ∧ ¬ OrdSet.Mem f'.IOnodesSet p) ∧
      ∀ q, f'.References q ↔ q ≠ failed ∧ f.References q := by
  obtain ⟨p, hp, _⟩ := hm.sound.primary n r f hf
  have happart : ∀ q, OrdSet.Mem f.IOnodesSet q → f.primaryReplicaNode ≠ some q :=
    fun q hq => (hm.sound.replicas n r f hf q hq).2
  have hbuf : m'.bufferedFiles.find? n = some r := by rw [he.buffered]; exact hf.1
  by_cases href : f.References failed
  · obtain ⟨f', new, hf', hrec, _⟩ := he.recreated n r f hf href
    obtain ⟨hsize, hleft⟩ := hg.2 n r f hf href
    unfold Recreated at hrec
    rw [if_pos hsize] at hrec
    obtain ⟨hlead, hrefs⟩ := survivor_references hp happart hleft
    rw [← hrec.1] at hlead hrefs
    exact ⟨f', ⟨hbuf, hf'⟩, hlead, hrefs⟩
  · refine ⟨f, ⟨hbuf, he.kept n r f hf href⟩, ⟨p, hp, ?_, Or.inl hp, fun hc => happart p hc hp⟩, ?_⟩
    · rintro rfl
      exact href (Or.inl hp)
    · intro q
      refine ⟨fun hq => ⟨?_, hq⟩, fun hq => hq.2⟩
      rintro rfl
      exact href hq

theorem ReplicasSound.registered {m : Master} (h : ReplicasSound m) {n : Int} {r : FileRef} {f : OpenFileInfo}
    (hf : m.OpenAs n r f) {q : NodeRef} (hq : f.References q) : Registered m q := by
  rcases hq with hq | hq
  · obtain ⟨p, hp, hreg⟩ := h.primary n r f hf
    rw [hp] at hq
    cases hq
    exact hreg
  · exact (h.replicas n r f hf q hq).1

/-- The condition is enough. -/
theorem FailureEffect.sound {m m' : Master} {failed : NodeRef} {news : List (Int × Option NodeRef)}
    (he : FailureEffect m failed m' news) (hm : FailureReady m) (hg : FailureGuard m failed) :
    FailureSound m failed m' news := by
  -- an open file of the new state comes from one of the old
  have hback : ∀ n r f', m'.OpenAs n r f' → ∃ f, m.OpenAs n r f ∧ ∀ q, f'.References q ↔ q ≠ failed ∧ f.References q := by
    intro n r f' hf'
    have hbuf : m.bufferedFiles.find? n = some r := by rw [← he.buffered]; exact hf'.1
    obtain ⟨f, hf⟩ := hm.objects.exists_open hbuf
    obtain ⟨g, hg', _, hrefs⟩ := he.final_file hm hg hf
    obtain ⟨_, rfl⟩ := hf'.unique hg'
    exact ⟨f, hf, hrefs⟩
  refine ⟨?_, ?_, ?_, ?_⟩
  · intro n r f' hf' href
    obtain ⟨f, _, hrefs⟩ := hback n r f' hf'
    exact ((hrefs failed).mp href).1 rfl
  · intro n r f hf _
    obtain ⟨f', hf', ⟨p, hp, hne, href, hmem⟩, _⟩ := he.final_file hm hg hf
    exact ⟨f', p, hf', hp, (he.registered p).mpr ⟨hm.sound.registered hf href, hne⟩, hne, href, hmem⟩
  · intro n r f new hf hnew
    obtain ⟨r', g, g', hg', href, hrec⟩ := he.listed n (some new) hnew
    unfold Recreated at hrec
    rw [if_pos (hg.2 n r' g hg' href).1] at hrec
    cases hrec.2
  · intro q node hreg hn n
    obtain ⟨hreg', hne⟩ := (he.registered q).mp hreg
    rw [he.node q hne] at hn
    rw [hm.sound.stored q node hreg' hn n]
    constructor
    · rintro ⟨r, f, hf, href⟩
      obtain ⟨f', hf', _, hrefs⟩ := he.final_file hm hg hf
      exact ⟨r, f', hf', (hrefs q).mpr ⟨hne, href⟩⟩
    · rintro ⟨r, f', hf', href⟩
      obtain ⟨f, hf, hrefs⟩ := hback n r f' hf'
      exact ⟨r, f, hf, ((hrefs q).mp href).2⟩

/-- The condition is needed. -/
theorem FailureEffect.guard {m m' : Master} {failed : NodeRef} {news : List (Int × Option NodeRef)}
    (he : FailureEffect m failed m' news) (hm : FailureReady m) (hs : FailureSound m failed m' news) :
    FailureGuard m failed := by
  have hfile : ∀ n r f, m.OpenAs n r f → f.References failed →
      f.IOnodesSet.size < m.numOfReplica ∧ (f.primaryReplicaNode ≠ some failed ∨ f.IOnodesSet.size ≠ 0) := by
    intro n r f hf href
    obtain ⟨f', new, hfin, hrec, hnews⟩ := he.recreated n r f hf href
    have hf' : m'.OpenAs n r f' := ⟨by rw [he.buffered]; exact hf.1, hfin⟩
    unfold Recreated at hrec
    split at hrec
    · rename_i hsize
      refine ⟨hsize, ?_⟩
      by_cases hp : f.primaryReplicaNode = some failed
      · right
        intro hempty
        apply hs.gone n r f' hf'
        rw [hrec.1]
        exact survivor_dangles hp hempty
      · exact Or.inl hp
    · -- a replacement node would have to store the file, and then had a copy of it before
      exfalso
      obtain ⟨q, rfl, hmem⟩ := hrec
      obtain ⟨hreg, hne, hnot⟩ := hs.replacement n r f q hf hnews
      obtain ⟨hreg', _⟩ := (he.registered q).mp hreg
      obtain ⟨node, hn⟩ := hm.nodes.exists_node hreg'
      have hn' : m'.nodes q = some node := by rw [he.node q hne]; exact hn
      have hstored := (hs.stored q node hreg hn' n).mpr ⟨r, f', hf', Or.inr hmem⟩
      obtain ⟨r', g, hg, hgq⟩ := (hm.sound.stored q node hreg' hn n).mp hstored
      obtain ⟨_, rfl⟩ := hf.unique hg
      exact hnot hgq
  exact ⟨he.cursor (fun n r f hf href => (hfile n r f hf href).1), hfile⟩

/-- **An IOnode failure keeps the replication metadata sound exactly when** nothing has to be replaced or
    is lost, and the round-robin cursor is not `end`. -/
theorem IOnodeFailure_sound_iff {m : Master} (hm : FailureReady m) {failed : NodeRef} (hfailed : Registered m failed) :
    (∃ m' ops news, m.IOnodeFailureHandler failed = some (m', ops, news) ∧ FailureSound m failed m' news) ↔
      FailureGuard m failed := by
  constructor
  · rintro ⟨m', ops, news, h, hs⟩
    exact (IOnodeFailureHandler_effect hm hfailed h).guard hm hs
  · intro hg
    obtain ⟨m', ops, news, h⟩ := IOnodeFailureHandler_progress hm hfailed hg
    exact ⟨m', ops, news, h, (IOnodeFailureHandler_effect hm hfailed h).sound hm hg⟩

/-! Two nodes, with ids 0 and 1, and the open file 0 led by the first: the state that two registrations and
an open leave, for a number of replicas and the replicas that were chosen. -/

def nodeAt (id : Int) (stored : OrdSet Int) : NodeInfo := ⟨7 + id.toNat, id, [], stored, 100, 100⟩

def fileOnFirst (replicas : OrdSet NodeRef) : OpenFileInfo := ⟨0, OrdMap.empty, replicas, some 0, BLOCK_SIZE, 1, 0, []⟩

def twoNodes (numOfReplica : Nat) (replicas : OrdSet NodeRef) (stored : OrdSet Int) : Master :=
  { initial OrdMap.empty 0 [] numOfReplica with
    registeredIOnodes := (OrdMap.empty.put 0 0).put 1 1
    bufferedFiles := OrdMap.empty.put 0 0
    nodeIdPool := fun i => decide (i < 2)
    currentIOnode := some 1
    nodes := fun r => if r = 0 then some (nodeAt 0 (OrdSet.add OrdMap.empty 0))
      else if r = 1 then some (nodeAt 1 stored) else none
    files := fun r => if r = 0 then some (fileOnFirst replicas) else none
    nextNode := 2
    nextFile := 1 }

theorem twoNodes_ready {numOfReplica : Nat} {replicas : OrdSet NodeRef} {stored : OrdSet Int}
    (hrep : ∀ q, OrdSet.Mem replicas q → q = 1) (hstored : ∀ n, OrdSet.Mem stored n ↔ n = 0 ∧ OrdSet.Mem replicas 1) :
    FailureReady (twoNodes numOfReplica replicas stored) := by
  have hreg : ∀ k q, (twoNodes numOfReplica replicas stored).registeredIOnodes.find? k = some q →
      (k = 0 ∧ q = 0) ∨ (k = 1 ∧ q = 1) := by
    intro k q hk
    simp only [twoNodes, OrdMap.find?_put, OrdMap.find?_empty] at hk
    split at hk
    · cases hk
      rename_i h1
      exact Or.inr ⟨h1, rfl⟩
    · split at hk
      · cases hk
        rename_i h0
        exact Or.inl ⟨h0, rfl⟩
      · cases hk
  have hopen : ∀ n r f, (twoNodes numOfReplica replicas stored).OpenAs n r f →
      n = 0 ∧ r = 0 ∧ f = fileOnFirst replicas := by
    rintro n r f ⟨hn, hf⟩
    simp only [twoNodes, OrdMap.find?_put, OrdMap.find?_empty] at hn
    split at hn
    · cases hn
      rename_i h0
      exact ⟨h0, rfl, (Option.some.inj hf).symm⟩
    · cases hn
  have hfile : (twoNodes numOfReplica replicas stored).OpenAs 0 0 (fileOnFirst replicas) := ⟨rfl, rfl⟩
  refine ⟨⟨?_, ?_, ?_⟩, ⟨?_, ?_, ?_, ?_⟩, ?_⟩
  · intro n r f hf
    obtain ⟨_, _, rfl⟩ := hopen n r f hf
    exact ⟨0, rfl, 0, rfl⟩
  · intro n r f hf q hq
    obtain ⟨_, _, rfl⟩ := hopen n r f hf
    rw [hrep q hq]
    exact ⟨⟨1, rfl⟩, by simp [fileOnFirst]⟩
  · rintro q node ⟨k, hk⟩ hn n
    have hone : (∃ r f, (twoNodes numOfReplica replicas stored).OpenAs n r f ∧ f.References q) ↔
        n = 0 ∧ (fileOnFirst replicas).References q := by
      constructor
      · rintro ⟨r, f, hf, href⟩
        obtain ⟨h0, _, rfl⟩ := hopen n r f hf
        exact ⟨h0, href⟩
      · rintro ⟨rfl, href⟩
        exact ⟨0, _, hfile, href⟩
    rw [hone]
    rcases hreg k q hk with ⟨_, rfl⟩ | ⟨_, rfl⟩
    · cases hn
      show OrdSet.Mem (OrdSet.add OrdMap.empty 0) n ↔ _
      rw [OrdSet.mem_add]
      constructor
      · rintro (h0 | hc)
        · exact ⟨h0, Or.inl rfl⟩
        · exact absurd hc (OrdSet.not_mem_empty n)
      · rintro ⟨h0, _⟩
        exact Or.inl h0
    · cases hn
      show OrdSet.Mem stored n ↔ _
      rw [hstored n]
      have href : (fileOnFirst replicas).References 1 ↔ OrdSet.Mem replicas 1 := by
        simp [OpenFileInfo.References, fileOnFirst]
      rw [href]
  · intro k q hk
    rcases hreg k q hk with ⟨rfl, rfl⟩ | ⟨rfl, rfl⟩
    · exact ⟨_, rfl, rfl⟩
    · exact ⟨_, rfl, rfl⟩
  · intro k q hk
    rcases hreg k q hk with ⟨rfl, rfl⟩ | ⟨rfl, rfl⟩
    · exact ⟨le_refl _, rfl⟩
    · exact ⟨by decide, rfl⟩
  · intro k hk
    cases hk
    exact ⟨1, rfl⟩
  · intro r hr
    have h2 : 2 ≤ r := hr
    have h0 : r ≠ 0 := by rintro rfl; exact absurd h2 (by decide)
    have h1 : r ≠ 1 := by rintro rfl; exact absurd h2 (by decide)
    simp only [twoNodes, if_neg h0, if_neg h1]
  · intro n r hn
    have hn' := hn
    simp only [twoNodes, OrdMap.find?_put, OrdMap.find?_empty] at hn'
    split at hn'
    · cases hn'
      rename_i h0
      exact ⟨_, rfl, h0.symm⟩
    · cases hn'

/-- With one replica of two left to place, the failure of the primary promotes the replica. -/
theorem IOnodeFailure_sound_iff_promotion :
    ∃ m' ops news, (twoNodes 2 (OrdSet.add OrdMap.empty 1) (OrdSet.add OrdMap.empty 0)).IOnodeFailureHandler 0
        = some (m', ops, news) ∧
      FailureSound (twoNodes 2 (OrdSet.add OrdMap.empty 1) (OrdSet.add OrdMap.empty 0)) 0 m' news := by
  have hready : FailureReady (twoNodes 2 (OrdSet.add OrdMap.empty 1) (OrdSet.add OrdMap.empty 0)) := by
    apply twoNodes_ready
    · intro q hq
      exact (OrdSet.mem_add.mp hq).resolve_right (OrdSet.not_mem_empty q)
    · intro n
      rw [OrdSet.mem_add, OrdSet.mem_add]
      refine ⟨fun h => ⟨h.resolve_right (OrdSet.not_mem_empty n), Or.inl rfl⟩, fun h => Or.inl h.1⟩
  refine (IOnodeFailure_sound_iff hready ⟨0, rfl⟩).mpr ⟨by simp [twoNodes], ?_⟩
  rintro n r f ⟨hn, hf⟩ _
  have hr : r = 0 := by
    simp only [twoNodes, OrdMap.find?_put, OrdMap.find?_empty] at hn
    split at hn
    · cases hn; rfl
    · cases hn
  rw [hr] at hf
  cases hf
  exact ⟨by decide, Or.inr (by decide)⟩

/-- **Without replicas the handler takes `*begin()` of an empty set**: two nodes, no replica wanted, and
    the node that leads the file fails. -/
theorem IOnodeFailure_unsound_without_replica :
    FailureReady (twoNodes 0 OrdMap.empty OrdMap.empty) ∧ Registered (twoNodes 0 OrdMap.empty OrdMap.empty) 0 ∧
      ¬ ∃ m' ops news, (twoNodes 0 OrdMap.empty OrdMap.empty).IOnodeFailureHandler 0 = some (m', ops, news) ∧
        FailureSound (twoNodes 0 OrdMap.empty OrdMap.empty) 0 m' news := by
  refine ⟨?_, ⟨0, rfl⟩, ?_⟩
  · apply twoNodes_ready
    · intro q hq
      exact absurd hq (OrdSet.not_mem_empty q)
    · intro n
      refine ⟨fun h => absurd h (OrdSet.not_mem_empty n), fun h => absurd h.2 (OrdSet.not_mem_empty _)⟩
  · rintro ⟨m', ops, news, h, _⟩
    have hnone : (twoNodes 0 OrdMap.empty OrdMap.empty).IOnodeFailureHandler 0 = none := rfl
    rw [hnone] at h
    cases h

end Master

end HuronFS
