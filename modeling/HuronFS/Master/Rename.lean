import HuronFS.Master.Replies
import HuronFS.Master.NodeFiles

/-!
# `Master.Rename` — a rename inside one Master

`_parse_rename` looks the old path up, removes what is at the new one, and then moves the entry it has found. It removes the target
whether or not there is a source, and the iterator to the source is used after the target was erased.
-/

namespace HuronFS

namespace Master

/-! ## What a rename should do -/

/-- The entry `s` of the old path is the entry of the new one, and only these two paths have changed. -/
structure Renamed (m : Master) (s : FileStat) (oldPath newPath : Str) (out : Outcome) : Prop where
  gone : out.master.fileStatPool.find? oldPath = none
  entry : out.master.fileStatPool.find? newPath = some { s with fullPath := newPath }
  /-- the open file points back at the new entry -/
  file : ∀ r f, s.openedFileInfo = some r → m.files r = some f → out.master.files r = some { f with fileStatus := newPath }
  /-- the open file that was at the new path is gone, its number free -/
  target : ∀ r f, m.openedAt newPath = some r → m.files r = some f →
    out.master.files r = none ∧ out.master.bufferedFiles.find? f.fileNo = none ∧ out.master.fileNoPool f.fileNo.toNat = false
  /-- each node of the file is told the new path -/
  told : ∀ r f q node, s.openedFileInfo = some r → m.files r = some f →
    (f.primaryReplicaNode = some q ∨ OrdSet.Mem f.IOnodesSet q) → m.nodes q = some node →
    IOnodeTask node [.int RENAME, .long f.fileNo, .str newPath] ∈ allocatedOn IONODE_COMMUNICATE_QUEUE_NUM out.ops
  others : ∀ p, p ≠ oldPath → p ≠ newPath → out.master.fileStatPool.find? p = m.fileStatPool.find? p

/-- **A rename moves one entry**: an absent path is an error, a path renamed to itself stays. -/
structure RenamesRight (m : Master) (o : Origin) (oldPath newPath : Str) : Prop where
  absent : m.fileStatPool.find? oldPath = none → ∃ out, m.parseRename o oldPath newPath MYSELF = some out ∧ out.master = m ∧
    responseTask o [.int SUCCESS] ∉ allocatedOn SERVER_QUEUE_NUM out.ops
  same : m.fileStatPool.find? oldPath ≠ none → oldPath = newPath →
    ∃ out, m.parseRename o oldPath newPath MYSELF = some out ∧ out.master = m
  moved : ∀ s, m.fileStatPool.find? oldPath = some s → oldPath ≠ newPath →
    ∃ out, m.parseRename o oldPath newPath MYSELF = some out ∧ m.Renamed s oldPath newPath out

/-- The object of an open file and the nodes it names exist. -/
structure WholeFile (m : Master) (r : FileRef) (f : OpenFileInfo) (primary : NodeRef) : Prop where
  object : m.files r = some f
  main : f.primaryReplicaNode = some primary
  nodes : ∀ q ∈ primary :: f.IOnodesSet.keys, ∃ n, m.nodes q = some n

/-- When a rename is right: the old path is there, the new one is another, and the open files of the two are objects of their own. -/
structure Renamable (m : Master) (oldPath newPath : Str) : Prop where
  present : m.fileStatPool.find? oldPath ≠ none
  ne : oldPath ≠ newPath
  source : ∀ r, m.openedAt oldPath = some r → ∃ f primary, m.WholeFile r f primary
  target : ∀ r, m.openedAt newPath = some r → ∃ f primary, m.WholeFile r f primary ∧ 0 ≤ f.fileNo ∧ f.fileNo < MAX_FILE_NUMBER
  apart : ∀ r, m.openedAt oldPath = some r → m.openedAt newPath ≠ some r

/-- With a sound table of open files the pointers are in order. -/
theorem OpenInv.renamable {m : Master} (h : OpenInv m) {oldPath newPath : Str} (hpresent : m.fileStatPool.find? oldPath ≠ none)
    (hne : oldPath ≠ newPath) : m.Renamable oldPath newPath := by
  refine ⟨hpresent, hne, ?_, ?_, ?_⟩
  · intro r hr
    obtain ⟨f, primary, hf, hp, hnodes, -, -⟩ := h.file_nodes hr
    exact ⟨f, primary, hf, hp, hnodes⟩
  · intro r hr
    obtain ⟨f, primary, hf, hp, hnodes, h0, h1⟩ := h.file_nodes hr
    exact ⟨f, primary, ⟨hf, hp, hnodes⟩, h0, h1⟩
  · intro r hold hnew
    exact hne (h.table.eq_of_opened hold hnew)

/-! ## The removal of the target -/

/-- What `_remove_file` leaves of the tables. -/
structure TargetRemoved (m m1 : Master) (path : Str) : Prop where
  pool : m1.fileStatPool = m.fileStatPool.erase path
  nodes : ∀ q n, m.nodes q = some n → ∃ s, m1.nodes q = some { n with storedFiles := s }
  missing : ∀ q, m.nodes q = none → m1.nodes q = none
  files : ∀ r, m.openedAt path ≠ some r → m1.files r = m.files r
  dropped : ∀ r f, m.openedAt path = some r → m.files r = some f →
    m1.files r = none ∧ m1.bufferedFiles.find? f.fileNo = none ∧ m1.fileNoPool f.fileNo.toNat = false

section Remove

variable {m m1 : Master} {path : Str} {ops : List QueueOp} {found : Bool}

theorem removeFile_removed (h : m.removeFile path = some (m1, ops, found)) : TargetRemoved m m1 path := by
  rcases removeFile_some h with ⟨hst, rfl, -, -⟩ | ⟨s, hst, ho, -, -, rfl⟩ | ⟨s, r, m2, hst, ho, -, hrem, rfl⟩
  · have hclosed := openedAt_of_none hst
    refine ⟨by rw [OrdMap.erase_of_none hst], fun q n hn => ⟨n.storedFiles, hn⟩, fun _ hn => hn, fun _ _ => rfl, ?_⟩
    intro r f hr
    rw [hclosed] at hr
    cases hr
  · have hclosed : m.openedAt path = none := (openedAt_of_find hst).trans ho
    refine ⟨rfl, fun q n hn => ⟨n.storedFiles, hn⟩, fun _ hn => hn, fun _ _ => rfl, ?_⟩
    intro r f hr
    rw [hclosed] at hr
    cases hr
  · have hopen : m.openedAt path = some r := (openedAt_of_find hst).trans ho
    obtain ⟨f, m3, hf, ht, rfl⟩ := removeOpenFile_some hrem
    refine ⟨?_, ht.node, ht.none, ?_, ?_⟩
    · show m3.fileStatPool.erase path = _
      rw [ht.pool_eq]
    · intro q hq
      have hne : q ≠ r := by
        rintro rfl
        exact hq hopen
      show Function.update m3.files r none q = m.files q
      rw [Function.update_of_ne hne, ht.files_eq]
    · intro r' f' hr' hf'
      obtain rfl : r = r' := Option.some.inj (hopen.symm.trans hr')
      obtain rfl : f = f' := Option.some.inj (hf.symm.trans hf')
      refine ⟨Function.update_self .., OrdMap.find?_erase_self .., Function.update_self ..⟩

/-- A removal that goes through has found the objects of the open file. -/
theorem sendRemoveRequests_nodes {fileNo : Int} {rs : List NodeRef} : ∀ {m m' : Master} {ops : List QueueOp},
    sendRemoveRequests fileNo rs m = some (m', ops) → ∀ q ∈ rs, ∃ n, m.nodes q = some n := by
  induction rs with
  | nil =>
      intro m m' ops _ q hq
      cases hq
  | cons r rs ih =>
      intro m m' ops h q hq
      unfold sendRemoveRequests at h
      cases hn : m.nodes r with
      | none =>
          rw [hn] at h
          cases h
      | some n =>
          rw [hn] at h
          dsimp only at h
          split at h
          · cases h
          · rename_i m1 ops' hrec
            by_cases hqr : q = r
            · exact ⟨n, hqr ▸ hn⟩
            · obtain ⟨n', hn'⟩ := ih hrec q ((List.mem_cons.mp hq).resolve_left hqr)
              have hsame : (m.setNode r { n with storedFiles := n.storedFiles.erase fileNo }).nodes q = m.nodes q :=
                Function.update_of_ne hqr _ _
              exact ⟨n', hsame.symm.trans hn'⟩

theorem whole_of_removeFile (h : m.removeFile path = some (m1, ops, found)) {r : FileRef} (hr : m.openedAt path = some r) :
    ∃ f primary, m.WholeFile r f primary ∧ 0 ≤ f.fileNo ∧ f.fileNo < MAX_FILE_NUMBER := by
  rcases removeFile_some h with ⟨hst, -, -, -⟩ | ⟨s, hst, ho, -, -, -⟩ | ⟨s, r', m2, hst, ho, -, hrem, -⟩
  · rw [openedAt_of_none hst] at hr
    cases hr
  · rw [openedAt_of_find hst, ho] at hr
    cases hr
  · rw [openedAt_of_find hst, ho] at hr
    cases hr
    obtain ⟨f, primary, m3, hf, hp, hsend, -, h0, h1⟩ := removeOpenFile_inv hrem
    exact ⟨f, primary, ⟨hf, hp, sendRemoveRequests_nodes hsend⟩, h0, h1⟩

theorem removeFile_of_whole (h : ∀ r, m.openedAt path = some r →
    ∃ f primary, m.WholeFile r f primary ∧ 0 ≤ f.fileNo ∧ f.fileNo < MAX_FILE_NUMBER) :
    ∃ m1 ops found, m.removeFile path = some (m1, ops, found) := by
  unfold Master.removeFile
  cases hst : m.fileStatPool.find? path with
  | none => exact ⟨m, [], false, rfl⟩
  | some s =>
      dsimp only
      cases ho : s.openedFileInfo with
      | none => exact ⟨_, [], true, rfl⟩
      | some r =>
          obtain ⟨f, primary, hwhole, h0, h1⟩ := h r ((openedAt_of_find hst).trans ho)
          obtain ⟨⟨m1, ops⟩, hrem⟩ := removeOpenFile_progress hwhole.object hwhole.main hwhole.nodes h0 h1
          dsimp only
          rw [hrem]
          exact ⟨_, _, _, rfl⟩

end Remove

/-! ## The move -/

section Move

variable {m : Master} {s : FileStat} {newPath : Str} {r : FileRef}

/-- Requests to several nodes contain the request to each. -/
theorem sendEach_each {send : NodeRef → Option (List QueueOp)} {rs : List NodeRef} : ∀ {ops : List QueueOp},
    sendEach send rs = some ops → ∀ q ∈ rs, ∃ ops', send q = some ops' ∧
      ∀ queue, ∀ t ∈ allocatedOn queue ops', t ∈ allocatedOn queue ops := by
  induction rs with
  | nil =>
      intro ops _ q hq
      cases hq
  | cons r rs ih =>
      intro ops h q hq
      unfold sendEach at h
      split at h
      · rename_i first rest hfirst hrest
        cases h
        rcases List.mem_cons.mp hq with rfl | hq
        · refine ⟨first, hfirst, ?_⟩
          intro queue t ht
          rw [allocatedOn_append]
          exact List.mem_append_left _ ht
        · obtain ⟨ops', hops', hsub⟩ := ih hrest q hq
          refine ⟨ops', hops', ?_⟩
          intro queue t ht
          rw [allocatedOn_append]
          exact List.mem_append_right _ (hsub queue t ht)
      · cases h

/-- The entry of a file that is not open is moved without a message. -/
theorem renameLocalFile_closed (hnew : m.fileStatPool.find? newPath = none) (ho : s.openedFileInfo = none) :
    m.renameLocalFile s newPath = some (m.setStat newPath { s with fullPath := newPath }, []) := by
  unfold renameLocalFile
  rw [hnew, Option.getD_none]
  dsimp only
  rw [ho]

/-- A move that goes through has found the objects of the open file. -/
theorem whole_of_renameLocalFile {m' : Master} {ops : List QueueOp} (hnew : m.fileStatPool.find? newPath = none)
    (ho : s.openedFileInfo = some r) (h : m.renameLocalFile s newPath = some (m', ops)) : ∃ f primary, m.WholeFile r f primary := by
  unfold renameLocalFile at h
  rw [hnew, Option.getD_none] at h
  dsimp only at h
  rw [ho] at h
  dsimp only at h
  split at h
  · cases h
  · rename_i f hf
    split at h
    · cases h
    · rename_i primary hp
      split at h
      · cases h
      · rename_i ops' hsend
        refine ⟨f, primary, hf, hp, ?_⟩
        intro q hq
        obtain ⟨ops'', hq', -⟩ := sendEach_each hsend q hq
        obtain ⟨n, hn, -⟩ := Option.map_eq_some_iff.mp hq'
        exact ⟨n, hn⟩

end Move

/-! ## The rename -/

section Rename

variable {m : Master} {o : Origin} {oldPath newPath : Str} {s : FileStat}

/-- A rename is always answered with `SUCCESS`. -/
theorem parseRename_reply {out : Outcome} (h : m.parseRename o oldPath newPath MYSELF = some out) : responseTask o [.int SUCCESS] ∈ allocatedOn SERVER_QUEUE_NUM out.ops := by
  obtain ⟨⟨m', ops⟩, hren, rfl⟩ := Option.map_eq_some_iff.mp h
  rw [allocatedOn_reply (renameTables_effect hren).sends]
  exact List.mem_singleton_self _

/-- The iterator to the source dangles. -/
theorem parseRename_self (hst : m.fileStatPool.find? oldPath ≠ none) : m.parseRename o oldPath oldPath MYSELF = none := by
  unfold parseRename renameTables
  cases hs : m.fileStatPool.find? oldPath with
  | none => exact absurd hs hst
  | some s =>
      dsimp only
      rw [if_pos rfl, if_pos rfl, Option.map_none]

/-- A rename to another path, taken apart. -/
theorem parseRename_moves (hst : m.fileStatPool.find? oldPath = some s) (hne : oldPath ≠ newPath) {out : Outcome} :
    m.parseRename o oldPath newPath MYSELF = some out ↔
      ∃ m1 ops found m2 ops', m.removeFile newPath = some (m1, ops, found) ∧ m1.renameLocalFile s newPath = some (m2, ops') ∧
        out = ⟨{ m2 with fileStatPool := m2.fileStatPool.erase oldPath }, ops ++ ops' ++ sendResponse o [.int SUCCESS], [], SUCCESS⟩ := by
  unfold parseRename renameTables
  rw [hst]
  dsimp only
  rw [if_pos rfl, if_neg hne]
  constructor
  · intro h
    obtain ⟨⟨m', ops⟩, hren, rfl⟩ := Option.map_eq_some_iff.mp h
    split at hren
    · cases hren
    · rename_i m1 ops1 found hrem
      split at hren
      · cases hren
      · rename_i m2 ops2 hloc
        cases hren
        exact ⟨m1, ops1, found, m2, ops2, hrem, hloc, rfl⟩
  · rintro ⟨m1, ops, found, m2, ops', hrem, hloc, rfl⟩
    rw [hrem]
    dsimp only
    rw [hloc]
    rfl

/-- A rename that has a result was renamable. -/
theorem renamable_of_parseRename (hst : m.fileStatPool.find? oldPath = some s) (hne : oldPath ≠ newPath) {out : Outcome}
    (h : m.parseRename o oldPath newPath MYSELF = some out) : m.Renamable oldPath newPath := by
  obtain ⟨m1, ops, found, m2, ops', hrem, hloc, -⟩ := (parseRename_moves hst hne).mp h
  have hremoved := removeFile_removed hrem
  have hnew : m1.fileStatPool.find? newPath = none := by
    rw [hremoved.pool]
    exact OrdMap.find?_erase_self ..
  have hold : m.openedAt oldPath = s.openedFileInfo := openedAt_of_find hst
  have hsource : ∀ r, m.openedAt oldPath = some r → ∃ f primary, m1.WholeFile r f primary := by
    intro r hr
    exact whole_of_renameLocalFile hnew (hold.symm.trans hr) hloc
  have hapart : ∀ r, m.openedAt oldPath = some r → m.openedAt newPath ≠ some r := by
    intro r hr hr'
    obtain ⟨f, primary, hwhole⟩ := hsource r hr
    obtain ⟨f', primary', hwhole', -, -⟩ := whole_of_removeFile hrem hr'
    have hnone := (hremoved.dropped r f' hr' hwhole'.object).1
    rw [hwhole.object] at hnone
    cases hnone
  refine ⟨by rw [hst]; exact Option.some_ne_none s, hne, ?_, fun r hr => whole_of_removeFile hrem hr, hapart⟩
  intro r hr
  obtain ⟨f, primary, hwhole⟩ := hsource r hr
  refine ⟨f, primary, (hremoved.files r (hapart r hr)).symm.trans hwhole.object, hwhole.main, ?_⟩
  intro q hq
  obtain ⟨n, hn⟩ := hwhole.nodes q hq
  cases hq' : m.nodes q with
  | some n' => exact ⟨n', rfl⟩
  | none =>
      rw [hremoved.missing q hq'] at hn
      cases hn

/-- **A renamable path is renamed.** -/
theorem Renamable.renames (h : m.Renamable oldPath newPath) (hst : m.fileStatPool.find? oldPath = some s) (o : Origin) :
    ∃ out, m.parseRename o oldPath newPath MYSELF = some out ∧ m.Renamed s oldPath newPath out := by
  obtain ⟨-, hne, hsource, htarget, hapart⟩ := h
  obtain ⟨m1, ops, found, hrem⟩ := removeFile_of_whole htarget
  have hremoved := removeFile_removed hrem
  have hnew : m1.fileStatPool.find? newPath = none := by
    rw [hremoved.pool]
    exact OrdMap.find?_erase_self ..
  have hold : m.openedAt oldPath = s.openedFileInfo := openedAt_of_find hst
  -- the entries, whatever the open files are
  have hpool : ∀ p, ((m1.fileStatPool.put newPath { s with fullPath := newPath }).erase oldPath).find? p =
      if p = oldPath then none else if p = newPath then some { s with fullPath := newPath } else m.fileStatPool.find? p := by
    intro p
    rw [OrdMap.find?_erase, OrdMap.find?_put, hremoved.pool]
    split
    · rfl
    · split
      · rfl
      · rename_i hp
        exact OrdMap.find?_erase_ne _ hp
  have hgone : ((m1.fileStatPool.put newPath { s with fullPath := newPath }).erase oldPath).find? oldPath = none := by
    rw [hpool, if_pos rfl]
  have hentry : ((m1.fileStatPool.put newPath { s with fullPath := newPath }).erase oldPath).find? newPath =
      some { s with fullPath := newPath } := by
    rw [hpool, if_neg hne.symm, if_pos rfl]
  have hothers : ∀ p, p ≠ oldPath → p ≠ newPath →
      ((m1.fileStatPool.put newPath { s with fullPath := newPath }).erase oldPath).find? p = m.fileStatPool.find? p := by
    intro p hp hp'
    rw [hpool, if_neg hp, if_neg hp']
  cases ho : s.openedFileInfo with
  | none =>
      have hloc := renameLocalFile_closed hnew ho
      refine ⟨_, (parseRename_moves hst hne).mpr ⟨m1, ops, found, _, _, hrem, hloc, rfl⟩, hgone, hentry, ?_, hremoved.dropped, ?_, hothers⟩
      · intro r f hr
        rw [ho] at hr
        cases hr
      · intro r f q node hr
        rw [ho] at hr
        cases hr
  | some r =>
      have hr : m.openedAt oldPath = some r := hold.trans ho
      obtain ⟨f, primary, hf, hp, hnodes⟩ := hsource r hr
      have hf1 : m1.files r = some f := (hremoved.files r (hapart r hr)).trans hf
      have hnodes1 : ∀ q ∈ primary :: f.IOnodesSet.keys, ∃ n, m1.nodes q = some n := by
        intro q hq
        obtain ⟨n, hn⟩ := hnodes q hq
        obtain ⟨s', hs'⟩ := hremoved.nodes q n hn
        exact ⟨_, hs'⟩
      obtain ⟨ops', hloc⟩ := renameLocalFile_progress hnew ho hf1 hp hnodes1
      have hsent := renameLocalFile_sent hnew ho hf1 hp hloc
      refine ⟨_, (parseRename_moves hst hne).mpr ⟨m1, ops, found, _, _, hrem, hloc, rfl⟩, hgone, hentry, ?_, ?_, ?_, hothers⟩
      · intro r' f' hr' hf'
        obtain rfl : r = r' := Option.some.inj (ho.symm.trans hr')
        obtain rfl : f = f' := Option.some.inj (hf.symm.trans hf')
        exact Function.update_self ..
      · intro r' f' hr' hf'
        obtain ⟨hnone, hrest⟩ := hremoved.dropped r' f' hr' hf'
        refine ⟨?_, hrest⟩
        have hne' : r' ≠ r := by
          rintro rfl
          exact hapart r' hr hr'
        show Function.update m1.files r _ r' = none
        rw [Function.update_of_ne hne', hnone]
      · intro r' f' q node hr' hf' hq hnode
        obtain rfl : r = r' := Option.some.inj (ho.symm.trans hr')
        obtain rfl : f = f' := Option.some.inj (hf.symm.trans hf')
        have hmem : q ∈ primary :: f.IOnodesSet.keys := by
          rcases hq with hq | hq
          · rw [hp] at hq
            cases hq
            exact List.mem_cons_self
          · exact List.mem_cons_of_mem _ (OrdSet.mem_keys.mpr hq)
        obtain ⟨ops'', hsend, hsub⟩ := sendEach_each hsent q hmem
        obtain ⟨s', hs'⟩ := hremoved.nodes q node hnode
        have hmsg : (m1.movedFile s newPath r f).sendRenameRequest f.fileNo newPath q =
            some (sendIOnode { node with storedFiles := s' } [.int RENAME, .long f.fileNo, .str newPath]) := by
          unfold sendRenameRequest
          rw [show (m1.movedFile s newPath r f).nodes q = m1.nodes q from rfl, hs']
          rfl
        rw [hmsg] at hsend
        cases hsend
        show IOnodeTask node _ ∈ allocatedOn IONODE_COMMUNICATE_QUEUE_NUM (ops ++ ops' ++ sendResponse o [.int SUCCESS])
        rw [allocatedOn_append, allocatedOn_append]
        apply List.mem_append_left
        apply List.mem_append_right
        exact hsub _ _ List.mem_cons_self

/-- **When a local rename moves exactly one entry.** -/
theorem renamesRight_iff : m.RenamesRight o oldPath newPath ↔ m.Renamable oldPath newPath := by
  constructor
  · rintro ⟨habsent, hsame, hmoved⟩
    cases hst : m.fileStatPool.find? oldPath with
    | none =>
        obtain ⟨out, hout, -, hreply⟩ := habsent hst
        exact absurd (parseRename_reply hout) hreply
    | some s =>
        have hpresent : m.fileStatPool.find? oldPath ≠ none := by
          rw [hst]
          exact Option.some_ne_none s
        by_cases hne : oldPath = newPath
        · obtain ⟨out, hout, -⟩ := hsame hpresent hne
          rw [← hne, parseRename_self hpresent] at hout
          cases hout
        · obtain ⟨out, hout, -⟩ := hmoved s hst hne
          exact renamable_of_parseRename hst hne hout
  · intro h
    refine ⟨fun hst => absurd hst h.present, fun _ heq => absurd heq h.ne, ?_⟩
    intro s hst hne
    exact h.renames hst o

end Rename

/-- A Master with the file `/b`. -/
def masterWithB : Master := (initial OrdMap.empty 0 [] 0).createNewFileStat ⟨0, 0, 0⟩ [47, 98] .notExist S_IFREG

/-- `/a` does not exist and is renamed to `/b`: the file `/b` is gone, and the answer is `SUCCESS`. -/
theorem rename_absent_removes_target :
    masterWithB.fileStatPool.find? pathA = none ∧ (masterWithB.fileStatPool.find? [47, 98]).isSome ∧
      (∃ out, masterWithB.parseRename ⟨3, 0⟩ pathA [47, 98] MYSELF = some out ∧ out.master.fileStatPool.find? [47, 98] = none) ∧
      ¬ masterWithB.RenamesRight ⟨3, 0⟩ pathA [47, 98] := by
  have hst : masterWithB.fileStatPool.find? pathA = none := rfl
  refine ⟨hst, rfl, ⟨_, rfl, rfl⟩, ?_⟩
  rintro ⟨habsent, -, -⟩
  obtain ⟨out, hout, -, hreply⟩ := habsent hst
  exact hreply (parseRename_reply hout)

end Master

end HuronFS
