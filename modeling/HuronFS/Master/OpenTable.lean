import HuronFS.Lib.Run
import HuronFS.Master.TablesSpec
import Mathlib.Data.Set.Function
import Mathlib.Data.List.Perm.Subperm

/-!
# `Master.OpenTable` — the open-file table over whole runs

`TableSound` is what the five structures of the open-file table owe each other: the path entries, the
file-number map, the pool of numbers, the counter and the back pointers. `TableInv` is the inductive
form of it. Each request keeps it, unless an open has to create an `open_file_info` with no IOnode
registered (the exception path releases the number and leaves every other entry) or with no number left
for a known path (the `-1` is not checked), or the request dereferences a pointer that is not there.
-/

namespace HuronFS

namespace Master

/-- The `opened_file_info` of a path. -/
def openedAt (m : Master) (path : Str) : Option FileRef :=
  (m.fileStatPool.find? path).bind FileStat.openedFileInfo

/-- **The open-file table is sound.** -/
structure TableSound (m : Master) : Prop where
  /-- a number is taken exactly when `_buffered_files` has it -/
  pool_iff : ∀ n : Nat, m.fileNoPool n = true ↔ ∃ r, m.bufferedFiles.find? (n : Int) = some r
  /-- the counter counts the taken numbers -/
  number : m.fileNumber = m.bufferedFiles.size
  /-- a key is a number of the pool, and its object carries it -/
  key : ∀ n r, m.bufferedFiles.find? n = some r →
    0 ≤ n ∧ n < MAX_FILE_NUMBER ∧ ∃ f, m.files r = some f ∧ f.fileNo = n
  /-- paths with an open file and open files correspond one to one -/
  bijection : Set.BijOn m.openedAt {p | m.openedAt p ≠ none}
    {v | ∃ n r, m.bufferedFiles.find? n = some r ∧ v = some r}
  /-- the object points back at the path's entry -/
  back : ∀ p r, m.openedAt p = some r → ∃ f, m.files r = some f ∧ f.fileStatus = p
  /-- every open file has a registered primary -/
  primary : ∀ n r f, m.bufferedFiles.find? n = some r → m.files r = some f →
    ∃ q, f.primaryReplicaNode = some q ∧ Registered m q

/-- What is kept about one open file. -/
structure FileEntry (m : Master) (n : Int) (r : FileRef) (f : OpenFileInfo) : Prop where
  object : m.files r = some f
  fileNo : f.fileNo = n
  opened : m.openedAt f.fileStatus = some r
  primary : ∃ q, f.primaryReplicaNode = some q ∧ Registered m q
  replicas : ∀ q, OrdSet.Mem f.IOnodesSet q → Registered m q

/-- The inductive invariant behind `TableSound`. -/
structure TableInv (m : Master) : Prop where
  pool_iff : ∀ n : Nat, m.fileNoPool n = true ↔ ∃ r, m.bufferedFiles.find? (n : Int) = some r
  number : m.fileNumber = m.bufferedFiles.size
  range : ∀ n r, m.bufferedFiles.find? n = some r → 0 ≤ n ∧ n < MAX_FILE_NUMBER
  entry : ∀ n r, m.bufferedFiles.find? n = some r → ∃ f, FileEntry m n r f
  opened : ∀ p r, m.openedAt p = some r →
    ∃ f, m.files r = some f ∧ f.fileStatus = p ∧ m.bufferedFiles.find? f.fileNo = some r
  fresh : ∀ r, m.nextFile ≤ r → m.files r = none

namespace TableInv

variable {m m' : Master}

theorem sound (h : TableInv m) : TableSound m := by
  refine ⟨h.pool_iff, h.number, ?_, ?_, ?_, ?_⟩
  · intro n r hr
    obtain ⟨h0, h1⟩ := h.range n r hr
    obtain ⟨f, hf⟩ := h.entry n r hr
    exact ⟨h0, h1, f, hf.object, hf.fileNo⟩
  · refine ⟨?_, ?_, ?_⟩
    · intro p hp
      obtain ⟨r, hr⟩ := Option.ne_none_iff_exists'.mp hp
      obtain ⟨f, _, _, hb⟩ := h.opened p r hr
      exact ⟨f.fileNo, r, hb, hr⟩
    · intro p hp q _ hpq
      obtain ⟨r, hr⟩ := Option.ne_none_iff_exists'.mp hp
      obtain ⟨f, hf, hp', _⟩ := h.opened p r hr
      obtain ⟨g, hg, hq', _⟩ := h.opened q r (hpq ▸ hr)
      have hfg : f = g := Option.some.inj (hf.symm.trans hg)
      rw [← hp', ← hq', hfg]
    · rintro v ⟨n, r, hr, rfl⟩
      obtain ⟨f, hf⟩ := h.entry n r hr
      exact ⟨f.fileStatus, by simp [hf.opened], hf.opened⟩
  · intro p r hr
    obtain ⟨f, hf, hp, _⟩ := h.opened p r hr
    exact ⟨f, hf, hp⟩
  · intro n r f hr hf
    obtain ⟨g, hg⟩ := h.entry n r hr
    have hfg : g = f := Option.some.inj (hg.object.symm.trans hf)
    exact hfg ▸ hg.primary

/-- An open file is entered under its own number. -/
theorem buffered_of_opened (h : TableInv m) {p : Str} {r : FileRef} {f : OpenFileInfo}
    (hp : m.openedAt p = some r) (hf : m.files r = some f) :
    m.bufferedFiles.find? f.fileNo = some r ∧ f.fileStatus = p := by
  obtain ⟨g, hg, hst, hb⟩ := h.opened p r hp
  have hfg : g = f := Option.some.inj (hg.symm.trans hf)
  exact hfg ▸ ⟨hb, hst⟩

/-- Two open files at one address are one file. -/
theorem eq_of_opened (h : TableInv m) {p q : Str} {r : FileRef} (hp : m.openedAt p = some r)
    (hq : m.openedAt q = some r) : p = q := by
  obtain ⟨f, hf, hst, _⟩ := h.opened p r hp
  exact hst.symm.trans (h.buffered_of_opened hq hf).2

/-- A change that leaves the table's own fields, and every path's open file, as they are. -/
theorem of_frame (h : TableInv m) (hpool : m'.fileNoPool = m.fileNoPool) (hnum : m'.fileNumber = m.fileNumber)
    (hbuf : m'.bufferedFiles = m.bufferedFiles) (hfiles : m'.files = m.files) (hnext : m'.nextFile = m.nextFile)
    (hopen : ∀ p, m'.openedAt p = m.openedAt p) (hreg : ∀ q, Registered m q → Registered m' q) :
    TableInv m' := by
  refine ⟨?_, ?_, ?_, ?_, ?_, ?_⟩
  · rw [hpool, hbuf]; exact h.pool_iff
  · rw [hnum, hbuf]; exact h.number
  · rw [hbuf]; exact h.range
  · intro n r hr
    rw [hbuf] at hr
    obtain ⟨f, hf⟩ := h.entry n r hr
    refine ⟨f, ?_, hf.fileNo, ?_, ?_, fun q hq => hreg q (hf.replicas q hq)⟩
    · rw [hfiles]; exact hf.object
    · rw [hopen]; exact hf.opened
    · obtain ⟨q, hq, hq'⟩ := hf.primary
      exact ⟨q, hq, hreg q hq'⟩
  · intro p r hp
    rw [hopen] at hp
    rw [hfiles, hbuf]
    exact h.opened p r hp
  · rw [hnext, hfiles]; exact h.fresh

theorem of_touched (h : TableInv m) (ht : NodesTouched m m') : TableInv m' := by
  refine h.of_frame ht.fileNoPool_eq ht.fileNumber_eq ht.buffered_eq ht.files_eq ht.nextFile_eq ?_ ?_
  · intro p
    unfold openedAt
    rw [ht.pool_eq]
  · intro q hq
    exact ht.registered_iff.mpr hq

end TableInv

theorem openedAt_put (m : Master) (p q : Str) (s : FileStat) :
    { m with fileStatPool := m.fileStatPool.put p s }.openedAt q
      = if q = p then s.openedFileInfo else m.openedAt q := by
  unfold openedAt
  simp only [OrdMap.find?_put]
  split <;> rfl

theorem openedAt_erase (m : Master) (p q : Str) :
    { m with fileStatPool := m.fileStatPool.erase p }.openedAt q = if q = p then none else m.openedAt q := by
  unfold openedAt
  simp only [OrdMap.find?_erase]
  split <;> rfl

theorem openedAt_of_find {m : Master} {p : Str} {s : FileStat} (h : m.fileStatPool.find? p = some s) :
    m.openedAt p = s.openedFileInfo := by
  unfold openedAt
  rw [h]; rfl

theorem openedAt_of_none {m : Master} {p : Str} (h : m.fileStatPool.find? p = none) : m.openedAt p = none := by
  unfold openedAt
  rw [h]; rfl

/-- Writing a path entry that keeps its open file. -/
theorem openedAt_setStat_same {m : Master} {p : Str} {s : FileStat} (h : s.openedFileInfo = m.openedAt p) (q : Str) :
    (m.setStat p s).openedAt q = m.openedAt q := by
  have hput := openedAt_put m p q s
  by_cases hq : q = p
  · rw [if_pos hq] at hput
    rw [hq] at hput ⊢
    exact hput.trans h
  · rw [if_neg hq] at hput
    exact hput

namespace TableInv

variable {m m' : Master}

theorem setStat_same (h : TableInv m) {p : Str} {s : FileStat} (hs : s.openedFileInfo = m.openedAt p) :
    TableInv (m.setStat p s) :=
  h.of_frame rfl rfl rfl rfl rfl (openedAt_setStat_same hs) (fun _ hq => hq)

/-- Rewriting an open file's other fields. -/
theorem setFile_same (h : TableInv m) {r : FileRef} {f f' : OpenFileInfo} (hf : m.files r = some f)
    (hno : f'.fileNo = f.fileNo) (hst : f'.fileStatus = f.fileStatus)
    (hpri : f'.primaryReplicaNode = f.primaryReplicaNode) (hset : f'.IOnodesSet = f.IOnodesSet) :
    TableInv (m.setFile r f') := by
  refine ⟨h.pool_iff, h.number, h.range, ?_, ?_, ?_⟩
  · intro n q hq
    obtain ⟨g, hg⟩ := h.entry n q hq
    by_cases hqr : q = r
    · subst hqr
      have hgf : g = f := Option.some.inj (hg.object.symm.trans hf)
      subst hgf
      refine ⟨f', ⟨by simp, hno.trans hg.fileNo, ?_, ?_, ?_⟩⟩
      · rw [hst]; exact hg.opened
      · rw [hpri]; exact hg.primary
      · rw [hset]; exact hg.replicas
    · exact ⟨g, ⟨by simpa [Function.update_of_ne hqr] using hg.object, hg.fileNo, hg.opened, hg.primary,
        hg.replicas⟩⟩
  · intro p q hp
    obtain ⟨g, hg, hgp, hb⟩ := h.opened p q hp
    by_cases hqr : q = r
    · subst hqr
      have hgf : g = f := Option.some.inj (hg.symm.trans hf)
      subst hgf
      refine ⟨f', by simp, hst.trans hgp, ?_⟩
      rw [hno]; exact hb
    · exact ⟨g, by simpa [Function.update_of_ne hqr] using hg, hgp, hb⟩
  · intro q hq
    have hqr : q ≠ r := fun hc => by rw [hc] at hq; rw [h.fresh r hq] at hf; cases hf
    simpa [Function.update_of_ne hqr] using h.fresh q hq

end TableInv

/-! ## Opening -/

/-- The table after a new open file: `m1` is the state `m` with number `n` taken and, for a new path,
    its entry made. -/
theorem TableInv.create {m m' : Master} {n : Nat} {flag : BitVec 32} {path : Str} {ops : List QueueOp}
    {r : FileRef} (h : TableInv m) (m1 : Master) (hn : n < MAX_FILE_NUMBER) (hfree : m.fileNoPool n = false)
    (hpool : m1.fileNoPool = Function.update m.fileNoPool n true) (hnum : m1.fileNumber = m.fileNumber + 1)
    (hbuf : m1.bufferedFiles = m.bufferedFiles) (hfiles : m1.files = m.files) (hnext : m1.nextFile = m.nextFile)
    (hreg : m1.registeredIOnodes = m.registeredIOnodes) (hopen : ∀ p, m1.openedAt p = m.openedAt p)
    (hpath : m.openedAt path = none)
    (hc : m1.createNewOpenFileInfo n flag path = some (m', ops, .ok r)) :
    TableInv m' ∧ m'.bufferedFiles.find? (n : Int) = some r ∧ ∃ f, m'.files r = some f := by
  obtain ⟨stat, main, pool, m2, hst, hr, ht, hmain, hreplica, hm'⟩ := createNewOpenFileInfo_ok hc
  have hkey : m.bufferedFiles.find? (n : Int) = none := by
    cases hf : m.bufferedFiles.find? (n : Int) with
    | none => rfl
    | some q =>
        have := (h.pool_iff n).mpr ⟨q, hf⟩
        rw [hfree] at this; cases this
  -- the fields of the final state
  have hbuf' : m'.bufferedFiles = m.bufferedFiles.put n r := by
    rw [hm', setFile_buffered, ht.buffered_eq]
    show m1.bufferedFiles.insert (n : Int) m1.nextFile = _
    rw [hbuf, OrdMap.insert_of_none hkey, hr]
  have hfiles' : ∀ q, q ≠ r → m'.files q = m.files q := by
    intro q hq
    rw [hm', setFile_files, Function.update_of_ne hq, ht.files_eq]
    show Function.update m1.files m1.nextFile _ q = _
    rw [Function.update_of_ne (by rw [← hr]; exact hq), hfiles]
  have hfile' : m'.files r = some (placedFile n flag path stat.status.stSize main pool) := by
    rw [hm', setFile_files]; simp
  have hopen' : ∀ p, m'.openedAt p = if p = path then some r else m.openedAt p := by
    intro p
    have h2 : m'.openedAt p = (m1.enterOpenFile n flag path stat).openedAt p := by
      unfold openedAt
      rw [hm', setFile_pool, ht.pool_eq]
    have h3 : (m1.enterOpenFile n flag path stat).openedAt p
        = if p = path then some m1.nextFile else m1.openedAt p :=
      openedAt_put m1 path p { stat with openedFileInfo := some m1.nextFile }
    rw [h2, h3, hopen p, hr]
  have hreg' : ∀ q, Registered m' q ↔ Registered m q := by
    intro q
    have hm2 : m'.registeredIOnodes = m2.registeredIOnodes := by rw [hm']; rfl
    unfold Registered
    rw [hm2, ht.registered_eq]
    show (∃ id, m1.registeredIOnodes.find? id = some q) ↔ _
    rw [hreg]
  have hregm : ∀ q, Registered m1 q → Registered m q := by
    intro q hq
    unfold Registered at hq ⊢
    rw [← hreg]; exact hq
  have hfresh : m.files r = none := h.fresh r (by rw [hr, hnext])
  refine ⟨⟨?_, ?_, ?_, ?_, ?_, ?_⟩, by rw [hbuf']; simp, _, hfile'⟩
  · intro k
    have hpool' : m'.fileNoPool = Function.update m.fileNoPool n true := by
      have h2 : m'.fileNoPool = m2.fileNoPool := by rw [hm']; rfl
      rw [h2, ht.fileNoPool_eq]
      exact hpool
    rw [hpool', hbuf', OrdMap.find?_put]
    by_cases hk : k = n
    · subst hk; simp
    · rw [Function.update_of_ne hk, if_neg (by omega)]
      exact h.pool_iff k
  · have hnum' : m'.fileNumber = m2.fileNumber := by rw [hm']; rfl
    rw [hnum', ht.fileNumber_eq, hbuf', OrdMap.size_put_of_none hkey]
    show m1.fileNumber = _
    rw [hnum, h.number]
    push_cast; rfl
  · intro k q hq
    rw [hbuf', OrdMap.find?_put] at hq
    by_cases hk : k = (n : Int)
    · subst hk
      exact ⟨by omega, by unfold MAX_FILE_NUMBER at hn ⊢; omega⟩
    · rw [if_neg hk] at hq
      exact h.range k q hq
  · intro k q hq
    rw [hbuf', OrdMap.find?_put] at hq
    by_cases hk : k = (n : Int)
    · rw [if_pos hk] at hq
      cases hq
      refine ⟨_, ⟨hfile', hk.symm, ?_, ⟨main, rfl, (hreg' main).mpr (hregm main hmain)⟩, ?_⟩⟩
      · show m'.openedAt path = some r
        rw [hopen', if_pos rfl]
      · intro q hq
        exact (hreg' q).mpr (hregm q (hreplica q hq))
    · rw [if_neg hk] at hq
      obtain ⟨f, hf⟩ := h.entry k q hq
      have hqr : q ≠ r := fun hc => by
        have := hf.object
        rw [hc, hfresh] at this; cases this
      have hsp : f.fileStatus ≠ path := fun hc => by
        have := hf.opened
        rw [hc, hpath] at this; cases this
      refine ⟨f, ⟨(hfiles' q hqr).trans hf.object, hf.fileNo, ?_, ?_, ?_⟩⟩
      · rw [hopen', if_neg hsp]; exact hf.opened
      · obtain ⟨x, hx, hx'⟩ := hf.primary
        exact ⟨x, hx, (hreg' x).mpr hx'⟩
      · intro x hx
        exact (hreg' x).mpr (hf.replicas x hx)
  · intro p q hp
    rw [hopen'] at hp
    by_cases hpp : p = path
    · rw [if_pos hpp] at hp
      cases hp
      refine ⟨_, hfile', hpp.symm, ?_⟩
      show m'.bufferedFiles.find? (n : Int) = some r
      rw [hbuf']; simp
    · rw [if_neg hpp] at hp
      obtain ⟨f, hf, hst', hb⟩ := h.opened p q hp
      have hqr : q ≠ r := fun hc => by rw [hc, hfresh] at hf; cases hf
      have hno : f.fileNo ≠ (n : Int) := fun hc => by rw [hc, hkey] at hb; cases hb
      refine ⟨f, (hfiles' q hqr).trans hf, hst', ?_⟩
      rw [hbuf', OrdMap.find?_put, if_neg hno]
      exact hb
  · intro q hq
    have hnext' : m'.nextFile = m.nextFile + 1 := by
      have h2 : m'.nextFile = m2.nextFile := by rw [hm']; rfl
      rw [h2, ht.nextFile_eq]
      show m1.nextFile + 1 = _
      rw [hnext]
    rw [hnext'] at hq
    have hqr : q ≠ r := by
      rw [hr, hnext]
      exact Nat.ne_of_gt hq
    rw [hfiles' q hqr]
    exact h.fresh q (Nat.le_of_succ_le hq)

theorem length_ge_of_all_mem {keys : List Int} {limit : Nat} (h : ∀ n : Nat, n < limit → (n : Int) ∈ keys) :
    limit ≤ keys.length := by
  have hsub : (List.range limit).map (fun k : Nat => (k : Int)) ⊆ keys := by
    intro k hk
    obtain ⟨n, hn, rfl⟩ := List.mem_map.mp hk
    exact h n (List.mem_range.mp hn)
  have hnodup : ((List.range limit).map (fun k : Nat => (k : Int))).Nodup :=
    List.Nodup.map (fun a b hab => Int.ofNat.inj hab) List.nodup_range
  have hle := (List.subperm_of_subset hnodup hsub).length_le
  rwa [List.length_map, List.length_range] at hle

/-- With a number left, `_get_file_no` hands one out. -/
theorem TableInv.exists_free {m : Master} (h : TableInv m) (hlt : m.fileNumber < MAX_FILE_NUMBER) :
    ∃ n, n < MAX_FILE_NUMBER ∧ m.fileNoPool n = false ∧ m.getFileNo = ((n : Int), m.takeFileNo n) := by
  rcases getFileNo_cases m with ⟨n, hn, hfree, _, hg⟩ | ⟨c, hfull, _⟩
  · exact ⟨n, hn, hfree, hg⟩
  · -- otherwise every number is a key, and there are at least as many keys as numbers
    exfalso
    have hall : ∀ n, n < MAX_FILE_NUMBER → m.fileNoPool n = true := by
      rcases hfull with hc | hc
      · rw [hc] at hlt; exact absurd hlt (lt_irrefl _)
      · exact hc
    have hle := length_ge_of_all_mem (fun n hn => OrdMap.mem_keys.mpr ((h.pool_iff n).mp (hall n hn)))
    rw [← OrdMap.size_eq_keys_length] at hle
    have hnum := h.number
    omega

/-- The two invariants of a run, together. -/
structure OpenInv (m : Master) : Prop where
  table : TableInv m
  nodes : NodeInv m

/-- What an open needs to leave the table sound: when it creates an `open_file_info`, an IOnode to put
    the file on and, for a path that is already known, a number that is left. -/
def OpensSafely (m : Master) (path : Str) : Prop :=
  match m.fileStatPool.find? path with
  | none => m.fileNumber = MAX_FILE_NUMBER ∨ m.registeredIOnodes.size ≠ 0
  | some s => s.isExternal = true ∨ s.openedFileInfo ≠ none ∨
      (m.fileNumber < MAX_FILE_NUMBER ∧ m.registeredIOnodes.size ≠ 0)

theorem createNewOpenFileInfo_nodeInv {m m' : Master} {fileNo : Int} {flag : BitVec 32} {path : Str}
    {ops : List QueueOp} {r : FileRef} (hm : NodeInv m)
    (h : m.createNewOpenFileInfo fileNo flag path = some (m', ops, .ok r)) : NodeInv m' := by
  obtain ⟨stat, main, pool, m2, _, _, ht, _, _, hm'⟩ := createNewOpenFileInfo_ok h
  have hm1 : NodeInv (m.enterOpenFile fileNo flag path stat) := ⟨hm.live, hm.idTaken, hm.cursor, hm.fresh⟩
  have hm2 := ht.nodeInv hm1
  rw [hm']
  exact ⟨hm2.live, hm2.idTaken, hm2.cursor, hm2.fresh⟩

/-- An open of a path that is not external has a result and keeps the invariants; a number it returns
    is in `_buffered_files`. -/
theorem OpenInv.openFile {m : Master} (h : OpenInv m) {path : Str} (hsafe : OpensSafely m path)
    (hext : ∀ s, m.fileStatPool.find? path = some s → s.isExternal = false) (e : Env) (flag mode : BitVec 32) :
    ∃ m' ops res, m.openFile e path flag mode = some (m', ops, res) ∧ OpenInv m' ∧
      ∀ n, res = .ok n → ∃ r, m'.bufferedFiles.find? n = some r := by
  cases hst : m.fileStatPool.find? path with
  | none =>
      simp only [OpensSafely, hst] at hsafe
      rcases getFileNo_cases m with ⟨n, hn, hfree, hne, hg⟩ | ⟨c, _, hg⟩
      · have hsize : m.registeredIOnodes.size ≠ 0 := hsafe.resolve_left hne
        let m1 := (m.takeFileNo n).createNewFileStat e path .notExist (S_IFREG ||| mode)
        have hm1 : NodeInv m1 := ⟨h.nodes.live, h.nodes.idTaken, h.nodes.cursor, h.nodes.fresh⟩
        obtain ⟨m', ops, hc⟩ := createNewOpenFileInfo_progress hm1 (OrdMap.find?_put_self _ _ _) hsize (n : Int) flag
        have hopen : ∀ p, m1.openedAt p = m.openedAt p := by
          refine openedAt_setStat_same (m := m.takeFileNo n) ?_
          show ((m.fileStatPool.find? path).getD (defaultStat path)).openedFileInfo = m.openedAt path
          rw [openedAt_of_none hst, hst]; rfl
        obtain ⟨htab, hbuf, _⟩ := h.table.create m1 hn hfree rfl rfl rfl rfl rfl rfl hopen
          (openedAt_of_none hst) hc
        refine ⟨m', ops, .ok (n : Int), ?_, ⟨htab, createNewOpenFileInfo_nodeInv hm1 hc⟩, ?_⟩
        · have hne1 : (n : Int) ≠ -1 := by omega
          simp only [Master.openFile, hst, hg, if_pos hne1]
          rw [hc]
        · intro k hk
          cases hk
          exact ⟨_, hbuf⟩
      · refine ⟨{ m with currentFileNo := c }, [], .error .badAlloc, ?_, ⟨?_, ?_⟩, by intro n hn; cases hn⟩
        · simp only [Master.openFile, hst, hg]; rfl
        · exact h.table.of_frame rfl rfl rfl rfl rfl (fun _ => rfl) (fun _ hq => hq)
        · exact ⟨h.nodes.live, h.nodes.idTaken, h.nodes.cursor, h.nodes.fresh⟩
  | some s =>
      simp only [OpensSafely, hst] at hsafe
      cases ho : s.openedFileInfo with
      | none =>
          obtain ⟨hlt, hsize⟩ : m.fileNumber < MAX_FILE_NUMBER ∧ m.registeredIOnodes.size ≠ 0 := by
            rcases hsafe with hc | hc | hc
            · rw [hext s hst] at hc; cases hc
            · exact absurd ho hc
            · exact hc
          obtain ⟨n, hn, hfree, hg⟩ := h.table.exists_free hlt
          have hm1 : NodeInv (m.takeFileNo n) := ⟨h.nodes.live, h.nodes.idTaken, h.nodes.cursor, h.nodes.fresh⟩
          have hst1 : (m.takeFileNo n).fileStatPool.find? path = some s := hst
          obtain ⟨m2, ops, hc⟩ := createNewOpenFileInfo_progress hm1 hst1 hsize (n : Int) flag
          have hpath : m.openedAt path = none := (openedAt_of_find hst).trans ho
          obtain ⟨htab, hbuf, f, hf⟩ := h.table.create (m.takeFileNo n) hn hfree rfl rfl rfl rfl rfl rfl
            (fun _ => rfl) hpath hc
          have hm2 := createNewOpenFileInfo_nodeInv hm1 hc
          refine ⟨m2.setFile m.nextFile { f with openCount := f.openCount + 1 }, ops, .ok (n : Int), ?_, ⟨?_, ?_⟩, ?_⟩
          · have hadd : m2.addOpenCount (m.takeFileNo n).nextFile
                = some (m2.setFile m.nextFile { f with openCount := f.openCount + 1 }) := by
              simp only [addOpenCount, hf]; rfl
            simp only [Master.openFile, hst, ho, hg, hc, hadd]
          · exact htab.setFile_same hf rfl rfl rfl rfl
          · exact ⟨hm2.live, hm2.idTaken, hm2.cursor, hm2.fresh⟩
          · intro k hk
            cases hk
            exact ⟨_, hbuf⟩
      | some r =>
          have hop : m.openedAt path = some r := (openedAt_of_find hst).trans ho
          obtain ⟨f, hf, _, hb⟩ := h.table.opened path r hop
          refine ⟨m.setFile r { f with openCount := f.openCount + 1 }, [], .ok f.fileNo, ?_, ⟨?_, ?_⟩, ?_⟩
          · simp only [Master.openFile, hst, ho, hf]
          · exact h.table.setFile_same hf rfl rfl rfl rfl
          · exact ⟨h.nodes.live, h.nodes.idTaken, h.nodes.cursor, h.nodes.fresh⟩
          · intro k hk
            cases hk
            exact ⟨r, hb⟩

/-! ## Removal -/

/-- The state after an open file and its path entry are gone. -/
theorem TableInv.remove {m m1 : Master} {path : Str} {r : FileRef} {f : OpenFileInfo} (h : TableInv m)
    (hop : m.openedAt path = some r) (hf : m.files r = some f) (ht : NodesTouched m m1) :
    TableInv { m1.dropOpenFile r f.fileNo with fileStatPool := m1.fileStatPool.erase path } := by
  obtain ⟨hb, hst⟩ := h.buffered_of_opened hop hf
  obtain ⟨h0, hmax⟩ := h.range _ _ hb
  have hopen : ∀ q, { m1.dropOpenFile r f.fileNo with fileStatPool := m1.fileStatPool.erase path }.openedAt q
      = if q = path then none else m.openedAt q := by
    intro q
    have := openedAt_erase m path q
    unfold openedAt at this ⊢
    simp only [ht.pool_eq]
    exact this
  have hbuf : (m1.dropOpenFile r f.fileNo).bufferedFiles = m.bufferedFiles.erase f.fileNo := by
    show m1.bufferedFiles.erase f.fileNo = _
    rw [ht.buffered_eq]
  have hfiles : (m1.dropOpenFile r f.fileNo).files = Function.update m.files r none := by
    show Function.update m1.files r none = _
    rw [ht.files_eq]
  -- any other number names another object, which keeps its path
  have hother : ∀ n q, n ≠ f.fileNo → m.bufferedFiles.find? n = some q → q ≠ r := by
    intro n q hn hq hc
    obtain ⟨g, hg⟩ := h.entry n q hq
    have hgf : g = f := Option.some.inj (hg.object.symm.trans (hc ▸ hf))
    exact hn (hg.fileNo.symm.trans (by rw [hgf]))
  refine ⟨?_, ?_, ?_, ?_, ?_, ?_⟩
  · intro k
    show Function.update m1.fileNoPool f.fileNo.toNat false k = true ↔
      ∃ q, (m1.dropOpenFile r f.fileNo).bufferedFiles.find? (k : Int) = some q
    rw [hbuf, ht.fileNoPool_eq, OrdMap.find?_erase]
    by_cases hk : k = f.fileNo.toNat
    · have hk' : (k : Int) = f.fileNo := by omega
      rw [if_pos hk', hk]
      simp
    · have hk' : (k : Int) ≠ f.fileNo := by omega
      rw [if_neg hk', Function.update_of_ne hk]
      exact h.pool_iff k
  · show m1.fileNumber - 1 = ((m1.dropOpenFile r f.fileNo).bufferedFiles.size : Int)
    have hsize := OrdMap.size_erase_of_some hb
    have hnum := h.number
    rw [hbuf, ht.fileNumber_eq]
    omega
  · intro n q hq
    have hq' : (m.bufferedFiles.erase f.fileNo).find? n = some q := hbuf ▸ hq
    rw [OrdMap.find?_erase] at hq'
    split at hq'
    · cases hq'
    · exact h.range n q hq'
  · intro n q hq
    have hq' : (m.bufferedFiles.erase f.fileNo).find? n = some q := hbuf ▸ hq
    rw [OrdMap.find?_erase] at hq'
    split at hq'
    · cases hq'
    · rename_i hn
      obtain ⟨g, hg⟩ := h.entry n q hq'
      have hqr := hother n q hn hq'
      refine ⟨g, ⟨?_, hg.fileNo, ?_, ?_, ?_⟩⟩
      · show (m1.dropOpenFile r f.fileNo).files q = some g
        rw [hfiles, Function.update_of_ne hqr]; exact hg.object
      · rw [hopen, if_neg]
        · exact hg.opened
        · intro hc
          have hgo := hg.opened
          rw [hc, hop] at hgo
          exact hqr (Option.some.inj hgo).symm
      · obtain ⟨x, hx, hx'⟩ := hg.primary
        exact ⟨x, hx, ht.registered_iff.mpr hx'⟩
      · intro x hx
        exact ht.registered_iff.mpr (hg.replicas x hx)
  · intro p q hp
    rw [hopen] at hp
    split at hp
    · cases hp
    · rename_i hpp
      obtain ⟨g, hg, hgp, hgb⟩ := h.opened p q hp
      have hqr : q ≠ r := fun hc => hpp (h.eq_of_opened (hc ▸ hp) hop)
      have hno : g.fileNo ≠ f.fileNo := fun hc => by
        rw [hc, hb] at hgb
        exact hqr (Option.some.inj hgb).symm
      refine ⟨g, ?_, hgp, ?_⟩
      · show (m1.dropOpenFile r f.fileNo).files q = some g
        rw [hfiles, Function.update_of_ne hqr]; exact hg
      · show (m1.dropOpenFile r f.fileNo).bufferedFiles.find? g.fileNo = some q
        rw [hbuf, OrdMap.find?_erase_ne _ hno]; exact hgb
  · intro q hq
    have hq' : m.nextFile ≤ q := by
      have : (m1.dropOpenFile r f.fileNo).nextFile = m.nextFile := ht.nextFile_eq
      rw [← this]; exact hq
    have hqr : q ≠ r := fun hc => by rw [hc] at hq'; rw [h.fresh r hq'] at hf; cases hf
    show (m1.dropOpenFile r f.fileNo).files q = none
    rw [hfiles, Function.update_of_ne hqr]
    exact h.fresh q hq'

/-- Every node of an open file exists. -/
theorem OpenInv.file_nodes {m : Master} (h : OpenInv m) {path : Str} {r : FileRef}
    (hop : m.openedAt path = some r) : ∃ f primary, m.files r = some f ∧ f.primaryReplicaNode = some primary ∧
      (∀ q ∈ primary :: f.IOnodesSet.keys, ∃ n, m.nodes q = some n) ∧ 0 ≤ f.fileNo ∧ f.fileNo < MAX_FILE_NUMBER := by
  obtain ⟨f, hf, _, hb⟩ := h.table.opened path r hop
  obtain ⟨g, hg⟩ := h.table.entry _ _ hb
  have hgf : g = f := Option.some.inj (hg.object.symm.trans hf)
  subst hgf
  obtain ⟨primary, hp, hreg⟩ := hg.primary
  obtain ⟨h0, h1⟩ := h.table.range _ _ hb
  refine ⟨g, primary, hf, hp, ?_, h0, h1⟩
  intro q hq
  rcases List.mem_cons.mp hq with hq | hq
  · exact h.nodes.exists_node (hq ▸ hreg)
  · exact h.nodes.exists_node (hg.replicas q (OrdSet.mem_keys.mp hq))

/-- `_remove_file` has a result, keeps the invariants, and removes this path's entry only. -/
theorem OpenInv.removeFile {m : Master} (h : OpenInv m) (path : Str) :
    ∃ m' ops found, m.removeFile path = some (m', ops, found) ∧ OpenInv m' ∧
      m'.fileStatPool = m.fileStatPool.erase path ∧ m'.registeredIOnodes = m.registeredIOnodes := by
  cases hst : m.fileStatPool.find? path with
  | none =>
      refine ⟨m, [], false, by simp only [Master.removeFile, hst], h, ?_, rfl⟩
      rw [OrdMap.erase_of_none hst]
  | some s =>
      cases ho : s.openedFileInfo with
      | none =>
          refine ⟨{ m with fileStatPool := m.fileStatPool.erase path }, [], true,
            by simp only [Master.removeFile, hst, ho], ⟨?_, ?_⟩, rfl, rfl⟩
          · refine h.table.of_frame rfl rfl rfl rfl rfl ?_ (fun _ hq => hq)
            intro q
            rw [openedAt_erase]
            split
            · rename_i hq
              rw [hq, openedAt_of_find hst, ho]
            · rfl
          · exact ⟨h.nodes.live, h.nodes.idTaken, h.nodes.cursor, h.nodes.fresh⟩
      | some r =>
          have hop : m.openedAt path = some r := (openedAt_of_find hst).trans ho
          obtain ⟨f, primary, hf, hp, hnodes, h0, h1⟩ := h.file_nodes hop
          obtain ⟨⟨m1, ops⟩, hrem⟩ := removeOpenFile_progress hf hp hnodes h0 h1
          obtain ⟨f', m2, hf', ht, hm1⟩ := removeOpenFile_some hrem
          have hff : f' = f := Option.some.inj (hf'.symm.trans hf)
          subst hff
          refine ⟨{ m1 with fileStatPool := m1.fileStatPool.erase path }, ops, true, ?_, ⟨?_, ?_⟩, ?_, ?_⟩
          · simp only [Master.removeFile, hst, ho, hrem]
          · rw [hm1]
            exact h.table.remove hop hf ht
          · have hn := ht.nodeInv h.nodes
            rw [hm1]
            exact ⟨hn.live, hn.idTaken, hn.cursor, hn.fresh⟩
          · rw [hm1]
            show m2.fileStatPool.erase path = _
            rw [ht.pool_eq]
          · rw [hm1]
            exact ht.registered_eq

/-! ## Rename -/

/-- The table after the entry at `oldPath`, with its open file, moved to the free path `newPath`. -/
theorem TableInv.move {m : Master} {oldPath newPath : Str} {r : FileRef} {f : OpenFileInfo} {s : FileStat}
    (h : TableInv m) (hop : m.openedAt oldPath = some r) (hf : m.files r = some f)
    (hs : s.openedFileInfo = some r) (hnew : m.openedAt newPath = none) :
    TableInv { m with
      files := Function.update m.files r (some { f with fileStatus := newPath })
      fileStatPool := (m.fileStatPool.put newPath s).erase oldPath } := by
  obtain ⟨hb, _⟩ := h.buffered_of_opened hop hf
  have hne : oldPath ≠ newPath := fun hc => by rw [hc, hnew] at hop; cases hop
  have hopen : ∀ q, { m with
      files := Function.update m.files r (some { f with fileStatus := newPath })
      fileStatPool := (m.fileStatPool.put newPath s).erase oldPath }.openedAt q
      = if q = oldPath then none else if q = newPath then some r else m.openedAt q := by
    intro q
    unfold openedAt
    simp only [OrdMap.find?_erase, OrdMap.find?_put]
    split
    · rfl
    · split
      · exact hs
      · rfl
  refine ⟨h.pool_iff, h.number, h.range, ?_, ?_, ?_⟩
  · intro n q hq
    obtain ⟨g, hg⟩ := h.entry n q hq
    by_cases hqr : q = r
    · subst hqr
      have hgf : g = f := Option.some.inj (hg.object.symm.trans hf)
      subst hgf
      refine ⟨{ g with fileStatus := newPath }, ⟨by simp, hg.fileNo, ?_, hg.primary, hg.replicas⟩⟩
      rw [hopen, if_neg (Ne.symm hne), if_pos rfl]
    · refine ⟨g, ⟨by simpa [Function.update_of_ne hqr] using hg.object, hg.fileNo, ?_, hg.primary, hg.replicas⟩⟩
      have hgo := hg.opened
      have h1 : g.fileStatus ≠ oldPath := fun hc => by
        rw [hc, hop] at hgo; exact hqr (Option.some.inj hgo).symm
      have h2 : g.fileStatus ≠ newPath := fun hc => by rw [hc, hnew] at hgo; cases hgo
      rw [hopen, if_neg h1, if_neg h2]
      exact hgo
  · intro p q hp
    rw [hopen] at hp
    split at hp
    · cases hp
    · rename_i hold
      split at hp
      · rename_i hpn
        cases hp
        exact ⟨{ f with fileStatus := newPath }, by simp, hpn.symm, hb⟩
      · obtain ⟨g, hg, hgp, hgb⟩ := h.opened p q hp
        have hqr : q ≠ r := fun hc => hold (h.eq_of_opened (hc ▸ hp) hop)
        exact ⟨g, by simpa [Function.update_of_ne hqr] using hg, hgp, hgb⟩
  · intro q hq
    have hqr : q ≠ r := fun hc => by
      have := h.fresh q hq
      rw [hc, hf] at this; cases this
    simpa [Function.update_of_ne hqr] using h.fresh q hq

/-- The local rename of `_parse_rename`, old and new path being different or the old one absent. -/
theorem OpenInv.renameTables {m : Master} (h : OpenInv m) (oldPath newPath : Str) (newMaster : Int)
    (hself : ¬ (newMaster = MYSELF ∧ oldPath = newPath ∧ m.fileStatPool.find? oldPath ≠ none)) :
    ∃ m' ops, m.renameTables oldPath newPath newMaster = some (m', ops) ∧ OpenInv m' := by
  cases hst : m.fileStatPool.find? oldPath with
  | none =>
      by_cases hmy : newMaster = MYSELF
      · obtain ⟨m', ops, found, hrem, hinv, _⟩ := h.removeFile newPath
        refine ⟨m', ops, ?_, hinv⟩
        simp only [Master.renameTables, hst, if_pos hmy, hrem]
        rfl
      · exact ⟨m, [], by simp only [Master.renameTables, hst, if_neg hmy], h⟩
  | some s =>
      by_cases hmy : newMaster = MYSELF
      · have hne : oldPath ≠ newPath := fun hc => hself ⟨hmy, hc, by rw [hst]; simp⟩
        obtain ⟨m1, ops, found, hrem, hinv, hpool, hreg⟩ := h.removeFile newPath
        have hst1 : m1.fileStatPool.find? oldPath = some s := by
          rw [hpool, OrdMap.find?_erase_ne _ hne]; exact hst
        have hnew : m1.fileStatPool.find? newPath = none := by
          rw [hpool]; exact OrdMap.find?_erase_self _ _
        cases ho : s.openedFileInfo with
        | none =>
            refine ⟨{ m1.setStat newPath { s with fullPath := newPath } with
              fileStatPool := (m1.fileStatPool.put newPath { s with fullPath := newPath }).erase oldPath },
              ops ++ [], ?_, ⟨?_, ?_⟩⟩
            · simp only [Master.renameTables, hst, if_pos hmy, if_neg hne, hrem, renameLocalFile, hnew,
                Option.getD_none, ho]
              rfl
            · refine hinv.table.of_frame rfl rfl rfl rfl rfl ?_ (fun _ hq => hq)
              intro q
              unfold openedAt
              simp only [OrdMap.find?_erase, OrdMap.find?_put]
              split
              · rename_i hq
                rw [hq, hst1]; exact ho.symm
              · split
                · rename_i hq
                  rw [hq, hnew]; exact ho
                · rfl
            · exact ⟨hinv.nodes.live, hinv.nodes.idTaken, hinv.nodes.cursor, hinv.nodes.fresh⟩
        | some r =>
            have hop : m1.openedAt oldPath = some r := (openedAt_of_find hst1).trans ho
            obtain ⟨f, primary, hf, hp, hnodes, _, _⟩ := hinv.file_nodes hop
            obtain ⟨ops', hren⟩ := renameLocalFile_progress hnew ho hf hp hnodes
            refine ⟨{ m1.movedFile s newPath r f with
              fileStatPool := (m1.movedFile s newPath r f).fileStatPool.erase oldPath }, ops ++ ops', ?_, ⟨?_, ?_⟩⟩
            · simp only [Master.renameTables, hst, if_pos hmy, if_neg hne, hrem, hren]
            · exact hinv.table.move hop hf ho (openedAt_of_none hnew)
            · exact ⟨hinv.nodes.live, hinv.nodes.idTaken, hinv.nodes.cursor, hinv.nodes.fresh⟩
      · refine ⟨m.setStat oldPath { s with externalFlag := .renamed, externalName := newPath }, [], ?_, ⟨?_, ?_⟩⟩
        · simp only [Master.renameTables, hst, if_neg hmy]
        · exact h.table.setStat_same (openedAt_of_find hst).symm
        · exact ⟨h.nodes.live, h.nodes.idTaken, h.nodes.cursor, h.nodes.fresh⟩

/-! ## Truncation and registration -/

theorem OpenInv.truncateLocal {m : Master} (h : OpenInv m) {path : Str} {s : FileStat}
    (hst : m.fileStatPool.find? path = some s) (ho : s.openedFileInfo ≠ none) (size : Nat) :
    ∃ m' ops, m.truncateLocal s size = some (m', ops) ∧ OpenInv m' := by
  obtain ⟨r, hr⟩ := Option.ne_none_iff_exists'.mp ho
  have hop : m.openedAt path = some r := (openedAt_of_find hst).trans hr
  obtain ⟨f, primary, hf, hp, hnodes, _, _⟩ := h.file_nodes hop
  have hfs : f.fileStatus = path := (h.table.buffered_of_opened hop hf).2
  have hst' : m.fileStatPool.find? f.fileStatus = some s := by rw [hfs]; exact hst
  let s' : FileStat := s.setStatus { s.status with stSize := size }
  have hsame : s'.openedFileInfo = m.openedAt f.fileStatus := by rw [hfs, hop]; exact hr
  by_cases hlt : size < s.status.stSize
  · have hsend : ∀ q ∈ primary :: f.IOnodesSet.keys,
        ∃ ops, m.sendTruncateRequest f.fileNo (getBlockStartPoint size) size q = some ops :=
      fun q hq => nodes_map_progress (hnodes q hq)
    obtain ⟨ops, hops⟩ := sendEach_progress hsend
    let bl := truncateBlocks size size (getBlockStartPoint size + BLOCK_SIZE) f.blockList
    refine ⟨(m.setFile r (f.setBlocks bl)).setStat f.fileStatus s', ops, ?_, ⟨?_, ?_⟩⟩
    · simp only [Master.truncateLocal, hr, hf, hst', if_pos hlt, shrinkFile, hp, hops]
      rfl
    · have hfile : TableInv (m.setFile r (f.setBlocks bl)) := h.table.setFile_same hf rfl rfl rfl rfl
      exact hfile.setStat_same hsame
    · exact ⟨h.nodes.live, h.nodes.idTaken, h.nodes.cursor, h.nodes.fresh⟩
  · refine ⟨m.setStat f.fileStatus s', [], ?_, ⟨h.table.setStat_same hsame, ?_⟩⟩
    · simp only [Master.truncateLocal, hr, hf, hst', if_neg hlt]
      rfl
    · exact ⟨h.nodes.live, h.nodes.idTaken, h.nodes.cursor, h.nodes.fresh⟩

theorem OpenInv.addIOnode {m : Master} (h : OpenInv m) (uri : Str) (totalMemory : Nat) (handle : Handle) :
    OpenInv (m.addIOnode uri totalMemory handle).2 := by
  refine ⟨?_, h.nodes.addIOnode uri totalMemory handle⟩
  rcases addIOnode_cases m uri totalMemory handle with ⟨pool, c, hpool, heq⟩ | ⟨id, node, hfree, hid, _, heq⟩
  · rw [heq]
    exact h.table.of_frame rfl rfl rfl rfl rfl (fun _ => rfl) (fun _ hq => hq)
  · rw [heq]
    have hkey := h.nodes.free_id hfree
    refine h.table.of_frame rfl rfl rfl rfl rfl (fun _ => rfl) ?_
    rintro q ⟨k, hk⟩
    have hne : k ≠ (id : Int) := fun hc => by rw [hc, hkey] at hk; cases hk
    refine ⟨k, ?_⟩
    show (m.registeredIOnodes.insert (id : Int) m.nextNode).find? k = some q
    rw [OrdMap.find?_insert_ne _ _ hne]
    exact hk

/-! ## Runs -/

/-- The requests of the open-file table, each under the condition that keeps it sound: an open that
    creates has a node and a number, a rename of an existing path goes elsewhere, and a truncated path
    of this Master is open. -/
def TableGuard (m : Master) (ev : Event) : Prop :=
  match ev.request with
  | .openFile path _ _ => OpensSafely m path
  | .unlink _ => True
  | .rmDir _ => True
  | .mkdir _ _ => True
  | .register _ _ => True
  | .rename oldPath newPath newMaster =>
      ¬ (newMaster = MYSELF ∧ oldPath = newPath ∧ m.fileStatPool.find? oldPath ≠ none)
  | .truncate path _ =>
      ∀ s, m.fileStatPool.find? path = some s → s.isExternal = true ∨ s.openedFileInfo ≠ none
  | _ => False

theorem OpenInv.parseOpenFile {m : Master} (h : OpenInv m) {path : Str} (hsafe : OpensSafely m path)
    (e : Env) (o : Origin) (flag mode : BitVec 32) :
    ∃ out, m.parseOpenFile e o path flag mode = some out ∧ OpenInv out.master := by
  have hlocal : (∀ s, m.fileStatPool.find? path = some s → s.isExternal = false) →
      ∃ out, m.parseOpenLocal e o path flag mode = some out ∧ OpenInv out.master := by
    intro hext
    obtain ⟨m', ops, res, hopen, hinv, hbuf⟩ := h.openFile hsafe hext e (openFlag flag) mode
    cases res with
    | error err => exact ⟨_, by simp only [parseOpenLocal, hopen]; rfl, hinv⟩
    | ok n =>
        obtain ⟨r, hr⟩ := hbuf n rfl
        obtain ⟨f, hf⟩ := hinv.table.entry n r hr
        obtain ⟨st, hst⟩ : ∃ st, m'.fileStatPool.find? f.fileStatus = some st := by
          have hop := hf.opened
          unfold openedAt at hop
          cases hst : m'.fileStatPool.find? f.fileStatus with
          | none => rw [hst] at hop; cases hop
          | some st => exact ⟨st, rfl⟩
        have hof : m'.openFileOf n = some (r, f) := by simp only [openFileOf, hr, hf.object]; rfl
        exact ⟨_, by simp only [parseOpenLocal, hopen, hof, hst]; rfl, hinv⟩
  cases hst : m.fileStatPool.find? path with
  | none =>
      obtain ⟨out, hout, hinv⟩ := hlocal (by intro s hs; rw [hst] at hs; cases hs)
      exact ⟨out, by simp only [Master.parseOpenFile, hst]; exact hout, hinv⟩
  | some s =>
      cases hx : s.isExternal with
      | true => exact ⟨m.reply o [.int s.externalMaster] SUCCESS, by simp [Master.parseOpenFile, hst, hx], h⟩
      | false =>
          obtain ⟨out, hout, hinv⟩ := hlocal (by intro s' hs'; rw [hst] at hs'; cases hs'; exact hx)
          exact ⟨out, by simpa [Master.parseOpenFile, hst, hx] using hout, hinv⟩

/-- **One request keeps the table.** -/
theorem OpenInv.step {m : Master} (h : OpenInv m) (ev : Event) (hg : TableGuard m ev) :
    ∃ m', m.step ev = some m' ∧ OpenInv m' := by
  obtain ⟨e, o, req⟩ := ev
  have hremove : ∀ code path, ∃ out, parseRemove code m o path = some out ∧ OpenInv out.master := by
    intro code path
    obtain ⟨m', ops, found, hrem, hinv, _⟩ := h.removeFile path
    exact ⟨_, by simp only [parseRemove, hrem]; rfl, hinv⟩
  have hout : ∃ out, m.parseRequest e o req = some out ∧ OpenInv out.master := by
    cases req with
    | openFile path flag mode => exact h.parseOpenFile hg e o flag mode
    | unlink path => exact hremove UNLINK path
    | rmDir path => exact hremove RM_DIR path
    | mkdir path mode =>
        refine ⟨_, rfl, ?_, ⟨h.nodes.live, h.nodes.idTaken, h.nodes.cursor, h.nodes.fresh⟩⟩
        refine h.table.setStat_same ?_
        -- `insert` keeps the entry that is there, with its open file
        show ((m.fileStatPool.find? path).getD (defaultStat path)).openedFileInfo = m.openedAt path
        unfold openedAt
        cases m.fileStatPool.find? path with
        | none => rfl
        | some s => rfl
    | register totalMemory uri => exact ⟨_, rfl, h.addIOnode uri totalMemory o.handle⟩
    | rename oldPath newPath newMaster =>
        obtain ⟨m', ops, hren, hinv⟩ := h.renameTables oldPath newPath newMaster hg
        exact ⟨_, by simp only [parseRequest, parseRename, hren]; rfl, hinv⟩
    | truncate path size =>
        cases hst : m.fileStatPool.find? path with
        | none => exact ⟨_, by simp only [parseRequest, parseTruncateFile, hst]; rfl, h⟩
        | some s =>
            cases hx : s.isExternal with
            | true =>
                exact ⟨m.reply o [.int s.externalMaster] SUCCESS, by simp [parseRequest, parseTruncateFile, hst, hx], h⟩
            | false =>
                have ho : s.openedFileInfo ≠ none := by
                  rcases hg s hst with hc | hc
                  · rw [hx] at hc; cases hc
                  · exact hc
                obtain ⟨m', ops, htr, hinv⟩ := h.truncateLocal hst ho size
                refine ⟨⟨m', ops ++ sendResponse o [.int m.masterNumber, .int SUCCESS], [], SUCCESS⟩, ?_, hinv⟩
                simp [parseRequest, parseTruncateFile, hst, hx, htr]
    | _ => exact absurd hg (by simp [TableGuard])
  obtain ⟨out, hreq, hinv⟩ := hout
  exact ⟨out.master, by simp only [Master.step, hreq]; rfl, hinv⟩

/-- The Master as constructed: whatever paths the storage holds, none is open. -/
theorem initial_openInv {pool : OrdMap Str FileStat}
    (hpool : ∀ p s, pool.find? p = some s → s.openedFileInfo = none) (masterNumber : Int) (mountPoint : Str)
    (numOfReplica : Nat) : OpenInv (initial pool masterNumber mountPoint numOfReplica) := by
  have hnone : ∀ p, (initial pool masterNumber mountPoint numOfReplica).openedAt p = none := by
    intro p
    unfold openedAt
    show (pool.find? p).bind FileStat.openedFileInfo = none
    cases hf : pool.find? p with
    | none => rfl
    | some s => exact hpool p s hf
  refine ⟨⟨?_, rfl, ?_, ?_, ?_, fun _ _ => rfl⟩, ⟨?_, ?_, ?_, fun _ _ => rfl⟩⟩
  · intro n; simp [initial]
  · intro n r hr; simp [initial] at hr
  · intro n r hr; simp [initial] at hr
  · intro p r hp; rw [hnone] at hp; cases hp
  · intro id r hr; simp [initial] at hr
  · intro id r hr; simp [initial] at hr
  · intro k hk; simp [initial] at hk

/-- **The open-file table is sound in every state a guarded run reaches.** The run is over opens,
    unlinks, rmdirs, mkdirs, renames, truncates and registrations in any order; none of its steps
    meets undefined behaviour. -/
theorem openTable_sound {pool : OrdMap Str FileStat}
    (hpool : ∀ p s, pool.find? p = some s → s.openedFileInfo = none) (masterNumber : Int) (mountPoint : Str)
    (numOfReplica : Nat) (evs : List Event)
    (hg : Run.Guarded Master.step TableGuard (initial pool masterNumber mountPoint numOfReplica) evs) :
    ∃ m, Run.run Master.step (initial pool masterNumber mountPoint numOfReplica) evs = some m ∧ TableSound m := by
  obtain ⟨m, hrun, hinv⟩ := Run.run_progress (fun m ev h hg => OpenInv.step h ev hg)
    (initial_openInv hpool masterNumber mountPoint numOfReplica) hg
  exact ⟨m, hrun, hinv.table.sound⟩

/-- A run that registers an IOnode, opens `/a` and unlinks it again is guarded, and ends sound. -/
theorem openTable_sound_open_unlink :
    ∃ m, Run.run Master.step (initial OrdMap.empty 0 [] 0)
        [eventOf (.register 100 pathA), eventOf (.openFile pathA 0 0), eventOf (.unlink pathA)] = some m ∧
      TableSound m := by
  refine openTable_sound (by intro p s hs; simp at hs) 0 [] 0 _ ?_
  refine ⟨trivial, ?_⟩
  intro m1 h1
  cases h1
  refine ⟨?_, ?_⟩
  · exact Or.inr (by decide)
  · intro m2 _
    refine ⟨trivial, ?_⟩
    intro m3 _
    trivial

/-- **An open with no IOnode breaks the table.** The number goes back to the pool while
    `_buffered_files` keeps the entry, so the table reached is not sound. -/
theorem openTable_unsound_without_IOnode :
    ∃ m, Run.run Master.step (initial OrdMap.empty 0 [] 0) [eventOf (.openFile pathA 0 0)] = some m ∧
      ¬ TableSound m := by
  refine ⟨_, rfl, ?_⟩
  intro h
  have hfree : ¬ (false = true) := by decide
  exact hfree ((h.pool_iff 0).mpr ⟨0, rfl⟩)

end Master

end HuronFS
