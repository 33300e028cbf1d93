import HuronFS.Lib.Run
import HuronFS.Master.HandlerSpec

/-!
# `Master.Coverage` — the block list covers the file, over whole runs

`st_size` is changed by four handlers and the block list by two. `Covered` says of one open file that
its list is the first `n` blocks with `st_size` inside them; the run theorem says which requests keep it
so, and what a read then gets. A request outside `CoverGuard` grows `st_size` past the listed blocks, or
leaves a gap in the list that the `++` of the selection walks over.
-/

namespace HuronFS

namespace Master

/-! ## The selection on a covered file -/

theorem Covers.keys_eq {bl : BlockList} {n : Nat} (h : Covers bl n) :
    bl.keys = (List.range n).map (fun i => i * BLOCK_SIZE) := by
  refine List.Perm.eq_of_pairwise' (OrdMap.keys_ordered bl) ?_ ?_
  · refine List.pairwise_map.mpr (List.pairwise_lt_range.imp ?_)
    intro a b hab
    exact mul_block_lt.mpr hab
  · refine (List.perm_ext_iff_of_nodup (OrdMap.keys_nodup bl) ?_).mpr ?_
    · exact List.Nodup.map (fun a b hab => mul_block_inj hab) List.nodup_range
    · intro k
      rw [OrdMap.mem_keys, h.mem_iff k, List.mem_map]
      constructor
      · rintro ⟨i, hi, rfl⟩; exact ⟨i, List.mem_range.mpr hi, rfl⟩
      · rintro ⟨i, hi, rfl⟩; exact ⟨i, List.mem_range.mp hi, rfl⟩

/-- The number of listed blocks is the number of covered ones. -/
theorem Covers.size_eq {bl : BlockList} {n : Nat} (h : Covers bl n) : bl.size = n := by
  rw [OrdMap.size_eq_keys_length, h.keys_eq, List.length_map, List.length_range]

/-- What a request for `size` bytes at `startPoint` must get: the blocks from the one of `startPoint`
    on, `BLOCK_SIZE` apart. -/
def SelectsBlocks (bl : BlockList) (startPoint size : Nat) : Prop :=
  ∃ sel, selectNodeBlockSet bl startPoint size = some sel ∧
    sel.keys = (List.range (blockCount size)).map (fun k => getBlockStartPoint startPoint + k * BLOCK_SIZE)

/-- A range inside the listed blocks needs no block past them. -/
theorem blocks_le_of_range {startPoint size n : Nat} (hend : startPoint + size ≤ n * BLOCK_SIZE) :
    startPoint / BLOCK_SIZE + blockCount size ≤ n := by
  unfold blockCount BLOCK_SIZE at *
  omega

theorem Covers.selects {bl : BlockList} {n startPoint size : Nat} (h : Covers bl n) (hpos : 0 < size)
    (hend : startPoint + size ≤ n * BLOCK_SIZE) : SelectsBlocks bl startPoint size := by
  obtain ⟨sel, hsel, hkeys, _⟩ := selectNodeBlockSet_covers h (blocks_le_of_range hend) hpos
  exact ⟨sel, hsel, hkeys⟩

/-- **Every read inside its file gets its blocks.** -/
def ReadsCovered (m : Master) : Prop :=
  ∀ fileNo r f st startPoint size, FileObjects m fileNo r f st → 0 < size →
    startPoint + size ≤ st.status.stSize → SelectsBlocks f.blockList startPoint size

/-! ## The invariant -/

/-- The file's blocks are the first `n`, and its size ends in them. -/
def Covered (bl : BlockList) (stSize : Nat) : Prop := ∃ n, Covers bl n ∧ stSize ≤ n * BLOCK_SIZE

/-- Every open-file object belongs to the one path that points at it, and is covered. -/
structure CoverInv (m : Master) : Prop where
  covered : ∀ r f, m.files r = some f → ∃ st, m.fileStatPool.find? f.fileStatus = some st ∧
    st.openedFileInfo = some r ∧ Covered f.blockList st.status.stSize
  fresh : ∀ r, m.nextFile ≤ r → m.files r = none

theorem CoverInv.reads {m : Master} (h : CoverInv m) : ReadsCovered m := by
  intro fileNo r f st startPoint size hobj hpos hend
  obtain ⟨st', hst', _, n, hcov, hle⟩ := h.covered r f hobj.object
  have hst : st' = st := Option.some.inj (hst'.symm.trans hobj.entry)
  subst hst
  exact hcov.selects hpos (le_trans hend hle)

/-- Only the tables of files matter. -/
theorem CoverInv.of_frame {m m' : Master} (h : CoverInv m) (hfiles : m'.files = m.files)
    (hpool : m'.fileStatPool = m.fileStatPool) (hnext : m'.nextFile = m.nextFile) : CoverInv m' := by
  refine ⟨?_, ?_⟩
  · rw [hfiles, hpool]; exact h.covered
  · rw [hfiles, hnext]; exact h.fresh

/-- Rewriting one open file and the attributes of its path, the file staying covered. -/
theorem CoverInv.rewrite {m : Master} (h : CoverInv m) {r : FileRef} {f : OpenFileInfo} {st : FileStat}
    (hf : m.files r = some f) (hst : m.fileStatPool.find? f.fileStatus = some st) {bl : BlockList} {status : Stat}
    (hcov : Covered bl status.stSize) :
    CoverInv ((m.setStat f.fileStatus (st.setStatus status)).setFile r (f.setBlocks bl)) := by
  obtain ⟨st', hst', hop, _⟩ := h.covered r f hf
  have heq : st' = st := Option.some.inj (hst'.symm.trans hst)
  subst heq
  refine ⟨?_, ?_⟩
  · intro q g hg
    by_cases hq : q = r
    · subst hq
      have hgf : g = f.setBlocks bl := by simpa using hg.symm
      subst hgf
      exact ⟨st'.setStatus status, by simp, hop, hcov⟩
    · have hg' : m.files q = some g := by simpa [Function.update_of_ne hq] using hg
      obtain ⟨sg, hsg, hopg, hcg⟩ := h.covered q g hg'
      -- another object belongs to another path
      have hpath : g.fileStatus ≠ f.fileStatus := fun hc => by
        rw [hc, hst'] at hsg
        cases hsg
        rw [hop] at hopg
        exact hq (Option.some.inj hopg).symm
      refine ⟨sg, ?_, hopg, hcg⟩
      show (m.fileStatPool.put f.fileStatus _).find? g.fileStatus = some sg
      rw [OrdMap.find?_put_ne _ _ hpath]
      exact hsg
  · intro q hq
    have hqr : q ≠ r := fun hc => by
      have := h.fresh q hq
      rw [hc, hf] at this; cases this
    simpa [Function.update_of_ne hqr] using h.fresh q hq

/-- Rewriting the attributes alone. -/
theorem CoverInv.rewriteStat {m : Master} (h : CoverInv m) {r : FileRef} {f : OpenFileInfo} {st : FileStat}
    (hf : m.files r = some f) (hst : m.fileStatPool.find? f.fileStatus = some st) {status : Stat}
    (hcov : Covered f.blockList status.stSize) : CoverInv (m.setStat f.fileStatus (st.setStatus status)) := by
  have hrw := h.rewrite hf hst hcov
  rw [setBlocks_self, setFile_self (show (m.setStat f.fileStatus (st.setStatus status)).files r = some f from hf)]
    at hrw
  exact hrw

/-! ## Opening -/

/-- An object entered for a path that is not open, with any block list that covers the path's size. -/
theorem CoverInv.enter {m m' : Master} (h : CoverInv m) {path : Str} {stat : FileStat} (file : OpenFileInfo)
    (hst : m.fileStatPool.find? path = some stat) (hno : stat.openedFileInfo = none)
    (hfiles : m'.files = Function.update m.files m.nextFile (some file))
    (hpool : m'.fileStatPool = m.fileStatPool.put path { stat with openedFileInfo := some m.nextFile })
    (hnext : m'.nextFile = m.nextFile + 1) (hpath : file.fileStatus = path)
    (hcov : Covered file.blockList stat.status.stSize) : CoverInv m' := by
  refine ⟨?_, ?_⟩
  · intro q g hg
    rw [hfiles] at hg
    by_cases hq : q = m.nextFile
    · rw [hq, Function.update_self] at hg
      cases hg
      refine ⟨{ stat with openedFileInfo := some m.nextFile }, ?_, ?_, hcov⟩
      · rw [hpool, hpath, OrdMap.find?_put_self]
      · exact congrArg some hq.symm
    · rw [Function.update_of_ne hq] at hg
      obtain ⟨sg, hsg, hopg, hcg⟩ := h.covered q g hg
      have hne : g.fileStatus ≠ path := fun hc => by
        rw [hc, hst] at hsg
        cases hsg
        rw [hno] at hopg; cases hopg
      refine ⟨sg, ?_, hopg, hcg⟩
      rw [hpool, OrdMap.find?_put_ne _ _ hne]
      exact hsg
  · intro q hq
    rw [hnext] at hq
    rw [hfiles, Function.update_of_ne (Nat.ne_of_gt hq)]
    exact h.fresh q (Nat.le_of_succ_le hq)

theorem createBlockList_covered (stSize : Nat) :
    Covered (createBlockList stSize (getBlockSize stSize) OrdMap.empty) stSize := by
  refine ⟨max 1 (blockCount stSize), createBlockList_covers stSize, ?_⟩
  have hle : stSize ≤ blockCount stSize * BLOCK_SIZE := by unfold blockCount BLOCK_SIZE; omega
  exact le_trans hle (Nat.mul_le_mul_right _ (le_max_right _ _))

theorem CoverInv.create {m m' : Master} (h : CoverInv m) {fileNo : Int} {flag : BitVec 32} {path : Str}
    {stat : FileStat} {ops : List QueueOp} {res : Except OpenError FileRef}
    (hst : m.fileStatPool.find? path = some stat) (hno : stat.openedFileInfo = none)
    (hnode : m.registeredIOnodes.size = 0 → stat.status.stSize = 0)
    (hc : m.createNewOpenFileInfo fileNo flag path = some (m', ops, res)) : CoverInv m' := by
  cases res with
  | ok r =>
      obtain ⟨stat', main, pool, m2, hst', hr, ht, _, _, hm'⟩ := createNewOpenFileInfo_ok hc
      have heq : stat' = stat := Option.some.inj (hst'.symm.trans hst)
      subst heq
      refine h.enter (placedFile fileNo flag path stat'.status.stSize main pool) hst hno ?_ ?_ ?_ rfl
        (createBlockList_covered _)
      · rw [hm', setFile_files, ht.files_eq, hr]
        show Function.update (Function.update m.files m.nextFile _) m.nextFile _ = _
        rw [Function.update_idem]
      · rw [hm', setFile_pool, ht.pool_eq]
        rfl
      · rw [hm']
        exact ht.nextFile_eq
  | error err =>
      obtain ⟨hz, _, stat', hst', hrel⟩ := createNewOpenFileInfo_error hc
      have heq : stat' = stat := Option.some.inj (hst'.symm.trans hst)
      subst heq
      obtain ⟨_, _, hm'⟩ := releaseFileNo_some hrel
      -- the object stays with an empty block list, which covers an empty file only
      refine h.enter { newOpenFileInfo fileNo flag path with
        blockSize := getBlockSize stat'.status.stSize } hst hno ?_ ?_ ?_ rfl ⟨0, covers_empty, ?_⟩
      · rw [hm']; rfl
      · rw [hm']; rfl
      · rw [hm']; rfl
      · rw [hnode hz]; exact Nat.zero_le _

/-- An entry for a path that had none. -/
theorem CoverInv.newPath {m : Master} (h : CoverInv m) {path : Str} (hst : m.fileStatPool.find? path = none)
    (s : FileStat) : CoverInv (m.setStat path s) := by
  refine ⟨?_, h.fresh⟩
  intro q g hg
  obtain ⟨sg, hsg, hopg, hcg⟩ := h.covered q g hg
  have hne : g.fileStatus ≠ path := fun hc => by rw [hc, hst] at hsg; cases hsg
  refine ⟨sg, ?_, hopg, hcg⟩
  show (m.fileStatPool.put path s).find? g.fileStatus = some sg
  rw [OrdMap.find?_put_ne _ _ hne]
  exact hsg

theorem CoverInv.getFileNo {m : Master} (h : CoverInv m) : CoverInv m.getFileNo.2 := by
  rcases getFileNo_cases m with ⟨n, _, _, _, hg⟩ | ⟨c, _, hg⟩
  · rw [hg]; exact h.of_frame rfl rfl rfl
  · rw [hg]; exact h.of_frame rfl rfl rfl

theorem getFileNo_frame (m : Master) : m.getFileNo.2.fileStatPool = m.fileStatPool ∧
    m.getFileNo.2.registeredIOnodes = m.registeredIOnodes := by
  rcases getFileNo_cases m with ⟨n, _, _, _, hg⟩ | ⟨c, _, hg⟩
  · rw [hg]; exact ⟨rfl, rfl⟩
  · rw [hg]; exact ⟨rfl, rfl⟩

/-- `open_count` does not matter. -/
theorem CoverInv.countOpen {m : Master} (h : CoverInv m) {r : FileRef} {f : OpenFileInfo} (hf : m.files r = some f)
    (c : Int) : CoverInv (m.setFile r { f with openCount := c }) := by
  refine ⟨?_, ?_⟩
  · intro q g hg
    by_cases hq : q = r
    · subst hq
      have hgf : g = { f with openCount := c } := by simpa using hg.symm
      subst hgf
      exact h.covered q f hf
    · exact h.covered q g (by simpa [Function.update_of_ne hq] using hg)
  · intro q hq
    have hqr : q ≠ r := fun hc => by
      have := h.fresh q hq
      rw [hc, hf] at this; cases this
    simpa [Function.update_of_ne hqr] using h.fresh q hq

/-- Opening a known file that is not open, with no IOnode registered, is safe for an empty file only. -/
def OpenCovers (m : Master) (path : Str) : Prop :=
  ∀ s, m.fileStatPool.find? path = some s → s.isExternal = false → s.openedFileInfo = none →
    m.registeredIOnodes.size = 0 → s.status.stSize = 0

theorem CoverInv.openFile {m m' : Master} (h : CoverInv m) {e : Env} {path : Str} {flag mode : BitVec 32}
    {ops : List QueueOp} {res : Except OpenError Int}
    (hext : ∀ s, m.fileStatPool.find? path = some s → s.isExternal = false) (hg : OpenCovers m path)
    (ho : m.openFile e path flag mode = some (m', ops, res)) : CoverInv m' := by
  obtain ⟨hpool, hreg⟩ := getFileNo_frame m
  have hm1 := h.getFileNo
  unfold Master.openFile at ho
  cases hst : m.fileStatPool.find? path with
  | none =>
      rw [hst] at ho
      simp only at ho
      split at ho
      · have hm2 : CoverInv (m.getFileNo.2.createNewFileStat e path .notExist (S_IFREG ||| mode)) :=
          hm1.newPath (by rw [hpool]; exact hst) _
        have hentry : (m.getFileNo.2.createNewFileStat e path .notExist (S_IFREG ||| mode)).fileStatPool.find? path
            = some { defaultStat path with
                fullPath := path, existFlag := .notExist, status := freshStatus e (S_IFREG ||| mode) } := by
          show (OrdMap.put _ path _).find? path = _
          rw [OrdMap.find?_put_self, hpool, hst]
          rfl
        split at ho
        · cases ho
        · rename_i m2 ops' err hc
          cases ho
          exact hm2.create hentry rfl (fun _ => rfl) hc
        · rename_i m2 ops' r hc
          cases ho
          exact hm2.create hentry rfl (fun _ => rfl) hc
      · cases ho
        exact hm1
  | some s =>
      rw [hst] at ho
      simp only at ho
      cases hop : s.openedFileInfo with
      | none =>
          rw [hop] at ho
          simp only at ho
          have hst1 : m.getFileNo.2.fileStatPool.find? path = some s := by rw [hpool]; exact hst
          have hnode : m.getFileNo.2.registeredIOnodes.size = 0 → s.status.stSize = 0 := by
            rw [hreg]
            exact hg s hst (hext s hst) hop
          split at ho
          · cases ho
          · rename_i m2 ops' err hc
            cases ho
            exact hm1.create hst1 hop hnode hc
          · rename_i m2 ops' r hc
            have hm2 := hm1.create hst1 hop hnode hc
            unfold addOpenCount at ho
            cases hf : m2.files r with
            | none => rw [hf] at ho; cases ho
            | some f =>
                rw [hf] at ho
                cases ho
                exact hm2.countOpen hf _
      | some r =>
          rw [hop] at ho
          simp only at ho
          cases hf : m.files r with
          | none => rw [hf] at ho; cases ho
          | some f =>
              rw [hf] at ho
              cases ho
              exact h.countOpen hf _

/-! ## Runs -/

/-- The requests that keep every file covered. A write starts in a listed block or right after the last
    one, and reports a size inside the blocks listed after it; a metadata update or a truncate sets a
    size inside the listed blocks. -/
def CoverGuard (m : Master) (ev : Event) : Prop :=
  match ev.request with
  | .openFile path _ _ => OpenCovers m path
  | .writeFile fileNo attr startPoint size => ∀ r f st, FileObjects m fileNo r f st →
      getBlockStartPoint startPoint ≤ f.blockList.size * BLOCK_SIZE ∧
      attr.stSize ≤ max f.blockList.size
        (startPoint / BLOCK_SIZE + blockCount (startPoint % BLOCK_SIZE + size)) * BLOCK_SIZE
  | .updateMeta fileNo attr => ∀ r f st, FileObjects m fileNo r f st →
      attr.stSize ≤ f.blockList.size * BLOCK_SIZE
  | .truncate path size => ∀ s r f, m.fileStatPool.find? path = some s → s.openedFileInfo = some r →
      m.files r = some f → size ≤ f.blockList.size * BLOCK_SIZE
  | .readFile _ _ _ => True
  | .register _ _ => True
  | _ => False

/-- **One request keeps every file covered.** -/
theorem CoverInv.step {m m' : Master} (h : CoverInv m) (ev : Event) (hg : CoverGuard m ev)
    (hs : m.step ev = some m') : CoverInv m' := by
  obtain ⟨e, o, req⟩ := ev
  obtain ⟨out, hreq, rfl⟩ := Option.map_eq_some_iff.mp hs
  cases req with
  | openFile path flag mode =>
      rcases parseOpenFile_some hreq with ⟨s, _, _, rfl⟩ | ⟨hext, hlocal⟩
      · exact h
      · rcases parseOpenLocal_some hlocal with ⟨m', ops, err, ho, rfl⟩ | ⟨m', ops, fileNo, r, f, st, ho, _, rfl⟩
        · exact h.openFile hext hg ho
        · exact h.openFile hext hg ho
  | writeFile fileNo attr startPoint size =>
      rcases parseWriteFile_some hreq with ⟨_, rfl⟩ | ⟨r, f, st, bl, msg, hobj, _, _, rfl⟩
      · exact h
      · obtain ⟨hstart, hattr⟩ := hg r f st hobj
        obtain ⟨st', hst', _, n, hcov, hle⟩ := h.covered r f hobj.object
        have heq : st' = st := Option.some.inj (hst'.symm.trans hobj.entry)
        subst heq
        rw [hcov.size_eq] at hstart hattr
        refine h.rewrite hobj.object hobj.entry ⟨_, allocateNewBlocksForWriting_covers hcov hstart size, ?_⟩
        refine max_le (le_trans hle (Nat.mul_le_mul_right _ (le_max_left _ _))) hattr
  | updateMeta fileNo attr =>
      rcases (parseMetaUpdate_some hreq).2 with ⟨_, hm⟩ | ⟨r, f, st, hobj, hm⟩
      · rw [hm]; exact h
      · obtain ⟨st', hst', _, n, hcov, hle⟩ := h.covered r f hobj.object
        have heq : st' = st := Option.some.inj (hst'.symm.trans hobj.entry)
        subst heq
        have hattr := hg r f st' hobj
        rw [hcov.size_eq] at hattr
        rw [hm]
        exact h.rewriteStat hobj.object hobj.entry ⟨n, hcov, max_le hle hattr⟩
  | truncate path size =>
      rcases parseTruncateFile_some hreq with ⟨_, rfl⟩ | ⟨s, _, _, rfl⟩ | ⟨s, m1, ops, hst, _, htr, rfl⟩
      · exact h
      · exact h
      · obtain ⟨r, f, st, hop, hf, hfst, hm1, _⟩ := truncateLocal_some htr
        have hsize := hg s r f hst hop hf
        obtain ⟨_, _, _, n, hcov, _⟩ := h.covered r f hf
        rw [hcov.size_eq] at hsize
        show CoverInv m1
        rw [hm1]
        exact h.rewriteStat hf hfst ⟨n, hcov, hsize⟩
  | readFile fileNo startPoint size =>
      rcases parseReadFile_some hreq with ⟨_, rfl⟩ | ⟨r, f, st, bl, msg, _, _, _, rfl⟩
      · exact h
      · exact h
  | register totalMemory uri =>
      cases hreq
      show CoverInv (m.addIOnode uri totalMemory o.handle).2
      rcases addIOnode_cases m uri totalMemory o.handle with ⟨pool, c, _, heq⟩ | ⟨id, node, _, _, _, heq⟩
      · rw [heq]; exact h.of_frame rfl rfl rfl
      · rw [heq]; exact h.of_frame rfl rfl rfl
  | _ => exact absurd hg (by simp [CoverGuard])

/-- **Reads stay inside the block list in every state a guarded run reaches.** The run is over opens,
    writes, metadata updates, truncates, reads and registrations in any order. -/
theorem reads_covered {pool : OrdMap Str FileStat} {masterNumber : Int} {mountPoint : Str} {numOfReplica : Nat}
    {evs : List Event} {m : Master}
    (hg : Run.Guarded Master.step CoverGuard (initial pool masterNumber mountPoint numOfReplica) evs)
    (hrun : Run.run Master.step (initial pool masterNumber mountPoint numOfReplica) evs = some m) :
    ReadsCovered m := by
  have hinit : CoverInv (initial pool masterNumber mountPoint numOfReplica) := by
    refine ⟨?_, fun _ _ => rfl⟩
    intro r f hf
    cases hf
  exact (Run.run_invariant (fun m ev m' h hg hs => CoverInv.step h ev hg hs) hinit hg hrun).reads

/-- A run that registers a node, opens `/a` and writes five bytes is guarded, and its reads are covered. -/
theorem reads_covered_open_write :
    ∃ m, Run.run Master.step (initial OrdMap.empty 0 [] 0)
        [eventOf (.register 100 pathA), eventOf (.openFile pathA 0 0),
         eventOf (.writeFile 0 { Stat.zero with stSize := 5 } 0 5)] = some m ∧ ReadsCovered m := by
  have hsome : ∃ m, Run.run Master.step (initial OrdMap.empty 0 [] 0)
      [eventOf (.register 100 pathA), eventOf (.openFile pathA 0 0),
       eventOf (.writeFile 0 { Stat.zero with stSize := 5 } 0 5)] = some m := ⟨_, rfl⟩
  obtain ⟨m, hrun⟩ := hsome
  refine ⟨m, hrun, reads_covered ?_ hrun⟩
  refine ⟨trivial, ?_⟩
  intro m1 h1
  cases h1
  refine ⟨(by intro s hs; cases hs), ?_⟩
  intro m2 h2
  cases h2
  refine ⟨?_, fun _ _ => trivial⟩
  rintro r f st ⟨hb, hf, _⟩
  cases hb
  cases hf
  exact ⟨by decide, by decide⟩

/-- **A growing truncate uncovers the file.** After `truncate("/a", 3 * BLOCK_SIZE)` the size is three
    blocks and the list still has one: the read of the first byte of the third block dereferences
    `end`. -/
theorem reads_uncovered_by_truncate :
    ∃ m, Run.run Master.step (initial OrdMap.empty 0 [] 0)
        [eventOf (.register 100 pathA), eventOf (.openFile pathA 0 0),
         eventOf (.truncate pathA (3 * BLOCK_SIZE))] = some m ∧ ¬ ReadsCovered m := by
  refine ⟨_, rfl, ?_⟩
  intro h
  obtain ⟨sel, hsel, _⟩ := h 0 0 _ _ (2 * BLOCK_SIZE) 1 ⟨rfl, rfl, rfl⟩ (by decide) (by decide)
  cases hsel

end Master

end HuronFS
