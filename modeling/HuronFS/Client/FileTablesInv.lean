import HuronFS.Client.FileTables
import HuronFS.Master.TablesSpec

/-!
# `Client.FileTablesInv` — when the tables of a client stay consistent

`TablesOk` is what the tables have to say about each other. It does not survive every call: a number is taken
before the file is asked for and never given back, `_unlink` closes the descriptors of a path while it walks their
set, and `_rename` moves the entry of the path before anything is sent. `Spares` names the calls that take none of
these ways. `TablesInv` is inductive for them, and a call that fails leaves the tables alone.
-/

namespace HuronFS

namespace FileTables

/-- The number of entries of `_file_list` that point to `r`. -/
def refCount (files : OrdMap Int OpenedFile) (r : MetaRef) : Nat := files.entries.countP (fun e => e.2.fileMeta = r)

/-- Consistent tables. -/
structure TablesOk (t : FileTables) : Prop where
  slots : ∀ fid : Nat, t.openedFile fid = true ↔ ∃ file, t.fileList.find? fid = some file
  keys : ∀ k file, t.fileList.find? k = some file → 0 ≤ k ∧ k < MAX_FILE
  alive : ∀ k file, t.fileList.find? k = some file → ∃ m, t.metas file.fileMeta = some m
  count : ∀ r m, t.metas r = some m → m.openCount = refCount t.fileList r
  fds : ∀ r m, t.metas r = some m → ∀ fd, OrdSet.Mem m.openedFd fd ↔
    ∃ k file, t.fileList.find? k = some file ∧ file.fileMeta = r ∧ file.fd = fd
  mapped : ∀ k file m, t.fileList.find? k = some file → t.metas file.fileMeta = some m →
    ∃ path node, m.it = some ⟨path, node⟩ ∧ t.pathFileMetaMap.find? path = some ⟨node, some file.fileMeta⟩ ∧
      ∀ path' node', t.pathFileMetaMap.find? path' = some ⟨node', some file.fileMeta⟩ → path' = path

/-! ## The condition on a call -/

/-- An attempt to unlink an open path does nothing here when it is thrown, refused, or thrown at its first close.
    The attempts are made until one is not thrown. -/
def UnlinkSpares (exchanges : Nat → Answered Int) (closes : Nat → Nat → Answered Int) : (n i : Nat) → Prop
  | 0, _ => True
  | n + 1, i =>
      match exchanges i with
      | .thrown => UnlinkSpares exchanges closes n (i + 1)
      | .reply ret => if ret = SUCCESS then closes i 0 = .thrown ∧ UnlinkSpares exchanges closes n (i + 1) else True

/-- The first answer among `n` attempts. -/
def answer (exchanges : Nat → Answered Int) : (n i : Nat) → Option Int
  | 0, _ => none
  | n + 1, i =>
      match exchanges i with
      | .thrown => answer exchanges n (i + 1)
      | .reply ret => some ret

/-- The calls that keep to the tables: a path that is not open yet is opened at the first attempt; only open
    descriptors are closed; no open path is unlinked; and an open path is renamed only to one that is not open, by a
    call that succeeds. -/
def Spares (t : FileTables) : Call → Prop
  | .open path _ exchanges => t.pathFileMetaMap.find? path ≠ none ∨ (∀ fid < MAX_FILE, t.openedFile fid = true) ∨
      ∃ fileNo blockSize stat, exchanges 0 = .reply (.opened fileNo blockSize stat)
  | .close fd _ => t.fileList.find? (fd - INIT_FD) ≠ none
  | .unlink path exchanges closes => t.pathFileMetaMap.find? path = none ∨
      UnlinkSpares exchanges closes CBB_COMM_RETRY 0
  | .rename oldName newName migrating first second => t.pathFileMetaMap.find? oldName = none ∨
      (t.pathFileMetaMap.find? newName = none ∧
        answer (fun i => renameExchange migrating (first i) (second i)) CBB_COMM_RETRY 0 = some SUCCESS)

/-! ## Reference counts -/

theorem refCount_put {files : OrdMap Int OpenedFile} {k : Int} (h : files.find? k = none) (file : OpenedFile)
    (r : MetaRef) : refCount (files.put k file) r = refCount files r + if file.fileMeta = r then 1 else 0 := by
  unfold refCount
  rw [(OrdMap.entries_put_perm h file).countP_eq, List.countP_cons]
  simp

theorem refCount_erase {files : OrdMap Int OpenedFile} {k : Int} {file : OpenedFile} (h : files.find? k = some file)
    (r : MetaRef) : refCount files r = refCount (files.erase k) r + if file.fileMeta = r then 1 else 0 := by
  unfold refCount
  rw [(OrdMap.entries_erase_perm h).countP_eq, List.countP_cons]
  simp

theorem refCount_pos {files : OrdMap Int OpenedFile} {r : MetaRef} :
    0 < refCount files r ↔ ∃ k file, files.find? k = some file ∧ file.fileMeta = r := by
  unfold refCount
  rw [List.countP_pos_iff]
  constructor
  · rintro ⟨⟨k, file⟩, hmem, hr⟩
    exact ⟨k, file, OrdMap.mem_entries.mp hmem, by simpa using hr⟩
  · rintro ⟨k, file, hfind, hr⟩
    exact ⟨(k, file), OrdMap.mem_entries.mpr hfind, by simpa using hr⟩

/-! ## The invariant -/

/-- What holds between the steps of a call too; `busy` is `_opened_file`, less the number a call has just taken. -/
structure Linked (busy : Nat → Bool) (t : FileTables) : Prop where
  slots : ∀ fid : Nat, busy fid = true ↔ ∃ file, t.fileList.find? fid = some file
  keys : ∀ k file, t.fileList.find? k = some file → 0 ≤ k ∧ k < MAX_FILE ∧ file.fd = k + INIT_FD
  alive : ∀ k file, t.fileList.find? k = some file → ∃ m, t.metas file.fileMeta = some m
  count : ∀ r m, t.metas r = some m → m.openCount = refCount t.fileList r
  fds : ∀ r m, t.metas r = some m → ∀ fd, OrdSet.Mem m.openedFd fd ↔
    ∃ file, t.fileList.find? (fd - INIT_FD) = some file ∧ file.fileMeta = r
  entry : ∀ path e, t.pathFileMetaMap.find? path = some e →
    ∃ r m, e.fileMeta = some r ∧ t.metas r = some m ∧ m.it = some ⟨path, e.node⟩
  mapped : ∀ r m, t.metas r = some m →
    ∃ it, m.it = some it ∧ t.pathFileMetaMap.find? it.path = some ⟨it.node, some r⟩
  fresh : ∀ r, t.nextMeta ≤ r → t.metas r = none

/-- The inductive invariant of the calls. -/
structure TablesInv (t : FileTables) : Prop extends Linked t.openedFile t where
  used : ∀ r m, t.metas r = some m → 0 < refCount t.fileList r
  cursor : t.fidNow < MAX_FILE

theorem start_inv : TablesInv start where
  slots fid := by simp [start]
  keys k file h := nomatch h
  alive k file h := nomatch h
  count r m h := nomatch h
  fds r m h := nomatch h
  entry path e h := nomatch h
  mapped r m h := nomatch h
  fresh r _ := rfl
  used r m h := nomatch h
  cursor := by decide

/-- The invariant says what the tables have to say about each other. -/
theorem TablesInv.ok {t : FileTables} (h : TablesInv t) : TablesOk t where
  slots := h.slots
  keys k file hf := ⟨(h.keys k file hf).1, (h.keys k file hf).2.1⟩
  alive := h.alive
  count := h.count
  fds r m hm fd := by
    rw [h.fds r m hm fd]
    constructor
    · rintro ⟨file, hf, hr⟩
      obtain ⟨_, _, hfd⟩ := h.keys _ file hf
      exact ⟨fd - INIT_FD, file, hf, hr, by omega⟩
    · rintro ⟨k, file, hf, hr, hfd⟩
      obtain ⟨_, _, hfd'⟩ := h.keys k file hf
      have hk : fd - INIT_FD = k := by omega
      exact ⟨file, by rw [hk]; exact hf, hr⟩
  mapped k file m hf hm := by
    obtain ⟨it, hit, hpath⟩ := h.mapped _ m hm
    refine ⟨it.path, it.node, hit, hpath, ?_⟩
    intro path' node' hpath'
    -- the entry at `path'` is the one its own `file_meta` remembers
    obtain ⟨r, m', hr, hm', hit'⟩ := h.entry path' _ hpath'
    cases hr
    rw [hm] at hm'
    cases hm'
    rw [hit] at hit'
    cases hit'
    rfl

/-- A `file_meta` that nothing points to is counted as such. -/
theorem Linked.refCount_dead {busy : Nat → Bool} {t : FileTables} (h : Linked busy t) {r : MetaRef}
    (hr : t.metas r = none) : refCount t.fileList r = 0 := by
  by_contra hne
  obtain ⟨k, file, hf, rfl⟩ := refCount_pos.mp (Nat.pos_of_ne_zero hne)
  obtain ⟨m, hm⟩ := h.alive k file hf
  rw [hr] at hm
  cases hm

/-! ## Opening -/

theorem getFid_none {t : FileTables} (h : t.getFid = none) (hc : t.fidNow < MAX_FILE) :
    ∀ fid < MAX_FILE, t.openedFile fid = true := by
  intro fid hfid
  unfold getFid at h
  rw [Option.map_eq_none_iff] at h
  split at h
  · cases h
  · rename_i hfrom
    by_cases hlt : fid < t.fidNow
    · exact Master.freeFrom_none h fid (Nat.zero_le fid) (by omega)
    · exact Master.freeFrom_none hfrom fid (by omega) (by omega)

theorem getFid_some {t t1 : FileTables} {fid : Nat} (h : t.getFid = some (fid, t1)) (hc : t.fidNow < MAX_FILE) :
    fid < MAX_FILE ∧ t.openedFile fid = false ∧
      t1 = { t with openedFile := Function.update t.openedFile fid true, fidNow := fid } := by
  unfold getFid at h
  rw [Option.map_eq_some_iff] at h
  obtain ⟨i, hi, heq⟩ := h
  cases heq
  split at hi
  · rename_i j hfrom
    cases hi
    obtain ⟨h1, h2, h3⟩ := Master.freeFrom_some hfrom
    exact ⟨by omega, h3, rfl⟩
  · obtain ⟨h1, h2, h3⟩ := Master.freeFrom_some hi
    exact ⟨by omega, h3, rfl⟩

/-- The tables after a descriptor was added to an open file. -/
def attached (t : FileTables) (fid : Nat) (file : OpenedFile) (m : ClientMeta) : FileTables :=
  { t with
    metas := Function.update t.metas file.fileMeta (some
      { m with openCount := m.openCount + 1, openedFd := OrdSet.add m.openedFd file.fd })
    fileList := t.fileList.put fid file }

theorem attach_eq {t : FileTables} {fid : Nat} {r : MetaRef} {m : ClientMeta} (flag : BitVec 32)
    (hm : t.metas r = some m) (hfree : t.fileList.find? fid = none) :
    ∃ point, t.attach fid flag r =
      some (t.attached fid ⟨point, (fid : Int) + INIT_FD, flag, r⟩ m, (fid : Int) + INIT_FD) := by
  by_cases hflag : flag &&& O_APPEND ≠ 0
  · refine ⟨m.fileStat.stSize, ?_⟩
    have hfiles : (t.fileList.insert fid ⟨0, (fid : Int) + INIT_FD, flag, r⟩).modify fid
        (fun file => { file with currentPoint := m.fileStat.stSize }) =
        t.fileList.put fid ⟨m.fileStat.stSize, (fid : Int) + INIT_FD, flag, r⟩ := by
      apply OrdMap.ext
      intro k
      rw [OrdMap.insert_of_none hfree, OrdMap.find?_modify, OrdMap.find?_put_self]
      by_cases hk : k = fid
      · subst hk
        simp
      · rw [if_neg hk, OrdMap.find?_put_ne _ _ hk, OrdMap.find?_put_ne _ _ hk]
    simp only [attach, hm, if_pos hflag, hfiles, attached, setMeta]
  · refine ⟨0, ?_⟩
    simp only [attach, hm, if_neg hflag, OrdMap.insert_of_none hfree, attached, setMeta]

theorem Linked.attached {busy : Nat → Bool} {t : FileTables} (h : Linked busy t) {fid : Nat} {file : OpenedFile}
    {m : ClientMeta} (hm : t.metas file.fileMeta = some m) (hfree : t.fileList.find? fid = none) (hfid : fid < MAX_FILE)
    (hfd : file.fd = (fid : Int) + INIT_FD) : Linked (Function.update busy fid true) (t.attached fid file m) where
  slots j := by
    show Function.update busy fid true j = true ↔ ∃ file', (t.fileList.put fid file).find? j = some file'
    by_cases hj : j = fid
    · subst hj
      simp
    · have hj' : (j : Int) ≠ fid := by exact_mod_cast hj
      rw [Function.update_of_ne hj, OrdMap.find?_put_ne _ _ hj']
      exact h.slots j
  keys k file' hf := by
    change (t.fileList.put fid file).find? k = some file' at hf
    by_cases hk : k = fid
    · subst hk
      rw [OrdMap.find?_put_self] at hf
      cases hf
      exact ⟨by omega, by omega, hfd⟩
    · rw [OrdMap.find?_put_ne _ _ hk] at hf
      exact h.keys k file' hf
  alive k file' hf := by
    change (t.fileList.put fid file).find? k = some file' at hf
    show ∃ m', Function.update t.metas file.fileMeta _ file'.fileMeta = some m'
    by_cases hr : file'.fileMeta = file.fileMeta
    · rw [hr, Function.update_self]
      exact ⟨_, rfl⟩
    · rw [Function.update_of_ne hr]
      by_cases hk : k = fid
      · subst hk
        rw [OrdMap.find?_put_self] at hf
        cases hf
        exact absurd rfl hr
      · rw [OrdMap.find?_put_ne _ _ hk] at hf
        exact h.alive k file' hf
  count r m' hm' := by
    change Function.update t.metas file.fileMeta _ r = some m' at hm'
    show m'.openCount = refCount (t.fileList.put fid file) r
    rw [refCount_put hfree]
    by_cases hr : r = file.fileMeta
    · subst hr
      rw [Function.update_self] at hm'
      cases hm'
      have hcount := h.count _ m hm
      simp only [if_true]
      omega
    · rw [Function.update_of_ne hr] at hm'
      rw [if_neg (Ne.symm hr), h.count r m' hm']
      rfl
  fds r m' hm' fd := by
    change Function.update t.metas file.fileMeta _ r = some m' at hm'
    show OrdSet.Mem m'.openedFd fd ↔ ∃ file', (t.fileList.put fid file).find? (fd - INIT_FD) = some file' ∧ _
    by_cases hk : fd - INIT_FD = fid
    · -- the new descriptor
      have hfd' : fd = file.fd := by omega
      rw [hk, OrdMap.find?_put_self]
      by_cases hr : r = file.fileMeta
      · subst hr
        rw [Function.update_self] at hm'
        cases hm'
        exact ⟨fun _ => ⟨file, rfl, rfl⟩, fun _ => OrdSet.mem_add.mpr (Or.inl hfd')⟩
      · rw [Function.update_of_ne hr] at hm'
        rw [h.fds r m' hm' fd, hk, hfree]
        constructor
        · rintro ⟨_, hc, _⟩
          cases hc
        · rintro ⟨_, hc, hc'⟩
          cases hc
          exact absurd hc'.symm hr
    · have hfd' : fd ≠ file.fd := by omega
      rw [OrdMap.find?_put_ne _ _ hk]
      by_cases hr : r = file.fileMeta
      · subst hr
        rw [Function.update_self] at hm'
        cases hm'
        rw [← h.fds _ m hm fd]
        exact ⟨fun hmem => (OrdSet.mem_add.mp hmem).resolve_left hfd', fun hmem => OrdSet.mem_add.mpr (Or.inr hmem)⟩
      · rw [Function.update_of_ne hr] at hm'
        exact h.fds r m' hm' fd
  entry path e he := by
    obtain ⟨r, m', her, hm', hit⟩ := h.entry path e he
    show ∃ r m'', e.fileMeta = some r ∧ Function.update t.metas file.fileMeta _ r = some m'' ∧ _
    by_cases hr : r = file.fileMeta
    · subst hr
      rw [hm] at hm'
      cases hm'
      exact ⟨_, _, her, Function.update_self .., hit⟩
    · exact ⟨r, m', her, by rw [Function.update_of_ne hr]; exact hm', hit⟩
  mapped r m' hm' := by
    change Function.update t.metas file.fileMeta _ r = some m' at hm'
    by_cases hr : r = file.fileMeta
    · subst hr
      rw [Function.update_self] at hm'
      cases hm'
      exact h.mapped _ m hm
    · rw [Function.update_of_ne hr] at hm'
      exact h.mapped r m' hm'
  fresh r hr := by
    have hne : r ≠ file.fileMeta := by
      rintro rfl
      rw [h.fresh _ hr] at hm
      cases hm
    show Function.update t.metas file.fileMeta _ r = none
    rw [Function.update_of_ne hne]
    exact h.fresh r hr

theorem Linked.createMeta {busy : Nat → Bool} {t : FileTables} (h : Linked busy t) {path : Str}
    (hnew : t.pathFileMetaMap.find? path = none) (fileNo : Int) (blockSize : Nat) (stat : Stat) :
    Linked busy (t.createMeta path fileNo blockSize stat) where
  slots := h.slots
  keys := h.keys
  alive k file hf := by
    obtain ⟨m, hm⟩ := h.alive k file hf
    have hne : file.fileMeta ≠ t.nextMeta := by
      intro hc
      rw [hc, h.fresh _ (le_refl _)] at hm
      cases hm
    refine ⟨m, ?_⟩
    show Function.update t.metas t.nextMeta _ file.fileMeta = some m
    rw [Function.update_of_ne hne]
    exact hm
  count r m hm := by
    change Function.update t.metas t.nextMeta _ r = some m at hm
    by_cases hr : r = t.nextMeta
    · subst hr
      rw [Function.update_self] at hm
      cases hm
      have hdead := h.refCount_dead (h.fresh _ (le_refl _))
      show (0 : Int) = refCount t.fileList t.nextMeta
      rw [hdead]
      rfl
    · rw [Function.update_of_ne hr] at hm
      exact h.count r m hm
  fds r m hm fd := by
    change Function.update t.metas t.nextMeta _ r = some m at hm
    by_cases hr : r = t.nextMeta
    · subst hr
      rw [Function.update_self] at hm
      cases hm
      constructor
      · intro hmem
        exact absurd hmem (OrdSet.not_mem_empty fd)
      · rintro ⟨file, hf, hfile⟩
        obtain ⟨m', hm'⟩ := h.alive _ file hf
        rw [hfile, h.fresh _ (le_refl _)] at hm'
        cases hm'
    · rw [Function.update_of_ne hr] at hm
      exact h.fds r m hm fd
  entry path' e he := by
    change (t.pathFileMetaMap.put path _).find? path' = some e at he
    show ∃ r m, e.fileMeta = some r ∧ Function.update t.metas t.nextMeta _ r = some m ∧ _
    by_cases hp : path' = path
    · subst hp
      rw [OrdMap.find?_put_self] at he
      cases he
      exact ⟨_, _, rfl, Function.update_self .., rfl⟩
    · rw [OrdMap.find?_put_ne _ _ hp] at he
      obtain ⟨r, m, her, hm, hit⟩ := h.entry path' e he
      have hne : r ≠ t.nextMeta := by
        rintro rfl
        rw [h.fresh _ (le_refl _)] at hm
        cases hm
      exact ⟨r, m, her, by rw [Function.update_of_ne hne]; exact hm, hit⟩
  mapped r m hm := by
    change Function.update t.metas t.nextMeta _ r = some m at hm
    show ∃ it, m.it = some it ∧ (t.pathFileMetaMap.put path _).find? it.path = _
    by_cases hr : r = t.nextMeta
    · subst hr
      rw [Function.update_self] at hm
      cases hm
      exact ⟨_, rfl, OrdMap.find?_put_self ..⟩
    · rw [Function.update_of_ne hr] at hm
      obtain ⟨it, hit, hpath⟩ := h.mapped r m hm
      have hne : it.path ≠ path := by
        intro hc
        rw [hc, hnew] at hpath
        cases hpath
      exact ⟨it, hit, by rw [OrdMap.find?_put_ne _ _ hne]; exact hpath⟩
  fresh r hr := by
    have hlt : t.nextMeta < r := hr
    show Function.update t.metas t.nextMeta _ r = none
    rw [Function.update_of_ne (ne_of_gt hlt)]
    exact h.fresh r (le_of_lt hlt)

/-- The cursor and the numbers in use are read by `_get_fid` only. -/
theorem Linked.congr {busy : Nat → Bool} {t : FileTables} (h : Linked busy t) (opened : Nat → Bool) (fid : Nat) :
    Linked busy { t with openedFile := opened, fidNow := fid } :=
  ⟨h.slots, h.keys, h.alive, h.count, h.fds, h.entry, h.mapped, h.fresh⟩

/-- Adding a descriptor makes consistent tables out of linked ones whose other `file_meta`s are all in use. -/
theorem Linked.attach_inv {busy : Nat → Bool} {t : FileTables} (h : Linked busy t) {fid : Nat} {r : MetaRef}
    {m : ClientMeta} (hm : t.metas r = some m) (hfree : t.fileList.find? fid = none) (hfid : fid < MAX_FILE)
    (hopened : t.openedFile = Function.update busy fid true) (hcursor : t.fidNow < MAX_FILE)
    (hused : ∀ r' m, r' ≠ r → t.metas r' = some m → 0 < refCount t.fileList r') (flag : BitVec 32) :
    ∃ t', t.attach fid flag r = some (t', (fid : Int) + INIT_FD) ∧ TablesInv t' := by
  obtain ⟨point, hatt⟩ := attach_eq flag hm hfree
  have hlinked := h.attached (show t.metas (OpenedFile.mk point ((fid : Int) + INIT_FD) flag r).fileMeta = some m from hm)
    hfree hfid rfl
  rw [← hopened] at hlinked
  refine ⟨_, hatt, hlinked, ?_, hcursor⟩
  intro r' m' hm'
  show 0 < refCount (t.fileList.put fid _) r'
  rw [refCount_put hfree]
  by_cases hr : r' = r
  · subst hr
    simp
  · change Function.update t.metas r _ r' = some m' at hm'
    rw [Function.update_of_ne hr] at hm'
    have := hused r' m' hr hm'
    omega

/-- **An open that keeps to the tables.** -/
theorem TablesInv.openOnce {t : FileTables} (h : TablesInv t) {path : Str} (flag : BitVec 32) {x : Answered OpenReply}
    (hs : t.pathFileMetaMap.find? path ≠ none ∨ (∀ fid < MAX_FILE, t.openedFile fid = true) ∨
      ∃ fileNo blockSize stat, x = .reply (.opened fileNo blockSize stat)) :
    ∃ t' ret, t.openOnce path flag x = some (t', some ret) ∧ TablesInv t' ∧ (ret < 0 → t' = t) := by
  cases hget : t.getFid with
  | none => exact ⟨t, -1, by simp only [FileTables.openOnce, hget], h, fun _ => rfl⟩
  | some p =>
      obtain ⟨fid, t1⟩ := p
      obtain ⟨hfid, hfalse, rfl⟩ := getFid_some hget h.cursor
      have hfree : t.fileList.find? fid = none := by
        cases hf : t.fileList.find? fid with
        | none => rfl
        | some file =>
            rw [(h.slots fid).mpr ⟨file, hf⟩] at hfalse
            cases hfalse
      have hnonneg : ¬ (fid : Int) + INIT_FD < 0 := by
        unfold INIT_FD
        omega
      have hl := h.toLinked.congr (Function.update t.openedFile fid true) fid
      cases hfind : t.pathFileMetaMap.find? path with
      | some e =>
          obtain ⟨node, fm⟩ := e
          obtain ⟨r, m, hr, hm, _⟩ := h.entry path _ hfind
          change fm = some r at hr
          subst hr
          obtain ⟨t', hatt, hinv⟩ := hl.attach_inv hm hfree hfid rfl hfid (fun r m _ => h.used r m) flag
          refine ⟨t', _, ?_, hinv, fun hneg => absurd hneg hnonneg⟩
          simp only [FileTables.openOnce, hget, hfind, hatt, Option.map_some]
      | none =>
          rcases hs with hs | hs | ⟨fileNo, blockSize, stat, rfl⟩
          · exact absurd hfind hs
          · rw [hs fid hfid] at hfalse
            cases hfalse
          · -- the new `file_meta` is the only one that nothing points to yet
            obtain ⟨t', hatt, hinv⟩ := (hl.createMeta hfind fileNo blockSize stat).attach_inv
              (Function.update_self t.nextMeta _ t.metas) hfree hfid rfl hfid (by
                intro r' m' hr hm'
                change Function.update t.metas t.nextMeta _ r' = some m' at hm'
                rw [Function.update_of_ne hr] at hm'
                exact h.used r' m' hm') flag
            refine ⟨t', _, ?_, hinv, fun hneg => absurd hneg hnonneg⟩
            simp only [FileTables.openOnce, hget, hfind, hatt, Option.map_some]

/-! ## Closing -/

/-- The tables after a descriptor was taken from a file that has others. -/
def detached (t : FileTables) (fid : Int) (file : OpenedFile) (m : ClientMeta) : FileTables :=
  { t with
    openedFile := Function.update t.openedFile fid.toNat false
    metas := Function.update t.metas file.fileMeta (some
      { m with openCount := m.openCount - 1, openedFd := m.openedFd.erase file.fd })
    fileList := t.fileList.erase fid }

/-- The tables after the last descriptor of a file was closed. -/
def dropped (t : FileTables) (fid : Int) (file : OpenedFile) (path : Str) : FileTables :=
  { t with
    openedFile := Function.update t.openedFile fid.toNat false
    metas := Function.update t.metas file.fileMeta none
    fileList := t.fileList.erase fid
    pathFileMetaMap := t.pathFileMetaMap.erase path }

theorem TablesInv.deleteOpenFile_eq {t : FileTables} (h : TablesInv t) {fid : Int} {file : OpenedFile}
    {m : ClientMeta} (hm : t.metas file.fileMeta = some m) {it : PathIterator} (hit : m.it = some it) :
    t.deleteOpenFile fid file = some
      (if refCount t.fileList file.fileMeta = 1 then t.dropped fid file it.path else t.detached fid file m) := by
  have hcount := h.count _ m hm
  have hpos := h.used _ m hm
  obtain ⟨it', hit', hpath⟩ := h.mapped _ m hm
  rw [hit] at hit'
  cases hit'
  simp only [FileTables.deleteOpenFile, hm, deleteFileMeta, setMeta, Function.update_self]
  by_cases hone : refCount t.fileList file.fileMeta = 1
  · rw [if_pos (by omega), if_pos hone]
    simp only [erasePath, hit, hpath, if_true, Option.map_some, dropped, Function.update_idem]
  · rw [if_neg (by omega), if_neg hone]
    simp only [detached, Function.update_idem]

theorem find?_of_erase {V : Type*} {files : OrdMap Int V} {fid k : Int} {file : V}
    (h : (files.erase fid).find? k = some file) : k ≠ fid ∧ files.find? k = some file := by
  by_cases hk : k = fid
  · subst hk
    rw [OrdMap.find?_erase_self] at h
    cases h
  · rw [OrdMap.find?_erase_ne _ hk] at h
    exact ⟨hk, h⟩

theorem Linked.slots_erase {busy : Nat → Bool} {t : FileTables} (h : Linked busy t) {fid : Int} (hfid : 0 ≤ fid) (j : Nat) :
    Function.update busy fid.toNat false j = true ↔ ∃ file, (t.fileList.erase fid).find? j = some file := by
  by_cases hj : j = fid.toNat
  · subst hj
    rw [Function.update_self, Int.toNat_of_nonneg hfid, OrdMap.find?_erase_self]
    simp
  · rw [Function.update_of_ne hj, OrdMap.find?_erase_ne _ (by omega)]
    exact h.slots j

/-- The descriptors of a `file_meta` after one entry was erased. -/
theorem Linked.fds_erase {busy : Nat → Bool} {t : FileTables} (h : Linked busy t) {fid : Int} {file : OpenedFile}
    (hf : t.fileList.find? fid = some file) {r : MetaRef} {m : ClientMeta} (hm : t.metas r = some m) (fd : Int) :
    (∃ file', (t.fileList.erase fid).find? (fd - INIT_FD) = some file' ∧ file'.fileMeta = r) ↔
      fd ≠ file.fd ∧ OrdSet.Mem m.openedFd fd := by
  obtain ⟨_, _, hfd⟩ := h.keys fid file hf
  rw [h.fds r m hm fd]
  constructor
  · rintro ⟨file', hf', hr⟩
    obtain ⟨hne, hf'⟩ := find?_of_erase hf'
    exact ⟨by omega, file', hf', hr⟩
  · rintro ⟨hne, file', hf', hr⟩
    refine ⟨file', ?_, hr⟩
    rw [OrdMap.find?_erase_ne _ (by omega)]
    exact hf'

/-- The same for a `file_meta` that the entry did not point to. -/
theorem Linked.fds_erase_ne {busy : Nat → Bool} {t : FileTables} (h : Linked busy t) {fid : Int} {file : OpenedFile}
    (hf : t.fileList.find? fid = some file) {r : MetaRef} {m : ClientMeta} (hm : t.metas r = some m)
    (hr : r ≠ file.fileMeta) (fd : Int) : OrdSet.Mem m.openedFd fd ↔
      ∃ file', (t.fileList.erase fid).find? (fd - INIT_FD) = some file' ∧ file'.fileMeta = r := by
  rw [h.fds_erase hf hm fd]
  refine ⟨fun hmem => ⟨?_, hmem⟩, fun hmem => hmem.2⟩
  rintro rfl
  obtain ⟨file', hf', hr'⟩ := (h.fds r m hm file.fd).mp hmem
  obtain ⟨_, _, hfd⟩ := h.keys fid file hf
  rw [hfd, Int.add_sub_cancel, hf] at hf'
  cases hf'
  exact hr hr'.symm

theorem TablesInv.detached {t : FileTables} (h : TablesInv t) {fid : Int} {file : OpenedFile} {m : ClientMeta}
    (hf : t.fileList.find? fid = some file) (hm : t.metas file.fileMeta = some m)
    (hmany : refCount t.fileList file.fileMeta ≠ 1) : TablesInv (t.detached fid file m) where
  slots := h.toLinked.slots_erase (h.keys fid file hf).1
  keys k file' hf' := h.keys k file' (find?_of_erase hf').2
  alive k file' hf' := by
    show ∃ m', Function.update t.metas file.fileMeta _ file'.fileMeta = some m'
    by_cases hr : file'.fileMeta = file.fileMeta
    · rw [hr, Function.update_self]
      exact ⟨_, rfl⟩
    · rw [Function.update_of_ne hr]
      exact h.alive k file' (find?_of_erase hf').2
  count r m' hm' := by
    change Function.update t.metas file.fileMeta _ r = some m' at hm'
    show m'.openCount = refCount (t.fileList.erase fid) r
    have hsplit := refCount_erase hf r
    by_cases hr : r = file.fileMeta
    · subst hr
      rw [Function.update_self] at hm'
      cases hm'
      have hcount := h.count _ m hm
      simp only [if_true] at hsplit
      show m.openCount - 1 = _
      omega
    · rw [Function.update_of_ne hr] at hm'
      rw [if_neg (Ne.symm hr)] at hsplit
      have hcount := h.count r m' hm'
      omega
  fds r m' hm' fd := by
    change Function.update t.metas file.fileMeta _ r = some m' at hm'
    show OrdSet.Mem m'.openedFd fd ↔ ∃ file', (t.fileList.erase fid).find? (fd - INIT_FD) = some file' ∧ file'.fileMeta = r
    by_cases hr : r = file.fileMeta
    · subst hr
      rw [Function.update_self] at hm'
      cases hm'
      rw [h.toLinked.fds_erase hf hm fd]
      exact OrdSet.mem_erase
    · rw [Function.update_of_ne hr] at hm'
      exact h.toLinked.fds_erase_ne hf hm' hr fd
  entry path e he := by
    obtain ⟨r, m', her, hm', hit⟩ := h.entry path e he
    show ∃ r m'', e.fileMeta = some r ∧ Function.update t.metas file.fileMeta _ r = some m'' ∧ _
    by_cases hr : r = file.fileMeta
    · subst hr
      rw [hm] at hm'
      cases hm'
      exact ⟨_, _, her, Function.update_self .., hit⟩
    · exact ⟨r, m', her, by rw [Function.update_of_ne hr]; exact hm', hit⟩
  mapped r m' hm' := by
    change Function.update t.metas file.fileMeta _ r = some m' at hm'
    by_cases hr : r = file.fileMeta
    · subst hr
      rw [Function.update_self] at hm'
      cases hm'
      exact h.mapped _ m hm
    · rw [Function.update_of_ne hr] at hm'
      exact h.mapped r m' hm'
  fresh r hr := by
    have hne : r ≠ file.fileMeta := by
      rintro rfl
      rw [h.fresh _ hr] at hm
      cases hm
    show Function.update t.metas file.fileMeta _ r = none
    rw [Function.update_of_ne hne]
    exact h.fresh r hr
  used r m' hm' := by
    change Function.update t.metas file.fileMeta _ r = some m' at hm'
    show 0 < refCount (t.fileList.erase fid) r
    have hsplit := refCount_erase hf r
    by_cases hr : r = file.fileMeta
    · subst hr
      have hpos := h.used _ m hm
      simp only [if_true] at hsplit
      omega
    · rw [Function.update_of_ne hr] at hm'
      rw [if_neg (Ne.symm hr)] at hsplit
      have hpos := h.used r m' hm'
      omega
  cursor := h.cursor

theorem TablesInv.dropped {t : FileTables} (h : TablesInv t) {fid : Int} {file : OpenedFile} {m : ClientMeta}
    {it : PathIterator} (hf : t.fileList.find? fid = some file) (hm : t.metas file.fileMeta = some m)
    (hit : m.it = some it) (hone : refCount t.fileList file.fileMeta = 1) : TablesInv (t.dropped fid file it.path) := by
  have hzero : refCount (t.fileList.erase fid) file.fileMeta = 0 := by
    have hsplit := refCount_erase hf file.fileMeta
    simp only [if_true] at hsplit
    omega
  -- no other entry points to the `file_meta` that is deleted
  have hother : ∀ k file', (t.fileList.erase fid).find? k = some file' → file'.fileMeta ≠ file.fileMeta := by
    intro k file' hf' hc
    have hpos := refCount_pos.mpr ⟨k, file', hf', hc⟩
    omega
  have hkept : ∀ {r m'}, Function.update t.metas file.fileMeta none r = some m' →
      r ≠ file.fileMeta ∧ t.metas r = some m' := by
    intro r m' hm'
    by_cases hr : r = file.fileMeta
    · subst hr
      rw [Function.update_self] at hm'
      cases hm'
    · rw [Function.update_of_ne hr] at hm'
      exact ⟨hr, hm'⟩
  obtain ⟨it', hit', hpath⟩ := h.mapped _ m hm
  rw [hit] at hit'
  cases hit'
  refine ⟨⟨h.toLinked.slots_erase (h.keys fid file hf).1, ?_, ?_, ?_, ?_, ?_, ?_, ?_⟩, ?_, h.cursor⟩
  · intro k file' hf'
    exact h.keys k file' (find?_of_erase hf').2
  · intro k file' hf'
    show ∃ m', Function.update t.metas file.fileMeta none file'.fileMeta = some m'
    rw [Function.update_of_ne (hother k file' hf')]
    exact h.alive k file' (find?_of_erase hf').2
  · intro r m' hm'
    obtain ⟨hr, hm'⟩ := hkept hm'
    have hsplit := refCount_erase hf r
    rw [if_neg (Ne.symm hr)] at hsplit
    have hcount := h.count r m' hm'
    show m'.openCount = refCount (t.fileList.erase fid) r
    omega
  · intro r m' hm' fd
    obtain ⟨hr, hm'⟩ := hkept hm'
    exact h.toLinked.fds_erase_ne hf hm' hr fd
  · intro path e he
    change (t.pathFileMetaMap.erase it.path).find? path = some e at he
    have hp : path ≠ it.path := by
      rintro rfl
      rw [OrdMap.find?_erase_self] at he
      cases he
    rw [OrdMap.find?_erase_ne _ hp] at he
    obtain ⟨r, m', her, hm', hit''⟩ := h.entry path e he
    refine ⟨r, m', her, ?_, hit''⟩
    show Function.update t.metas file.fileMeta none r = some m'
    rw [Function.update_of_ne]
    · exact hm'
    · rintro rfl
      rw [hm] at hm'
      cases hm'
      rw [hit] at hit''
      cases hit''
      exact hp rfl
  · intro r m' hm'
    obtain ⟨hr, hm'⟩ := hkept hm'
    obtain ⟨it', hit', hpath'⟩ := h.mapped r m' hm'
    refine ⟨it', hit', ?_⟩
    show (t.pathFileMetaMap.erase it.path).find? it'.path = _
    rw [OrdMap.find?_erase_ne]
    · exact hpath'
    · intro hc
      rw [hc, hpath, Option.some.injEq, PathEntry.mk.injEq] at hpath'
      exact hr (Option.some.inj hpath'.2).symm
  · intro r hr
    show Function.update t.metas file.fileMeta none r = none
    by_cases hc : r = file.fileMeta
    · rw [hc, Function.update_self]
    · rw [Function.update_of_ne hc]
      exact h.fresh r hr
  · intro r m' hm'
    obtain ⟨hr, hm'⟩ := hkept hm'
    have hsplit := refCount_erase hf r
    rw [if_neg (Ne.symm hr)] at hsplit
    have hpos := h.used r m' hm'
    show 0 < refCount (t.fileList.erase fid) r
    omega

theorem TablesInv.deleteOpenFile {t : FileTables} (h : TablesInv t) {fid : Int} {file : OpenedFile}
    (hf : t.fileList.find? fid = some file) : ∃ t', t.deleteOpenFile fid file = some t' ∧ TablesInv t' := by
  obtain ⟨m, hm⟩ := h.alive fid file hf
  obtain ⟨it, hit, _⟩ := h.mapped _ m hm
  refine ⟨_, h.deleteOpenFile_eq hm hit, ?_⟩
  by_cases hone : refCount t.fileList file.fileMeta = 1
  · rw [if_pos hone]
    exact h.dropped hf hm hit hone
  · rw [if_neg hone]
    exact h.detached hf hm hone

/-- **A close of an open descriptor** deletes it when the Master agrees, and changes nothing otherwise. -/
theorem TablesInv.closeOnce {t : FileTables} (h : TablesInv t) {fd : Int} (x : Answered Int)
    (hfd : t.fileList.find? (fd - INIT_FD) ≠ none) :
    t.closeOnce fd x = some (t, none) ∨
      ∃ t' ret, t.closeOnce fd x = some (t', some ret) ∧ TablesInv t' ∧ (ret ≠ 0 → t' = t) := by
  obtain ⟨file, hf⟩ := Option.ne_none_iff_exists'.mp hfd
  obtain ⟨m, hm⟩ := h.alive _ file hf
  cases x with
  | thrown => exact Or.inl (by simp only [FileTables.closeOnce, hf, hm])
  | reply ret =>
      apply Or.inr
      by_cases hret : ret = SUCCESS
      · obtain ⟨t', hdel, hinv⟩ := h.deleteOpenFile hf
        refine ⟨t', 0, ?_, hinv, fun hne => absurd rfl hne⟩
        simp only [FileTables.closeOnce, hf, hm, if_pos hret, hdel, Option.map_some]
      · exact ⟨t, -1, by simp only [FileTables.closeOnce, hf, hm, if_neg hret], h, fun _ => rfl⟩

/-! ## Attempts -/

theorem retry_thrown {attempt : Nat → FileTables → Option (FileTables × Option Int)} {t t' : FileTables} {i : Nat}
    (h : attempt i t = some (t', none)) (n : Nat) : retry attempt (n + 1) i t = retry attempt n (i + 1) t' := by
  simp only [retry, h]

theorem retry_answered {attempt : Nat → FileTables → Option (FileTables × Option Int)} {t t' : FileTables} {i : Nat}
    {ret : Int} (h : attempt i t = some (t', some ret)) (n : Nat) : retry attempt (n + 1) i t = some (t', ret) := by
  simp only [retry, h]

/-- Attempts that are repeated only when they did nothing end in what one of them ends in. -/
theorem retry_idle (attempt : Nat → FileTables → Option (FileTables × Option Int)) {t : FileTables}
    {P : FileTables → Int → Prop} (hattempt : ∀ i, attempt i t = some (t, none) ∨
      ∃ t' ret, attempt i t = some (t', some ret) ∧ P t' ret) (hfail : P t FAILURE) (n i : Nat) :
    ∃ t' ret, retry attempt n i t = some (t', ret) ∧ P t' ret := by
  induction n generalizing i with
  | zero => exact ⟨t, FAILURE, rfl, hfail⟩
  | succ n ih =>
      rcases hattempt i with hnone | ⟨t', ret, hsome, hp⟩
      · obtain ⟨t', ret, hr, hp⟩ := ih (i + 1)
        exact ⟨t', ret, by rw [retry_thrown hnone, hr], hp⟩
      · exact ⟨t', ret, retry_answered hsome n, hp⟩

/-! ## Unlinking -/

/-- The first descriptor of an open path is one that `_close` finds. -/
theorem TablesInv.openedFd_keys {t : FileTables} (h : TablesInv t) {r : MetaRef} {m : ClientMeta}
    (hm : t.metas r = some m) : ∃ fd rest, m.openedFd.keys = fd :: rest ∧ t.fileList.find? (fd - INIT_FD) ≠ none := by
  obtain ⟨k, file, hf, hr⟩ := refCount_pos.mp (h.used r m hm)
  have hmem : OrdSet.Mem m.openedFd (k + INIT_FD) :=
    (h.fds r m hm _).mpr ⟨file, by rw [Int.add_sub_cancel]; exact hf, hr⟩
  cases hkeys : m.openedFd.keys with
  | nil =>
      have hin := OrdSet.mem_keys.mpr hmem
      rw [hkeys] at hin
      cases hin
  | cons fd rest =>
      refine ⟨fd, rest, rfl, ?_⟩
      have hfd : OrdSet.Mem m.openedFd fd := OrdSet.mem_keys.mp (by rw [hkeys]; exact List.mem_cons_self)
      obtain ⟨file', hf', _⟩ := (h.fds r m hm fd).mp hfd
      rw [hf']
      exact Option.some_ne_none _

theorem TablesInv.closeLocalOpenedFile_thrown {t : FileTables} (h : TablesInv t) {path : Str} {e : PathEntry}
    (hpath : t.pathFileMetaMap.find? path = some e) {closes : Nat → Answered Int} (hc : closes 0 = .thrown) :
    t.closeLocalOpenedFile path closes = some (t, true) := by
  obtain ⟨r, m, hr, hm, _⟩ := h.entry path e hpath
  obtain ⟨node, fm⟩ := e
  change fm = some r at hr
  subst hr
  obtain ⟨fd, rest, hkeys, hfd⟩ := h.openedFd_keys hm
  obtain ⟨file, hf⟩ := Option.ne_none_iff_exists'.mp hfd
  obtain ⟨m', hm'⟩ := h.alive _ file hf
  simp only [closeLocalOpenedFile, hpath, hm, hkeys, closeLoop, hc, FileTables.closeOnce, hf, hm']

/-- **An unlink that closes nothing here** leaves the tables as they were. -/
theorem TablesInv.unlink {t : FileTables} (h : TablesInv t) {path : Str} {exchanges : Nat → Answered Int}
    {closes : Nat → Nat → Answered Int} (hs : t.pathFileMetaMap.find? path = none ∨
      UnlinkSpares exchanges closes CBB_COMM_RETRY 0) :
    ∃ ret, t.call (.unlink path exchanges closes) = some (t, ret) := by
  cases hpath : t.pathFileMetaMap.find? path with
  | none =>
      obtain ⟨t', ret, hr, rfl⟩ := retry_idle
        (fun i t => t.unlinkOnce path (exchanges i) (closes i)) (P := fun t' _ => t' = t) (t := t) (by
          intro i
          cases hx : exchanges i with
          | thrown => exact Or.inl (by simp only [unlinkOnce])
          | reply ret =>
              apply Or.inr
              by_cases hret : ret = SUCCESS
              · exact ⟨t, 0, by simp [unlinkOnce, hret, closeLocalOpenedFile, hpath], rfl⟩
              · exact ⟨t, ret, by simp only [unlinkOnce, if_neg hret], rfl⟩)
        rfl CBB_COMM_RETRY 0
      exact ⟨ret, hr⟩
  | some e =>
      have hspares := hs.resolve_left (by rw [hpath]; exact Option.some_ne_none e)
      show ∃ ret, retry (fun i t => t.unlinkOnce path (exchanges i) (closes i)) CBB_COMM_RETRY 0 t = some (t, ret)
      generalize CBB_COMM_RETRY = n at hspares ⊢
      generalize 0 = i at hspares ⊢
      induction n generalizing i with
      | zero => exact ⟨FAILURE, rfl⟩
      | succ n ih =>
          simp only [UnlinkSpares] at hspares
          cases hx : exchanges i with
          | thrown =>
              rw [hx] at hspares
              obtain ⟨ret, hr⟩ := ih (i + 1) hspares
              exact ⟨ret, by simp only [retry, hx, unlinkOnce]; exact hr⟩
          | reply ret =>
              rw [hx] at hspares
              by_cases hret : ret = SUCCESS
              · simp only [if_pos hret] at hspares
                obtain ⟨ret', hr⟩ := ih (i + 1) hspares.2
                refine ⟨ret', ?_⟩
                simp only [retry, hx, unlinkOnce, if_pos hret, h.closeLocalOpenedFile_thrown hpath hspares.1,
                  Option.map_some, if_true]
                exact hr
              · exact ⟨ret, by simp only [retry, hx, unlinkOnce, if_neg hret]⟩

/-! ## Renaming -/

/-- The tables after an open path was renamed to one that is not open. -/
def moved (t : FileTables) (oldName newName : Str) (r : MetaRef) (m : ClientMeta) : FileTables :=
  { t with
    metas := Function.update t.metas r (some { m with it := some ⟨newName, t.nextNode⟩ })
    pathFileMetaMap := (t.pathFileMetaMap.put newName ⟨t.nextNode, some r⟩).erase oldName
    nextNode := t.nextNode + 1 }

theorem renameLocal_moved {t : FileTables} {oldName newName : Str} {node : Nat} {r : MetaRef} {m : ClientMeta}
    (hold : t.pathFileMetaMap.find? oldName = some ⟨node, some r⟩) (hm : t.metas r = some m)
    (hnew : t.pathFileMetaMap.find? newName = none) :
    t.renameLocal oldName newName = some (t.moved oldName newName r m) := by
  have hne : oldName ≠ newName := by
    rintro rfl
    rw [hold] at hnew
    cases hnew
  simp only [renameLocal, hold, hnew, Option.getD_none, if_neg hne, Option.bind_some, hm, Option.map_some,
    OrdMap.insert_of_none hnew, setMeta, moved]

theorem TablesInv.moved {t : FileTables} (h : TablesInv t) {oldName newName : Str} {node : Nat} {r : MetaRef}
    {m : ClientMeta} (hold : t.pathFileMetaMap.find? oldName = some ⟨node, some r⟩) (hm : t.metas r = some m)
    (hnew : t.pathFileMetaMap.find? newName = none) : TablesInv (t.moved oldName newName r m) := by
  have hne : newName ≠ oldName := by
    rintro rfl
    rw [hold] at hnew
    cases hnew
  -- the entry at the old name is the one `r` remembers
  have hit : m.it = some ⟨oldName, node⟩ := by
    obtain ⟨r', m', hr', hm', hit⟩ := h.entry oldName _ hold
    cases hr'
    rw [hm] at hm'
    cases hm'
    exact hit
  have hmeta : ∀ {r' m'}, Function.update t.metas r (some { m with it := some ⟨newName, t.nextNode⟩ }) r' = some m' →
      ∃ m₀, t.metas r' = some m₀ ∧ m'.openCount = m₀.openCount ∧ m'.openedFd = m₀.openedFd := by
    intro r' m' hm'
    by_cases hr : r' = r
    · subst hr
      rw [Function.update_self] at hm'
      cases hm'
      exact ⟨m, hm, rfl, rfl⟩
    · rw [Function.update_of_ne hr] at hm'
      exact ⟨m', hm', rfl, rfl⟩
  refine ⟨⟨h.slots, h.keys, ?_, ?_, ?_, ?_, ?_, ?_⟩, ?_, h.cursor⟩
  · intro k file hf
    show ∃ m', Function.update t.metas r _ file.fileMeta = some m'
    by_cases hr : file.fileMeta = r
    · rw [hr, Function.update_self]
      exact ⟨_, rfl⟩
    · rw [Function.update_of_ne hr]
      exact h.alive k file hf
  · intro r' m' hm'
    obtain ⟨m₀, hm₀, hcount, _⟩ := hmeta hm'
    rw [hcount]
    exact h.count r' m₀ hm₀
  · intro r' m' hm' fd
    obtain ⟨m₀, hm₀, _, hfds⟩ := hmeta hm'
    rw [hfds]
    exact h.fds r' m₀ hm₀ fd
  · intro path e he
    change ((t.pathFileMetaMap.put newName ⟨t.nextNode, some r⟩).erase oldName).find? path = some e at he
    show ∃ r' m', e.fileMeta = some r' ∧ Function.update t.metas r _ r' = some m' ∧ _
    have hp : path ≠ oldName := by
      rintro rfl
      rw [OrdMap.find?_erase_self] at he
      cases he
    rw [OrdMap.find?_erase_ne _ hp] at he
    by_cases hp' : path = newName
    · subst hp'
      rw [OrdMap.find?_put_self] at he
      cases he
      exact ⟨r, _, rfl, Function.update_self .., rfl⟩
    · rw [OrdMap.find?_put_ne _ _ hp'] at he
      obtain ⟨r', m', hr', hm', hit'⟩ := h.entry path e he
      refine ⟨r', m', hr', ?_, hit'⟩
      rw [Function.update_of_ne]
      · exact hm'
      · rintro rfl
        rw [hm] at hm'
        cases hm'
        rw [hit] at hit'
        cases hit'
        exact hp rfl
  · intro r' m' hm'
    change Function.update t.metas r _ r' = some m' at hm'
    show ∃ it, m'.it = some it ∧ ((t.pathFileMetaMap.put newName _).erase oldName).find? it.path = _
    by_cases hr : r' = r
    · subst hr
      rw [Function.update_self] at hm'
      cases hm'
      refine ⟨_, rfl, ?_⟩
      rw [OrdMap.find?_erase_ne _ hne, OrdMap.find?_put_self]
    · rw [Function.update_of_ne hr] at hm'
      obtain ⟨it, hit', hpath⟩ := h.mapped r' m' hm'
      refine ⟨it, hit', ?_⟩
      rw [OrdMap.find?_erase_ne, OrdMap.find?_put_ne]
      · exact hpath
      · intro hc
        rw [hc, hnew] at hpath
        cases hpath
      · intro hc
        rw [hc, hold, Option.some.injEq, PathEntry.mk.injEq] at hpath
        exact hr (Option.some.inj hpath.2).symm
  · intro r' hr'
    have hne' : r' ≠ r := by
      rintro rfl
      rw [h.fresh _ hr'] at hm
      cases hm
    show Function.update t.metas r _ r' = none
    rw [Function.update_of_ne hne']
    exact h.fresh r' hr'
  · intro r' m' hm'
    obtain ⟨m₀, hm₀, _, _⟩ := hmeta hm'
    exact h.used r' m₀ hm₀

theorem renameOnce_thrown {t t' : FileTables} {oldName newName : Str} (h : t.renameLocal oldName newName = some t')
    {x : Answered Int} (hx : x = .thrown) : t.renameOnce oldName newName x = some (t', none) := by
  simp only [renameOnce, h, hx, Option.map_some]

theorem renameOnce_reply {t t' : FileTables} {oldName newName : Str} (h : t.renameLocal oldName newName = some t')
    {x : Answered Int} {ret : Int} (hx : x = .reply ret) : t.renameOnce oldName newName x = some (t', some ret) := by
  simp only [renameOnce, h, hx, Option.map_some]

theorem answer_thrown {x : Nat → Answered Int} {i : Nat} (h : x i = .thrown) (n : Nat) :
    answer x (n + 1) i = answer x n (i + 1) := by simp only [answer, h]

theorem answer_reply {x : Nat → Answered Int} {i : Nat} {ret : Int} (h : x i = .reply ret) (n : Nat) :
    answer x (n + 1) i = some ret := by simp only [answer, h]

/-- Renames of a path that is not open go on until one is answered. -/
theorem retry_rename {t : FileTables} {oldName newName : Str} {x : Nat → Answered Int}
    (hold : t.pathFileMetaMap.find? oldName = none) (n i : Nat) :
    retry (fun i t => t.renameOnce oldName newName (x i)) n i t = some (t, (answer x n i).getD FAILURE) := by
  have hlocal : t.renameLocal oldName newName = some t := by simp only [renameLocal, hold]
  induction n generalizing i with
  | zero => rfl
  | succ n ih =>
      cases hx : x i with
      | thrown => rw [retry_thrown (renameOnce_thrown hlocal hx), ih, answer_thrown hx]
      | reply ret => rw [retry_answered (renameOnce_reply hlocal hx), answer_reply hx, Option.getD_some]

/-- Once the first attempt has moved the entry, the others find nothing at the old name. -/
theorem retry_rename_moved {t t' : FileTables} {oldName newName : Str} {x : Nat → Answered Int} {ret : Int}
    (hlocal : t.renameLocal oldName newName = some t') (hold : t'.pathFileMetaMap.find? oldName = none) {n : Nat}
    (hanswer : answer x n 0 = some ret) :
    retry (fun i t => t.renameOnce oldName newName (x i)) n 0 t = some (t', ret) := by
  cases n with
  | zero => cases hanswer
  | succ n =>
      cases hx : x 0 with
      | thrown =>
          rw [answer_thrown hx] at hanswer
          rw [retry_thrown (renameOnce_thrown hlocal hx), retry_rename hold, hanswer, Option.getD_some]
      | reply ret' =>
          rw [answer_reply hx, Option.some.injEq] at hanswer
          rw [retry_answered (renameOnce_reply hlocal hx), hanswer]

theorem TablesInv.rename {t : FileTables} (h : TablesInv t) {oldName newName : Str} {migrating : Bool}
    {first second : Nat → Answered Int} (hs : t.Spares (.rename oldName newName migrating first second)) :
    ∃ t' ret, t.call (.rename oldName newName migrating first second) = some (t', ret) ∧ TablesInv t' ∧
      (ret ≠ 0 → t' = t) := by
  show ∃ t' ret, retry (fun i t => t.renameOnce oldName newName (renameExchange migrating (first i) (second i)))
    CBB_COMM_RETRY 0 t = some (t', ret) ∧ _
  cases hold : t.pathFileMetaMap.find? oldName with
  | none => exact ⟨t, _, retry_rename hold CBB_COMM_RETRY 0, h, fun _ => rfl⟩
  | some e =>
      obtain ⟨hnew, hanswer⟩ := hs.resolve_left (by rw [hold]; exact Option.some_ne_none e)
      obtain ⟨r, m, hr, hm, _⟩ := h.entry oldName e hold
      obtain ⟨node, fm⟩ := e
      change fm = some r at hr
      subst hr
      have hlocal := renameLocal_moved hold hm hnew
      have hold' : (t.moved oldName newName r m).pathFileMetaMap.find? oldName = none := OrdMap.find?_erase_self ..
      exact ⟨t.moved oldName newName r m, SUCCESS, retry_rename_moved hlocal hold' hanswer, h.moved hold hm hnew,
        fun hne => absurd rfl hne⟩

/-! ## Every call -/

/-- **One call.** A call that keeps to the tables has a result, keeps the invariant, and leaves the tables as they
    were when it fails. -/
theorem TablesInv.call {t : FileTables} (h : TablesInv t) {c : Call} (hs : t.Spares c) :
    ∃ t' ret, t.call c = some (t', ret) ∧ TablesInv t' ∧ (Fails c ret → t' = t) := by
  cases c with
  | «open» path flag exchanges =>
      -- the first attempt is not thrown
      obtain ⟨t', ret, hopen, hinv, hfail⟩ := h.openOnce flag hs
      refine ⟨t', ret, ?_, hinv, hfail⟩
      show retry (fun i t => t.openOnce path flag (exchanges i)) (9 + 1) 0 t = some (t', ret)
      exact retry_answered hopen 9
  | close fd exchanges =>
      exact retry_idle (fun i t => t.closeOnce fd (exchanges i)) (P := fun t' ret => TablesInv t' ∧ (ret ≠ 0 → t' = t))
        (fun i => h.closeOnce (exchanges i) hs) ⟨h, fun _ => rfl⟩ CBB_COMM_RETRY 0
  | unlink path exchanges closes =>
      obtain ⟨ret, hcall⟩ := h.unlink hs
      exact ⟨t, ret, hcall, h, fun _ => rfl⟩
  | rename oldName newName migrating first second => exact h.rename hs

/-- **The tables stay consistent.** Any sequence of calls that keep to the tables has a result; the tables it ends
    in are consistent, and there a further such call has a result too and changes nothing when it fails. -/
theorem tables_consistent (calls : List Call) (hs : Run.Guarded step Spares start calls) :
    ∃ t, Run.run step start calls = some t ∧ TablesOk t ∧
      ∀ c, t.Spares c → ∃ t' ret, t.call c = some (t', ret) ∧ TablesOk t' ∧ (Fails c ret → t' = t) := by
  have hstep : ∀ t c, TablesInv t → t.Spares c → ∃ t', step t c = some t' ∧ TablesInv t' := by
    intro t c h hs
    obtain ⟨t', ret, hcall, hinv, _⟩ := h.call hs
    exact ⟨t', by simp only [step, hcall, Option.map_some], hinv⟩
  obtain ⟨t, hrun, hinv⟩ := Run.run_progress hstep start_inv hs
  refine ⟨t, hrun, hinv.ok, ?_⟩
  intro c hs'
  obtain ⟨t', ret, hcall, hinv', hfail⟩ := hinv.call hs'
  exact ⟨t', ret, hcall, hinv'.ok, hfail⟩

/-- A file is opened, renamed at the second attempt, and closed. -/
def openRenameClose : List Call :=
  [.open Master.pathA 0 (fun _ => .reply (.opened 0 4096 Stat.zero)),
    .rename Master.pathA [47, 98] false (fun i => if i = 0 then .thrown else .reply SUCCESS) (fun _ => .thrown),
    .close 1000 (fun _ => .reply SUCCESS)]

theorem tables_consistent_renamed :
    ∃ t, Run.run step start openRenameClose = some t ∧ TablesOk t ∧
      ∀ c, t.Spares c → ∃ t' ret, t.call c = some (t', ret) ∧ TablesOk t' ∧ (Fails c ret → t' = t) := by
  apply tables_consistent openRenameClose
  refine Run.Guarded.cons ?_ rfl (Run.Guarded.cons ?_ rfl (Run.Guarded.cons ?_ rfl trivial))
  · exact Or.inr (Or.inr ⟨_, _, _, rfl⟩)
  · exact Or.inr ⟨rfl, rfl⟩
  · exact fun hc => nomatch hc

/-- **Ten numbers for no file.** The Master cannot be reached: every attempt to open takes a number and gives none
    back, and the call fails. -/
theorem failed_open_keeps_numbers : ∃ t, Run.run step start [.open Master.pathA 0 (fun _ => .thrown)] = some t ∧
    t.openedFile 0 = true ∧ t.fileList.find? 0 = none ∧ ¬ TablesOk t := by
  refine ⟨_, rfl, rfl, rfl, ?_⟩
  intro h
  obtain ⟨file, hf⟩ := (h.slots 0).mp rfl
  cases hf

end FileTables

end HuronFS
