import Mathlib.Data.List.Induction
import HuronFS.Lib.CBuffer
import HuronFS.Protocol.Namespace

/-!
# `Protocol.StartUp` — the masters share the paths on storage among them

At start-up each Master walks the whole tree under the mount point and keeps the paths whose hash is its own number. The walk has one
array for the path: a directory puts its name and a separator behind what is there and calls itself for the cells after them, and the
relative path is read from a fixed place in the middle of the array. What a call finds in front of its offset is there when it returns.
-/

namespace HuronFS

open Posix (Kind PlainName)
open Region CBuffer

def PATH_MAX : Nat := 4096

/-- The storage, as the masters see it: the nodes under the mount point, what `readdir` returns in each directory, and in which order,
    and the attributes of each path. -/
structure RemoteStorage where
  mountPoint : Str
  tree : Posix.Tree Str
  listing : List Str → List (Str × Kind)
  lstat : Str → Stat

namespace RemoteStorage

/-- `opendir`: the entries that the directory will return. -/
def opendir (r : RemoteStorage) (path : Str) : Option (List (Str × Kind)) :=
  let q := components (path.drop r.mountPoint.length)
  if r.mountPoint.isPrefixOf path ∧ r.tree.find? q = some .dir then some (r.listing q) else none

/-- A finite tree whose paths are shorter than `PATH_MAX`. `readdir` returns the names in a directory, and may return `.` and `..`. -/
structure Ok (r : RemoteStorage) : Prop where
  tree : r.tree.Ok
  listing : ∀ q name kind, ((name, kind) ∈ r.listing q ∧ name ≠ [dot] ∧ name ≠ [dot, dot]) ↔ r.tree.find? (q ++ [name]) = some kind
  plain : ∀ q name kind, r.tree.find? (q ++ [name]) = some kind → PlainName Master.slash dot name
  terminated : ∀ q name kind, r.tree.find? (q ++ [name]) = some kind → 0 ∉ name
  mountTerminated : 0 ∉ r.mountPoint
  short : ∀ q kind, r.tree.find? q = some kind → (r.mountPoint ++ relativeOf q).length < PATH_MAX

end RemoteStorage

/-! ## The walk -/

/-- The array `file_path` and the pool. -/
structure Walk where
  filePath : Nat → Byte
  pool : OrdMap Str FileStat

namespace Walk

/-- The entry of a path: `Master_file_stat(file_status, name, EXISTING)`, with its path set. -/
def entry (r : RemoteStorage) (path relativePath name : Str) : FileStat :=
  { Master.defaultStat relativePath with status := r.lstat path, name := name, existFlag := .existing }

/-- A turn of the loop of `_dfs_items_in_remote`; `inside` is the call for a directory, with its entries and the offset. `mine` is the test
    of the hash against `master_number`. -/
def dfsItem (r : RemoteStorage) (mine : Str → Bool) (inside : List (Str × Kind) → Nat → Walk → Option Walk) (relative offset : Nat)
    (w : Walk) (item : Str × Kind) : Option Walk :=
  if item.1 = [dot] ∨ item.1 = [dot, dot] then some w
  else do
    let filePath ← strcpy PATH_MAX w.filePath offset item.1
    let filePath ← put PATH_MAX filePath (offset + item.1.length) 0
    let relativePath ← cstr PATH_MAX filePath relative
    let path ← cstr PATH_MAX filePath 0
    let pool := if mine relativePath then w.pool.insert relativePath (entry r path relativePath item.1) else w.pool
    if item.2 = .dir then do
      let newDir ← r.opendir path
      let filePath ← put PATH_MAX filePath (offset + item.1.length) Master.slash
      inside newDir (offset + item.1.length + 1) ⟨filePath, pool⟩
    else some ⟨filePath, pool⟩

/-- `_dfs_items_in_remote`, over the entries of a directory. -/
def dfsItemsInRemote (r : RemoteStorage) (mine : Str → Bool) (relative : Nat) : (fuel : Nat) → List (Str × Kind) → (offset : Nat) → Walk →
    Option Walk
  | 0, _, _, _ => none
  | fuel + 1, items, offset, w => items.foldlM (dfsItem r mine (dfsItemsInRemote r mine relative fuel) relative offset) w

/-- `_buffer_all_meta_data_from_remote` of the master `number` out of `total`; `uninitialised` is what the array holds before. -/
def bufferAllMetaDataFromRemote (r : RemoteStorage) (hash : Str → Nat) (total number : Nat) (uninitialised : Nat → Byte) :
    Option (OrdMap Str FileStat) := do
  let dir ← r.opendir r.mountPoint
  let filePath ← strcpy PATH_MAX uninitialised 0 r.mountPoint
  let filePath ← put PATH_MAX filePath r.mountPoint.length 0
  let path ← cstr PATH_MAX filePath 0
  let pool := OrdMap.empty.insert [Master.slash] (entry r path [Master.slash] [Master.slash])
  let len := r.mountPoint.length
  let (filePath, len) ← if filePath len ≠ Master.slash then (put PATH_MAX filePath len Master.slash).map (·, len + 1) else some (filePath, len)
  let mine := fun relativePath => decide (number = filePathHash hash relativePath total)
  let w ← dfsItemsInRemote r mine (len - 1) (depth r.tree + 1) dir len ⟨filePath, pool⟩
  some w.pool

/-! ## What is in the array -/

variable {r : RemoteStorage} {mine : Str → Bool} {dir : List Str} {name : Str} {kind : Kind} {w : Walk}

/-- The cells in front of the offset of a directory. -/
def front (r : RemoteStorage) (dir : List Str) : Str := r.mountPoint ++ relativeOf dir ++ [Master.slash]

theorem front_append (r : RemoteStorage) (dir : List Str) (name : Str) :
    front r dir ++ name = r.mountPoint ++ pathOf (dir ++ [name]) := by
  unfold front
  rw [pathOf_append, List.append_assoc, List.append_assoc, List.singleton_append]

theorem front_next (r : RemoteStorage) (dir : List Str) (name : Str) : front r (dir ++ [name]) = front r dir ++ name ++ [Master.slash] := by
  rw [front_append, pathOf_append, ← relativeOf_append]
  rfl

theorem length_front_append (r : RemoteStorage) (dir : List Str) (name : Str) :
    (front r dir).length + name.length = r.mountPoint.length + (pathOf (dir ++ [name])).length := by
  rw [← List.length_append, front_append, List.length_append]

theorem relativeOf_eq_pathOf {q : List Str} (h : q ≠ []) : relativeOf q = pathOf q := by
  unfold pathOf Posix.render relativeOf
  rw [if_neg h]

theorem relativeOf_nil : relativeOf [] = [] := rfl

theorem front_root (r : RemoteStorage) : front r [] = r.mountPoint ++ [Master.slash] := by
  unfold front
  rw [relativeOf_nil, List.append_nil]

/-- Names of the tree have no terminator in them, so neither have their paths. -/
theorem terminated_path (h : r.Ok) : ∀ {q : List Str} {kind : Kind}, r.tree.find? q = some kind → 0 ∉ pathOf q := by
  have hrelative : ∀ {q : List Str}, (∃ kind, r.tree.find? q = some kind) → 0 ∉ relativeOf q := by
    intro q
    induction q using List.reverseRecOn with
    | nil => exact fun _ hc => (nomatch hc)
    | append_singleton dir name ih =>
        rintro ⟨kind, hq⟩ hmem
        rw [relativeOf_append] at hmem
        rcases List.mem_append.mp hmem with hmem | hmem
        · exact ih ⟨_, h.tree.parent dir name kind hq⟩ hmem
        · rcases List.mem_cons.mp hmem with hmem | hmem
          · exact absurd hmem (by decide)
          · exact h.terminated dir name kind hq hmem
  intro q kind hq hmem
  by_cases hroot : q = []
  · subst hroot
    revert hmem
    decide
  · exact hrelative ⟨kind, hq⟩ (relativeOf_eq_pathOf hroot ▸ hmem)

theorem plain_path (h : r.Ok) : ∀ {q : List Str}, (∃ kind, r.tree.find? q = some kind) → ∀ n ∈ q, PlainName Master.slash dot n := by
  intro q
  induction q using List.reverseRecOn with
  | nil => exact fun _ n hn => (nomatch hn)
  | append_singleton dir name ih =>
      rintro ⟨kind, hq⟩ n hn
      rcases List.mem_append.mp hn with hn | hn
      · exact ih ⟨_, h.tree.parent dir name kind hq⟩ n hn
      · rw [List.mem_singleton.mp hn]
        exact h.plain dir name kind hq

/-- A directory of the tree is opened by its path. -/
theorem opendir_path (h : r.Ok) {q : List Str} (hq : r.tree.find? q = some .dir) : r.opendir (r.mountPoint ++ pathOf q) = some (r.listing q) := by
  unfold RemoteStorage.opendir
  have hdrop : (r.mountPoint ++ pathOf q).drop r.mountPoint.length = pathOf q := List.drop_left
  have hpre : r.mountPoint.isPrefixOf (r.mountPoint ++ pathOf q) = true := List.isPrefixOf_iff_prefix.mpr (List.prefix_append _ _)
  dsimp only
  rw [hdrop, components_pathOf (plain_path h ⟨_, hq⟩), if_pos ⟨hpre, hq⟩]

/-- The paths of the nodes at or below a place of the tree that are the master's. -/
def From (r : RemoteStorage) (mine : Str → Bool) (q : List Str) (p : Str) : Prop :=
  ∃ l, r.tree.find? (q ++ l) ≠ none ∧ p = pathOf (q ++ l) ∧ mine p = true

/-- The same without the place itself. -/
def Below (r : RemoteStorage) (mine : Str → Bool) (q : List Str) (p : Str) : Prop :=
  ∃ l, l ≠ [] ∧ r.tree.find? (q ++ l) ≠ none ∧ p = pathOf (q ++ l) ∧ mine p = true

/-- A part of the walk leaves the cells in front of its offset as they are, and adds the paths that are `new`. -/
structure Walked (before : Str) (new : Str → Prop) (w w' : Walk) : Prop where
  kept : slice w'.filePath 0 before.length = before
  keys : ∀ p, p ∈ w'.pool.keys ↔ p ∈ w.pool.keys ∨ new p

/-- The string is behind what was in front, and it is read from there and from the mount point's end. -/
theorem name_copied (h : r.Ok) (hnode : r.tree.find? (dir ++ [name]) = some kind)
    (hfront : slice w.filePath 0 (front r dir).length = front r dir) :
    ∃ buf, (strcpy PATH_MAX w.filePath (front r dir).length name >>= fun b => put PATH_MAX b ((front r dir).length + name.length) 0) = some buf ∧
      slice buf 0 ((front r dir).length + name.length) = front r dir ++ name ∧
      cstr PATH_MAX buf r.mountPoint.length = some (pathOf (dir ++ [name])) ∧
      cstr PATH_MAX buf 0 = some (r.mountPoint ++ pathOf (dir ++ [name])) := by
  have hshort := h.short _ _ hnode
  rw [relativeOf_eq_pathOf (by simp), ← front_append, List.length_append] at hshort
  have hlen := length_front_append r dir name
  have hzero := terminated_path h hnode
  have hslice := slice_patch_front (s := name) (l := [0]) hfront
  refine ⟨patch (patch w.filePath (front r dir).length (name ++ [0])) ((front r dir).length + name.length) [0], ?_, ?_⟩
  · rw [strcpy_eq hshort]
    exact put_eq hshort
  generalize hb : patch (patch w.filePath (front r dir).length (name ++ [0])) ((front r dir).length + name.length) [0] = buf
  have hall : slice buf 0 ((front r dir).length + name.length) = front r dir ++ name := by
    rw [← hb, slice_patch_outside (Or.inl (by omega)), hslice]
  have hend : buf ((front r dir).length + name.length) = 0 := by
    rw [← hb]
    have hone := slice_patch (patch w.filePath (front r dir).length (name ++ [0])) ((front r dir).length + name.length) [0]
    exact (List.cons.inj hone).1
  refine ⟨hall, ?_, ?_⟩
  · apply cstr_middle _ _ hzero _
    · rw [← hlen, hall, front_append]
    · rw [← hlen, hend]
    · rw [← hlen]
      exact hshort
  · apply cstr_eq
    · rw [← front_append, List.length_append, hall]
    · rw [← front_append, List.length_append, Nat.zero_add, hend]
    · rw [List.mem_append]
      exact fun hmem => hmem.elim h.mountTerminated hzero
    · rw [← front_append, List.length_append, Nat.zero_add]
      exact hshort

/-- A node and what is below it: with no directory there, only the node. -/
theorem from_iff (h : r.Ok) {q : List Str} (hnode : r.tree.find? q = some kind) {p : Str} :
    From r mine q p ↔ (p = pathOf q ∧ mine p = true) ∨ (kind = .dir ∧ Below r mine q p) := by
  constructor
  · rintro ⟨l, hl, hp, hmine⟩
    by_cases hempty : l = []
    · subst hempty
      rw [List.append_nil] at hp
      exact Or.inl ⟨hp, hmine⟩
    · obtain ⟨below, hbelow⟩ := Option.ne_none_iff_exists'.mp hl
      have hdir := h.tree.dir_above hbelow hempty
      rw [hnode] at hdir
      exact Or.inr ⟨Option.some.inj hdir, l, hempty, hl, hp, hmine⟩
  · rintro (⟨hp, hmine⟩ | ⟨_, l, _, hl, hp, hmine⟩)
    · refine ⟨[], ?_, ?_, hmine⟩
      · rw [List.append_nil, hnode]
        exact Option.some_ne_none _
      · rw [List.append_nil, hp]
    · exact ⟨l, hl, hp, hmine⟩

/-- What is below a directory is at or below one of its names. -/
theorem below_iff (h : r.Ok) {p : Str} :
    Below r mine dir p ↔ ∃ name, r.tree.find? (dir ++ [name]) ≠ none ∧ From r mine (dir ++ [name]) p := by
  constructor
  · rintro ⟨l, hempty, hl, hp, hmine⟩
    obtain ⟨name, rest, rfl⟩ := List.exists_cons_of_ne_nil hempty
    rw [List.append_cons] at hl hp
    refine ⟨name, ?_, rest, hl, hp, hmine⟩
    by_cases hrest : rest = []
    · rw [hrest, List.append_nil] at hl
      exact hl
    · obtain ⟨below, hbelow⟩ := Option.ne_none_iff_exists'.mp hl
      rw [h.tree.dir_above hbelow hrest]
      exact Option.some_ne_none _
  · rintro ⟨name, _, l, hl, hp, hmine⟩
    rw [List.append_assoc] at hl hp
    exact ⟨[name] ++ l, by simp, hl, hp, hmine⟩

/-- The item adds its own path and, for a directory, what the call for it adds. -/
theorem dfsItem_walked (h : r.Ok) (hnode : r.tree.find? (dir ++ [name]) = some kind) (hdot : name ≠ [dot] ∧ name ≠ [dot, dot])
    {inside : List (Str × Kind) → Nat → Walk → Option Walk}
    (hinside : kind = .dir → ∀ w, slice w.filePath 0 (front r (dir ++ [name])).length = front r (dir ++ [name]) →
      ∃ w', inside (r.listing (dir ++ [name])) (front r (dir ++ [name])).length w = some w' ∧
        Walked (front r (dir ++ [name])) (Below r mine (dir ++ [name])) w w')
    (hfront : slice w.filePath 0 (front r dir).length = front r dir) :
    ∃ w', dfsItem r mine inside r.mountPoint.length (front r dir).length w (name, kind) = some w' ∧
      Walked (front r dir) (From r mine (dir ++ [name])) w w' := by
  obtain ⟨buf, hbuf, hslice, hrelative, hpath⟩ := name_copied h hnode hfront
  have hshort := h.short _ _ hnode
  rw [relativeOf_eq_pathOf (by simp), ← front_append, List.length_append] at hshort
  have hkept : slice buf 0 (front r dir).length = front r dir := by
    rw [slice_add] at hslice
    exact List.append_inj_left hslice (length_slice _ _ _)
  generalize hpool : (if mine (pathOf (dir ++ [name])) then
    w.pool.insert (pathOf (dir ++ [name])) (entry r (r.mountPoint ++ pathOf (dir ++ [name])) (pathOf (dir ++ [name])) name) else w.pool) = pool
  have hkeys : ∀ p, p ∈ pool.keys ↔ p ∈ w.pool.keys ∨ (p = pathOf (dir ++ [name]) ∧ mine p = true) := by
    intro p
    rw [← hpool]
    split
    · rename_i hmine
      rw [OrdMap.mem_keys_insert]
      constructor
      · rintro (rfl | hp)
        · exact Or.inr ⟨rfl, hmine⟩
        · exact Or.inl hp
      · exact fun hp => hp.elim Or.inr fun hp => Or.inl hp.1
    · rename_i hmine
      constructor
      · exact Or.inl
      · rintro (hp | ⟨rfl, hp⟩)
        · exact hp
        · exact absurd hp hmine
  have hrun : dfsItem r mine inside r.mountPoint.length (front r dir).length w (name, kind) =
      if kind = .dir then (r.opendir (r.mountPoint ++ pathOf (dir ++ [name]))).bind fun newDir =>
        (put PATH_MAX buf ((front r dir).length + name.length) Master.slash).bind fun filePath =>
          inside newDir ((front r dir).length + name.length + 1) ⟨filePath, pool⟩
      else some ⟨buf, pool⟩ := by
    unfold dfsItem
    rw [if_neg (not_or.mpr hdot)]
    obtain ⟨first, hfirst, hsecond⟩ := Option.bind_eq_some_iff.mp hbuf
    dsimp only
    simp only [hfirst, hsecond, hrelative, hpath, hpool, Option.bind_eq_bind, Option.bind_some]
  rw [hrun]
  by_cases hkind : kind = .dir
  · subst hkind
    rw [if_pos rfl, opendir_path h hnode, put_eq hshort, Option.bind_some, Option.bind_some]
    have hlen : (front r (dir ++ [name])).length = (front r dir).length + name.length + 1 := by
      rw [front_next, List.length_append, List.length_append, List.length_singleton]
    have hnext : slice (patch buf ((front r dir).length + name.length) [Master.slash]) 0 (front r (dir ++ [name])).length =
        front r (dir ++ [name]) := by
      rw [hlen, slice_add, Nat.zero_add, slice_patch_outside (Or.inl (by omega)), hslice, front_next]
      congr 1
      exact slice_patch buf _ [Master.slash]
    obtain ⟨w', hw', hwalked⟩ := hinside rfl ⟨_, pool⟩ hnext
    rw [hlen] at hw'
    refine ⟨w', hw', ?_, ?_⟩
    · have hall := hwalked.kept
      rw [front_next, List.append_assoc, List.length_append, slice_add] at hall
      exact List.append_inj_left hall (length_slice _ _ _)
    · intro p
      rw [hwalked.keys, hkeys, from_iff h hnode, or_assoc, and_iff_right rfl]
  · rw [if_neg hkind]
    refine ⟨_, rfl, hkept, fun p => ?_⟩
    rw [hkeys, from_iff h hnode]
    simp only [hkind, false_and, or_false]

/-- **A call for a directory adds what is below it.** The names are those that the directory holds, in any order. -/
theorem dfsItemsInRemote_walked (h : r.Ok) : ∀ {fuel : Nat} {dir : List Str} {w : Walk},
    (∀ l, r.tree.find? (dir ++ l) ≠ none → l.length < fuel) → slice w.filePath 0 (front r dir).length = front r dir →
    r.tree.find? dir ≠ none →
    ∃ w', dfsItemsInRemote r mine r.mountPoint.length fuel (r.listing dir) (front r dir).length w = some w' ∧
      Walked (front r dir) (Below r mine dir) w w'
  | 0, dir, w, hfuel, _, hdir => by
      rw [← List.append_nil dir] at hdir
      exact absurd (hfuel [] hdir) (Nat.not_lt_zero _)
  | fuel + 1, dir, w, hfuel, hfront, _ => by
      unfold dfsItemsInRemote
      have hitems : ∀ item ∈ r.listing dir, (item.1 = [dot] ∨ item.1 = [dot, dot]) ∨
          (item.1 ≠ [dot] ∧ item.1 ≠ [dot, dot]) ∧ r.tree.find? (dir ++ [item.1]) = some item.2 := by
        intro item hitem
        by_cases hdot : item.1 = [dot] ∨ item.1 = [dot, dot]
        · exact Or.inl hdot
        · rw [not_or] at hdot
          exact Or.inr ⟨hdot, (h.listing dir item.1 item.2).mp ⟨hitem, hdot⟩⟩
      -- any part of the listing, from any state of the walk that has the directory's path in the array
      have hall : ∀ (items : List (Str × Kind)) (w : Walk), (∀ item ∈ items, (item.1 = [dot] ∨ item.1 = [dot, dot]) ∨
            (item.1 ≠ [dot] ∧ item.1 ≠ [dot, dot]) ∧ r.tree.find? (dir ++ [item.1]) = some item.2) →
          slice w.filePath 0 (front r dir).length = front r dir →
          ∃ w', items.foldlM (dfsItem r mine (dfsItemsInRemote r mine r.mountPoint.length fuel) r.mountPoint.length (front r dir).length) w = some w' ∧
            Walked (front r dir) (fun p => ∃ item ∈ items, (item.1 ≠ [dot] ∧ item.1 ≠ [dot, dot]) ∧ From r mine (dir ++ [item.1]) p) w w' := by
        intro items
        induction items with
        | nil =>
            intro w _ hfront
            refine ⟨w, rfl, hfront, fun p => ?_⟩
            simp
        | cons item items ih =>
            intro w hitems hfront
            have hrest := fun i hi => hitems i (List.mem_cons_of_mem _ hi)
            rw [List.foldlM_cons]
            rcases hitems item List.mem_cons_self with hdot | ⟨hdot, hnode⟩
            · obtain ⟨w', hw', hwalked⟩ := ih w hrest hfront
              have hskip : dfsItem r mine (dfsItemsInRemote r mine r.mountPoint.length fuel) r.mountPoint.length (front r dir).length w item = some w := if_pos hdot
              rw [hskip, Option.bind_eq_bind, Option.bind_some]
              refine ⟨w', hw', hwalked.kept, fun p => ?_⟩
              rw [hwalked.keys]
              have hno : ¬ (item.1 ≠ [dot] ∧ item.1 ≠ [dot, dot]) := fun hc => hdot.elim hc.1 hc.2
              simp [hno]
            · obtain ⟨w₁, hw₁, hone⟩ := @dfsItem_walked r mine dir item.1 item.2 w h hnode hdot (dfsItemsInRemote r mine r.mountPoint.length fuel)
                (by
                  intro hkind w hfront
                  apply dfsItemsInRemote_walked h _ hfront
                  · rw [hnode]
                    exact Option.some_ne_none _
                  · intro l hl
                    rw [List.append_assoc] at hl
                    have hlt := hfuel _ hl
                    rw [List.singleton_append, List.length_cons] at hlt
                    exact Nat.lt_of_succ_lt_succ hlt) hfront
              obtain ⟨w', hw', hwalked⟩ := ih w₁ hrest hone.kept
              rw [hw₁, Option.bind_eq_bind, Option.bind_some]
              refine ⟨w', hw', hwalked.kept, fun p => ?_⟩
              rw [hwalked.keys, hone.keys, or_assoc]
              simp [hdot]
      obtain ⟨w', hw', hwalked⟩ := hall (r.listing dir) w hitems hfront
      refine ⟨w', hw', hwalked.kept, fun p => ?_⟩
      rw [hwalked.keys, below_iff h]
      apply or_congr_right
      constructor
      · rintro ⟨item, hitem, hdot, hfrom⟩
        refine ⟨item.1, ?_, hfrom⟩
        rw [(h.listing dir item.1 item.2).mp ⟨hitem, hdot⟩]
        exact Option.some_ne_none _
      · rintro ⟨name, hname, hfrom⟩
        obtain ⟨kind, hkind⟩ := Option.ne_none_iff_exists'.mp hname
        obtain ⟨hitem, hdot⟩ := (h.listing dir name kind).mpr hkind
        exact ⟨(name, kind), hitem, hdot, hfrom⟩

/-- The pool of a master has the root and the paths of the tree that are its own. -/
theorem keys_bufferAllMetaDataFromRemote (h : r.Ok) (hash : Str → Nat) (total number : Nat) (uninitialised : Nat → Byte) :
    ∃ pool, bufferAllMetaDataFromRemote r hash total number uninitialised = some pool ∧ ∀ p, p ∈ pool.keys ↔ p = [Master.slash] ∨
      ∃ q, q ≠ [] ∧ r.tree.find? q ≠ none ∧ p = pathOf q ∧ number = filePathHash hash p total := by
  have hshort := h.short [] _ h.tree.root
  have hmount : r.mountPoint.length < PATH_MAX := by
    rw [List.length_append] at hshort
    omega
  have hopen : r.opendir r.mountPoint = some (r.listing []) := by
    unfold RemoteStorage.opendir
    rw [List.drop_length]
    exact if_pos ⟨List.isPrefixOf_iff_prefix.mpr (List.prefix_refl _), h.tree.root⟩
  generalize hb : patch (patch uninitialised 0 (r.mountPoint ++ [0])) r.mountPoint.length [0] = buf
  have hslice : slice buf 0 r.mountPoint.length = r.mountPoint := by
    rw [← hb, slice_patch_outside (Or.inl (by omega))]
    have hcopy := @slice_patch_front Byte uninitialised r.mountPoint [] [0] rfl
    rw [List.length_nil, Nat.zero_add, List.nil_append] at hcopy
    exact hcopy
  have hend : buf r.mountPoint.length = 0 := by
    rw [← hb]
    exact (List.cons.inj (slice_patch (patch uninitialised 0 (r.mountPoint ++ [0])) r.mountPoint.length [0])).1
  have hcstr : cstr PATH_MAX buf 0 = some r.mountPoint := by
    apply cstr_eq hslice _ h.mountTerminated
    · rw [Nat.zero_add]
      exact hmount
    · rw [Nat.zero_add, hend]
  have hfront : slice (patch buf r.mountPoint.length [Master.slash]) 0 (front r []).length = front r [] := by
    have hcopy := slice_patch_front (s := [Master.slash]) (l := []) hslice
    rw [front_root, List.length_append]
    exact hcopy
  have hlen : (front r []).length = r.mountPoint.length + 1 := by
    rw [front_root, List.length_append, List.length_singleton]
  obtain ⟨w', hw', hwalked⟩ := @dfsItemsInRemote_walked r (fun p => decide (number = filePathHash hash p total)) h (depth r.tree + 1) []
    ⟨patch buf r.mountPoint.length [Master.slash], OrdMap.empty.insert [Master.slash] (entry r r.mountPoint [Master.slash] [Master.slash])⟩
    (fun l hl => by
      obtain ⟨kind, hkind⟩ := Option.ne_none_iff_exists'.mp hl
      exact Nat.lt_succ_of_le (length_le_depth hkind)) hfront (by simp [h.tree.root])
  refine ⟨w'.pool, ?_, fun p => ?_⟩
  · rw [hlen] at hw'
    have hne : buf r.mountPoint.length ≠ Master.slash := by
      rw [hend]
      decide
    have hstart : r.mountPoint.length < PATH_MAX → 0 + r.mountPoint.length < PATH_MAX := by omega
    unfold bufferAllMetaDataFromRemote
    simp only [hopen, strcpy_eq (hstart hmount), put_eq hmount, hb, hcstr, Option.bind_eq_bind, Option.bind_some, if_pos hne, Option.map_some,
      Nat.add_sub_cancel, hw']
  · rw [hwalked.keys, OrdMap.mem_keys_insert]
    apply or_congr
    · simp [OrdMap.keys_empty]
    · unfold Below
      simp only [List.nil_append, decide_eq_true_eq]

/-- A master that is alone has the paths that `Namespace` starts from. -/
theorem keys_one_master (h : r.Ok) (hash : Str → Nat) (uninitialised : Nat → Byte) (lstat : Str → Stat) :
    ∃ pool, bufferAllMetaDataFromRemote r hash 1 0 uninitialised = some pool ∧
      pool.keys = (HuronFS.bufferAllMetaDataFromRemote lstat r.tree).keys := by
  obtain ⟨pool, hrun, hkeys⟩ := keys_bufferAllMetaDataFromRemote h hash 1 0 uninitialised
  obtain ⟨hsound, hcomplete⟩ := @bufferAllMetaDataFromRemote_find lstat r.tree h.tree
  refine ⟨pool, hrun, OrdMap.keys_eq_of_mem fun p => ?_⟩
  rw [hkeys]
  constructor
  · rintro (rfl | ⟨q, _, hq, rfl, _⟩)
    · exact OrdMap.mem_keys.mpr (Option.isSome_iff_exists.mp (hcomplete [] _ h.tree.root))
    · obtain ⟨kind, hkind⟩ := Option.ne_none_iff_exists'.mp hq
      exact OrdMap.mem_keys.mpr (Option.isSome_iff_exists.mp (hcomplete q kind hkind))
  · intro hp
    obtain ⟨s, hs⟩ := OrdMap.mem_keys.mp hp
    obtain ⟨q, kind, hq, hpath⟩ := (hsound p s hs).node
    by_cases hroot : q = []
    · subst hroot
      exact Or.inl hpath
    · exact Or.inr ⟨q, hroot, by simp [hq], hpath, (Nat.mod_one _).symm⟩

/-- **The masters partition the namespace.** After each of them has walked the storage, a path below the root is in the pool of the one
    master that the clients ask for it, the root is in every pool, and nothing else is in any. -/
theorem startUp_partitions (h : r.Ok) (hash : Str → Nat) {total : Nat} (htotal : 0 < total) (uninitialised : Nat → Nat → Byte) :
    ∃ pools : Nat → OrdMap Str FileStat,
      (∀ m < total, bufferAllMetaDataFromRemote r hash total m (uninitialised m) = some (pools m)) ∧
      (∀ q, q ≠ [] → r.tree.find? q ≠ none → getMasterNumberFromPath hash total (pathOf q) < total ∧
        ∀ m < total, pathOf q ∈ (pools m).keys ↔ m = getMasterNumberFromPath hash total (pathOf q)) ∧
      (∀ m < total, [Master.slash] ∈ (pools m).keys) ∧
      ∀ m < total, ∀ p ∈ (pools m).keys, p = [Master.slash] ∨ ∃ q, q ≠ [] ∧ r.tree.find? q ≠ none ∧ p = pathOf q := by
  choose pools hrun hkeys using fun m => keys_bufferAllMetaDataFromRemote h hash total m (uninitialised m)
  refine ⟨pools, fun m _ => hrun m, ?_, ?_, ?_⟩
  · intro q hroot hq
    refine ⟨Nat.mod_lt _ htotal, fun m _ => ?_⟩
    rw [hkeys]
    constructor
    · rintro (hpath | ⟨q', _, _, _, hmine⟩)
      · obtain ⟨kind, hkind⟩ := Option.ne_none_iff_exists'.mp hq
        have hnames := components_pathOf (plain_path h ⟨kind, hkind⟩)
        rw [hpath] at hnames
        exact absurd hnames.symm hroot
      · exact hmine
    · exact fun hmine => Or.inr ⟨q, hroot, hq, rfl, hmine⟩
  · intro m _
    rw [hkeys]
    exact Or.inl rfl
  · intro m _ p hp
    rw [hkeys] at hp
    rcases hp with hroot | ⟨q, hne, hq, hpath, _⟩
    · exact Or.inl hroot
    · exact Or.inr ⟨q, hne, hq, hpath⟩

/-- The directory `/a` with `b` in it, and after it the file `/cc`, under `/m`. `readdir` returns `.` and `..` too. -/
def smallStorage : RemoteStorage :=
  let tree := (((OrdMap.empty.put [] .dir).put [[97]] .dir).put [[97], [98]] .file).put [[99, 99]] .file
  { mountPoint := [47, 109], tree := tree,
    listing := fun q => ([dot], .dir) :: ([dot, dot], .dir) :: Posix.readdir tree q, lstat := fun _ => Stat.zero }

theorem smallStorage_ok : smallStorage.Ok := by
  have hnode : ∀ {q : List Str} {kind : Kind}, smallStorage.tree.find? q = some kind → q ∈ smallStorage.tree.keys :=
    fun hq => OrdMap.mem_keys.mpr ⟨_, hq⟩
  have hlast : ∀ q : List Str, ∀ name, (q ++ [name]).getLast? = some name := fun q name => List.getLast?_concat
  have hplain : ∀ q ∈ smallStorage.tree.keys, ∀ name ∈ q.getLast?, PlainName Master.slash dot name ∧ 0 ∉ name := by
    have hall : ∀ q ∈ smallStorage.tree.keys, ∀ name ∈ q.getLast?, name ≠ [] ∧ name ≠ [dot] ∧ name ≠ [dot, dot] ∧ Master.slash ∉ name ∧ 0 ∉ name := by
      decide
    intro q hq name hname
    obtain ⟨h1, h2, h3, h4, h5⟩ := hall q hq name hname
    exact ⟨⟨h1, h2, h3, h4⟩, h5⟩
  refine ⟨⟨by decide, ?_⟩, ?_, ?_, ?_, by decide, ?_⟩
  · have hparent : ∀ q ∈ smallStorage.tree.keys, q ≠ [] → smallStorage.tree.find? q.dropLast = some .dir := by decide
    intro q name kind hq
    have hq' := hparent _ (hnode hq) (by simp)
    rw [List.dropLast_concat] at hq'
    exact hq'
  · intro q name kind
    constructor
    · rintro ⟨hmem, hdot, hdots⟩
      rcases List.mem_cons.mp hmem with hmem | hmem
      · exact absurd (congrArg Prod.fst hmem) hdot
      · rcases List.mem_cons.mp hmem with hmem | hmem
        · exact absurd (congrArg Prod.fst hmem) hdots
        · exact Posix.mem_readdir.mp hmem
    · intro hq
      have hname := (hplain _ (hnode hq) name (hlast q name)).1
      exact ⟨List.mem_cons_of_mem _ (List.mem_cons_of_mem _ (Posix.mem_readdir.mpr hq)), hname.ne_dot, hname.ne_dots⟩
  · exact fun q name kind hq => (hplain _ (hnode hq) name (hlast q name)).1
  · exact fun q name kind hq => (hplain _ (hnode hq) name (hlast q name)).2
  · have hshort : ∀ q ∈ smallStorage.tree.keys, (smallStorage.mountPoint ++ relativeOf q).length < PATH_MAX := by decide
    exact fun q kind hq => hshort q (hnode hq)

/-- Two masters, with the length of a path for its hash: `/a/b` is the first one's, `/cc` the second one's. -/
theorem startUp_partitions_two : smallStorage.Ok ∧ ∃ pools : Nat → OrdMap Str FileStat,
    (∀ m < 2, bufferAllMetaDataFromRemote smallStorage List.length 2 m (fun _ => 7) = some (pools m)) ∧
    (pathOf [[97], [98]] ∈ (pools 0).keys ∧ pathOf [[97], [98]] ∉ (pools 1).keys) ∧ pathOf [[99, 99]] ∈ (pools 1).keys := by
  obtain ⟨pools, hrun, hkeys, -, -⟩ := startUp_partitions smallStorage_ok List.length (show 0 < 2 by decide) (fun _ _ => 7)
  have hnested := (hkeys [[97], [98]] (by decide) (by decide)).2
  have hlater := (hkeys [[99, 99]] (by decide) (by decide)).2
  refine ⟨smallStorage_ok, pools, hrun, ⟨(hnested 0 (by decide)).mpr (by decide), ?_⟩, (hlater 1 (by decide)).mpr (by decide)⟩
  exact fun hmem => absurd ((hnested 1 (by decide)).mp hmem) (by decide)

end Walk

end HuronFS
