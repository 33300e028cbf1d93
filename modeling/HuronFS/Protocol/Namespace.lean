import HuronFS.Lib.PosixTree
import HuronFS.Lib.Run
import HuronFS.Master.Config

/-!
# `Protocol.Namespace` — the paths of the Master and the paths on storage

`_buffer_all_meta_data_from_remote` fills `_file_stat_pool` with the paths on storage. From then on a handler
edits the pool and hands the storage operation to the remote-task thread, which has it done or refused later. The
invariant compares the pool with the tree that the queued operations will leave.
-/

namespace HuronFS

open Posix (Kind PlainName)

/-! ## Paths -/

/-- The byte `'.'`. -/
def dot : Byte := 46

/-- The names on the way to a path. -/
def components (path : Str) : List Str := Posix.resolve Master.slash dot path

/-- The path of a node of the storage. -/
def pathOf (q : List Str) : Str := Posix.render Master.slash q

theorem components_pathOf {q : List Str} (h : ∀ n ∈ q, PlainName Master.slash dot n) : components (pathOf q) = q :=
  Posix.resolve_render h

theorem components_plain (path : Str) : ∀ n ∈ components path, PlainName Master.slash dot n := Posix.resolve_plain path

/-- The part of a mode that says what a node is. -/
def S_IFMT : BitVec 32 := 0xF000#32

/-- `S_ISDIR`. -/
def kindOf (mode : BitVec 32) : Kind := if mode &&& S_IFMT = S_IFDIR then .dir else .file

/-! ## The metadata of the storage (`_buffer_all_meta_data_from_remote`) -/

/-- `Master_file_stat(file_status, name, EXISTING)`, with its path set. -/
def bufferedStat (lstat : Str → Stat) (path name : Str) : FileStat :=
  { Master.defaultStat path with status := lstat path, name := name, existFlag := .existing }

/-- `_dfs_items_in_remote` in the directory `dir`, whose relative path is `relativePath`. -/
def dfsItemsInRemote (lstat : Str → Stat) (tree : Posix.Tree Str) :
    (fuel : Nat) → (dir : List Str) → (relativePath : Str) → OrdMap Str FileStat → OrdMap Str FileStat
  | 0, _, _, pool => pool
  | fuel + 1, dir, relativePath, pool =>
      (Posix.readdir tree dir).foldl (fun pool item =>
        let path := relativePath ++ Master.slash :: item.1
        let pool := pool.insert path (bufferedStat lstat path item.1)
        if item.2 = .dir then dfsItemsInRemote lstat tree fuel (dir ++ [item.1]) path pool else pool) pool

/-- How deep a tree is. -/
def depth (tree : Posix.Tree Str) : Nat := tree.keys.foldr (fun q d => max q.length d) 0

/-- `_buffer_all_meta_data_from_remote`, with one master. -/
def bufferAllMetaDataFromRemote (lstat : Str → Stat) (tree : Posix.Tree Str) : OrdMap Str FileStat :=
  dfsItemsInRemote lstat tree (depth tree) [] []
    (OrdMap.empty.insert [Master.slash] (bufferedStat lstat [Master.slash] [Master.slash]))

/-- An entry as the walk makes it, for a node of the tree. -/
structure BufferedEntry (lstat : Str → Stat) (tree : Posix.Tree Str) (path : Str) (s : FileStat) : Prop where
  node : ∃ q kind, tree.find? q = some kind ∧ path = pathOf q
  status : s.status = lstat path
  existFlag : s.existFlag = .existing
  unopened : s.openedFileInfo = none
  fullPath : s.fullPath = path

section Walk

variable {lstat : Str → Stat} {tree : Posix.Tree Str}

/-- The path of a directory, without the separator that a path below it starts with. -/
def relativeOf (dir : List Str) : Str := dir.flatMap (Master.slash :: ·)

theorem pathOf_append (dir : List Str) (name : Str) : pathOf (dir ++ [name]) = relativeOf dir ++ Master.slash :: name := by
  unfold pathOf Posix.render relativeOf
  rw [if_neg (by simp), List.flatMap_append]
  simp

theorem relativeOf_append (dir : List Str) (name : Str) : relativeOf (dir ++ [name]) = relativeOf dir ++ Master.slash :: name := by
  unfold relativeOf
  rw [List.flatMap_append]
  simp

/-- What holds of the pool before the walk, and stays true when the entry of a node is inserted, holds after it. -/
theorem dfs_induction {P : OrdMap Str FileStat → Prop}
    (hinsert : ∀ dir name kind pool, tree.find? (dir ++ [name]) = some kind → P pool →
      P (pool.insert (pathOf (dir ++ [name])) (bufferedStat lstat (pathOf (dir ++ [name])) name))) (fuel : Nat) :
    ∀ (dir : List Str) (pool : OrdMap Str FileStat), P pool →
      P (dfsItemsInRemote lstat tree fuel dir (relativeOf dir) pool) := by
  induction fuel with
  | zero => exact fun _ _ hpool => hpool
  | succ fuel ih =>
      intro dir pool hpool
      unfold dfsItemsInRemote
      have hitems : ∀ item ∈ Posix.readdir tree dir, tree.find? (dir ++ [item.1]) = some item.2 :=
        fun item hitem => Posix.mem_readdir.mp hitem
      generalize Posix.readdir tree dir = items at hitems
      induction items generalizing pool with
      | nil => exact hpool
      | cons item items ihitems =>
          have hrest : ∀ i ∈ items, tree.find? (dir ++ [i.1]) = some i.2 := fun i hi => hitems i (List.mem_cons_of_mem _ hi)
          have hentry := hinsert dir item.1 item.2 pool (hitems item List.mem_cons_self) hpool
          rw [pathOf_append] at hentry
          rw [List.foldl_cons]
          simp only
          split
          · rw [← relativeOf_append] at hentry ⊢
            exact ihitems _ (ih (dir ++ [item.1]) _ hentry) hrest
          · exact ihitems _ hentry hrest

/-- The walk adds entries of nodes of the tree. -/
theorem dfs_sound {fuel : Nat} {dir : List Str} {pool : OrdMap Str FileStat}
    (hpool : ∀ p s, pool.find? p = some s → BufferedEntry lstat tree p s) :
    ∀ p s, (dfsItemsInRemote lstat tree fuel dir (relativeOf dir) pool).find? p = some s → BufferedEntry lstat tree p s := by
  refine dfs_induction (P := fun pool => ∀ p s, pool.find? p = some s → BufferedEntry lstat tree p s) ?_ fuel dir pool hpool
  intro dir name kind pool hnode hpool p s hp
  rw [OrdMap.find?_insert] at hp
  split at hp
  · rename_i hpath
    cases hf : pool.find? (pathOf (dir ++ [name])) with
    | some s' =>
        rw [hf] at hp
        cases hp
        rw [hpath]
        exact hpool _ s' hf
    | none =>
        rw [hf] at hp
        cases hp
        rw [hpath]
        exact ⟨⟨_, _, hnode, rfl⟩, rfl, rfl, rfl, rfl⟩
  · exact hpool p s hp

/-- The walk keeps what is there. -/
theorem dfs_keeps {fuel : Nat} {dir : List Str} {pool : OrdMap Str FileStat} {p : Str} (hp : (pool.find? p).isSome) :
    ((dfsItemsInRemote lstat tree fuel dir (relativeOf dir) pool).find? p).isSome := by
  refine dfs_induction (P := fun pool => (pool.find? p).isSome) ?_ fuel dir pool hp
  intro dir name kind pool _ hp
  rw [OrdMap.find?_insert]
  split
  · rfl
  · exact hp

/-- The walk reaches every node below the directory, the fuel being more than the steps to it. -/
theorem dfs_complete (hok : tree.Ok) {fuel : Nat} : ∀ {rest dir : List Str} {pool : OrdMap Str FileStat} {name : Str}
    {kind : Kind}, tree.find? (dir ++ name :: rest) = some kind → rest.length < fuel →
    ((dfsItemsInRemote lstat tree fuel dir (relativeOf dir) pool).find? (pathOf (dir ++ name :: rest))).isSome := by
  induction fuel with
  | zero => exact fun _ hlt => absurd hlt (Nat.not_lt_zero _)
  | succ fuel ih =>
      intro rest dir pool name kind hnode hlt
      -- the first name on the way is an entry of the directory
      obtain ⟨first, hfirst, hdir⟩ : ∃ first, tree.find? (dir ++ [name]) = some first ∧ (rest ≠ [] → first = .dir) := by
        cases rest with
        | nil => exact ⟨kind, hnode, fun hc => absurd rfl hc⟩
        | cons next rest =>
            have hnode' : tree.find? ((dir ++ [name]) ++ next :: rest) = some kind := by
              rw [List.append_assoc]
              exact hnode
            exact ⟨.dir, hok.dir_above hnode' (List.cons_ne_nil _ _), fun _ => rfl⟩
      have hmem : (name, first) ∈ Posix.readdir tree dir := Posix.mem_readdir.mpr hfirst
      unfold dfsItemsInRemote
      generalize Posix.readdir tree dir = items at hmem
      -- the entries after this one keep what it brings
      have hkeep : ∀ (items : List (Str × Kind)) (pool : OrdMap Str FileStat) (p : Str), (pool.find? p).isSome →
          ((items.foldl (fun pool item =>
            let path := relativeOf dir ++ Master.slash :: item.1
            let pool := pool.insert path (bufferedStat lstat path item.1)
            if item.2 = .dir then dfsItemsInRemote lstat tree fuel (dir ++ [item.1]) path pool else pool) pool).find? p).isSome := by
        intro items
        induction items with
        | nil => exact fun _ _ hp => hp
        | cons item items ihitems =>
            intro pool p hp
            refine ihitems _ p ?_
            have hins : ((pool.insert (relativeOf dir ++ Master.slash :: item.1)
                (bufferedStat lstat (relativeOf dir ++ Master.slash :: item.1) item.1)).find? p).isSome := by
              rw [OrdMap.find?_insert]
              split
              · rfl
              · exact hp
            simp only
            split
            · rw [← relativeOf_append] at hins ⊢
              exact dfs_keeps hins
            · exact hins
      induction items generalizing pool with
      | nil => cases hmem
      | cons item items ihitems =>
          rw [List.foldl_cons]
          rcases List.mem_cons.mp hmem with rfl | hmem
          · refine hkeep items _ _ ?_
            have hins : ((pool.insert (relativeOf dir ++ Master.slash :: name)
                (bufferedStat lstat (relativeOf dir ++ Master.slash :: name) name)).find? (pathOf (dir ++ [name]))).isSome := by
              rw [pathOf_append, OrdMap.find?_insert, if_pos rfl]
              rfl
            simp only
            cases rest with
            | nil =>
                split
                · rw [← relativeOf_append] at hins ⊢
                  exact dfs_keeps hins
                · exact hins
            | cons next rest =>
                have hsplit : dir ++ name :: next :: rest = (dir ++ [name]) ++ next :: rest := List.append_cons _ _ _
                rw [if_pos (hdir (by simp)), ← relativeOf_append, hsplit]
                rw [hsplit] at hnode
                exact ih hnode (Nat.lt_of_succ_lt_succ hlt)
          · exact ihitems hmem

theorem length_le_depth {q : List Str} {kind : Kind} (h : tree.find? q = some kind) : q.length ≤ depth tree := by
  have hmem : q ∈ tree.keys := OrdMap.mem_keys.mpr ⟨kind, h⟩
  unfold depth
  generalize tree.keys = keys at hmem
  induction keys with
  | nil => cases hmem
  | cons k keys ih =>
      rw [List.foldr_cons]
      rcases List.mem_cons.mp hmem with rfl | hmem
      · exact le_max_left _ _
      · exact le_trans (ih hmem) (le_max_right _ _)

/-- **The pool has the paths of the storage**, each with its attributes. -/
theorem bufferAllMetaDataFromRemote_find (hok : tree.Ok) :
    (∀ p s, (bufferAllMetaDataFromRemote lstat tree).find? p = some s → BufferedEntry lstat tree p s) ∧
    ∀ q kind, tree.find? q = some kind → ((bufferAllMetaDataFromRemote lstat tree).find? (pathOf q)).isSome := by
  have hroot : (OrdMap.empty.insert [Master.slash] (bufferedStat lstat [Master.slash] [Master.slash])).find? [Master.slash]
      = some (bufferedStat lstat [Master.slash] [Master.slash]) := by
    rw [OrdMap.find?_insert, if_pos rfl]
    rfl
  refine ⟨?_, ?_⟩
  · show ∀ p s, (dfsItemsInRemote lstat tree (depth tree) [] (relativeOf []) _).find? p = some s → _
    refine dfs_sound ?_
    intro p s hp
    rw [OrdMap.find?_insert] at hp
    split at hp
    · rename_i hpath
      cases hp
      rw [hpath]
      exact ⟨⟨[], .dir, hok.root, rfl⟩, rfl, rfl, rfl, rfl⟩
    · cases hp
  · intro q kind hq
    cases q with
    | nil =>
        show ((dfsItemsInRemote lstat tree (depth tree) [] (relativeOf []) _).find? [Master.slash]).isSome
        refine dfs_keeps ?_
        rw [hroot]
        rfl
    | cons name rest =>
        show ((dfsItemsInRemote lstat tree (depth tree) [] (relativeOf []) _).find? (pathOf ([] ++ name :: rest))).isSome
        exact dfs_complete hok hq (length_le_depth hq)

end Walk

/-! ## The system -/

/-- The Master, the queue of its remote-task thread and the storage. -/
structure Namespace where
  master : Master
  tasks : List RemoteTask
  tree : Posix.Tree Str

namespace Namespace

/-- `remote_task_handler`: the names of the tasks start with the mount point. No handler queues a `RENAME`. -/
def remoteTaskHandler (mountPoint : Str) (tree : Posix.Tree Str) (t : RemoteTask) : Posix.Tree Str :=
  let q := components (t.fileName.drop mountPoint.length)
  if t.taskId = RM_DIR then Posix.rmdir tree q
  else if t.taskId = UNLINK then Posix.unlink tree q
  else if t.taskId = MKDIR then Posix.mkdir tree q
  else tree

inductive Event
  | request (ev : Master.Event)
  | remoteTask

def step (s : Namespace) : Event → Option Namespace
  | .request ev =>
      (s.master.parseRequest ev.env ev.origin ev.request).map (fun out => { s with
        master := out.master, tasks := s.tasks ++ out.remote })
  | .remoteTask =>
      match s.tasks with
      | [] => none
      | t :: rest => some { s with tasks := rest, tree := remoteTaskHandler s.master.mountPoint s.tree t }

/-- What the pool says a path is. -/
def kindAt (m : Master) (path : Str) : Option Kind := (m.fileStatPool.find? path).map (fun s => kindOf s.status.stMode)

/-- The path of the node that a path leads to. -/
def target (path : Str) : Str := pathOf (components path)

/-- To the Master the node is a directory with nothing in it, and not the root. -/
def EmptyDir (m : Master) (q : List Str) : Prop :=
  q ≠ [] ∧ kindAt m (pathOf q) = some .dir ∧
    ∀ name, PlainName Master.slash dot name → kindAt m (pathOf (q ++ [name])) = none

/-- The requests that the storage will follow. A directory is made in a directory, under a path that is free or a
    directory already; what is removed as a directory is an empty one, what is unlinked is no directory; and nothing
    is renamed or renamed over. A path that is not the path of its node (`//a`) is not created, and not used to
    remove anything. -/
def Follows (m : Master) : Request → Prop
  | .mkdir path mode => target path = path ∧ kindOf (mode ||| S_IFDIR) = .dir ∧
      (kindAt m path = some .dir ∨
        kindAt m path = none ∧ components path ≠ [] ∧ kindAt m (pathOf (components path).dropLast) = some .dir)
  | .rmDir path => kindAt m path ≠ none ∨ EmptyDir m (components path) →
      target path = path ∧ EmptyDir m (components path)
  | .unlink path => kindAt m path ≠ none ∨ kindAt m (target path) = some .file →
      target path = path ∧ kindAt m path = some .file
  | .rename oldPath newPath newMaster => newMaster = MYSELF → kindAt m oldPath = none ∧ kindAt m newPath = none
  | _ => False

def Guard (s : Namespace) : Event → Prop
  | .request ev => Follows s.master ev.request
  | .remoteTask => True

/-- The storage once the queued operations are done. -/
def settled (s : Namespace) : Posix.Tree Str := s.tasks.foldl (remoteTaskHandler s.master.mountPoint) s.tree

/-- The pool is the tree that the queued operations will leave. -/
structure Inv (s : Namespace) : Prop where
  named : ∀ q kind, s.settled.find? q = some kind → ∀ n ∈ q, PlainName Master.slash dot n
  agree : ∀ path, kindAt s.master path = if target path = path then s.settled.find? (components path) else none
  unopened : ∀ path st, s.master.fileStatPool.find? path = some st → st.openedFileInfo = none

/-- What the claim of convergence says of a pool and a tree. -/
structure Converged (m : Master) (tree : Posix.Tree Str) : Prop where
  present : ∀ path s, m.fileStatPool.find? path = some s → kindOf s.status.stMode = .dir ∨ s.existFlag = .existing →
    tree.find? (components path) = some (kindOf s.status.stMode)
  known : ∀ q kind, tree.find? q = some kind → (m.fileStatPool.find? (pathOf q)).isSome

/-! ## Steps -/

variable {s s' : Namespace}

theorem target_pathOf {q : List Str} (h : ∀ n ∈ q, PlainName Master.slash dot n) : target (pathOf q) = pathOf q := by
  unfold target
  rw [components_pathOf h]

/-- What the pool says of the path of a node is what the tree has there. -/
theorem Inv.kindAt_pathOf (h : Inv s) {q : List Str} (hq : ∀ n ∈ q, PlainName Master.slash dot n) :
    kindAt s.master (pathOf q) = s.settled.find? q := by
  rw [h.agree, if_pos (target_pathOf hq), components_pathOf hq]

theorem Inv.kindAt_target (h : Inv s) (path : Str) : kindAt s.master (target path) = s.settled.find? (components path) :=
  h.kindAt_pathOf (components_plain path)

/-- A path of its node is as known to the Master as the node is to the tree. -/
theorem Inv.kindAt_of_target (h : Inv s) {path : Str} (hp : target path = path) :
    kindAt s.master path = s.settled.find? (components path) := by
  rw [h.agree, if_pos hp]

/-- An empty directory of the Master's is one of the tree's, and the other way round. -/
theorem Inv.emptyDir_iff (h : Inv s) (path : Str) : EmptyDir s.master (components path) ↔
    components path ≠ [] ∧ s.settled.find? (components path) = some .dir ∧ Posix.readdir s.settled (components path) = [] := by
  have hplain := components_plain path
  unfold EmptyDir
  rw [h.kindAt_pathOf hplain]
  refine and_congr_right (fun _ => and_congr_right (fun _ => ?_))
  constructor
  · intro hnone
    rw [List.eq_nil_iff_forall_not_mem]
    rintro ⟨name, kind⟩ hmem
    have hnode := Posix.mem_readdir.mp hmem
    have hin := h.named _ _ hnode
    have hgone := hnone name (hin name (by simp))
    rw [h.kindAt_pathOf hin, hnode] at hgone
    cases hgone
  · intro hempty name hname
    have hin : ∀ n ∈ components path ++ [name], PlainName Master.slash dot n := by
      intro n hn
      rcases List.mem_append.mp hn with hn | hn
      · exact hplain n hn
      · rw [List.mem_singleton.mp hn]
        exact hname
    rw [h.kindAt_pathOf hin]
    by_contra hsome
    obtain ⟨kind, hkind⟩ := Option.ne_none_iff_exists'.mp hsome
    have hmem := Posix.mem_readdir.mpr hkind
    rw [hempty] at hmem
    cases hmem

/-- The path entry is removed. -/
theorem kindAt_erase (m : Master) (path p : Str) :
    kindAt { m with fileStatPool := m.fileStatPool.erase path } p = if p = path then none else kindAt m p := by
  unfold kindAt
  rw [OrdMap.find?_erase]
  split <;> rfl

theorem kindAt_setStat (m : Master) (path : Str) (st : FileStat) (p : Str) :
    kindAt (m.setStat path st) p = if p = path then some (kindOf st.status.stMode) else kindAt m p := by
  unfold kindAt
  rw [Master.setStat_pool, OrdMap.find?_put]
  split <;> rfl

/-- A path that is the path of its node is the only one that leads there. -/
theorem eq_of_components {path p : Str} (hpath : target path = path) (hp : target p = p)
    (h : components p = components path) : p = path := by
  rw [← hp, ← hpath]
  unfold target
  rw [h]

/-- The pool and the tree after a change of both at one node. -/
theorem Inv.change (h : Inv s) {m : Master} {tasks : List RemoteTask} {path : Str} {kind : Option Kind}
    (hpath : target path = path) (hm : ∀ p, kindAt m p = if p = path then kind else kindAt s.master p)
    (htree : ∀ q, (settled ⟨m, tasks, s.tree⟩).find? q = if q = components path then kind else s.settled.find? q)
    (hopen : ∀ p st, m.fileStatPool.find? p = some st → st.openedFileInfo = none) : Inv ⟨m, tasks, s.tree⟩ := by
  refine ⟨?_, ?_, hopen⟩
  · intro q k hq
    rw [htree] at hq
    split at hq
    · rename_i hqp
      rw [hqp]
      exact components_plain path
    · exact h.named q k hq
  · intro p
    show kindAt m p = _
    rw [hm, htree]
    by_cases hp : p = path
    · rw [if_pos hp, hp, if_pos hpath, if_pos rfl]
    · rw [if_neg hp, h.agree]
      split
      · rename_i htarget
        rw [if_neg (fun hc => hp (eq_of_components hpath htarget hc))]
      · rfl

/-- Nothing changes, on either side. -/
theorem Inv.same (h : Inv s) {m : Master} {tasks : List RemoteTask} (hm : ∀ p, kindAt m p = kindAt s.master p)
    (htree : settled ⟨m, tasks, s.tree⟩ = s.settled)
    (hopen : ∀ p st, m.fileStatPool.find? p = some st → st.openedFileInfo = none) : Inv ⟨m, tasks, s.tree⟩ := by
  refine ⟨?_, ?_, hopen⟩
  · rw [htree]
    exact h.named
  · intro p
    show kindAt m p = _
    rw [htree, hm]
    exact h.agree p

/-- One more operation in the queue. -/
theorem settled_append {m : Master} (hconfig : m.config = s.master.config) (t : RemoteTask) :
    settled ⟨m, s.tasks ++ [t], s.tree⟩ = remoteTaskHandler s.master.mountPoint s.settled t := by
  have hmount : m.mountPoint = s.master.mountPoint := (Prod.mk.inj hconfig).1
  unfold settled
  rw [List.foldl_append, hmount]
  rfl

theorem drop_getRealPath (m : Master) (path : Str) : (m.getRealPath path).drop m.mountPoint.length = path :=
  List.drop_left

/-- `_remove_file` of a path with an entry that is not open, or with none. -/
theorem removeFile_unopened {m : Master} (hopen : ∀ p st, m.fileStatPool.find? p = some st → st.openedFileInfo = none)
    (path : Str) : m.removeFile path
      = some ({ m with fileStatPool := m.fileStatPool.erase path }, [], (m.fileStatPool.find? path).isSome) := by
  unfold Master.removeFile
  cases hst : m.fileStatPool.find? path with
  | none =>
      rw [OrdMap.erase_of_none hst]
      rfl
  | some st =>
      simp only [hopen path st hst]
      rfl

theorem unopened_erase {m : Master} (hopen : ∀ p st, m.fileStatPool.find? p = some st → st.openedFileInfo = none)
    (path p : Str) (st : FileStat) (hp : (m.fileStatPool.erase path).find? p = some st) : st.openedFileInfo = none := by
  rw [OrdMap.find?_erase] at hp
  split at hp
  · cases hp
  · exact hopen p st hp

/-- **`UNLINK` and `RM_DIR`.** Either both sides drop the node of the path, or neither drops anything. -/
theorem Inv.parseRemove (h : Inv s) {o : Origin} {code : Int} {path : Str}
    (hdrop : kindAt s.master path ≠ none → target path = path ∧
      remoteTaskHandler s.master.mountPoint s.settled ⟨code, s.master.getRealPath path, 0⟩
        = s.settled.erase (components path))
    (hkeep : kindAt s.master path = none →
      remoteTaskHandler s.master.mountPoint s.settled ⟨code, s.master.getRealPath path, 0⟩ = s.settled) :
    ∃ out, Master.parseRemove code s.master o path = some out ∧
      Inv ⟨out.master, s.tasks ++ out.remote, s.tree⟩ := by
  refine ⟨_, by simp only [Master.parseRemove, removeFile_unopened h.unopened]; rfl, ?_⟩
  have hsettled := settled_append (s := s) (m := { s.master with fileStatPool := s.master.fileStatPool.erase path }) rfl
    ⟨code, s.master.getRealPath path, 0⟩
  by_cases hk : kindAt s.master path = none
  · refine h.same ?_ (hsettled.trans (hkeep hk)) (unopened_erase h.unopened path)
    intro p
    rw [kindAt_erase]
    split
    · rename_i hp
      rw [hp, hk]
    · rfl
  · obtain ⟨htarget, hgone⟩ := hdrop hk
    refine h.change htarget (kindAt_erase s.master path) ?_ (unopened_erase h.unopened path)
    intro q
    rw [hsettled, hgone, OrdMap.find?_erase]
    by_cases hq : q = components path
    · rw [if_pos hq, if_pos hq]
    · rw [if_neg hq, if_neg hq]

theorem Inv.unlink (h : Inv s) {o : Origin} {path : Str} (hg : Follows s.master (.unlink path)) :
    ∃ out, Master.parseRemove UNLINK s.master o path = some out ∧ Inv ⟨out.master, s.tasks ++ out.remote, s.tree⟩ := by
  have hserve : remoteTaskHandler s.master.mountPoint s.settled ⟨UNLINK, s.master.getRealPath path, 0⟩
      = Posix.unlink s.settled (components path) := by
    simp only [remoteTaskHandler, drop_getRealPath]
    rfl
  refine h.parseRemove ?_ ?_
  · intro hk
    obtain ⟨htarget, hfile⟩ := hg (Or.inl hk)
    rw [h.kindAt_of_target htarget] at hfile
    refine ⟨htarget, ?_⟩
    rw [hserve, Posix.unlink, if_pos hfile]
  · intro hk
    rw [hserve, Posix.unlink, if_neg]
    intro hfile
    obtain ⟨-, hkind⟩ := hg (Or.inr (by rw [h.kindAt_target]; exact hfile))
    rw [hk] at hkind
    cases hkind

theorem Inv.rmDir (h : Inv s) {o : Origin} {path : Str} (hg : Follows s.master (.rmDir path)) :
    ∃ out, Master.parseRemove RM_DIR s.master o path = some out ∧ Inv ⟨out.master, s.tasks ++ out.remote, s.tree⟩ := by
  have hserve : remoteTaskHandler s.master.mountPoint s.settled ⟨RM_DIR, s.master.getRealPath path, 0⟩
      = Posix.rmdir s.settled (components path) := by
    simp only [remoteTaskHandler, drop_getRealPath]
    rfl
  refine h.parseRemove ?_ ?_
  · intro hk
    obtain ⟨htarget, hempty⟩ := hg (Or.inl hk)
    refine ⟨htarget, ?_⟩
    rw [hserve, Posix.rmdir, if_pos ((h.emptyDir_iff path).mp hempty)]
  · intro hk
    rw [hserve, Posix.rmdir, if_neg]
    intro hempty
    obtain ⟨htarget, hdir⟩ := hg (Or.inr ((h.emptyDir_iff path).mpr hempty))
    have hkind : kindAt s.master (target path) = some .dir := hdir.2.1
    rw [htarget, hk] at hkind
    cases hkind

theorem Inv.mkdir (h : Inv s) {e : Env} {o : Origin} {path : Str} {mode : BitVec 32}
    (hg : Follows s.master (.mkdir path mode)) :
    Inv ⟨(s.master.parseMkdir e o path mode).master, s.tasks ++ (s.master.parseMkdir e o path mode).remote, s.tree⟩ := by
  obtain ⟨htarget, hmode, hcases⟩ := hg
  have hkind := h.kindAt_of_target htarget
  have hsettled : settled ⟨(s.master.parseMkdir e o path mode).master,
      s.tasks ++ (s.master.parseMkdir e o path mode).remote, s.tree⟩ = Posix.mkdir s.settled (components path) := by
    refine (settled_append rfl _).trans ?_
    simp only [remoteTaskHandler, drop_getRealPath]
    rfl
  have hm : ∀ p, kindAt (s.master.parseMkdir e o path mode).master p = if p = path then some .dir else kindAt s.master p := by
    intro p
    show kindAt (s.master.setStat path _) p = _
    rw [kindAt_setStat]
    show (if p = path then some (kindOf (mode ||| S_IFDIR)) else _) = _
    rw [hmode]
  refine h.change htarget hm ?_ ?_
  · intro q
    rw [hsettled]
    unfold Posix.mkdir
    rcases hcases with hdir | ⟨hnone, hne, hparent⟩
    · -- the directory is there already, and storage refuses another one
      rw [hkind] at hdir
      rw [if_neg (by rw [hdir]; simp)]
      split
      · rename_i hq
        rw [hq, hdir]
      · rfl
    · have hplain : ∀ n ∈ (components path).dropLast, PlainName Master.slash dot n :=
        fun n hn => components_plain path n ((List.dropLast_sublist _).subset hn)
      rw [hkind] at hnone
      rw [h.kindAt_pathOf hplain] at hparent
      rw [if_pos ⟨hne, hnone, hparent⟩, OrdMap.find?_put]
      by_cases hq : q = components path
      · rw [if_pos hq, if_pos hq]
      · rw [if_neg hq, if_neg hq]
  · intro p st hp
    have hp' : (s.master.fileStatPool.put path _).find? p = some st := hp
    rw [OrdMap.find?_put] at hp'
    split at hp'
    · cases hp'
      show ((s.master.fileStatPool.find? path).getD (Master.defaultStat path)).openedFileInfo = none
      cases hst : s.master.fileStatPool.find? path with
      | none => rfl
      | some st' => exact h.unopened path st' hst
    · exact h.unopened p st hp'

theorem kindAt_eq_none {m : Master} {path : Str} : kindAt m path = none ↔ m.fileStatPool.find? path = none := by
  unfold kindAt
  rw [Option.map_eq_none_iff]

theorem Inv.rename (h : Inv s) {o : Origin} {oldPath newPath : Str} {newMaster : Int}
    (hg : Follows s.master (.rename oldPath newPath newMaster)) :
    ∃ out, s.master.parseRename o oldPath newPath newMaster = some out ∧
      Inv ⟨out.master, s.tasks ++ out.remote, s.tree⟩ := by
  have hnone : ∀ out : Outcome, out.remote = [] → settled ⟨out.master, s.tasks ++ out.remote, s.tree⟩
      = s.tasks.foldl (remoteTaskHandler out.master.mountPoint) s.tree := by
    intro out hout
    rw [hout, List.append_nil]
    rfl
  by_cases hmy : newMaster = MYSELF
  · obtain ⟨hold, hnew⟩ := hg hmy
    have hold' := kindAt_eq_none.mp hold
    have hnew' := kindAt_eq_none.mp hnew
    have htables : s.master.renameTables oldPath newPath newMaster = some (s.master, []) := by
      simp only [Master.renameTables, hold', if_pos hmy, removeFile_unopened h.unopened, Option.map_some,
        OrdMap.erase_of_none hnew']
    refine ⟨_, by simp only [Master.parseRename, htables]; rfl, h.same (fun _ => rfl) ?_ h.unopened⟩
    exact hnone _ rfl
  · cases hst : s.master.fileStatPool.find? oldPath with
    | none =>
        have htables : s.master.renameTables oldPath newPath newMaster = some (s.master, []) := by
          simp only [Master.renameTables, hst, if_neg hmy]
        refine ⟨_, by simp only [Master.parseRename, htables]; rfl, h.same (fun _ => rfl) ?_ h.unopened⟩
        exact hnone _ rfl
    | some st =>
        have htables : s.master.renameTables oldPath newPath newMaster
            = some (s.master.setStat oldPath { st with externalFlag := .renamed, externalName := newPath }, []) := by
          simp only [Master.renameTables, hst, if_neg hmy]
        refine ⟨_, by simp only [Master.parseRename, htables]; rfl, h.same ?_ ?_ ?_⟩
        · intro p
          rw [kindAt_setStat]
          split
          · rename_i hp
            rw [hp]
            unfold kindAt
            rw [hst]
            rfl
          · rfl
        · exact hnone _ rfl
        · intro p st' hp
          rw [Master.setStat_pool, OrdMap.find?_put] at hp
          split at hp
          · cases hp
            exact h.unopened oldPath st hst
          · exact h.unopened p st' hp

/-- **One step.** Every request of a guarded run is handled. -/
theorem Inv.step (h : Inv s) {ev : Event} (hg : s.Guard ev) (hs : s.step ev = some s') : Inv s' := by
  cases ev with
  | request ev =>
      obtain ⟨e, o, req⟩ := ev
      obtain ⟨out, hout, rfl⟩ := Option.map_eq_some_iff.mp hs
      cases req with
      | mkdir path mode =>
          cases hout
          exact h.mkdir hg
      | rmDir path =>
          obtain ⟨out', hout', hinv⟩ := h.rmDir (o := o) hg
          obtain rfl := Option.some.inj (hout.symm.trans hout')
          exact hinv
      | unlink path =>
          obtain ⟨out', hout', hinv⟩ := h.unlink (o := o) hg
          obtain rfl := Option.some.inj (hout.symm.trans hout')
          exact hinv
      | rename oldPath newPath newMaster =>
          obtain ⟨out', hout', hinv⟩ := h.rename (o := o) hg
          obtain rfl := Option.some.inj (hout.symm.trans hout')
          exact hinv
      | _ => exact absurd hg (by simp [Guard, Follows])
  | remoteTask =>
      simp only [Namespace.step] at hs
      split at hs
      · cases hs
      · rename_i t rest htasks
        cases hs
        have hsame : settled { s with tasks := rest, tree := remoteTaskHandler s.master.mountPoint s.tree t } = s.settled := by
          unfold settled
          rw [htasks]
          rfl
        refine ⟨?_, ?_, h.unopened⟩
        · rw [hsame]
          exact h.named
        · intro path
          rw [hsame]
          exact h.agree path

/-- With nothing queued, the pool and the storage have the same paths. -/
theorem Inv.converged (h : Inv s) (htasks : s.tasks = []) : Converged s.master s.tree := by
  have hsettled : s.settled = s.tree := by
    unfold settled
    rw [htasks]
    rfl
  refine ⟨?_, ?_⟩
  · intro path st hst _
    have hkind := h.agree path
    rw [hsettled] at hkind
    unfold kindAt at hkind
    rw [hst, Option.map_some] at hkind
    split at hkind
    · exact hkind.symm
    · cases hkind
  · intro q kind hq
    rw [← hsettled] at hq
    have hkind := h.kindAt_pathOf (h.named q kind hq)
    rw [hq] at hkind
    unfold kindAt at hkind
    cases hst : s.master.fileStatPool.find? (pathOf q) with
    | none =>
        rw [hst] at hkind
        cases hkind
    | some st => rfl

/-! ## Runs -/

/-- The Master once it has read the storage, with nothing queued. -/
def initial (lstat : Str → Stat) (tree : Posix.Tree Str) (masterNumber : Int) (mountPoint : Str) (numOfReplica : Nat) :
    Namespace :=
  ⟨Master.initial (bufferAllMetaDataFromRemote lstat tree) masterNumber mountPoint numOfReplica, [], tree⟩

/-- A storage: its nodes form a tree, their names are names, and `lstat` says what each of them is. -/
structure StorageOk (lstat : Str → Stat) (tree : Posix.Tree Str) : Prop where
  ok : tree.Ok
  named : ∀ q kind, tree.find? q = some kind → ∀ n ∈ q, PlainName Master.slash dot n
  lstat : ∀ q kind, tree.find? q = some kind → kindOf (lstat (pathOf q)).stMode = kind

theorem initial_inv {lstat : Str → Stat} {tree : Posix.Tree Str} (h : StorageOk lstat tree) (masterNumber : Int)
    (mountPoint : Str) (numOfReplica : Nat) : Inv (initial lstat tree masterNumber mountPoint numOfReplica) := by
  obtain ⟨hsound, hcomplete⟩ := @bufferAllMetaDataFromRemote_find lstat tree h.ok
  refine ⟨h.named, ?_, fun path st hst => (hsound path st hst).unopened⟩
  intro path
  show ((bufferAllMetaDataFromRemote lstat tree).find? path).map (fun s => kindOf s.status.stMode)
    = if target path = path then tree.find? (components path) else none
  cases hst : (bufferAllMetaDataFromRemote lstat tree).find? path with
  | some st =>
      have hentry := hsound path st hst
      obtain ⟨q, kind, hq, rfl⟩ := hentry.node
      have hplain := h.named q kind hq
      rw [if_pos (target_pathOf hplain), components_pathOf hplain, hq, Option.map_some, hentry.status, h.lstat q kind hq]
  | none =>
      rw [Option.map_none]
      split
      · rename_i htarget
        cases hq : tree.find? (components path) with
        | none => rfl
        | some kind =>
            have hsome := hcomplete (components path) kind hq
            have hpath : pathOf (components path) = path := htarget
            rw [hpath, hst] at hsome
            cases hsome
      · rfl

/-- **The pool and the storage converge.** From the state that the Master builds from the storage, in every run of
    requests that the storage will follow: whenever the remote-task queue is empty, what the pool has as a directory
    or as existing is on storage, and is what the pool says; and every path on storage is in the pool. -/
theorem namespace_converges {lstat : Str → Stat} {tree : Posix.Tree Str} (hst : StorageOk lstat tree) (masterNumber : Int)
    (mountPoint : Str) (numOfReplica : Nat) (evs : List Event) {s : Namespace}
    (hg : Run.Guarded step Guard (initial lstat tree masterNumber mountPoint numOfReplica) evs)
    (hr : Run.run step (initial lstat tree masterNumber mountPoint numOfReplica) evs = some s) :
    s.tasks = [] → Converged s.master s.tree := by
  have hinv : Inv s := Run.run_invariant (fun s ev s' h hg hs => Inv.step h hg hs)
    (initial_inv hst masterNumber mountPoint numOfReplica) hg hr
  exact hinv.converged

/-- A storage with the file `/a`. -/
def smallTree : Posix.Tree Str := (OrdMap.empty.put [] .dir).put [[97]] .file

def smallStat (path : Str) : Stat := { Stat.zero with stMode := if path = [47] then S_IFDIR else S_IFREG }

theorem smallTree_ok : StorageOk smallStat smallTree := by
  have hnodes : ∀ q kind, smallTree.find? q = some kind → (q = [] ∧ kind = .dir) ∨ (q = [[97]] ∧ kind = .file) := by
    intro q kind hq
    unfold smallTree at hq
    rw [OrdMap.find?_put, OrdMap.find?_put] at hq
    split at hq
    · rename_i h
      cases hq
      exact Or.inr ⟨h, rfl⟩
    · split at hq
      · rename_i h
        cases hq
        exact Or.inl ⟨h, rfl⟩
      · cases hq
  refine ⟨⟨by decide, ?_⟩, ?_, ?_⟩
  · intro q name kind hq
    rcases hnodes _ _ hq with ⟨h, -⟩ | ⟨h, -⟩
    · simp at h
    · obtain ⟨rfl, -⟩ := List.append_inj' (h.trans (List.nil_append [[97]]).symm) rfl
      decide
  · intro q kind hq n hn
    rcases hnodes _ _ hq with ⟨rfl, -⟩ | ⟨rfl, -⟩
    · cases hn
    · rw [List.mem_singleton.mp hn]
      exact ⟨by decide, by decide, by decide, by decide⟩
  · intro q kind hq
    rcases hnodes _ _ hq with ⟨rfl, rfl⟩ | ⟨rfl, rfl⟩
    · decide
    · decide

/-- `/a` is unlinked and `/d` is made; then both are done on storage. -/
def unlinkAndMkdir : List Event :=
  [.request (Master.eventOf (.unlink Master.pathA)), .request (Master.eventOf (.mkdir [47, 100] 0)), .remoteTask, .remoteTask]

theorem namespace_converges_unlink_mkdir :
    ∃ s, Run.run step (initial smallStat smallTree 0 [] 0) unlinkAndMkdir = some s ∧ Converged s.master s.tree := by
  refine ⟨_, rfl, namespace_converges smallTree_ok 0 [] 0 unlinkAndMkdir ?_ rfl rfl⟩
  refine ⟨fun _ => ⟨by decide, by decide⟩, ?_⟩
  intro s1 h1
  cases h1
  refine ⟨⟨by decide, by decide, Or.inr ⟨by decide, by decide, by decide⟩⟩, ?_⟩
  intro s2 h2
  cases h2
  exact ⟨trivial, fun _ _ => ⟨trivial, fun _ _ => trivial⟩⟩

/-- **A rename is not made on storage.** `/a` is renamed to `/b`; nothing is queued, the pool has `/b` as existing,
    and the storage has it still under `/a`. -/
theorem renamed_file_not_on_storage :
    ∃ s, Run.run step (initial smallStat smallTree 0 [] 0)
        [.request (Master.eventOf (.rename Master.pathA [47, 98] MYSELF))] = some s ∧
      s.tasks = [] ∧ ¬ Converged s.master s.tree := by
  refine ⟨_, rfl, rfl, ?_⟩
  intro h
  have hfound := h.present [47, 98] _ rfl (Or.inr rfl)
  cases hfound

end Namespace

end HuronFS
