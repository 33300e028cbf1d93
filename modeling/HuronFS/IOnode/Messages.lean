import HuronFS.Common.Task
import HuronFS.IOnode.Basic

/-!
# `IOnode.Messages` — the Master's messages about files

What `_open_file`, `_unlink` and `_rename` of the IOnode take from a message, and what the three do to
`_files`. `fileView` is the table the Master means to keep on the node: a file that waits for its removal is
not in it. Paths come out of C strings, so they are received as they were sent.
-/

namespace HuronFS

/-- A message of the Master about a file, as the IOnode reads it. -/
inductive NodeMessage
  | openFile (fileNo : Int) (existFlag : ExistFlag) (path : Str) (blocks : List (Nat × Nat))
  | unlink (fileNo : Int)
  | rename (fileNo : Int) (path : Str)
  | other
deriving DecidableEq, Repr

/-- The files of a node: the path of each number. -/
abbrev FileView := Int → Option Str

/-- No two files have one path. -/
def FileView.Distinct (view : FileView) : Prop := ∀ f g path, view f = some path → view g = some path → f = g

namespace NodeMessage

/-- The loop of `_open_file` that pops the blocks. -/
def popBlocks : (count : Nat) → List Field → List (Nat × Nat)
  | count + 1, .w64 startPoint :: .w64 dataSize :: rest => (startPoint.toNat, dataSize.toNat) :: popBlocks count rest
  | _, _ => []

/-- The rest of an `OPEN_FILE` message. -/
def popOpenFile (fileNo : Int) : List Field → NodeMessage
  | .w32 _ :: .w32 existFlag :: .str path :: .w32 count :: rest =>
      .openFile fileNo (if existFlag.toInt = ExistFlag.existing.code then .existing else .notExist) path
        (popBlocks count.toInt.toNat rest)
  | _ => .other

/-- The rest of a `RENAME` message. -/
def popRename (fileNo : Int) : List Field → NodeMessage
  | .str path :: _ => .rename fileNo path
  | _ => .other

/-- The request code and the pops of its handler. -/
def decode : List Field → NodeMessage
  | .w32 request :: .w64 fileNo :: rest =>
      if request.toInt = OPEN_FILE then popOpenFile fileNo.toInt rest
      else if request.toInt = UNLINK then .unlink fileNo.toInt
      else if request.toInt = RENAME then popRename fileNo.toInt rest
      else .other
  | _ => .other

/-- What a message does to the files of a node. -/
def apply (view : FileView) : NodeMessage → FileView
  | .openFile fileNo _ path _ => if (view fileNo).isSome then view else Function.update view fileNo (some path)
  | .unlink fileNo => Function.update view fileNo none
  | .rename fileNo path => if (view fileNo).isSome then Function.update view fileNo (some path) else view
  | .other => view

/-- A message that comes twice does nothing the second time. -/
theorem apply_apply (view : FileView) (msg : NodeMessage) : apply (apply view msg) msg = apply view msg := by
  cases msg with
  | openFile fileNo existFlag path blocks =>
      by_cases h : (view fileNo).isSome = true
      · simp only [apply, h, if_true]
      · simp [apply, h]
  | unlink fileNo => simp [apply]
  | rename fileNo path =>
      by_cases h : (view fileNo).isSome = true
      · simp [apply, h]
      · simp [apply, h]
  | other => rfl

end NodeMessage

namespace IOnode

/-- `_rename`. -/
def rename (n : IOnode) (fileNo : Int) (newPath : Str) : IOnode :=
  { n with files := n.files.modify fileNo (fun file => { file with filePath := newPath }) }

/-- One turn of `handle_routine`, for a message of the Master. -/
def receive (n : IOnode) (message : List Field) : IOnode :=
  match NodeMessage.decode message with
  | .openFile fileNo existFlag path blocks => n.intervalProcess.openFile fileNo existFlag path blocks
  | .unlink fileNo => n.intervalProcess.removeFile fileNo
  | .rename fileNo path => n.intervalProcess.rename fileNo path
  | .other => n.intervalProcess

/-- The files that are not to be removed. -/
def fileView (n : IOnode) : FileView :=
  fun f => (n.files.find? f).bind (fun file => if file.toBeDeleted then none else some file.filePath)

/-- A file waits for its removal exactly when it is listed for it. -/
def Listed (n : IOnode) : Prop :=
  ∀ f file, n.files.find? f = some file → (file.toBeDeleted = true ↔ f ∈ n.removeFileList)

/-! ## Between two messages -/

theorem deleteBlock_other (n : IOnode) (k : BlockKey) {g : Int} (hg : g ≠ k.1) :
    (n.deleteBlock k).files.find? g = n.files.find? g := by
  unfold deleteBlock
  split
  · rfl
  · show (n.files.modify k.1 _).find? g = _
    rw [OrdMap.find?_modify, if_neg hg]

theorem eraseFile_files (n : IOnode) (f g : Int) :
    (n.eraseFile f).files.find? g = if g = f then none else n.files.find? g := by
  unfold eraseFile
  split
  · rename_i hnone
    by_cases hg : g = f
    · rw [if_pos hg, hg, hnone]
    · rw [if_neg hg]
  · rename_i file _
    have hfold : ∀ (starts : List Nat) (m : IOnode), g ≠ f →
        (starts.foldl (fun n startPoint => n.deleteBlock (f, startPoint)) m).files.find? g = m.files.find? g := by
      intro starts
      induction starts with
      | nil => exact fun _ _ => rfl
      | cons start starts ih =>
          intro m hg
          rw [List.foldl_cons, ih _ hg]
          exact deleteBlock_other m (f, start) hg
    show ((_ : OrdMap Int IOFile).erase f).find? g = _
    rw [OrdMap.find?_erase]
    split
    · rfl
    · rename_i hg
      exact hfold _ n hg

/-- `remove_files` takes the listed files out of `_files`. -/
theorem intervalProcess_files (n : IOnode) (g : Int) :
    n.intervalProcess.files.find? g = if g ∈ n.removeFileList then none else n.files.find? g := by
  have hfold : ∀ (l : List Int) (m : IOnode),
      (l.foldl eraseFile m).files.find? g = if g ∈ l then none else m.files.find? g := by
    intro l
    induction l with
    | nil => exact fun _ => rfl
    | cons f l ih =>
        intro m
        rw [List.foldl_cons, ih, eraseFile_files]
        by_cases hg : g = f <;> simp [hg]
  exact hfold n.removeFileList n

theorem intervalProcess_removeFileList (n : IOnode) : n.intervalProcess.removeFileList = [] := rfl

/-- After `remove_files`, every file is one of the view. -/
theorem Listed.intervalProcess {n : IOnode} (h : n.Listed) :
    n.intervalProcess.fileView = n.fileView ∧
      ∀ f file, n.intervalProcess.files.find? f = some file → file.toBeDeleted = false := by
  have hlive : ∀ f file, n.intervalProcess.files.find? f = some file → file.toBeDeleted = false := by
    intro f file hf
    rw [intervalProcess_files] at hf
    split at hf
    · cases hf
    · rename_i hnot
      by_contra hdel
      exact hnot ((h f file hf).mp (by simpa using hdel))
  refine ⟨?_, hlive⟩
  funext f
  unfold fileView
  rw [intervalProcess_files]
  split
  · rename_i hmem
    cases hf : n.files.find? f with
    | none => rfl
    | some file =>
        have hdel := (h f file hf).mpr hmem
        simp [hdel]
  · rfl

/-- With nothing waiting for its removal, every file is live. -/
theorem Listed.live {n : IOnode} (h : n.Listed) (hlist : n.removeFileList = []) {f : Int} {file : IOFile}
    (hfile : n.files.find? f = some file) : file.toBeDeleted = false := by
  have hiff := h f file hfile
  rw [hlist] at hiff
  simpa using hiff

/-- With nothing waiting for its removal, `_files` is the view. -/
theorem Listed.files_eq {n : IOnode} (h : n.Listed) (hlist : n.removeFileList = []) (f : Int) :
    (n.files.find? f).map IOFile.filePath = n.fileView f := by
  unfold fileView
  cases hf : n.files.find? f with
  | none => rfl
  | some file =>
      simp [h.live hlist hf]

/-! ## The three messages -/

section Handlers

variable {n : IOnode} (hlive : ∀ f file, n.files.find? f = some file → file.toBeDeleted = false)
  (hlist : n.removeFileList = [])

include hlive

theorem fileView_of_live (f : Int) : n.fileView f = (n.files.find? f).map IOFile.filePath := by
  unfold fileView
  cases hf : n.files.find? f with
  | none => rfl
  | some file => simp [hlive f file hf]

theorem fileView_openFile (f : Int) (existFlag : ExistFlag) (path : Str) (blocks : List (Nat × Nat)) :
    (n.openFile f existFlag path blocks).fileView = NodeMessage.apply n.fileView (.openFile f existFlag path blocks) := by
  have hsome : (n.fileView f).isSome = (n.files.find? f).isSome := by
    rw [fileView_of_live hlive, Option.isSome_map]
  simp only [IOnode.openFile, NodeMessage.apply, hsome]
  split
  · rfl
  · funext g
    unfold fileView
    simp only [OrdMap.find?_put]
    by_cases hg : g = f
    · rw [if_pos hg, hg, Function.update_self]
      rfl
    · rw [if_neg hg, Function.update_of_ne hg]

theorem fileView_removeFile (f : Int) : (n.removeFile f).fileView = NodeMessage.apply n.fileView (.unlink f) := by
  cases hf : n.files.find? f with
  | none =>
      simp only [IOnode.removeFile, NodeMessage.apply, hf]
      funext g
      by_cases hg : g = f
      · rw [hg, Function.update_self]
        unfold fileView
        rw [hf]
        rfl
      · rw [Function.update_of_ne hg]
  | some file =>
      simp only [IOnode.removeFile, NodeMessage.apply, hf, hlive f file hf, Bool.false_eq_true, if_false]
      funext g
      unfold fileView
      simp only [OrdMap.find?_put]
      by_cases hg : g = f
      · rw [if_pos hg, hg, Function.update_self]
        rfl
      · rw [if_neg hg, Function.update_of_ne hg]

theorem fileView_rename (f : Int) (path : Str) : (n.rename f path).fileView = NodeMessage.apply n.fileView (.rename f path) := by
  have hview : n.fileView f = (n.files.find? f).map IOFile.filePath := fileView_of_live hlive f
  funext g
  cases hf : n.files.find? f with
  | none =>
      rw [hf] at hview
      simp only [IOnode.rename, NodeMessage.apply, hview, Option.map_none, Option.isSome_none, Bool.false_eq_true, if_false]
      unfold fileView
      simp only [OrdMap.find?_modify]
      split
      · rename_i hg
        rw [hg, hf]
        rfl
      · rfl
  | some file =>
      rw [hf] at hview
      simp only [IOnode.rename, NodeMessage.apply, hview, Option.map_some, Option.isSome_some, if_true]
      unfold fileView
      simp only [OrdMap.find?_modify]
      by_cases hg : g = f
      · rw [if_pos hg, hf, hg, Function.update_self]
        simp [hlive f file hf]
      · rw [if_neg hg, Function.update_of_ne hg]

include hlist

theorem listed_openFile (f : Int) (existFlag : ExistFlag) (path : Str) (blocks : List (Nat × Nat)) :
    (n.openFile f existFlag path blocks).Listed := by
  unfold IOnode.openFile
  intro g file hg
  split at hg
  · rename_i hsome
    simp [hsome, hlist, hlive g file hg]
  · rename_i hnone
    simp only [hnone, hlist]
    simp only [OrdMap.find?_put] at hg
    split at hg
    · cases hg
      simp
    · simp [hlive g file hg]

theorem listed_removeFile (f : Int) : (n.removeFile f).Listed := by
  unfold IOnode.removeFile
  intro g file hg
  cases hf : n.files.find? f with
  | none =>
      simp only [hf] at hg ⊢
      simp [hlive g file hg, hlist]
  | some old =>
      simp only [hf, hlive f old hf, Bool.false_eq_true, if_false, hlist, List.nil_append] at hg ⊢
      simp only [OrdMap.find?_put] at hg
      split at hg
      · rename_i hgf
        cases hg
        simp [hgf]
      · rename_i hgf
        simp [hlive g file hg, hgf]

theorem listed_rename (f : Int) (path : Str) : (n.rename f path).Listed := by
  unfold IOnode.rename
  intro g file hg
  simp only [OrdMap.find?_modify, hlist] at hg ⊢
  split at hg
  · obtain ⟨old, hold, rfl⟩ := Option.map_eq_some_iff.mp hg
    simp [hlive f old hold]
  · simp [hlive g file hg]

end Handlers

/-- **A message does to the files of a node what the Master means it to do.** -/
theorem Listed.receive {n : IOnode} (h : n.Listed) (message : List Field) :
    (n.receive message).fileView = NodeMessage.apply n.fileView (NodeMessage.decode message) ∧
      (n.receive message).Listed := by
  obtain ⟨hview, hlive⟩ := h.intervalProcess
  have hlist := intervalProcess_removeFileList n
  rw [← hview]
  unfold IOnode.receive
  cases NodeMessage.decode message with
  | openFile f existFlag path blocks =>
      exact ⟨fileView_openFile hlive f existFlag path blocks, listed_openFile hlive hlist f existFlag path blocks⟩
  | unlink f => exact ⟨fileView_removeFile hlive f, listed_removeFile hlive hlist f⟩
  | rename f path => exact ⟨fileView_rename hlive f path, listed_rename hlive hlist f path⟩
  | other =>
      refine ⟨rfl, ?_⟩
      intro g file hg
      simp [hlive g file hg, hlist]

end IOnode

end HuronFS
