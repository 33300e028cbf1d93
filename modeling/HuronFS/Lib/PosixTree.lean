import HuronFS.Lib.OrdMap
import Mathlib.Data.List.Lex

/-!
# `Lib.PosixTree` — a directory tree and the system calls that change it

A node is named by the list of the names from the root to it, the root by the empty list. A call that POSIX
refuses leaves the tree as it was. The second half is about path strings: the names between the separators, with
empty names and `.` left out and `..` taking the last name back.
-/

namespace Posix

variable {N : Type*} [LinearOrder N]

/-- What a node is; everything that is no directory counts as a file. -/
inductive Kind
  | dir
  | file
deriving DecidableEq, Repr

/-- The nodes of a tree. -/
abbrev Tree (N : Type*) [LinearOrder N] := OrdMap (List N) Kind

/-- The entries of a directory. -/
def readdir (t : Tree N) (q : List N) : List (N × Kind) :=
  t.entries.filterMap (fun e =>
    match e.1.getLast? with
    | none => none
    | some name => if e.1.dropLast = q then some (name, e.2) else none)

theorem mem_readdir {t : Tree N} {q : List N} {name : N} {kind : Kind} :
    (name, kind) ∈ readdir t q ↔ t.find? (q ++ [name]) = some kind := by
  unfold readdir
  rw [List.mem_filterMap, ← OrdMap.mem_entries]
  constructor
  · rintro ⟨⟨k, kind'⟩, hmem, h⟩
    simp only at h
    split at h
    · cases h
    · rename_i last hlast
      split at h
      · rename_i hq
        cases h
        rw [← hq, List.dropLast_append_getLast? _ (Option.mem_def.mpr hlast)]
        exact hmem
      · cases h
  · intro hmem
    refine ⟨(q ++ [name], kind), hmem, ?_⟩
    simp

/-- `mkdir`: the parent is a directory and the name is free. -/
def mkdir (t : Tree N) (q : List N) : Tree N :=
  if q ≠ [] ∧ t.find? q = none ∧ t.find? q.dropLast = some .dir then t.put q .dir else t

/-- `rmdir`: an empty directory other than the root. -/
def rmdir (t : Tree N) (q : List N) : Tree N :=
  if q ≠ [] ∧ t.find? q = some .dir ∧ readdir t q = [] then t.erase q else t

/-- `unlink`: anything but a directory. -/
def unlink (t : Tree N) (q : List N) : Tree N := if t.find? q = some .file then t.erase q else t

/-- The tree of a file system: the root is a directory, and so is what any node is in. -/
structure Tree.Ok (t : Tree N) : Prop where
  root : t.find? [] = some .dir
  parent : ∀ q name kind, t.find? (q ++ [name]) = some kind → t.find? q = some .dir

/-- Whatever has something below it is a directory. -/
theorem Tree.Ok.dir_above {t : Tree N} (h : t.Ok) : ∀ {l q : List N} {kind : Kind}, t.find? (q ++ l) = some kind → l ≠ [] → t.find? q = some .dir
  | [], _, _, _, hne => absurd rfl hne
  | [x], q, kind, hq, _ => h.parent q x kind hq
  | x :: y :: l, q, kind, hq, _ => by
      rw [List.append_cons] at hq
      exact h.parent q x _ (h.dir_above hq (List.cons_ne_nil _ _))

/-! ## Path strings -/

section Strings

variable {C : Type*} [DecidableEq C] (sep dot : C)

/-- A name as directories have them. -/
structure PlainName (name : List C) : Prop where
  ne_nil : name ≠ []
  ne_dot : name ≠ [dot]
  ne_dots : name ≠ [dot, dot]
  no_sep : sep ∉ name

/-- One name of a path. -/
def enter (q : List (List C)) (name : List C) : List (List C) :=
  if name = [] ∨ name = [dot] then q
  else if name = [dot, dot] then q.dropLast
  else q ++ [name]

/-- The node a path leads to. -/
def resolve (path : List C) : List (List C) := (path.splitOn sep).foldl (enter dot) []

/-- The path of a node, from the root. -/
def render (q : List (List C)) : List C := if q = [] then [sep] else q.flatMap (sep :: ·)

variable {sep dot}

theorem not_mem_of_mem_splitOn {path name : List C} (h : name ∈ path.splitOn sep) : sep ∉ name := by
  have hgo : ∀ (path acc : List C), sep ∉ acc → ∀ n ∈ List.splitOnPPrepend (· == sep) path acc, sep ∉ n := by
    intro path
    induction path with
    | nil =>
        intro acc hacc n hn
        rw [List.splitOnPPrepend_nil, List.mem_singleton] at hn
        rw [hn, List.mem_reverse]
        exact hacc
    | cons c path ih =>
        intro acc hacc n hn
        rw [List.splitOnPPrepend_cons_eq_if] at hn
        split at hn
        · rcases List.mem_cons.mp hn with rfl | hn
          · rw [List.mem_reverse]
            exact hacc
          · exact ih [] List.not_mem_nil n hn
        · rename_i hc
          refine ih (c :: acc) ?_ n hn
          rw [List.mem_cons, not_or]
          exact ⟨fun he => hc (by simp [he]), hacc⟩
  exact hgo path [] List.not_mem_nil name h

/-- Every name on the way is a plain one. -/
theorem resolve_plain (path : List C) : ∀ name ∈ resolve sep dot path, PlainName sep dot name := by
  have hfold : ∀ (names : List (List C)) (q : List (List C)), (∀ n ∈ names, sep ∉ n) →
      (∀ n ∈ q, PlainName sep dot n) → ∀ n ∈ names.foldl (enter dot) q, PlainName sep dot n := by
    intro names
    induction names with
    | nil => exact fun _ _ hq => hq
    | cons name names ih =>
        intro q hnames hq
        refine ih _ (fun n hn => hnames n (List.mem_cons_of_mem _ hn)) ?_
        intro n hn
        unfold enter at hn
        split at hn
        · exact hq n hn
        · rename_i hne
          rw [not_or] at hne
          split at hn
          · exact hq n ((List.dropLast_sublist q).subset hn)
          · rename_i hdots
            rcases List.mem_append.mp hn with hn | hn
            · exact hq n hn
            · rw [List.mem_singleton.mp hn]
              exact ⟨hne.1, hne.2, hdots, hnames name List.mem_cons_self⟩
  exact hfold _ [] (fun n hn => not_mem_of_mem_splitOn hn) (fun _ hn => (nomatch hn))

theorem foldl_enter_plain {names : List (List C)} (h : ∀ n ∈ names, PlainName sep dot n) (q : List (List C)) :
    names.foldl (enter dot) q = q ++ names := by
  induction names generalizing q with
  | nil => rw [List.foldl_nil, List.append_nil]
  | cons name names ih =>
      have hn := h name List.mem_cons_self
      have henter : enter dot q name = q ++ [name] := by
        unfold enter
        rw [if_neg (fun hc => hc.elim hn.ne_nil hn.ne_dot), if_neg hn.ne_dots]
      rw [List.foldl_cons, henter, ih (fun n hm => h n (List.mem_cons_of_mem _ hm)), List.append_assoc]
      rfl

theorem splitOn_render {q : List (List C)} (h : ∀ n ∈ q, sep ∉ n) :
    (q.flatMap (sep :: ·)).splitOn sep = [] :: q := by
  induction q with
  | nil => exact List.splitOn_nil sep
  | cons name q ih =>
      have hsplit : ((name :: q).flatMap (sep :: ·)) = [] ++ sep :: (name ++ q.flatMap (sep :: ·)) := by
        rw [List.flatMap_cons]
        rfl
      rw [hsplit, List.splitOn_append_cons_self_of_not_mem List.not_mem_nil]
      have hq := ih (fun n hn => h n (List.mem_cons_of_mem _ hn))
      cases q with
      | nil =>
          rw [List.flatMap_nil, List.append_nil, List.splitOn_eq_singleton (h name List.mem_cons_self)]
      | cons next q =>
          rw [List.flatMap_cons] at hq ⊢
          have hnext : ([] : List C) ++ sep :: (next ++ q.flatMap (sep :: ·)) = sep :: next ++ q.flatMap (sep :: ·) := rfl
          rw [← hnext, List.splitOn_append_cons_self_of_not_mem List.not_mem_nil] at hq
          rw [List.cons_append, List.splitOn_append_cons_self_of_not_mem (h name List.mem_cons_self),
            (List.cons.inj hq).2]

/-- **The path of a node leads to it.** -/
theorem resolve_render {q : List (List C)} (h : ∀ n ∈ q, PlainName sep dot n) : resolve sep dot (render sep q) = q := by
  unfold resolve render
  by_cases hq : q = []
  · rw [if_pos hq, hq]
    have hsplit : ([sep] : List C).splitOn sep = [[], []] := by
      have happ : ([sep] : List C) = [] ++ sep :: [] := rfl
      rw [happ, List.splitOn_append_cons_self_of_not_mem List.not_mem_nil, List.splitOn_nil]
    rw [hsplit]
    simp [enter]
  · rw [if_neg hq, splitOn_render (fun n hn => (h n hn).no_sep), List.foldl_cons]
    have hroot : enter dot ([] : List (List C)) [] = [] := by simp [enter]
    rw [hroot, foldl_enter_plain h, List.nil_append]

end Strings

end Posix
