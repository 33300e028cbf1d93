import HuronFS.Lib.PrefixScan
import HuronFS.Master.Handler

/-!
# `Master.Listing` — the names in a directory

`_get_file_stat_from_dir` scans the ordered table of paths from the directory on, as long as they begin with its path, and cuts one
name out of each. The path of a sibling can begin with the path of the directory too.
-/

namespace HuronFS

namespace Master

/-- An absolute path as the clients send it: `/`, or names with a `/` before each. -/
def NormalPath (p : Str) : Prop :=
  p = [slash] ∨ ∃ q : List Str, q ≠ [] ∧ (∀ c ∈ q, c ≠ [] ∧ slash ∉ c) ∧ p = q.flatMap (slash :: ·)

/-- What the paths below a directory begin with, up to the `/`. -/
def below (dir : Str) : Str := if dir = [slash] then [] else dir

/-- A name in a directory: there is a path with it, or one further down. -/
def Child (m : Master) (dir c : Str) : Prop :=
  c ≠ [] ∧ slash ∉ c ∧ ∃ p ∈ m.fileStatPool.keys, p = below dir ++ slash :: c ∨ (below dir ++ slash :: (c ++ [slash])) <+: p

/-- A path that begins with the directory's and is not below it: the name of the directory goes on. -/
def Sibling (dir p : Str) : Prop := dir ≠ [slash] ∧ ∃ x rest, x ≠ slash ∧ p = dir ++ x :: rest

/-! ## Normal paths -/

/-- After a `/` of a normal path comes a name. -/
theorem flatMap_after_slash : ∀ {q : List Str} {A rest : Str}, (∀ c ∈ q, c ≠ [] ∧ slash ∉ c) →
    q.flatMap (slash :: ·) = A ++ slash :: rest → ∃ x rest', rest = x :: rest' ∧ x ≠ slash
  | [], A, rest, _, h => by
      cases A <;> cases h
  | c :: q, A, rest, hq, h => by
      obtain ⟨hne, hno⟩ := hq c List.mem_cons_self
      rw [List.flatMap_cons, List.cons_append] at h
      cases A with
      | nil =>
          have htail : c ++ q.flatMap (slash :: ·) = rest := (List.cons.inj h).2
          cases c with
          | nil => exact absurd rfl hne
          | cons x c =>
              refine ⟨x, c ++ q.flatMap (slash :: ·), htail.symm, ?_⟩
              rintro rfl
              exact hno List.mem_cons_self
      | cons y A =>
          have htail : c ++ q.flatMap (slash :: ·) = A ++ slash :: rest := (List.cons.inj h).2
          have hrest : ∀ c ∈ q, c ≠ [] ∧ slash ∉ c := fun c hc => hq c (List.mem_cons_of_mem _ hc)
          -- the name ends before the `/`
          rcases List.append_eq_append_iff.mp htail with ⟨A', -, hsplit⟩ | ⟨c', hc, hsplit⟩
          · exact flatMap_after_slash hrest hsplit
          · cases c' with
            | nil => exact flatMap_after_slash hrest (A := []) hsplit.symm
            | cons z c' =>
                have hz : slash = z := (List.cons.inj hsplit).1
                exfalso
                apply hno
                rw [hc, hz]
                exact List.mem_append_right _ List.mem_cons_self

theorem NormalPath.after_slash {p A rest : Str} (h : NormalPath p) (hroot : p ≠ [slash]) (hp : p = A ++ slash :: rest) :
    ∃ x rest', rest = x :: rest' ∧ x ≠ slash := by
  rcases h with hc | ⟨q, -, hq, rfl⟩
  · exact absurd hc hroot
  · exact flatMap_after_slash hq hp

theorem NormalPath.ne_nil {p : Str} (h : NormalPath p) : p ≠ [] := by
  rintro rfl
  rcases h with hc | ⟨q, hq, -, hp⟩
  · cases hc
  · cases q with
    | nil => exact hq rfl
    | cons c q => cases hp

/-- A normal path other than `/` does not end in one. -/
theorem NormalPath.last {p : Str} (h : NormalPath p) (hroot : p ≠ [slash]) : ∃ last, p.getLast? = some last ∧ last ≠ slash := by
  have hne := h.ne_nil
  refine ⟨p.getLast hne, List.getLast?_eq_some_getLast hne, ?_⟩
  intro hlast
  have hp : p = p.dropLast ++ slash :: [] := by
    rw [← hlast]
    exact (List.dropLast_append_getLast hne).symm
  obtain ⟨x, rest', hc, -⟩ := h.after_slash hroot hp
  cases hc

/-! ## The names that are cut out -/

theorem takeWhile_of_name {c rest : Str} (hc : slash ∉ c) (hrest : rest = [] ∨ ∃ t, rest = slash :: t) :
    (c ++ rest).takeWhile (· != slash) = c := by
  have hall : ∀ x ∈ c, (x != slash) = true := by
    intro x hx
    rw [bne_iff_ne]
    rintro rfl
    exact hc hx
  rw [List.takeWhile_append_of_pos hall]
  rcases hrest with rfl | ⟨t, rfl⟩
  · rw [List.takeWhile_nil, List.append_nil]
  · rw [List.takeWhile_cons_of_neg (by simp), List.append_nil]

/-- Where the names start. -/
def startPos (dir : Str) : Nat := (below dir).length + 1

theorem dirEntry_below (dir rest : Str) : dirEntry (startPos dir) (below dir ++ slash :: rest) = rest.takeWhile (· != slash) := by
  unfold dirEntry startPos
  rw [← List.drop_drop, List.drop_left, List.drop_one, List.tail_cons]

/-- A path below the directory gives a child. -/
theorem child_of_below {m : Master} {dir p rest : Str} (hp : p ∈ m.fileStatPool.keys) (hnormal : NormalPath p) (hroot : p ≠ [slash])
    (heq : p = below dir ++ slash :: rest) : m.Child dir (rest.takeWhile (· != slash)) := by
  obtain ⟨x, rest', hrest, hx⟩ := hnormal.after_slash hroot heq
  refine ⟨?_, ?_, p, hp, ?_⟩
  · rw [hrest, List.takeWhile_cons_of_pos (by rw [bne_iff_ne]; exact hx)]
    exact List.cons_ne_nil _ _
  · intro hmem
    have hslash := List.all_eq_true.mp (List.all_takeWhile (l := rest) (p := (· != slash))) slash hmem
    simp at hslash
  · have hsplit := List.takeWhile_append_dropWhile (p := (· != slash)) (l := rest)
    cases hdrop : rest.dropWhile (· != slash) with
    | nil =>
        rw [hdrop, List.append_nil] at hsplit
        rw [hsplit]
        exact Or.inl heq
    | cons y t =>
        have hy : y = slash := by
          have := List.head?_dropWhile_not (· != slash) rest
          rw [hdrop] at this
          simpa using this
        refine Or.inr ⟨t, ?_⟩
        rw [hdrop, hy] at hsplit
        generalize rest.takeWhile (· != slash) = c at hsplit
        rw [heq, ← hsplit, List.append_assoc, List.cons_append, List.append_assoc]
        rfl

/-- A child is the name cut out of its path. -/
theorem below_of_child {m : Master} {dir c : Str} (h : m.Child dir c) :
    ∃ p ∈ m.fileStatPool.keys, ∃ rest, p = below dir ++ slash :: rest ∧ rest ≠ [] ∧ rest.takeWhile (· != slash) = c := by
  obtain ⟨hne, hno, p, hp, heq | ⟨t, ht⟩⟩ := h
  · refine ⟨p, hp, c, heq, hne, ?_⟩
    have := takeWhile_of_name hno (Or.inl rfl)
    rwa [List.append_nil] at this
  · refine ⟨p, hp, c ++ slash :: t, ?_, by simp, takeWhile_of_name hno (Or.inr ⟨t, rfl⟩)⟩
    rw [← ht]
    simp

/-! ## The listing -/

/-- The listing has the names cut out of the paths that begin with the directory's. -/
theorem getFileStatFromDir_mem {m : Master} {dir : Str} (hdir : NormalPath dir) :
    ∃ files, m.getFileStatFromDir dir = some files ∧ ∀ c, OrdSet.Mem files c ↔
      ∃ p ∈ m.fileStatPool.keys, dir <+: p ∧ p ≠ dir ∧ dirEntry (startPos dir) p = c := by
  have hstart : ∃ last, dir.getLast? = some last ∧ (if last != slash then dir.length + 1 else dir.length) = startPos dir := by
    unfold startPos below
    by_cases hroot : dir = [slash]
    · subst hroot
      exact ⟨slash, rfl, rfl⟩
    · obtain ⟨last, hlast, hne⟩ := hdir.last hroot
      refine ⟨last, hlast, ?_⟩
      rw [if_pos (by rw [bne_iff_ne]; exact hne), if_neg hroot]
  obtain ⟨last, hlast, hpos⟩ := hstart
  unfold getFileStatFromDir
  rw [hlast]
  dsimp only
  rw [hpos]
  refine ⟨_, rfl, ?_⟩
  intro c
  rw [OrdSet.mem_foldl_add, List.mem_map]
  constructor
  · rintro (hc | ⟨p, hp, hcut⟩)
    · exact absurd hc (OrdSet.not_mem_empty c)
    · obtain ⟨hmem, hpre, hne⟩ := (PrefixScan.mem_scan (OrdMap.keys_ordered m.fileStatPool) dir p).mp hp
      exact ⟨p, hmem, hpre, hne, hcut⟩
  · rintro ⟨p, hmem, hpre, hne, hcut⟩
    exact Or.inr ⟨p, (PrefixScan.mem_scan (OrdMap.keys_ordered m.fileStatPool) dir p).mpr ⟨hmem, hpre, hne⟩, hcut⟩

/-- A path that begins with the directory's is below it or a sibling's. -/
theorem below_or_sibling {dir p : Str} (hdir : NormalPath dir) (hpre : dir <+: p) (hne : p ≠ dir) :
    (∃ rest, p = below dir ++ slash :: rest ∧ p ≠ [slash]) ∨ Sibling dir p := by
  obtain ⟨t, rfl⟩ := hpre
  cases t with
  | nil => exact absurd (List.append_nil dir) hne
  | cons x t =>
      unfold below
      by_cases hroot : dir = [slash]
      · subst hroot
        rw [if_pos rfl]
        exact Or.inl ⟨x :: t, rfl, by simp⟩
      · rw [if_neg hroot]
        by_cases hx : x = slash
        · subst hx
          refine Or.inl ⟨t, rfl, ?_⟩
          intro hc
          cases dir with
          | nil => exact hdir.ne_nil rfl
          | cons y dir => simp at hc
        · exact Or.inr ⟨hroot, x, t, hx, rfl⟩

/-- The name that is cut out of a sibling's path, without the character where it leaves the directory's. -/
theorem dirEntry_sibling {dir rest : Str} {x : Byte} (hroot : dir ≠ [slash]) :
    dirEntry (startPos dir) (dir ++ x :: rest) = rest.takeWhile (· != slash) := by
  unfold dirEntry startPos below
  rw [if_neg hroot, ← List.drop_drop, List.drop_left, List.drop_one, List.tail_cons]

/-- **The listing is the children exactly when every name that is cut out of a sibling's path is a child's anyway.** -/
theorem listing_exact_iff {m : Master} {dir : Str} (hkeys : ∀ p ∈ m.fileStatPool.keys, NormalPath p)
    (hdir : dir ∈ m.fileStatPool.keys) :
    (∃ files, m.getFileStatFromDir dir = some files ∧ ∀ c, OrdSet.Mem files c ↔ m.Child dir c) ↔
      ∀ x rest, dir ≠ [slash] → x ≠ slash → dir ++ x :: rest ∈ m.fileStatPool.keys → m.Child dir (rest.takeWhile (· != slash)) := by
  obtain ⟨files, hfiles, hmem⟩ := getFileStatFromDir_mem (m := m) (hkeys dir hdir)
  constructor
  · rintro ⟨files', hfiles', hexact⟩ x rest hroot hx hp
    rw [hfiles] at hfiles'
    cases hfiles'
    apply (hexact _).mp
    apply (hmem _).mpr
    exact ⟨dir ++ x :: rest, hp, List.prefix_append dir _, by simp, dirEntry_sibling hroot⟩
  · intro hcond
    refine ⟨files, hfiles, ?_⟩
    intro c
    rw [hmem]
    constructor
    · rintro ⟨p, hp, hpre, hne, rfl⟩
      rcases below_or_sibling (hkeys dir hdir) hpre hne with ⟨rest, rfl, hroot⟩ | ⟨hroot, x, rest, hx, rfl⟩
      · rw [dirEntry_below]
        exact child_of_below hp (hkeys _ hp) hroot rfl
      · rw [dirEntry_sibling hroot]
        exact hcond x rest hroot hx hp
    · intro hc
      obtain ⟨p, hp, rest, rfl, hne, hcut⟩ := below_of_child hc
      refine ⟨_, hp, ?_, ?_, by rw [dirEntry_below, hcut]⟩
      · unfold below
        split
        case isTrue hroot => exact hroot ▸ List.prefix_append [slash] rest
        case isFalse => exact List.prefix_append dir _
      · unfold below
        split
        case isTrue hroot => simpa [hroot] using hne
        case isFalse => simp

/-- A Master after these paths were made, in a storage that has only the root. -/
def afterMkdirs (paths : List Str) : Master :=
  paths.foldl (fun m p => m.createNewFileStat ⟨0, 0, 0⟩ p .notExist S_IFDIR)
    ((initial OrdMap.empty 0 [] 0).createNewFileStat ⟨0, 0, 0⟩ [slash] .existing S_IFDIR)

/-- Names with a `/` before each make a normal path. -/
theorem normalPath_of_names {q : List Str} (hne : q ≠ []) (hq : ∀ c ∈ q, c ≠ [] ∧ slash ∉ c) : NormalPath (q.flatMap (slash :: ·)) :=
  Or.inr ⟨q, hne, hq, rfl⟩

/-- `/a/c`, and `/abc`, out of which the listing of `/a` cuts the name `c` too. -/
theorem listing_exact_beside_sibling :
    ∃ files, (afterMkdirs [[47, 97], [47, 97, 47, 99], [47, 97, 98, 99]]).getFileStatFromDir [47, 97] = some files ∧
      ∀ c, OrdSet.Mem files c ↔ (afterMkdirs [[47, 97], [47, 97, 47, 99], [47, 97, 98, 99]]).Child [47, 97] c := by
  have hkeys : (afterMkdirs [[47, 97], [47, 97, 47, 99], [47, 97, 98, 99]]).fileStatPool.keys =
      [[47], [47, 97], [47, 97, 47, 99], [47, 97, 98, 99]] := by
    decide +kernel
  apply (listing_exact_iff ?_ ?_).mpr
  · intro x rest hroot hx hp
    rw [hkeys] at hp
    have hrest : x = 98 ∧ rest = [99] := by
      simp only [List.mem_cons, List.cons_append, List.nil_append, List.cons.injEq, List.not_mem_nil, or_false, true_and] at hp
      rcases hp with hp | hp | ⟨rfl, rfl⟩ | ⟨rfl, rfl⟩
      · cases hp
      · cases hp
      · exact absurd rfl hx
      · exact ⟨rfl, rfl⟩
    rw [hrest.2]
    refine ⟨by decide, by decide, [47, 97, 47, 99], ?_, Or.inl (by decide)⟩
    rw [hkeys]
    simp
  · intro p hp
    rw [hkeys] at hp
    simp only [List.mem_cons, List.not_mem_nil, or_false] at hp
    rcases hp with rfl | rfl | rfl | rfl
    · exact Or.inl rfl
    · exact normalPath_of_names (q := [[97]]) (by decide) (by decide)
    · exact normalPath_of_names (q := [[97], [99]]) (by decide) (by decide)
    · exact normalPath_of_names (q := [[97, 98, 99]]) (by decide) (by decide)
  · rw [hkeys]
    simp

/-- The directory `/a` is empty and `/ab` stands beside it: the listing of `/a` has an empty name. -/
theorem listing_of_sibling :
    (∀ p ∈ (afterMkdirs [[47, 97], [47, 97, 98]]).fileStatPool.keys, NormalPath p) ∧
      [47, 97] ∈ (afterMkdirs [[47, 97], [47, 97, 98]]).fileStatPool.keys ∧
      ¬ ∃ files, (afterMkdirs [[47, 97], [47, 97, 98]]).getFileStatFromDir [47, 97] = some files ∧
        ∀ c, OrdSet.Mem files c ↔ (afterMkdirs [[47, 97], [47, 97, 98]]).Child [47, 97] c := by
  have hkeys : (afterMkdirs [[47, 97], [47, 97, 98]]).fileStatPool.keys = [[47], [47, 97], [47, 97, 98]] := by
    decide +kernel
  refine ⟨?_, by rw [hkeys]; simp, ?_⟩
  · intro p hp
    rw [hkeys] at hp
    simp only [List.mem_cons, List.not_mem_nil, or_false] at hp
    rcases hp with rfl | rfl | rfl
    · exact Or.inl rfl
    · exact normalPath_of_names (q := [[97]]) (by decide) (by decide)
    · exact normalPath_of_names (q := [[97, 98]]) (by decide) (by decide)
  · rintro ⟨files, hfiles, hexact⟩
    have hlist : ((afterMkdirs [[47, 97], [47, 97, 98]]).getFileStatFromDir [47, 97]).map OrdMap.keys = some [[]] := by
      decide +kernel
    rw [hfiles] at hlist
    have hempty : OrdSet.Mem files [] := by
      rw [← OrdSet.mem_keys, Option.some.inj hlist]
      simp
    exact ((hexact []).mp hempty).1 rfl

end Master

end HuronFS
