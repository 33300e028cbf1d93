import HuronFS.Lib.Misread
import HuronFS.Client.WireFormat

/-!
# `Client.Readdir` — a directory listed by several Masters (`CBB_client::_readdir`)

The client asks each Master in turn. Each reply is copied to the start of one string buffer, and the names are popped from where the
pops of the reply before have ended: the cursor of the buffer is set once, when the buffer is made.
-/

namespace HuronFS

open Wire Region

/-! ## The loop -/

/-- One reply: the data that came with it is copied to the start of the buffer, then the names are popped at its cursor. -/
def readdirReply (stale : Nat → Byte) (t : OutTask) (files : Reader) : Option (Int × List CString × Reader) :=
  match Call.receiveDir (received stale t.message) with
  | none => none
  | some (rc, _) =>
      if rc.status = SUCCESS then
        (popNames rc.names { files with buffer := patch files.buffer 0 (encode (t.extended.map Field.str)) }).map
          (fun (names, files) => (SUCCESS, names, files))
      else some (rc.status, [], files)

/-- What `_readdir` leaves: its result, the set it was given, and the names it read off each reply. -/
structure ReaddirResult where
  ret : Int
  dir : OrdSet Str
  reads : List (List Str)

/-- `CBB_client::_readdir` over the replies of the Masters. `stale n` is what the task of the reply with `n` more to come held before. -/
def readdir (stale : Nat → Nat → Byte) : List OutTask → Reader → OrdSet Str → Option ReaddirResult
  | [], _, dir => some ⟨SUCCESS, dir, []⟩
  | t :: replies, files, dir =>
      match readdirReply (stale replies.length) t files with
      | none => none
      | some (ret, names, files) =>
          if ret = SUCCESS then
            (readdir stale replies files ((names.map CString.bytes).foldl OrdSet.add dir)).map
              (fun res => { res with reads := names.map CString.bytes :: res.reads })
          else some ⟨ret, dir, []⟩

/-! ## Names popped from the wrong place -/

theorem encode_names (l : List Str) : encode (l.map Field.str) = stringsBytes l := by
  unfold encode stringsBytes
  rw [List.flatMap_map]
  rfl

theorem length_stringsBytes (l : List Str) : (stringsBytes l).length = Exchange.namesBytes l := by
  unfold stringsBytes Exchange.namesBytes
  rw [List.length_flatMap]
  congr 2
  funext s
  exact length_stringBytes s

theorem popNames_succ {k : Nat} {r r' : Reader} {names : List CString} (h : popNames (k + 1) r = some (names, r')) :
    ∃ c r1 rest, popCString r = some (c, r1) ∧ popNames k r1 = some (rest, r') ∧ names = c :: rest := by
  obtain ⟨c, r1, hc, h⟩ := Pop.bind_some h
  obtain ⟨rest, r2, hrest, h⟩ := Pop.bind_some h
  cases h
  exact ⟨c, r1, rest, hc, hrest, rfl⟩

/-- Names with something in them, popped from inside their bytes. -/
theorem popNames_misread {l : List Str} {n c : Nat} {r r' : Reader} {names : List CString} (hl : ∀ s ∈ l, Plain s) (hnodup : l.Nodup)
    (hne : l ≠ []) (hc : 0 < c) (hroom : r.room < 256 ^ 3) (hrest : Rest r ((stringsBytes l ++ List.replicate n 1).drop c))
    (hpop : popNames l.length r = some (names, r')) : names.map CString.bytes ≠ l := by
  cases l with
  | nil => exact absurd rfl hne
  | cons s l =>
      obtain ⟨c1, r1, rest, hfirst, htail, rfl⟩ := popNames_succ hpop
      intro heq
      refine misread_first hl (List.nodup_cons.mp hnodup).1 hc hroom hrest hfirst ?_ (List.cons.inj heq).1
      intro hmore
      cases l with
      | nil => exact absurd rfl hmore
      | cons u l =>
          obtain ⟨c2, r2, -, hsecond, -, -⟩ := popNames_succ htail
          rw [hsecond]
          exact Option.some_ne_none _

/-- **The names of a listing, popped from beyond a first name.** Only the first name of an ordered set can be empty. -/
theorem popNames_wrong {l : List Str} {n c : Nat} {r r' : Reader} {names : List CString} (hno : ∀ s ∈ l, 0 ∉ s)
    (hsmall : ∀ s ∈ l, s.length + 1 < 256 ^ 3) (hord : l.Pairwise (· < ·)) (hne : l ≠ []) (hc : 9 ≤ c) (hroom : r.room < 256 ^ 3)
    (hrest : Rest r ((stringsBytes l ++ List.replicate n 1).drop c)) (hpop : popNames l.length r = some (names, r')) :
    names.map CString.bytes ≠ l := by
  have hnodup : l.Nodup := hord.imp (fun h => ne_of_lt h)
  cases l with
  | nil => exact absurd rfl hne
  | cons s l =>
      have htail : ∀ u ∈ l, Plain u := by
        intro u hu
        refine ⟨?_, hno u (List.mem_cons_of_mem _ hu), hsmall u (List.mem_cons_of_mem _ hu)⟩
        rintro rfl
        exact List.not_lt_nil s ((List.pairwise_cons.mp hord).1 [] hu)
      cases s with
      | cons x s =>
          refine popNames_misread ?_ hnodup hne (by omega) hroom hrest hpop
          intro u hu
          rcases List.mem_cons.mp hu with rfl | hu
          · exact ⟨List.cons_ne_nil x s, hno _ List.mem_cons_self, hsmall _ List.mem_cons_self⟩
          · exact htail u hu
      | nil =>
          obtain ⟨d, rfl⟩ := Nat.exists_eq_add_of_le hc
          have hcut : (stringsBytes ([] :: l) ++ List.replicate n 1).drop (9 + d) = (stringsBytes l ++ List.replicate n 1).drop d := by
            rw [stringsBytes_cons, List.append_assoc, ← List.drop_drop]
            congr 1
          rw [hcut] at hrest
          obtain ⟨c1, r1, rest, hfirst, hpop', rfl⟩ := popNames_succ hpop
          intro heq
          cases l with
          | nil =>
              have hones : (stringsBytes [] ++ List.replicate n 1 : List Byte).drop d = List.replicate (n - d) 1 := List.drop_replicate
              rw [hones] at hrest
              rw [popCString_ones hrest] at hfirst
              cases hfirst
          | cons u l =>
              obtain ⟨-, -, -, hrest1⟩ := popCString_rest hrest hfirst
              rw [List.drop_drop] at hrest1
              obtain ⟨k, rfl⟩ := popCString_advance hfirst
              have hroom1 : (r.advance k).room < 256 ^ 3 := hroom
              refine popNames_misread htail (List.nodup_cons.mp hnodup).2 (List.cons_ne_nil u l) ?_ hroom1 hrest1 hpop'
                (List.cons.inj heq).2
              omega

/-! ## The replies of the Masters -/

/-- A right run: no error, the names of each reply, and their union in the set. -/
structure ReaddirRight (listings : List (OrdSet Str)) (dir : OrdSet Str) (res : ReaddirResult) : Prop where
  ret : res.ret = SUCCESS
  reads : res.reads = listings.map OrdMap.keys
  union : ∀ c, OrdSet.Mem res.dir c ↔ OrdSet.Mem dir c ∨ ∃ l ∈ listings, OrdSet.Mem l c

/-- A listing that fits the transfer buffers, of names as a Master has them. -/
structure Transferable (l : OrdSet Str) : Prop where
  fits : Exchange.namesBytes l.keys ≤ MAX_TRANSFER_SIZE
  noZero : ∀ name ∈ l.keys, 0 ∉ name

/-- The buffer after the data of a reply was copied into it. -/
def withReply (files : Reader) (l : OrdSet Str) : Reader := { files with buffer := patch files.buffer 0 (stringsBytes l.keys) }

/-- One reply of a Master, up to the pops of the names. -/
theorem readdirReply_eq {l : OrdSet Str} (h : Transferable l) (stale : Nat → Byte) (o : Origin) (files : Reader) :
    readdirReply stale (Exchange.dirTask o l.keys) files =
      (popNames l.keys.length (withReply files l)).map (fun (names, files) => (SUCCESS, names, files)) := by
  have hfit : fieldBytes [.int SUCCESS, .int l.keys.length] ≤ BASIC_MESSAGE_ROOM := by
    show 8 ≤ 3976
    omega
  have hmin := Exchange.namesBytes_ge l.keys
  have hT : MAX_TRANSFER_SIZE = 1048576 := rfl
  have hfits := h.fits
  have hcount : l.keys.length < 2 ^ 31 := by omega
  have hrecv := Call.receiveDir_eq hcount (received_hasFields hfit stale)
  unfold readdirReply
  rw [show (Exchange.dirTask o l.keys).message = [.int SUCCESS, .int l.keys.length] from rfl, hrecv]
  dsimp only
  rw [if_pos rfl, show (Exchange.dirTask o l.keys).extended = l.keys from rfl, encode_names]
  rfl

/-- A listing without names leaves the buffer as it is. -/
theorem withReply_empty {l : OrdSet Str} (h : l.keys = []) (files : Reader) : withReply files l = files := by
  unfold withReply
  rw [h]
  show { files with buffer := patch files.buffer 0 [] } = files
  rw [patch_nil]

section Loop

variable {stale : Nat → Nat → Byte} {o : Origin}

/-- `_readdir` over Masters with these listings is right. -/
def ReadsAll (stale : Nat → Nat → Byte) (o : Origin) (listings : List (OrdSet Str)) (files : Reader) (dir : OrdSet Str) : Prop :=
  ∃ res, readdir stale (listings.map (fun l => Exchange.dirTask o l.keys)) files dir = some res ∧ ReaddirRight listings dir res

theorem readsAll_nil (files : Reader) (dir : OrdSet Str) : ReadsAll stale o [] files dir :=
  ⟨⟨SUCCESS, dir, []⟩, rfl, rfl, rfl, by simp⟩

/-- The set after the names of one listing went into it. -/
theorem union_cons {l : OrdSet Str} {listings : List (OrdSet Str)} {dir : OrdSet Str} (c : Str) :
    (OrdSet.Mem dir c ∨ ∃ l' ∈ l :: listings, OrdSet.Mem l' c) ↔
      OrdSet.Mem (l.keys.foldl OrdSet.add dir) c ∨ ∃ l' ∈ listings, OrdSet.Mem l' c := by
  rw [OrdSet.mem_foldl_add, OrdSet.mem_keys, or_assoc]
  simp

theorem readdir_cons {l : OrdSet Str} (h : Transferable l) (replies : List OutTask) (files : Reader) (dir : OrdSet Str) :
    readdir stale (Exchange.dirTask o l.keys :: replies) files dir =
      (popNames l.keys.length (withReply files l)).bind (fun (names, files') =>
        (readdir stale replies files' ((names.map CString.bytes).foldl OrdSet.add dir)).map
          (fun res => { res with reads := names.map CString.bytes :: res.reads })) := by
  rw [readdir, readdirReply_eq h]
  cases popNames l.keys.length (withReply files l) with
  | none => rfl
  | some p =>
      rw [Option.map_some]
      exact if_pos rfl

/-- One reply after the other. -/
theorem readsAll_cons_iff {l : OrdSet Str} {listings : List (OrdSet Str)} {files : Reader} {dir : OrdSet Str} (h : Transferable l) :
    ReadsAll stale o (l :: listings) files dir ↔
      ∃ names files', popNames l.keys.length (withReply files l) = some (names, files') ∧ names.map CString.bytes = l.keys ∧
        ReadsAll stale o listings files' (l.keys.foldl OrdSet.add dir) := by
  unfold ReadsAll
  rw [List.map_cons, readdir_cons h]
  constructor
  · rintro ⟨res, hrun, hret, hreads, hunion⟩
    obtain ⟨⟨names, files'⟩, hpop, hrun⟩ := Option.bind_eq_some_iff.mp hrun
    obtain ⟨res', hrun', rfl⟩ := Option.map_eq_some_iff.mp hrun
    obtain ⟨hnames, hreads'⟩ := List.cons.inj hreads
    rw [hnames] at hrun'
    exact ⟨names, files', hpop, hnames, res', hrun', hret, hreads', fun c => (hunion c).trans (union_cons c)⟩
  · rintro ⟨names, files', hpop, hnames, res', hrun', hret, hreads, hunion⟩
    refine ⟨{ res' with reads := names.map CString.bytes :: res'.reads }, ?_, hret, ?_, fun c => (hunion c).trans (union_cons c).symm⟩
    · rw [hpop, Option.bind_some]
      dsimp only
      rw [hnames, hrun']
      rfl
    · show names.map CString.bytes :: res'.reads = _
      rw [hnames, hreads]
      rfl

theorem readsAll_cons_empty {l : OrdSet Str} {listings : List (OrdSet Str)} {files : Reader} {dir : OrdSet Str} (h : Transferable l)
    (hempty : l.keys = []) : ReadsAll stale o (l :: listings) files dir ↔ ReadsAll stale o listings files dir := by
  rw [readsAll_cons_iff h, withReply_empty hempty, hempty]
  constructor
  · rintro ⟨names, files', hpop, -, hrest⟩
    cases hpop
    exact hrest
  · intro hrest
    exact ⟨[], files, rfl, rfl, hrest⟩

/-- Listings without names are read right wherever the cursor stands. -/
theorem readsAll_of_empty {listings : List (OrdSet Str)} (hfit : ∀ l ∈ listings, Transferable l) (hempty : ∀ l ∈ listings, l.keys = [])
    (files : Reader) (dir : OrdSet Str) : ReadsAll stale o listings files dir := by
  induction listings with
  | nil => exact readsAll_nil files dir
  | cons l listings ih =>
      apply (readsAll_cons_empty (hfit l List.mem_cons_self) (hempty l List.mem_cons_self)).mpr
      exact ih (fun l' hl' => hfit l' (List.mem_cons_of_mem _ hl')) (fun l' hl' => hempty l' (List.mem_cons_of_mem _ hl'))

/-- Names at the start of the buffer are popped. -/
theorem popNames_start {l : OrdSet Str} (h : Transferable l) {files : Reader} (hroom : files.room = MAX_DIR_FILE_SIZE)
    (hpoint : files.point = 0) :
    ∃ names, popNames l.keys.length (withReply files l) = some (names, (withReply files l).advance (Exchange.namesBytes l.keys)) ∧
      names.map CString.bytes = l.keys := by
  have hT : MAX_TRANSFER_SIZE = 1048576 := rfl
  have hE : MAX_DIR_FILE_SIZE = 5000000 := rfl
  have hfits := h.fits
  have hahead : HasFields (withReply files l) (l.keys.map Field.str) := by
    unfold HasFields
    rw [encode_names]
    refine ⟨?_, ?_⟩
    · show slice (patch files.buffer 0 (stringsBytes l.keys)) files.point _ = _
      rw [hpoint, slice_patch]
    · show files.point + (stringsBytes l.keys).length ≤ files.room
      rw [hpoint, hroom, length_stringsBytes]
      omega
  have hsmall : ∀ s ∈ l.keys, s.length + 1 < 256 ^ 8 := by
    intro s hs
    have := Exchange.le_namesBytes hs
    omega
  obtain ⟨names, hpop, hcut⟩ := Call.popNames_eq l.keys hsmall hahead
  refine ⟨names, ?_, ?_⟩
  · rw [hpop]
    have hsum : (l.keys.map (fun s => 8 + (s.length + 1))).sum = Exchange.namesBytes l.keys :=
      Exchange.extendedSize_dirTask ⟨0, 0⟩ l.keys
    rw [hsum]
  · rw [hcut]
    calc l.keys.map (List.takeWhile (· != 0)) = l.keys.map id :=
          List.map_inj_left.mpr (fun s hs => takeWhile_noZero.mpr (h.noZero s hs))
      _ = l.keys := List.map_id _

/-- **One listing with names at most** is read right. -/
theorem readsAll_of_pairwise {listings : List (OrdSet Str)} (hfit : ∀ l ∈ listings, Transferable l)
    (hone : listings.Pairwise (fun a b => a.keys = [] ∨ b.keys = [])) {files : Reader} (hroom : files.room = MAX_DIR_FILE_SIZE)
    (hpoint : files.point = 0) (dir : OrdSet Str) : ReadsAll stale o listings files dir := by
  induction listings with
  | nil => exact readsAll_nil files dir
  | cons l listings ih =>
      obtain ⟨hhead, htail⟩ := List.pairwise_cons.mp hone
      have hl := hfit l List.mem_cons_self
      have hfit' : ∀ l' ∈ listings, Transferable l' := fun l' hl' => hfit l' (List.mem_cons_of_mem _ hl')
      by_cases hempty : l.keys = []
      · exact (readsAll_cons_empty hl hempty).mpr (ih hfit' htail)
      · obtain ⟨names, hpop, hnames⟩ := popNames_start hl hroom hpoint
        apply (readsAll_cons_iff hl).mpr
        refine ⟨names, _, hpop, hnames, readsAll_of_empty hfit' ?_ _ _⟩
        intro l' hl'
        exact (hhead l' hl').resolve_left hempty

/-- What stands ahead of the cursor after a reply was copied in, when nothing was written from there on before. -/
theorem withReply_rest {l : OrdSet Str} {files : Reader} (hones : ∀ i, files.point ≤ i → files.buffer i = 1)
    (hfit : (stringsBytes l.keys).length ≤ files.room) :
    Rest (withReply files l)
      ((stringsBytes l.keys ++ List.replicate (files.room - (stringsBytes l.keys).length) 1).drop files.point) := by
  unfold Rest withReply
  dsimp only
  apply List.ext_getElem?
  intro i
  rw [List.getElem?_drop]
  rcases Nat.lt_or_ge i (files.room - files.point) with hi | hi
  · rw [getElem?_slice hi]
    rcases Nat.lt_or_ge (files.point + i) (stringsBytes l.keys).length with hin | hout
    · have hpatch : patch files.buffer 0 (stringsBytes l.keys) (0 + (files.point + i)) = _ := patch_at hin
      rw [List.getElem?_append_left hin, List.getElem?_eq_getElem hin, ← hpatch, Nat.zero_add]
    · rw [patch_outside (Or.inr (by omega)), hones _ (Nat.le_add_right _ _), List.getElem?_append_right hout,
        List.getElem?_replicate_of_lt (by omega)]
  · rw [List.getElem?_eq_none (by rw [length_slice]; exact hi), List.getElem?_eq_none]
    rw [List.length_append, List.length_replicate]
    omega

/-- **Once names were popped, no reply with names is read right.** -/
theorem empty_of_readsAll {listings : List (OrdSet Str)} (hfit : ∀ l ∈ listings, Transferable l) {files : Reader}
    (hroom : files.room = MAX_DIR_FILE_SIZE) (hpoint : 9 ≤ files.point) (hones : ∀ i, files.point ≤ i → files.buffer i = 1) :
    ∀ {dir : OrdSet Str}, ReadsAll stale o listings files dir → ∀ l ∈ listings, l.keys = [] := by
  have hT : MAX_TRANSFER_SIZE = 1048576 := rfl
  have hE : MAX_DIR_FILE_SIZE = 5000000 := rfl
  induction listings with
  | nil =>
      intro dir _ l hl
      cases hl
  | cons l listings ih =>
      intro dir h
      have hl := hfit l List.mem_cons_self
      have hfits := hl.fits
      have hempty : l.keys = [] := by
        by_contra hne
        obtain ⟨names, files', hpop, hnames, -⟩ := (readsAll_cons_iff hl).mp h
        refine popNames_wrong hl.noZero ?_ (OrdMap.keys_ordered l) hne hpoint ?_ (withReply_rest hones ?_) hpop hnames
        · intro s hs
          have := Exchange.le_namesBytes hs
          omega
        · show files.room < 256 ^ 3
          omega
        · rw [length_stringsBytes]
          omega
      intro l' hl'
      rcases List.mem_cons.mp hl' with rfl | hl'
      · exact hempty
      · exact ih (fun l' hl' => hfit l' (List.mem_cons_of_mem _ hl')) ((readsAll_cons_empty hl hempty).mp h) l' hl'

/-- A fresh string buffer reads right only when one listing has names. -/
theorem pairwise_of_readsAll {listings : List (OrdSet Str)} (hfit : ∀ l ∈ listings, Transferable l) {dir : OrdSet Str}
    (h : ReadsAll stale o listings ⟨fun _ => 1, MAX_DIR_FILE_SIZE, 0⟩ dir) :
    listings.Pairwise (fun a b => a.keys = [] ∨ b.keys = []) := by
  induction listings generalizing dir with
  | nil => exact List.Pairwise.nil
  | cons l listings ih =>
      have hl := hfit l List.mem_cons_self
      have hfit' : ∀ l' ∈ listings, Transferable l' := fun l' hl' => hfit l' (List.mem_cons_of_mem _ hl')
      by_cases hempty : l.keys = []
      · exact List.pairwise_cons.mpr ⟨fun _ _ => Or.inl hempty, ih hfit' ((readsAll_cons_empty hl hempty).mp h)⟩
      · obtain ⟨names, files', hpop, -, hrest⟩ := (readsAll_cons_iff hl).mp h
        have hroom : Reader.room ⟨fun _ => 1, MAX_DIR_FILE_SIZE, 0⟩ = MAX_DIR_FILE_SIZE := rfl
        obtain ⟨names', hpop', -⟩ := popNames_start hl hroom rfl
        rw [hpop'] at hpop
        cases hpop
        have hnine : 9 ≤ Exchange.namesBytes l.keys := by
          have hmin := Exchange.namesBytes_ge l.keys
          have hpos := List.length_pos_iff.mpr hempty
          omega
        have hothers := empty_of_readsAll hfit' rfl (by show 9 ≤ 0 + _; omega) ?_ hrest
        · refine List.pairwise_cons.mpr ⟨fun l' hl' => Or.inr (hothers l' hl'), ?_⟩
          exact List.pairwise_of_forall_mem_list (fun a ha _ _ => Or.inl (hothers a ha))
        · intro i hi
          have hlen := length_stringsBytes l.keys
          have hi' : 0 + Exchange.namesBytes l.keys ≤ i := hi
          have houtside : 0 + (stringsBytes l.keys).length ≤ i := by omega
          exact patch_outside (Or.inr houtside)

end Loop

/-- **The listing is the union over the Masters exactly when one Master at most has names in the directory.** The string buffer is
    fresh: it can hold anything. -/
theorem readdir_union_iff {stale : Nat → Nat → Byte} {o : Origin} {listings : List (OrdSet Str)}
    (hfit : ∀ l ∈ listings, Transferable l) (dir : OrdSet Str) :
    (∀ buffer, ∃ res, readdir stale (listings.map (fun l => Exchange.dirTask o l.keys)) ⟨buffer, MAX_DIR_FILE_SIZE, 0⟩ dir = some res ∧
      ReaddirRight listings dir res) ↔ listings.Pairwise (fun a b => a.keys = [] ∨ b.keys = []) := by
  constructor
  · intro h
    exact pairwise_of_readsAll hfit (h (fun _ => 1))
  · intro hone buffer
    exact readsAll_of_pairwise hfit hone rfl rfl dir

/-- A listing of one name. -/
def oneName (name : Str) : OrdSet Str := OrdSet.add OrdMap.empty name

theorem oneName_transferable {name : Str} (hsmall : name.length ≤ 255) (hno : 0 ∉ name) : Transferable (oneName name) := by
  have hT : MAX_TRANSFER_SIZE = 1048576 := rfl
  have hkeys : (oneName name).keys = [name] := rfl
  refine ⟨?_, ?_⟩
  · rw [hkeys]
    show name.length + 9 + 0 ≤ MAX_TRANSFER_SIZE
    omega
  · intro s hs
    rw [hkeys] at hs
    rw [List.mem_singleton.mp hs]
    exact hno

/-- Three Masters, the second of which has the name `a`. -/
theorem readdir_union_one_master :
    Transferable (oneName [97]) ∧ ∀ buffer, ∃ res, readdir (fun _ _ => 0)
        ([OrdMap.empty, oneName [97], OrdMap.empty].map (fun l => Exchange.dirTask ⟨3, 0⟩ l.keys)) ⟨buffer, MAX_DIR_FILE_SIZE, 0⟩
        OrdMap.empty = some res ∧
      ReaddirRight [OrdMap.empty, oneName [97], OrdMap.empty] OrdMap.empty res := by
  refine ⟨oneName_transferable (by decide) (by decide), ?_⟩
  apply (readdir_union_iff ?_ OrdMap.empty).mpr
  · simp only [List.pairwise_cons, List.mem_cons, List.not_mem_nil, or_false]
    refine ⟨fun _ _ => Or.inl rfl, ?_, ?_, List.Pairwise.nil⟩
    · rintro l rfl
      exact Or.inr rfl
    · intro l hl
      exact hl.elim
  · intro l hl
    have hempty : Transferable OrdMap.empty := ⟨Nat.zero_le _, fun _ h => nomatch h⟩
    simp only [List.mem_cons, List.not_mem_nil, or_false] at hl
    rcases hl with rfl | rfl | rfl
    · exact hempty
    · exact oneName_transferable (by decide) (by decide)
    · exact hempty

/-- Two Masters, with the names `a` and `b`: the second name is popped behind the bytes of both replies. -/
theorem readdir_not_union_two_masters :
    Transferable (oneName [97]) ∧ Transferable (oneName [98]) ∧
      ¬ ∀ buffer, ∃ res, readdir (fun _ _ => 0) ([oneName [97], oneName [98]].map (fun l => Exchange.dirTask ⟨3, 0⟩ l.keys))
          ⟨buffer, MAX_DIR_FILE_SIZE, 0⟩ OrdMap.empty = some res ∧
        ReaddirRight [oneName [97], oneName [98]] OrdMap.empty res := by
  have ha : Transferable (oneName [97]) := oneName_transferable (by decide) (by decide)
  have hb : Transferable (oneName [98]) := oneName_transferable (by decide) (by decide)
  refine ⟨ha, hb, ?_⟩
  intro h
  have hfit : ∀ l ∈ [oneName [97], oneName [98]], Transferable l := by
    intro l hl
    simp only [List.mem_cons, List.not_mem_nil, or_false] at hl
    rcases hl with rfl | rfl
    · exact ha
    · exact hb
  have hpair := (List.pairwise_cons.mp (pairwise_of_readsAll hfit (h (fun _ => 1)))).1 (oneName [98]) List.mem_cons_self
  rcases hpair with hc | hc
  · cases hc
  · cases hc

end HuronFS
