import HuronFS.Client.Transfer
import HuronFS.Client.FileMeta
import HuronFS.Lib.Run
import HuronFS.Master.OpenView

/-!
# `Client.BlockCache` — the block cache of a client (`_get_blocks_from_cache`, `remote_IO`)

With `USING_IONODE_CACHE` a client keeps the blocks the Master has told it of, and asks again only when these do not
do. A call is compared with the same call of a client that asks the Master every time: `Transparent` is what the two
have to agree on.

The walk over the cached blocks takes the larger of the cached size and the size asked for, so it stops at the first
block, or, by an unsigned subtraction, at the second; and `NO_NEED_UPDATE`, the answer that everything is there, is
not `SUCCESS`, so the call gives up before the transfer. `Answerable` is what is left.
-/

namespace HuronFS

/-- The result of `_get_blocks_from_cache` and `write_over_block`. -/
inductive CacheAnswer
  | noNeedUpdate
  | updateMetaOnly
  | needUpdate
deriving DecidableEq, Repr

/-- The constants of `CBB_const.h`, none of which is `SUCCESS`. -/
def CacheAnswer.code : CacheAnswer → Int
  | .noNeedUpdate => 4
  | .updateMetaOnly => 5
  | .needUpdate => 6

/-- A `file_meta` with its caches, and the file at the Master. -/
structure ClientFile where
  stSize : Nat
  blockSize : Nat
  blockList : BlockList
  IOnodeListCache : OrdSet Int
  needUpdate : Bool
  view : OpenView

namespace ClientFile

/-- `_create_new_file`, after an open. -/
def opened (v : OpenView) : ClientFile :=
  { stSize := v.size, blockSize := BLOCK_SIZE, blockList := OrdMap.empty, IOnodeListCache := OrdMap.empty
    needUpdate := false, view := v }

/-! ## The cache -/

/-- `write_over_block`. -/
def writeOverBlock (f : ClientFile) (startPoint size : Nat) : CacheAnswer :=
  if size + startPoint > f.stSize then
    if size + startPoint > getBlockStartPoint f.stSize + f.blockSize then .needUpdate else .updateMetaOnly
  else .noNeedUpdate

/-- A subtraction of two `size_t`. -/
def subSize (a b : Nat) : Nat := (a + 2 ^ 64 - b) % 2 ^ 64

/-- The loop of `_get_blocks_from_cache` over the entries from the iterator on: the blocks it inserts and the size
    that is left. -/
def cacheWalk : List (Nat × Nat) → (size : Nat) → BlockList → BlockList × Nat
  | [], size, acc => (acc, size)
  | (startPoint, second) :: rest, size, acc =>
      if size = 0 then (acc, size)
      else cacheWalk rest (subSize size (max second size)) (acc.insert startPoint (max second size))

/-- The entries from `blocks.find(startPoint)` on; none when it is not there. -/
def entriesFrom (blocks : BlockList) (startPoint : Nat) : List (Nat × Nat) :=
  match blocks.find? startPoint with
  | none => []
  | some _ => blocks.entries.dropWhile (fun e => e.1 < startPoint)

/-- `_get_blocks_from_cache`: the answer, and the blocks and the nodes it fills in. -/
def getBlocksFromCache (f : ClientFile) (startPoint size : Nat) : CacheAnswer × BlockList × OrdSet Int :=
  if f.blockList.size = 0 then (.needUpdate, OrdMap.empty, OrdMap.empty)
  else
    match f.writeOverBlock startPoint size with
    | .needUpdate => (.needUpdate, OrdMap.empty, OrdMap.empty)
    | ret =>
        let ret := if f.needUpdate then .updateMetaOnly else ret
        let walk := cacheWalk (entriesFrom f.blockList (getBlockStartPoint startPoint)) size OrdMap.empty
        (if 0 < walk.2 then .needUpdate else ret, walk.1, f.IOnodeListCache)

/-! ## The Master -/

/-- `_write_update_file_size`. -/
def writeUpdateFileSize (f : ClientFile) (startPoint size : Nat) : ClientFile :=
  if startPoint + size > f.stSize then { f with stSize := startPoint + size } else f

/-- `_update_meta`. -/
def updateMeta (f : ClientFile) (startPoint size : Nat) : ClientFile :=
  let f := f.writeUpdateFileSize startPoint size
  { f with view := f.view.updateMeta f.stSize }

/-- `_update_file_size_from_master` and `_parse_blocks_from_master`. -/
def parseBlocks (usingCache : Bool) (f : ClientFile) (info : OpenView.BlockInfo) : ClientFile :=
  { f with
    stSize := if info.fileSize > f.stSize then info.fileSize else f.stSize
    IOnodeListCache := OrdSet.add f.IOnodeListCache info.node
    blockList := if usingCache then info.blocks.entries.foldl (fun cache e => cache.insert e.1 e.2) f.blockList
      else f.blockList }

/-- The query of `_get_blocks_from_master` and its reply. -/
def askMaster (f : ClientFile) (mode : IOMode) (startPoint size : Nat) : Option (ClientFile × OpenView.BlockInfo) :=
  match mode with
  | .read => (f.view.readFile startPoint size).map (fun info => (f, info))
  | .write =>
      let f := f.writeUpdateFileSize startPoint size
      (f.view.writeFile f.stSize startPoint size).map (fun (view, info) => ({ f with view := view }, info))

/-- `_get_blocks_from_master`. -/
def getBlocksFromMaster (usingCache : Bool) (f : ClientFile) (mode : IOMode) (startPoint size : Nat) :
    Option (ClientFile × OpenView.BlockInfo) :=
  (f.askMaster mode startPoint size).map (fun (f, info) => (f.parseBlocks usingCache info, info))

/-! ## The call -/

/-- A call of `remote_IO`. The end of the range is an `off64_t`. -/
structure IOCall where
  mode : IOMode
  startPoint : Nat
  size : Nat
  data : List Byte
  size_pos : 0 < size
  in_range : startPoint + size < 2 ^ 63
  data_length : mode = .write → data.length = size

/-- The block the range of a call starts in. -/
def IOCall.block (c : IOCall) : Nat := getBlockStartPoint c.startPoint

/-- What `remote_IO` knows when it comes to the transfer: the file, the blocks, the nodes, and whether it goes on. -/
structure Prepared where
  file : ClientFile
  blocks : BlockList
  nodes : OrdSet Int
  proceeds : Bool

/-- `remote_IO` up to the transfer. What the cache filled in stays when the Master is asked after all. -/
def prepare (usingCache : Bool) (f : ClientFile) (c : IOCall) : Option Prepared :=
  if usingCache then
    match f.getBlocksFromCache c.startPoint c.size with
    | (.needUpdate, blocks, nodes) =>
        (f.getBlocksFromMaster true c.mode c.startPoint c.size).map (fun (f', info) =>
          ⟨f', info.blocks.entries.foldl (fun bl e => bl.insert e.1 e.2) blocks, OrdSet.add nodes info.node, true⟩)
    | (.updateMetaOnly, blocks, nodes) => some ⟨f.updateMeta c.startPoint c.size, blocks, nodes, true⟩
    | (.noNeedUpdate, blocks, nodes) => some ⟨f, blocks, nodes, false⟩
  else
    (f.getBlocksFromMaster false c.mode c.startPoint c.size).map (fun (f', info) =>
      ⟨f', info.blocks, OrdSet.add OrdMap.empty info.node, true⟩)

/-- The transfer of a call: the count it returns, the bytes it received and the IOnode after it. -/
def transfer {σ : Type} (io : NodeIo σ) (c : IOCall) (p : Prepared) (s : σ) : Option (Nat × List Byte × σ) :=
  if p.proceeds then
    match c.mode with
    | .write => (writeToIOnode io p.blocks p.nodes c.startPoint c.data s).map (fun (count, s) => (count, [], s))
    | .read =>
        (readFromIOnode io p.blocks p.nodes p.file.stSize c.startPoint c.size s).map
          (fun (bytes, s) => (bytes.length, bytes, s))
  else some (0, [], s)

/-- `remote_IO`: the file at the Master after it, and the transfer. -/
def remoteIo {σ : Type} (io : NodeIo σ) (usingCache : Bool) (f : ClientFile) (c : IOCall) (s : σ) :
    Option (OpenView × Option (Nat × List Byte × σ)) :=
  (f.prepare usingCache c).map (fun p => (p.file.view, transfer io c p s))

/-- What happens to a `file_meta`: a `remote_IO`, or a touch, which every `_write` makes first. -/
inductive Use
  | io (c : IOCall)
  | updateAccessTime

def step (f : ClientFile) : Use → Option ClientFile
  | .io c => (f.prepare true c).map Prepared.file
  | .updateAccessTime => some { f with needUpdate := true }

/-! ## The two calls compared -/

/-- The cache is not seen. Whatever the IOnode answers, the call moves the same bytes, returns the same count and leaves
    the same size at the Master as without the cache; and when the cache has answered, the blocks are the Master's
    and the call goes on to the transfer. -/
def Transparent (f : ClientFile) (c : IOCall) : Prop :=
  (∀ (σ : Type) (io : NodeIo σ) (s : σ), (f.remoteIo io true c s).map (fun r => (r.1.size, r.2)) =
    (f.remoteIo io false c s).map (fun r => (r.1.size, r.2))) ∧
  ((f.getBlocksFromCache c.startPoint c.size).1 ≠ .needUpdate → ∃ p q, f.prepare true c = some p ∧
    f.prepare false c = some q ∧ p.proceeds = true ∧ p.blocks.keys = q.blocks.keys)

/-- The calls for which the cache is not seen: it has no answer, or it has the one block that the range takes, within
    its recorded size, and there is a metadata update to make. -/
def Answerable (f : ClientFile) (c : IOCall) : Prop :=
  match f.blockList.find? c.block with
  | none => True
  | some second =>
      (f.stSize < c.startPoint + c.size ∧ getBlockStartPoint f.stSize + BLOCK_SIZE < c.startPoint + c.size) ∨
      (c.size < second ∧ f.blockList.nextKey c.block = none) ∨
      (second ≤ c.size ∧ c.size ≤ BLOCK_SIZE ∧
        (if c.startPoint + c.size ≤ f.stSize then f.needUpdate = true else c.mode = .write))

/-! ## Reachable states -/

/-- What holds of a `file_meta` and its file at any time. -/
structure CacheInv (f : ClientFile) : Prop where
  size_eq : f.stSize = f.view.size
  blockSize_eq : f.blockSize = BLOCK_SIZE
  sizes : Master.SizesFit f.view.blocks
  cached : Master.SizesFit f.blockList
  known : ∀ k ∈ f.blockList.keys, k ∈ f.view.blocks.keys
  nodes : ∀ n, OrdSet.Mem f.IOnodeListCache n → n = f.view.primary
  node : f.blockList.size ≠ 0 → OrdSet.Mem f.IOnodeListCache f.view.primary

theorem opened_inv (size : Nat) (primary : Int) : CacheInv (opened (OpenView.opened size primary)) where
  size_eq := rfl
  blockSize_eq := rfl
  sizes := (Master.createBlockList_covers size).size_le
  cached _ _ h := nomatch h
  known _ h := nomatch h
  nodes n h := absurd h (OrdSet.not_mem_empty n)
  node h := absurd rfl h

@[simp] theorem writeUpdateFileSize_stSize (f : ClientFile) (startPoint size : Nat) :
    (f.writeUpdateFileSize startPoint size).stSize = max f.stSize (startPoint + size) := by
  unfold writeUpdateFileSize
  split
  · show startPoint + size = _
    omega
  · omega

/-- `_write_update_file_size` writes nothing but the size. -/
theorem writeUpdateFileSize_eq (f : ClientFile) (startPoint size : Nat) :
    f.writeUpdateFileSize startPoint size = { f with stSize := max f.stSize (startPoint + size) } := by
  unfold writeUpdateFileSize
  split
  · rw [max_eq_right (by omega)]
  · rw [max_eq_left (by omega)]

theorem CacheInv.updateMeta {f : ClientFile} (h : CacheInv f) (startPoint size : Nat) :
    CacheInv (f.updateMeta startPoint size) := by
  rw [ClientFile.updateMeta, writeUpdateFileSize_eq]
  refine ⟨?_, h.blockSize_eq, h.sizes, h.cached, h.known, h.nodes, h.node⟩
  show max f.stSize (startPoint + size) = max f.view.size (max f.stSize (startPoint + size))
  rw [h.size_eq]
  omega

/-- The view a reply is about, and what it says of it. -/
structure Answers (v : OpenView) (c : IOCall) (info : OpenView.BlockInfo) : Prop where
  size : info.fileSize = v.size
  node : info.node = v.primary
  select : Master.selectNodeBlockSet v.blocks c.startPoint c.size = some info.blocks

theorem readFile_answers {v : OpenView} {c : IOCall} {info : OpenView.BlockInfo}
    (h : v.readFile c.startPoint c.size = some info) : Answers v c info := by
  obtain ⟨bl, hbl, rfl⟩ := Option.map_eq_some_iff.mp h
  exact ⟨rfl, rfl, hbl⟩

theorem Answers.entry {v : OpenView} {c : IOCall} {info : OpenView.BlockInfo} (h : Answers v c info) {k w : Nat}
    (hk : info.blocks.find? k = some w) : v.blocks.find? k = some w := by
  rcases Master.selectBlocks_find h.select hk with hk | hk
  · cases hk
  · exact hk

theorem CacheInv.parseBlocks {f : ClientFile} (h : CacheInv f) {c : IOCall} {info : OpenView.BlockInfo}
    (ha : Answers f.view c info) : CacheInv (f.parseBlocks true info) where
  size_eq := by
    show (if info.fileSize > f.stSize then info.fileSize else f.stSize) = f.view.size
    rw [ha.size, h.size_eq, if_neg (lt_irrefl _)]
  blockSize_eq := h.blockSize_eq
  sizes := h.sizes
  cached k v hv := by
    rcases OrdMap.find?_foldl_insert hv with hv | hv
    · exact h.cached k v hv
    · exact h.sizes k v (ha.entry (OrdMap.mem_entries.mp hv))
  known k hk := by
    rcases OrdMap.mem_keys_foldl_insert.mp hk with hk | ⟨v, hv⟩
    · exact h.known k hk
    · exact OrdMap.mem_keys.mpr ⟨v, ha.entry (OrdMap.mem_entries.mp hv)⟩
  nodes n hn := by
    rcases OrdSet.mem_add.mp hn with hn | hn
    · exact hn.trans ha.node
    · exact h.nodes n hn
  node _ := OrdSet.mem_add.mpr (Or.inl ha.node.symm)

/-- **What the Master is asked for**: the invariant holds of the file the query leaves, and the reply is about it. -/
theorem CacheInv.askMaster {f f' : ClientFile} (h : CacheInv f) {c : IOCall} {info : OpenView.BlockInfo}
    (hask : f.askMaster c.mode c.startPoint c.size = some (f', info)) :
    CacheInv f' ∧ Answers f'.view c info ∧ f'.view.primary = f.view.primary := by
  cases hmode : c.mode with
  | read =>
      rw [hmode] at hask
      obtain ⟨info', hread, heq⟩ := Option.map_eq_some_iff.mp hask
      cases heq
      exact ⟨h, readFile_answers hread, rfl⟩
  | write =>
      rw [hmode] at hask
      obtain ⟨⟨v, info'⟩, hwrite, heq⟩ := Option.map_eq_some_iff.mp hask
      cases heq
      obtain ⟨info'', hread, heq⟩ := Option.map_eq_some_iff.mp hwrite
      cases heq
      rw [writeUpdateFileSize_eq] at hread ⊢
      refine ⟨⟨?_, h.blockSize_eq, h.sizes.allocateNewBlocksForWriting _ _, h.cached, ?_, h.nodes, h.node⟩,
        readFile_answers hread, rfl⟩
      · show max f.stSize (c.startPoint + c.size) = max f.view.size (max f.stSize (c.startPoint + c.size))
        rw [h.size_eq]
        omega
      · intro k hk
        exact Master.allocateNewBlocksForWriting_keeps (h.known k hk)

/-- **Every use keeps the invariant.** -/
theorem CacheInv.step {f f' : ClientFile} (h : CacheInv f) {u : Use} (hstep : f.step u = some f') : CacheInv f' := by
  cases u with
  | updateAccessTime =>
      cases hstep
      exact ⟨h.size_eq, h.blockSize_eq, h.sizes, h.cached, h.known, h.nodes, h.node⟩
  | io c =>
      obtain ⟨p, hp, rfl⟩ := Option.map_eq_some_iff.mp hstep
      simp only [prepare, if_true] at hp
      split at hp
      · obtain ⟨⟨f', info⟩, hget, rfl⟩ := Option.map_eq_some_iff.mp hp
        obtain ⟨⟨f1, info'⟩, hask, heq⟩ := Option.map_eq_some_iff.mp hget
        cases heq
        obtain ⟨h1, ha, _⟩ := h.askMaster hask
        exact h1.parseBlocks ha
      · cases hp
        exact h.updateMeta _ _
      · cases hp
        exact h

/-! ## What the cache answers -/

theorem cacheWalk_done (l : List (Nat × Nat)) (acc : BlockList) : cacheWalk l 0 acc = (acc, 0) := by
  cases l with
  | nil => rfl
  | cons e l => simp only [cacheWalk, if_true]

theorem subSize_self (a : Nat) : subSize a a = 0 := by
  unfold subSize
  rw [Nat.add_sub_cancel_left, Nat.mod_self]

theorem subSize_wrap {a b : Nat} (hab : a < b) : subSize a b = a + 2 ^ 64 - b := by
  unfold subSize
  exact Nat.mod_eq_of_lt (by omega)

/-- A size that fits the recorded one, or exceeds it, stops the walk at once. -/
theorem cacheWalk_one {k second size : Nat} {rest : List (Nat × Nat)} (hsize : 0 < size) (hle : second ≤ size) :
    cacheWalk ((k, second) :: rest) size OrdMap.empty = (OrdMap.empty.insert k size, 0) := by
  simp only [cacheWalk, if_neg (Nat.ne_of_gt hsize), max_eq_right hle, subSize_self, cacheWalk_done]

/-- A smaller size wraps around: the walk stops at the second block, or has more left than it began with. -/
theorem cacheWalk_wrap {k second size : Nat} {rest : List (Nat × Nat)} (hsize : 0 < size) (hlt : size < second)
    (hfit : second ≤ BLOCK_SIZE) (hrest : ∀ e ∈ rest, e.2 ≤ BLOCK_SIZE) :
    (rest = [] ∧ 0 < (cacheWalk ((k, second) :: rest) size OrdMap.empty).2 ∧
      (cacheWalk ((k, second) :: rest) size OrdMap.empty).1 = OrdMap.empty.insert k second) ∨
    (∃ k' left, rest.head?.map Prod.fst = some k' ∧ cacheWalk ((k, second) :: rest) size OrdMap.empty =
      ((OrdMap.empty.insert k second).insert k' left, 0)) := by
  have hB : BLOCK_SIZE = 1048576 := rfl
  have hleft := subSize_wrap hlt
  simp only [cacheWalk, if_neg (Nat.ne_of_gt hsize), max_eq_left (Nat.le_of_lt hlt)]
  cases rest with
  | nil =>
      refine Or.inl ⟨rfl, ?_, rfl⟩
      show 0 < subSize size second
      omega
  | cons e rest =>
      obtain ⟨k', second'⟩ := e
      have hfit' : second' ≤ BLOCK_SIZE := hrest _ List.mem_cons_self
      have hmax : max second' (subSize size second) = subSize size second := max_eq_right (by omega)
      refine Or.inr ⟨k', subSize size second, rfl, ?_⟩
      simp only [cacheWalk, hmax, subSize_self, cacheWalk_done]
      rw [if_neg (by omega)]

/-- The range ends past the block of the end of the file. -/
def Over (f : ClientFile) (c : IOCall) : Prop :=
  f.stSize < c.startPoint + c.size ∧ getBlockStartPoint f.stSize + BLOCK_SIZE < c.startPoint + c.size

instance (f : ClientFile) (c : IOCall) : Decidable (f.Over c) := inferInstanceAs (Decidable (_ ∧ _))

/-- The answer when the walk has found blocks enough. -/
def hitAnswer (f : ClientFile) (c : IOCall) : CacheAnswer :=
  if f.needUpdate = true ∨ f.stSize < c.startPoint + c.size then .updateMetaOnly else .noNeedUpdate

theorem CacheInv.getBlocksFromCache_over {f : ClientFile} (h : CacheInv f) {c : IOCall}
    (hover : f.blockList.size = 0 ∨ f.Over c) :
    f.getBlocksFromCache c.startPoint c.size = (.needUpdate, OrdMap.empty, OrdMap.empty) := by
  unfold getBlocksFromCache
  by_cases hempty : f.blockList.size = 0
  · rw [if_pos hempty]
  · rw [if_neg hempty]
    obtain ⟨h1, h2⟩ := hover.resolve_left hempty
    have hwrite : f.writeOverBlock c.startPoint c.size = .needUpdate := by
      unfold writeOverBlock
      rw [h.blockSize_eq, if_pos (by omega), if_pos (by omega)]
    simp only [hwrite]

theorem CacheInv.getBlocksFromCache_walk {f : ClientFile} (h : CacheInv f) {c : IOCall} (hempty : f.blockList.size ≠ 0)
    (hover : ¬ f.Over c) : f.getBlocksFromCache c.startPoint c.size =
      (if 0 < (cacheWalk (entriesFrom f.blockList c.block) c.size OrdMap.empty).2 then .needUpdate else f.hitAnswer c,
        (cacheWalk (entriesFrom f.blockList c.block) c.size OrdMap.empty).1, f.IOnodeListCache) := by
  have hwrite : f.writeOverBlock c.startPoint c.size =
      if f.stSize < c.startPoint + c.size then .updateMetaOnly else .noNeedUpdate := by
    unfold writeOverBlock
    rw [h.blockSize_eq]
    by_cases hlt : f.stSize < c.startPoint + c.size
    · have hin : ¬ getBlockStartPoint f.stSize + BLOCK_SIZE < c.startPoint + c.size := fun hc => hover ⟨hlt, hc⟩
      rw [if_pos (by omega), if_neg (by omega), if_pos hlt]
    · rw [if_neg (by omega), if_neg hlt]
  unfold getBlocksFromCache hitAnswer IOCall.block
  rw [if_neg hempty, hwrite]
  by_cases hlt : f.stSize < c.startPoint + c.size
  · simp only [hlt, or_true, if_true, ite_self]
  · simp only [hlt, or_false, if_false]

/-- The cache has no answer: no block, or none at the start of the range, a range past the last block, or a size that
    wraps around at the last cached block. -/
def Misses (f : ClientFile) (c : IOCall) : Prop :=
  f.blockList.find? c.block = none ∨ f.Over c ∨
    ∃ second, f.blockList.find? c.block = some second ∧ c.size < second ∧ f.blockList.nextKey c.block = none

/-- What `_get_blocks_from_cache` can do. -/
theorem CacheInv.cache_cases {f : ClientFile} (h : CacheInv f) (c : IOCall) :
    (f.Misses c ∧ ∃ blocks nodes, f.getBlocksFromCache c.startPoint c.size = (.needUpdate, blocks, nodes) ∧
      (∀ k ∈ blocks.keys, k = c.block) ∧ ∀ n, OrdSet.Mem nodes n → n = f.view.primary) ∨
    (∃ second, f.blockList.find? c.block = some second ∧ ¬ f.Over c ∧ second ≤ c.size ∧
      f.getBlocksFromCache c.startPoint c.size = (f.hitAnswer c, OrdMap.empty.insert c.block c.size, f.IOnodeListCache)) ∨
    (∃ second k left, f.blockList.find? c.block = some second ∧ ¬ f.Over c ∧ c.size < second ∧
      f.blockList.nextKey c.block = some k ∧ f.getBlocksFromCache c.startPoint c.size =
        (f.hitAnswer c, (OrdMap.empty.insert c.block second).insert k left, f.IOnodeListCache)) := by
  by_cases hover : f.blockList.size = 0 ∨ f.Over c
  · refine Or.inl ⟨?_, _, _, h.getBlocksFromCache_over hover, (fun k hk => nomatch hk), ?_⟩
    · rcases hover with hempty | hover
      · exact Or.inl (OrdMap.size_eq_zero.mp hempty c.block)
      · exact Or.inr (Or.inl hover)
    · intro n hn
      exact absurd hn (OrdSet.not_mem_empty n)
  · obtain ⟨hempty, hover⟩ := not_or.mp hover
    have hwalk := h.getBlocksFromCache_walk hempty hover
    cases hfind : f.blockList.find? c.block with
    | none =>
        -- nothing to walk over
        have hfrom : entriesFrom f.blockList c.block = [] := by simp only [entriesFrom, hfind]
        rw [hfrom] at hwalk
        simp only [cacheWalk, c.size_pos, if_true] at hwalk
        exact Or.inl ⟨Or.inl hfind, _, _, hwalk, (fun k hk => nomatch hk), h.nodes⟩
    | some second =>
        obtain ⟨rest, hrest, hnext, hmem⟩ := OrdMap.entries_from hfind
        have hfrom : entriesFrom f.blockList c.block = (c.block, second) :: rest := by simp only [entriesFrom, hfind, hrest]
        rw [hfrom] at hwalk
        by_cases hle : second ≤ c.size
        · rw [cacheWalk_one c.size_pos hle] at hwalk
          exact Or.inr (Or.inl ⟨second, rfl, hover, hle, hwalk⟩)
        · have hfit : ∀ e ∈ rest, e.2 ≤ BLOCK_SIZE := fun e he => h.cached e.1 e.2 (OrdMap.mem_entries.mp (hmem e he))
          rcases cacheWalk_wrap (k := c.block) c.size_pos (Nat.lt_of_not_le hle) (h.cached _ _ hfind) hfit with
            ⟨rfl, hleft, hblocks⟩ | ⟨k', left, hk', hboth⟩
          · rw [if_pos hleft, hblocks] at hwalk
            refine Or.inl ⟨Or.inr (Or.inr ⟨second, hfind, Nat.lt_of_not_le hle, hnext⟩), _, _, hwalk, ?_, h.nodes⟩
            intro k hk
            exact (OrdMap.mem_keys_insert.mp hk).resolve_right (fun hc => nomatch hc)
          · rw [hboth] at hwalk
            exact Or.inr (Or.inr ⟨second, k', left, rfl, hover, Nat.lt_of_not_le hle, hnext.trans hk', hwalk⟩)

/-! ## With and without the cache -/

theorem transfer_congr {σ : Type} (io : NodeIo σ) (c : IOCall) {p q : Prepared} (hproceeds : p.proceeds = q.proceeds)
    (hkeys : p.blocks.keys = q.blocks.keys) (hnodes : p.nodes = q.nodes) (hsize : p.file.stSize = q.file.stSize) (s : σ) :
    transfer io c p s = transfer io c q s := by
  simp only [transfer, hproceeds, hnodes, hsize, writeToIOnode_congr io hkeys, readFromIOnode_congr io hkeys]

/-- Nodes that are all the primary one. -/
theorem add_primary {nodes : OrdSet Int} {n : Int} (h : ∀ j, OrdSet.Mem nodes j → j = n) :
    OrdSet.add nodes n = OrdSet.add OrdMap.empty n := by
  apply OrdMap.ext
  intro j
  simp only [OrdSet.add, OrdMap.find?_put]
  by_cases hj : j = n
  · rw [if_pos hj, if_pos hj]
  · rw [if_neg hj, if_neg hj]
    cases hf : nodes.find? j with
    | none => rfl
    | some u => exact absurd (h j hf) hj

theorem keys_fold_of_sub {blocks walked : BlockList} {k : Nat} (hk : k ∈ blocks.keys) (hwalked : ∀ j ∈ walked.keys, j = k) :
    (blocks.entries.foldl (fun bl e => bl.insert e.1 e.2) walked).keys = blocks.keys := by
  apply OrdMap.keys_eq_of_mem
  intro j
  rw [OrdMap.mem_keys_foldl_insert]
  constructor
  · rintro (hj | ⟨v, hv⟩)
    · rw [hwalked j hj]
      exact hk
    · exact OrdMap.mem_keys.mpr ⟨v, OrdMap.mem_entries.mp hv⟩
  · intro hj
    obtain ⟨v, hv⟩ := OrdMap.mem_keys.mp hj
    exact Or.inr ⟨v, OrdMap.mem_entries.mpr hv⟩

/-- **A miss** asks the Master, as a client without the cache does. -/
theorem CacheInv.transparent_of_miss {f : ClientFile} (h : CacheInv f) {c : IOCall} {blocks : BlockList}
    {nodes : OrdSet Int} (hcache : f.getBlocksFromCache c.startPoint c.size = (.needUpdate, blocks, nodes))
    (hblocks : ∀ k ∈ blocks.keys, k = c.block) (hnodes : ∀ n, OrdSet.Mem nodes n → n = f.view.primary) :
    f.Transparent c := by
  refine ⟨?_, fun hne => absurd (by rw [hcache]) hne⟩
  intro σ io s
  simp only [remoteIo, prepare, hcache, if_true, Bool.false_eq_true, if_false, getBlocksFromMaster, Option.map_map]
  cases hask : f.askMaster c.mode c.startPoint c.size with
  | none => rfl
  | some r =>
      obtain ⟨f1, info⟩ := r
      obtain ⟨_, ha, hprimary⟩ := h.askMaster hask
      have hfirst := Master.selectNodeBlockSet_first c.size_pos ha.select
      simp only [Option.map_some, Function.comp_apply, Option.some.injEq, Prod.mk.injEq]
      refine ⟨rfl, ?_⟩
      apply transfer_congr
      · rfl
      · exact keys_fold_of_sub hfirst hblocks
      · apply add_primary
        intro j hj
        rw [hnodes j hj, ha.node, hprimary]
      · rfl

theorem keys_insert_empty (k v : Nat) : ((OrdMap.empty : BlockList).insert k v).keys = [k] := rfl

/-- A range that takes one block, which the Master has. -/
theorem askMaster_one {f : ClientFile} {c : IOCall} (hk : c.block ∈ f.view.blocks.keys) (hone : c.size ≤ BLOCK_SIZE) :
    ∃ f1 info, f.askMaster c.mode c.startPoint c.size = some (f1, info) ∧ info.blocks.keys = [c.block] := by
  cases hmode : c.mode with
  | read =>
      obtain ⟨w, hw⟩ := OrdMap.mem_keys.mp hk
      have hselect := Master.selectNodeBlockSet_one c.size_pos hone hw
      refine ⟨f, ⟨f.view.size, f.view.primary, OrdMap.empty.insert c.block w⟩, ?_, keys_insert_empty _ w⟩
      simp only [askMaster, OpenView.readFile, hselect, Option.map_some]
      rfl
  | write =>
      have hk' : c.block ∈ (Master.allocateNewBlocksForWriting f.view.blocks c.startPoint c.size).keys :=
        Master.allocateNewBlocksForWriting_keeps hk
      obtain ⟨w, hw⟩ := OrdMap.mem_keys.mp hk'
      have hselect := Master.selectNodeBlockSet_one c.size_pos hone hw
      refine ⟨{ f with
        stSize := max f.stSize (c.startPoint + c.size)
        view := f.view.written (max f.stSize (c.startPoint + c.size)) c.startPoint c.size },
        ⟨(f.view.updateMeta (max f.stSize (c.startPoint + c.size))).size, f.view.primary, OrdMap.empty.insert c.block w⟩, ?_,
        keys_insert_empty _ w⟩
      simp only [askMaster, writeUpdateFileSize_eq, OpenView.writeFile, OpenView.readFile, OpenView.written, hselect,
        Option.map_some]
      rfl

/-- The sizes after a query: a write has raised them. -/
theorem askMaster_sizes {f f1 : ClientFile} {c : IOCall} {info : OpenView.BlockInfo}
    (hask : f.askMaster c.mode c.startPoint c.size = some (f1, info)) :
    (c.mode = .read ∧ f1 = f) ∨ (c.mode = .write ∧ f1.stSize = max f.stSize (c.startPoint + c.size)) := by
  cases hmode : c.mode with
  | read =>
      rw [hmode] at hask
      obtain ⟨info', _, heq⟩ := Option.map_eq_some_iff.mp hask
      cases heq
      exact Or.inl ⟨rfl, rfl⟩
  | write =>
      rw [hmode] at hask
      obtain ⟨⟨v, info'⟩, _, heq⟩ := Option.map_eq_some_iff.mp hask
      cases heq
      exact Or.inr ⟨rfl, writeUpdateFileSize_stSize f _ _⟩

theorem prepare_off_eq {f f1 : ClientFile} {c : IOCall} {info : OpenView.BlockInfo}
    (hask : f.askMaster c.mode c.startPoint c.size = some (f1, info)) :
    f.prepare false c = some ⟨f1.parseBlocks false info, info.blocks, OrdSet.add OrdMap.empty info.node, true⟩ := by
  simp only [prepare, Bool.false_eq_true, if_false, getBlocksFromMaster, hask, Option.map_some]

theorem prepare_off_some {f : ClientFile} {c : IOCall} {q : Prepared} (h : f.prepare false c = some q) :
    ∃ f1 info, f.askMaster c.mode c.startPoint c.size = some (f1, info) ∧ q.blocks = info.blocks := by
  simp only [prepare, Bool.false_eq_true, if_false, getBlocksFromMaster, Option.map_map] at h
  obtain ⟨⟨f1, info⟩, hask, rfl⟩ := Option.map_eq_some_iff.mp h
  exact ⟨f1, info, hask, rfl⟩

/-- The size a query leaves at the client stays when the reply is parsed. -/
theorem CacheInv.parseBlocks_stSize {f : ClientFile} (h : CacheInv f) {c : IOCall} {info : OpenView.BlockInfo}
    (ha : Answers f.view c info) (usingCache : Bool) : (f.parseBlocks usingCache info).stSize = f.stSize := by
  show (if info.fileSize > f.stSize then info.fileSize else f.stSize) = f.stSize
  rw [ha.size, h.size_eq, if_neg (lt_irrefl _)]

theorem CacheInv.nodes_eq {f : ClientFile} (h : CacheInv f) (hne : f.blockList.size ≠ 0) :
    f.IOnodeListCache = OrdSet.add OrdMap.empty f.view.primary := by
  rw [← add_primary h.nodes]
  apply OrdMap.ext
  intro j
  simp only [OrdSet.add, OrdMap.find?_put]
  by_cases hj : j = f.view.primary
  · rw [if_pos hj, hj]
    exact h.node hne
  · rw [if_neg hj]

/-- **A hit within one block, with an update to make**, is not seen. -/
theorem CacheInv.transparent_of_hit {f : ClientFile} (h : CacheInv f) {c : IOCall} {second : Nat}
    (hfind : f.blockList.find? c.block = some second) (hone : c.size ≤ BLOCK_SIZE)
    (hcache : f.getBlocksFromCache c.startPoint c.size =
      (.updateMetaOnly, OrdMap.empty.insert c.block c.size, f.IOnodeListCache))
    (hgrow : c.startPoint + c.size ≤ f.stSize ∨ c.mode = .write) : f.Transparent c := by
  have hne : f.blockList.size ≠ 0 := by
    intro hc
    rw [OrdMap.size_eq_zero.mp hc c.block] at hfind
    cases hfind
  obtain ⟨f1, info, hask, hkeys⟩ := askMaster_one (h.known _ (OrdMap.mem_keys.mpr ⟨second, hfind⟩)) hone
  obtain ⟨h1, ha, hprimary⟩ := h.askMaster hask
  have hon : f.prepare true c =
      some ⟨f.updateMeta c.startPoint c.size, OrdMap.empty.insert c.block c.size, f.IOnodeListCache, true⟩ := by
    simp only [prepare, if_true, hcache]
  have hoff := prepare_off_eq hask
  have hsize : f1.stSize = max f.stSize (c.startPoint + c.size) := by
    rcases askMaster_sizes hask with ⟨hmode, rfl⟩ | ⟨_, hsize⟩
    · have := hgrow.resolve_right (by rw [hmode]; decide)
      omega
    · exact hsize
  refine ⟨?_, fun _ => ⟨_, _, hon, hoff, rfl, ?_⟩⟩
  · intro σ io s
    simp only [remoteIo, hon, hoff, Option.map_some, Option.some.injEq, Prod.mk.injEq]
    refine ⟨?_, ?_⟩
    · show (f.updateMeta c.startPoint c.size).view.size = f1.view.size
      rw [← h1.size_eq, ← (h.updateMeta c.startPoint c.size).size_eq, hsize]
      exact writeUpdateFileSize_stSize f _ _
    · apply transfer_congr
      · rfl
      · exact hkeys.symm
      · show f.IOnodeListCache = OrdSet.add OrdMap.empty info.node
        rw [h.nodes_eq hne, ha.node, hprimary]
      · show (f.updateMeta c.startPoint c.size).stSize = (f1.parseBlocks false info).stSize
        rw [h1.parseBlocks_stSize ha, hsize]
        exact writeUpdateFileSize_stSize f _ _
  · exact hkeys.symm

/-- There is an update to make: the metadata has changed, or the file grows. -/
def Updates (f : ClientFile) (c : IOCall) : Prop := f.needUpdate = true ∨ f.stSize < c.startPoint + c.size

instance (f : ClientFile) (c : IOCall) : Decidable (f.Updates c) := inferInstanceAs (Decidable (_ ∨ _))

theorem prepare_hit {f : ClientFile} {c : IOCall} {blocks : BlockList} {nodes : OrdSet Int}
    (hcache : f.getBlocksFromCache c.startPoint c.size = (f.hitAnswer c, blocks, nodes)) :
    f.prepare true c = some (if f.Updates c then ⟨f.updateMeta c.startPoint c.size, blocks, nodes, true⟩
      else ⟨f, blocks, nodes, false⟩) := by
  simp only [prepare, if_true, hcache]
  by_cases hu : f.Updates c
  · rw [if_pos hu, show f.hitAnswer c = .updateMetaOnly from if_pos hu]
  · rw [if_neg hu, show f.hitAnswer c = .noNeedUpdate from if_neg hu]

/-- What a hit that is not seen comes to. -/
theorem transparent_hit {f : ClientFile} {c : IOCall} {blocks : BlockList} {nodes : OrdSet Int}
    (hcache : f.getBlocksFromCache c.startPoint c.size = (f.hitAnswer c, blocks, nodes)) (h : f.Transparent c) :
    f.Updates c ∧ ∃ f1 info, f.askMaster c.mode c.startPoint c.size = some (f1, info) ∧
      blocks.keys = info.blocks.keys ∧ (f.updateMeta c.startPoint c.size).view.size = f1.view.size := by
  obtain ⟨hsame, hhit⟩ := h
  have hanswer : (f.getBlocksFromCache c.startPoint c.size).1 ≠ .needUpdate := by
    rw [hcache]
    show f.hitAnswer c ≠ _
    unfold hitAnswer
    split
    · exact fun hc => nomatch hc
    · exact fun hc => nomatch hc
  obtain ⟨p, q, hp, hq, hproceeds, hkeys⟩ := hhit hanswer
  have hon := prepare_hit hcache
  by_cases hu : f.Updates c
  · rw [if_pos hu] at hon
    rw [hp] at hon
    cases hon
    obtain ⟨f1, info, hask, hqb⟩ := prepare_off_some hq
    refine ⟨hu, f1, info, hask, by rw [← hqb]; exact hkeys, ?_⟩
    -- the sizes at the Master, whatever the IOnode does
    have hsizes := hsame Unit ⟨fun _ _ _ _ => none, fun _ _ _ => none⟩ ()
    simp only [remoteIo, hp, prepare_off_eq hask, Option.map_some, Option.some.injEq, Prod.mk.injEq] at hsizes
    exact hsizes.1
  · rw [if_neg hu] at hon
    rw [hp] at hon
    cases hon
    cases hproceeds

/-- **When the cache is not seen**: of the states that can be reached and the calls on them, exactly for the answerable
    ones. -/
theorem CacheInv.transparent_iff {f : ClientFile} (h : CacheInv f) (c : IOCall) : f.Transparent c ↔ f.Answerable c := by
  rcases h.cache_cases c with ⟨hmiss, blocks, nodes, hcache, hblocks, hnodes⟩ |
    ⟨second, hfind, hover, hle, hcache⟩ | ⟨second, k, left, hfind, hover, hlt, hnext, hcache⟩
  · refine iff_of_true (h.transparent_of_miss hcache hblocks hnodes) ?_
    unfold Answerable
    cases hfind : f.blockList.find? c.block with
    | none => trivial
    | some second =>
        rcases hmiss with hnone | hover | ⟨second', hfind', hlt, hnext⟩
        · rw [hfind] at hnone
          cases hnone
        · exact Or.inl hover
        · rw [hfind] at hfind'
          cases hfind'
          exact Or.inr (Or.inl ⟨hlt, hnext⟩)
  · -- one block, the recorded size of which is not more than what is asked for
    have hans : f.Answerable c ↔ c.size ≤ BLOCK_SIZE ∧
        (if c.startPoint + c.size ≤ f.stSize then f.needUpdate = true else c.mode = .write) := by
      simp only [Answerable, hfind]
      constructor
      · rintro (hc | ⟨hc, _⟩ | ⟨_, hrest⟩)
        · exact absurd hc hover
        · omega
        · exact hrest
      · intro hrest
        exact Or.inr (Or.inr ⟨hle, hrest⟩)
    rw [hans]
    constructor
    · intro htransparent
      obtain ⟨hu, f1, info, hask, hkeys, hsize⟩ := transparent_hit hcache htransparent
      obtain ⟨h1, ha, _⟩ := h.askMaster hask
      refine ⟨?_, ?_⟩
      · -- a longer range takes a second block at the Master
        by_contra hmore
        obtain ⟨k, hk, hne⟩ := Master.selectNodeBlockSet_more (Nat.lt_of_not_le hmore) ha.select
        rw [← hkeys, keys_insert_empty, List.mem_singleton] at hk
        exact hne hk
      · split
        · rename_i hin
          exact hu.resolve_right (by omega)
        · rename_i hout
          rcases askMaster_sizes hask with ⟨_, hsame⟩ | ⟨hmode, _⟩
          · -- a read that raises the size at the Master
            rw [hsame, ← h.size_eq, ← (h.updateMeta c.startPoint c.size).size_eq] at hsize
            have hmax : (f.updateMeta c.startPoint c.size).stSize = max f.stSize (c.startPoint + c.size) :=
              writeUpdateFileSize_stSize f _ _
            omega
          · exact hmode
    · rintro ⟨hone, hmode⟩
      have hu : f.Updates c := by
        split at hmode
        · exact Or.inl hmode
        · exact Or.inr (by omega)
      rw [show f.hitAnswer c = .updateMetaOnly from if_pos hu] at hcache
      refine h.transparent_of_hit hfind hone hcache ?_
      split at hmode
      · exact Or.inl ‹_›
      · exact Or.inr hmode
  · -- the walk has taken a second block, the Master takes one
    have hfit := h.cached _ _ hfind
    refine iff_of_false ?_ ?_
    · intro htransparent
      obtain ⟨_, f1, info, hask, hkeys, _⟩ := transparent_hit hcache htransparent
      obtain ⟨f1', info', hask', hkeys'⟩ := askMaster_one (h.known _ (OrdMap.mem_keys.mpr ⟨second, hfind⟩))
        (show c.size ≤ BLOCK_SIZE by omega)
      rw [hask] at hask'
      cases hask'
      have hk : k ∈ ((OrdMap.empty.insert c.block second).insert k left).keys := OrdMap.mem_keys_insert.mpr (Or.inl rfl)
      rw [hkeys, hkeys', List.mem_singleton] at hk
      exact absurd hk (ne_of_gt (OrdMap.nextKey_gt hnext))
    · simp only [Answerable, hfind]
      rintro (hc | ⟨_, hc⟩ | ⟨hc, _⟩)
      · exact hover hc
      · rw [hnext] at hc
        cases hc
      · omega

/-- **The block cache.** After any uses of a file that a client has opened, a call with the cache does what it does
    without it if and only if it is answerable. -/
theorem cache_transparent_iff {size : Nat} {primary : Int} {uses : List Use} {f : ClientFile}
    (hrun : Run.run step (opened (OpenView.opened size primary)) uses = some f) (c : IOCall) :
    f.Transparent c ↔ f.Answerable c := by
  have hstep : ∀ g u g', CacheInv g → True → step g u = some g' → CacheInv g' := by
    intro g u g' hg _ hstep
    exact hg.step hstep
  have hinv := Run.run_invariant hstep (opened_inv size primary) (Run.Guarded.of_forall (fun _ _ => trivial)) hrun
  exact hinv.transparent_iff c

/-- The first ten bytes, read. -/
def readTen : IOCall :=
  { mode := .read, startPoint := 0, size := 10, data := [], size_pos := by decide, in_range := by decide
    data_length := fun hc => nomatch hc }

/-- The first ten bytes, written. -/
def writeTen : IOCall :=
  { mode := .write, startPoint := 0, size := 10, data := List.replicate 10 1, size_pos := by decide
    in_range := by decide, data_length := fun _ => rfl }

/-- A new file that has been written once is written again. -/
theorem cache_transparent_rewrite :
    ∃ f, Run.run step (opened (OpenView.opened 0 0)) [.updateAccessTime, .io writeTen] = some f ∧
      (f.getBlocksFromCache 0 10).1 = .updateMetaOnly ∧ f.Transparent writeTen := by
  have hrun : ∃ f, Run.run step (opened (OpenView.opened 0 0)) [.updateAccessTime, .io writeTen] = some f ∧
      (f.getBlocksFromCache 0 10).1 = .updateMetaOnly ∧ f.Answerable writeTen :=
    ⟨_, rfl, rfl, Or.inr (Or.inr ⟨by decide, by decide, rfl⟩)⟩
  obtain ⟨f, hrun, hcache, hanswerable⟩ := hrun
  exact ⟨f, hrun, hcache, (cache_transparent_iff hrun writeTen).mpr hanswerable⟩

/-- An IOnode that takes every write and answers every read with zeros. -/
def zeros : NodeIo Unit := ⟨fun _ _ _ _ => some (), fun _ t _ => some (List.replicate t.size 0, ())⟩

/-- **A cached read returns nothing.** A file of ten bytes is read twice: the first time the Master tells its block, the
    second time the cache has it, needs no update, and the call returns zero bytes where without the cache it returns ten. -/
theorem cached_read_returns_nothing :
    ∃ f, Run.run step (opened (OpenView.opened 10 0)) [.io readTen] = some f ∧
      (f.remoteIo zeros true readTen ()).map Prod.snd = some (some (0, [], ())) ∧
      (f.remoteIo zeros false readTen ()).map Prod.snd = some (some (10, List.replicate 10 0, ())) ∧
      ¬ f.Transparent readTen := by
  refine ⟨_, rfl, rfl, rfl, ?_⟩
  rintro ⟨hsame, _⟩
  have hbytes := hsame Unit zeros ()
  cases hbytes

end ClientFile

end HuronFS
