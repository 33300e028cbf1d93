import HuronFS.Lib.Overlay
import HuronFS.Lib.Run
import HuronFS.Protocol.ReplicaSync

/-!
# `Protocol.Replication` — a file, its replicas, and everything between a write and the last of them

The handler of the primary stores a write and queues a synchronisation task; the data-sync thread takes the tasks one after the
other and puts a message for each node of `IOnode_pool` in its output queue; a buffer of such a message is a pointer to the memory
of a block, so that the bytes are those the block has when the sender thread comes to it; and the replicas handle what arrives, in
order (`Protocol.Channel`). In between the primary is written again, and nodes join and leave.

A message may carry bytes that are older or newer than the write it was made for. But whatever is sent is what the primary has at
that time, and a byte that is written again is sent again after it: so the last message that has a position has it right
(`ReplicaInv.agrees`).
-/

namespace HuronFS

open Region Overlay

/-! ## The handler of the primary -/

/-- The `while` loop of `_receive_data`; each turn takes at least a byte, which gives the fuel. -/
def receiveLoop : (fuel remaining receiveSize startPoint offset : Nat) → List Byte → SyncBlocks → SyncBlocks
  | 0, _, _, _, _, _, blocks => blocks
  | fuel + 1, remaining, receiveSize, startPoint, offset, bytes, blocks =>
      if 0 < remaining then
        let (IOsize, blocks) := updateSyncBlock blocks startPoint offset receiveSize bytes
        receiveLoop fuel (remaining - IOsize) (min (remaining - IOsize) BLOCK_SIZE) (startPoint + (IOsize + offset)) 0
          (bytes.drop IOsize) blocks
      else blocks

/-- `_receive_data`, on the contents. -/
def receiveSyncData (blocks : SyncBlocks) (r : WriteRange) (bytes : List Byte) : SyncBlocks :=
  receiveLoop r.size r.size (if r.offset + r.size > BLOCK_SIZE then BLOCK_SIZE - r.offset else r.size) r.startPoint r.offset bytes blocks

/-- Blocks that are aligned and not too large. -/
def Formed (blocks : SyncBlocks) : Prop := ∀ k b, blocks.find? k = some b → getBlockStartPoint k = k ∧ b.dataSize ≤ BLOCK_SIZE

section Update

variable {blocks : SyncBlocks} {k off size : Nat} {bytes : List Byte}

/-- The block that is stored, when it has room for all of the piece. -/
theorem updateSyncBlock_eq (hroom : off + size ≤ BLOCK_SIZE) : updateSyncBlock blocks k off size bytes =
    (size, blocks.put k
      { data := patch ((blocks.find? k).getD ⟨fun _ => 0, size⟩).data off (bytes.take size)
        dataSize := max ((blocks.find? k).getD ⟨fun _ => 0, size⟩).dataSize (off + size) }) := by
  unfold updateSyncBlock
  have hclamp : ¬ off + size > BLOCK_SIZE := Nat.not_lt.mpr hroom
  simp only [if_neg hclamp]
  congr 3
  split <;> omega

theorem Formed.update (h : Formed blocks) (hk : getBlockStartPoint k = k) (hroom : off + size ≤ BLOCK_SIZE) :
    Formed (updateSyncBlock blocks k off size bytes).2 := by
  intro j b hb
  rw [updateSyncBlock_eq hroom, OrdMap.find?_put] at hb
  split at hb
  · rename_i hj
    obtain rfl := Option.some.inj hb
    rw [hj]
    refine ⟨hk, ?_⟩
    show max _ (off + size) ≤ BLOCK_SIZE
    cases hfind : blocks.find? k with
    | none =>
        rw [Option.getD_none]
        exact Nat.max_le.mpr ⟨by show size ≤ BLOCK_SIZE; omega, hroom⟩
    | some b =>
        rw [Option.getD_some]
        exact Nat.max_le.mpr ⟨(h k b hfind).2, hroom⟩
  · exact h j b hb

/-- Where the loop is: the piece fits into its block, and if more remains it fills it. -/
structure Turn (remaining receiveSize startPoint offset : Nat) : Prop where
  aligned : getBlockStartPoint startPoint = startPoint
  lt : offset < BLOCK_SIZE
  size : receiveSize = min remaining (BLOCK_SIZE - offset)

variable {remaining receiveSize startPoint offset fuel : Nat}

theorem Turn.room (h : Turn remaining receiveSize startPoint offset) : offset + receiveSize ≤ BLOCK_SIZE := by
  have := h.lt
  have := h.size
  omega

theorem Turn.count (h : Turn remaining receiveSize startPoint offset) (blocks : SyncBlocks) (bytes : List Byte) :
    (updateSyncBlock blocks startPoint offset receiveSize bytes).1 = receiveSize := by
  rw [updateSyncBlock_eq h.room]

/-- There is a next turn only where this one has filled its block. -/
theorem Turn.next (h : Turn remaining receiveSize startPoint offset) (hmore : 0 < remaining - receiveSize) :
    Turn (remaining - receiveSize) (min (remaining - receiveSize) BLOCK_SIZE) (startPoint + (receiveSize + offset)) 0 := by
  have hsize := h.size
  have hoffset := h.lt
  have hfull : receiveSize + offset = BLOCK_SIZE := by omega
  refine ⟨?_, by decide, by rw [Nat.sub_zero]⟩
  rw [hfull]
  exact getBlockStartPoint_next h.aligned

theorem receiveLoop_turn (h : Turn remaining receiveSize startPoint offset) (hpos : 0 < remaining) (fuel : Nat) (bytes : List Byte)
    (blocks : SyncBlocks) : receiveLoop (fuel + 1) remaining receiveSize startPoint offset bytes blocks =
    receiveLoop fuel (remaining - receiveSize) (min (remaining - receiveSize) BLOCK_SIZE) (startPoint + (receiveSize + offset)) 0
      (bytes.drop receiveSize) (updateSyncBlock blocks startPoint offset receiveSize bytes).2 := by
  have hcount := h.count blocks bytes
  conv_lhs => unfold receiveLoop
  rw [if_pos hpos]
  simp only [hcount]

theorem receiveLoop_done (fuel receiveSize startPoint offset : Nat) (bytes : List Byte) (blocks : SyncBlocks) :
    receiveLoop fuel 0 receiveSize startPoint offset bytes blocks = blocks := by
  cases fuel <;> rfl

theorem Formed.receive (h : Formed blocks) {fuel : Nat} (hturn : 0 < remaining → Turn remaining receiveSize startPoint offset) :
    Formed (receiveLoop fuel remaining receiveSize startPoint offset bytes blocks) := by
  induction fuel generalizing remaining receiveSize startPoint offset bytes blocks with
  | zero => exact h
  | succ fuel ih =>
      rcases Nat.eq_zero_or_pos remaining with rfl | hpos
      · rw [receiveLoop_done]
        exact h
      · have ht := hturn hpos
        rw [receiveLoop_turn ht hpos]
        exact ih (h.update ht.aligned ht.room) ht.next

/-- What is stored: the bytes from `pos` on and nothing else; no block shrinks, and those that are new or larger have a byte. -/
structure Stored (before after : SyncBlocks) (pos : Nat) (bytes : List Byte) : Prop where
  contents : contents after = overlay (contents before) pos bytes
  grown : ∀ k b, before.find? k = some b → ∃ b', after.find? k = some b' ∧ b.dataSize ≤ b'.dataSize
  fresh : ∀ k b, after.find? k = some b → (before.find? k).isSome ∨ k < pos + bytes.length
  filled : (∀ k b, before.find? k = some b → 0 < b.dataSize) → ∀ k b, after.find? k = some b → 0 < b.dataSize

theorem Stored.nil (blocks : SyncBlocks) (pos : Nat) : Stored blocks blocks pos [] :=
  ⟨(overlay_nil _ _).symm, fun _ b hb => ⟨b, hb, Nat.le_refl _⟩, fun _ b hb => .inl (by rw [hb]; rfl), fun h => h⟩

theorem Stored.trans {a b c : SyncBlocks} {pos : Nat} {l l' : List Byte} (h : Stored a b pos l) (h' : Stored b c (pos + l.length) l') :
    Stored a c pos (l ++ l') where
  contents := by rw [h'.contents, h.contents, overlay_append]
  grown k x hx := by
    obtain ⟨y, hy, hxy⟩ := h.grown k x hx
    obtain ⟨z, hz, hyz⟩ := h'.grown k y hy
    exact ⟨z, hz, Nat.le_trans hxy hyz⟩
  fresh k z hz := by
    rw [List.length_append]
    obtain hb | hlt := h'.fresh k z hz
    · obtain ⟨y, hy⟩ := Option.isSome_iff_exists.mp hb
      exact (h.fresh k y hy).imp_right fun hlt => by omega
    · exact .inr (by omega)
  filled hpos := h'.filled (h.filled hpos)

/-- The bytes before the piece are there. -/
def Reaches (blocks : SyncBlocks) (k off : Nat) : Prop := off = 0 ∨ ∃ b, blocks.find? k = some b ∧ off ≤ b.dataSize

/-- **One piece.** -/
theorem Reaches.stored (h : Reaches blocks k off) (hk : getBlockStartPoint k = k) (hroom : off + size ≤ BLOCK_SIZE) (hpos : 0 < size)
    (hlength : size ≤ bytes.length) : Stored blocks (updateSyncBlock blocks k off size bytes).2 (k + off) (bytes.take size) := by
  have htake : (bytes.take size).length = size := List.length_take_of_le hlength
  rw [updateSyncBlock_eq hroom]
  refine ⟨?_, ?_, ?_, ?_⟩
  · funext p
    unfold overlay
    rw [htake]
    by_cases hp : getBlockStartPoint p = k
    · -- a position of this block
      have hle := getBlockStartPoint_le p
      have hlt := lt_getBlockStartPoint_add p
      rw [hp] at hle hlt
      obtain ⟨r, rfl⟩ := Nat.exists_eq_add_of_le hle
      have hr : r < BLOCK_SIZE := by omega
      rw [contents_block hk hr, contents_block hk hr, OrdMap.find?_put_self, Option.bind_some]
      dsimp only
      by_cases hin : off ≤ r ∧ r < off + size
      · obtain ⟨i, rfl⟩ := Nat.exists_eq_add_of_le hin.1
        have hi : i < (bytes.take size).length := by omega
        rw [if_pos (Nat.lt_of_lt_of_le hin.2 (Nat.le_max_right _ _)), patch_at hi, if_pos (by omega),
          show k + (off + i) - (k + off) = i by omega, List.getElem?_eq_getElem hi]
      · rw [if_neg (show ¬ (k + off ≤ k + r ∧ k + r < k + off + size) by omega), patch_outside (by omega)]
        obtain hzero | ⟨b, hb, hoff⟩ := h
        · cases hfind : blocks.find? k with
          | none =>
              rw [Option.getD_none, Option.bind_none, if_neg]
              show ¬ r < max size (off + size)
              omega
          | some b =>
              rw [Option.getD_some, Option.bind_some]
              congr 1
              exact propext ⟨fun h => by omega, fun h => by omega⟩
        · rw [hb, Option.getD_some, Option.bind_some]
          congr 1
          exact propext ⟨fun h => by omega, fun h => by omega⟩
    · -- another block
      rw [if_neg]
      · unfold contents
        rw [OrdMap.find?_put_ne _ _ hp]
      · rintro ⟨hle, hlt⟩
        apply hp
        obtain ⟨r, rfl⟩ := Nat.exists_eq_add_of_le (Nat.le_trans (Nat.le_add_right k off) hle)
        rw [getBlockStartPoint_add hk, getBlockStartPoint_of_lt (by omega), Nat.add_zero]
  · intro j b hb
    by_cases hj : j = k
    · subst hj
      refine ⟨_, OrdMap.find?_put_self .., ?_⟩
      rw [hb, Option.getD_some]
      exact Nat.le_max_left _ _
    · exact ⟨b, by rw [OrdMap.find?_put_ne _ _ hj]; exact hb, Nat.le_refl _⟩
  · intro j b hb
    by_cases hj : j = k
    · right
      rw [hj, htake]
      omega
    · rw [OrdMap.find?_put_ne _ _ hj] at hb
      left
      rw [hb]
      rfl
  · intro hfilled j b hb
    by_cases hj : j = k
    · rw [hj, OrdMap.find?_put_self] at hb
      obtain rfl := Option.some.inj hb
      show 0 < max _ (off + size)
      omega
    · rw [OrdMap.find?_put_ne _ _ hj] at hb
      exact hfilled j b hb

/-- **The loop** stores what it is given from where it stands. -/
theorem receiveLoop_stored {fuel : Nat} (hturn : 0 < remaining → Turn remaining receiveSize startPoint offset)
    (hreaches : Reaches blocks startPoint offset) (hfuel : remaining ≤ fuel) (hlength : bytes.length = remaining) :
    Stored blocks (receiveLoop fuel remaining receiveSize startPoint offset bytes blocks) (startPoint + offset) bytes := by
  induction fuel generalizing remaining receiveSize startPoint offset bytes blocks with
  | zero =>
      obtain rfl := List.length_eq_zero_iff.mp (Nat.le_zero.mp (hlength ▸ hfuel))
      exact Stored.nil ..
  | succ fuel ih =>
      rcases Nat.eq_zero_or_pos remaining with rfl | hpos
      · rw [receiveLoop_done, List.length_eq_zero_iff.mp hlength]
        exact Stored.nil ..
      · have ht := hturn hpos
        have hsize := ht.size
        have hoffset := ht.lt
        have hpiece := hreaches.stored ht.aligned ht.room (by omega) (show receiveSize ≤ bytes.length by omega)
        have hfilled : (bytes.drop receiveSize).length = remaining - receiveSize := by
          rw [List.length_drop, hlength]
        have hrest := @ih (updateSyncBlock blocks startPoint offset receiveSize bytes).2 _ _ _ _ _ ht.next (.inl rfl) (by omega) hfilled
        have hfrom : startPoint + (receiveSize + offset) + 0 = startPoint + offset + (bytes.take receiveSize).length := by
          rw [List.length_take_of_le (by omega)]
          omega
        rw [hfrom] at hrest
        have hall := hpiece.trans hrest
        rw [List.take_append_drop] at hall
        rw [receiveLoop_turn ht hpos]
        exact hall

end Update

theorem WriteRange.turn (r : WriteRange) :
    Turn r.size (if r.offset + r.size > BLOCK_SIZE then BLOCK_SIZE - r.offset else r.size) r.startPoint r.offset := by
  refine ⟨r.aligned, r.offset_lt, ?_⟩
  have := r.offset_lt
  split <;> omega

/-- The primary after a write. -/
def Primary.receive (f : Primary) (r : WriteRange) (bytes : List Byte) : Primary where
  fileNo := f.fileNo
  dirtyFlag := true
  blocks := receiveSyncData f.blocks r bytes
  aligned k b hb := (Formed.receive (fun k b hb => ⟨f.aligned k b hb, f.le k b hb⟩) (fun _ => r.turn) k b hb).1
  le k b hb := (Formed.receive (fun k b hb => ⟨f.aligned k b hb, f.le k b hb⟩) (fun _ => r.turn) k b hb).2

/-! ## The buffers of a message -/

/-- The `while` loop of `_send_sync_data`: what it pushes are pointers, here to a block, and a number of bytes. -/
def sendSyncBuffers : List (Nat × SyncBlock) → (size : Int) → List (Nat × Nat)
  | [], _ => []
  | (k, b) :: rest, size => if 0 < size then (k, b.dataSize) :: sendSyncBuffers rest (size - b.dataSize) else []

/-- What is behind the pointers. -/
def bufferBytes (blocks : SyncBlocks) (buffers : List (Nat × Nat)) : List Byte :=
  buffers.flatMap fun e => slice ((blocks.find? e.1).elim (fun _ => 0) SyncBlock.data) 0 e.2

/-- The buffers that `_send_sync_data` pushes for a file. -/
def syncBuffers (f : Primary) (startPoint : Nat) (size : Int) : List (Nat × Nat) :=
  match f.blocks.find? startPoint with
  | none => []
  | some _ => sendSyncBuffers (f.blocks.entries.dropWhile (fun e => e.1 < startPoint)) size

/-- How many bytes. -/
def bufferSize (buffers : List (Nat × Nat)) : Nat := (buffers.map Prod.snd).sum

/-- The buffers are in the blocks. -/
def BufferedFrom (blocks : SyncBlocks) (buffers : List (Nat × Nat)) : Prop :=
  ∀ e ∈ buffers, ∃ b, blocks.find? e.1 = some b ∧ e.2 ≤ b.dataSize

/-- The buffers are neighbours, from `k` on: only the last is not a whole block. -/
def Adjacent : Nat → List (Nat × Nat) → Prop
  | _, [] => True
  | k, (j, n) :: rest => j = k ∧ n ≤ BLOCK_SIZE ∧ (rest ≠ [] → n = BLOCK_SIZE) ∧ Adjacent (k + BLOCK_SIZE) rest

section Buffers

variable {blocks : SyncBlocks} {f : Primary} {k : Nat} {buffers : List (Nat × Nat)}

theorem sendSyncBuffers_buffered {l : List (Nat × SyncBlock)} (h : ∀ e ∈ l, blocks.find? e.1 = some e.2) (size : Int) :
    BufferedFrom blocks (sendSyncBuffers l size) := by
  induction l generalizing size with
  | nil => exact fun e he => absurd he List.not_mem_nil
  | cons e l ih =>
      obtain ⟨k, b⟩ := e
      unfold sendSyncBuffers
      split
      · intro e he
        obtain rfl | he := List.mem_cons.mp he
        · exact ⟨b, h (k, b) List.mem_cons_self, Nat.le_refl _⟩
        · exact ih (fun e he => h e (List.mem_cons_of_mem _ he)) _ e he
      · exact fun e he => absurd he List.not_mem_nil

/-- The bytes behind the pointers, when they are followed at once. -/
theorem bufferBytes_sendSyncBuffers {l : List (Nat × SyncBlock)} (h : ∀ e ∈ l, blocks.find? e.1 = some e.2) (size : Int) :
    bufferBytes blocks (sendSyncBuffers l size) = sendSyncLoop l size := by
  induction l generalizing size with
  | nil => rfl
  | cons e l ih =>
      obtain ⟨k, b⟩ := e
      have hb := h (k, b) List.mem_cons_self
      have hrest := ih (fun e he => h e (List.mem_cons_of_mem _ he)) (size - b.dataSize)
      unfold sendSyncBuffers sendSyncLoop
      split
      · unfold bufferBytes at hrest ⊢
        rw [List.flatMap_cons, hrest]
        dsimp only
        rw [hb]
        rfl
      · rfl

theorem length_bufferBytes (blocks : SyncBlocks) (buffers : List (Nat × Nat)) :
    (bufferBytes blocks buffers).length = bufferSize buffers := by
  unfold bufferBytes bufferSize
  rw [List.length_flatMap]
  simp only [length_slice]

/-- **What is behind neighbours** are the contents, one position after the other. -/
theorem bufferBytes_get (hformed : Formed blocks) (hbuffered : BufferedFrom blocks buffers) (hadjacent : Adjacent k buffers) {t : Nat}
    (ht : t < bufferSize buffers) : (contents blocks (k + t)).isSome ∧ (bufferBytes blocks buffers)[t]? = contents blocks (k + t) := by
  induction buffers generalizing k t with
  | nil => exact absurd ht (Nat.not_lt_zero t)
  | cons e rest ih =>
      obtain ⟨j, n⟩ := e
      obtain ⟨rfl, hn, hwhole, hrest⟩ := hadjacent
      obtain ⟨b, hb, hle⟩ := hbuffered (j, n) List.mem_cons_self
      have hbytes : bufferBytes blocks ((j, n) :: rest) = slice b.data 0 n ++ bufferBytes blocks rest := by
        unfold bufferBytes
        rw [List.flatMap_cons]
        dsimp only
        rw [hb]
        rfl
      rw [hbytes]
      by_cases hfirst : t < n
      · dsimp only at hle
        rw [contents_block (hformed j b hb).1 (by omega), hb, Option.bind_some, if_pos (by omega),
          List.getElem?_append_left (by rw [length_slice]; exact hfirst), getElem?_slice hfirst, Nat.zero_add]
        exact ⟨rfl, rfl⟩
      · have hsum : bufferSize ((j, n) :: rest) = n + bufferSize rest := rfl
        have hmore : rest ≠ [] := by
          rintro rfl
          rw [hsum] at ht
          exact hfirst ht
        have hfull := hwhole hmore
        have hlater := ih (fun e he => hbuffered e (List.mem_cons_of_mem _ he)) hrest (t := t - n) (by omega)
        rw [List.getElem?_append_right (by rw [length_slice]; omega), length_slice]
        rwa [show j + BLOCK_SIZE + (t - n) = j + t by omega] at hlater

theorem BufferedFrom.mono {after : SyncBlocks} (h : BufferedFrom blocks buffers)
    (hgrown : ∀ k b, blocks.find? k = some b → ∃ b', after.find? k = some b' ∧ b.dataSize ≤ b'.dataSize) : BufferedFrom after buffers := by
  intro e he
  obtain ⟨b, hb, hle⟩ := h e he
  obtain ⟨b', hb', hle'⟩ := hgrown e.1 b hb
  exact ⟨b', hb', Nat.le_trans hle hle'⟩

theorem Primary.formed (f : Primary) : Formed f.blocks := fun k b hb => ⟨f.aligned k b hb, f.le k b hb⟩

/-- The blocks from a position on are blocks of the file. -/
theorem find?_of_dropWhile {p : Nat × SyncBlock → Bool} : ∀ e ∈ f.blocks.entries.dropWhile p, f.blocks.find? e.1 = some e.2 :=
  fun _ he => OrdMap.mem_entries.mp ((List.dropWhile_sublist _).mem he)

/-- **In a file without a hole the buffers are neighbours.** -/
theorem sendSyncBuffers_adjacent (hhole : f.NoHole) (hempty : f.NoEmptyBlock) {m : Nat} : ∀ {k : Nat} (size : Int),
    getBlockStartPoint k = k → (f.blocks.entries.dropWhile (fun e => e.1 < k)).length ≤ m →
    Adjacent k (sendSyncBuffers (f.blocks.entries.dropWhile (fun e => e.1 < k)) size) := by
  induction m with
  | zero =>
      intro k size _ hm
      rw [List.length_eq_zero_iff.mp (Nat.le_zero.mp hm)]
      trivial
  | succ m ih =>
      intro k size hk hm
      by_cases hnil : f.blocks.entries.dropWhile (fun e => e.1 < k) = []
      · rw [hnil]
        trivial
      · obtain ⟨b, hb⟩ := Primary.block_of_later hhole hempty hk hnil
        have hpos : 0 < BLOCK_SIZE := by decide
        obtain ⟨rest, hfrom, hrest⟩ := OrdMap.dropWhile_from hb
        have hnext := hrest (k + BLOCK_SIZE) (Nat.lt_add_of_pos_right hpos) (fun j c hc hlt => block_le_of_lt hk (f.aligned j c hc) hlt)
        have hshort : (f.blocks.entries.dropWhile (fun e => e.1 < k + BLOCK_SIZE)).length ≤ m := by
          rw [hfrom, List.length_cons] at hm
          rw [← hnext]
          omega
        rw [hfrom]
        unfold sendSyncBuffers
        split
        · rw [hnext]
          refine ⟨rfl, f.le k b hb, fun hmore => ?_, ih _ (getBlockStartPoint_next hk) hshort⟩
          -- a later block is sent, so this one is full
          have hnil' : f.blocks.entries.dropWhile (fun e => e.1 < k + BLOCK_SIZE) ≠ [] := by
            intro hc
            rw [hc] at hmore
            exact hmore rfl
          obtain ⟨c, hc⟩ := Primary.block_of_later hhole hempty (getBlockStartPoint_next hk) hnil'
          have hbyte := hhole (k + (BLOCK_SIZE - 1)) (k + BLOCK_SIZE) (by omega)
            (by rw [Primary.contents_start hc (hempty _ _ hc)]; rfl)
          obtain ⟨b', hb', hlt, -⟩ := Primary.block_of_contents hk (show BLOCK_SIZE - 1 < BLOCK_SIZE by omega) hbyte
          rw [hb] at hb'
          obtain rfl := Option.some.inj hb'
          have := f.le k b hb
          omega
        · trivial

/-- The buffers of a message, and the message they become when they are followed at once. -/
theorem syncBuffers_spec (f : Primary) (startPoint offset : Nat) (size : Int) :
    BufferedFrom f.blocks (syncBuffers f startPoint size) ∧
    bufferBytes f.blocks (syncBuffers f startPoint size) = (sendSyncData f startPoint offset size).bytes := by
  unfold syncBuffers
  cases hb : f.blocks.find? startPoint with
  | none =>
      rw [sent_of_none hb]
      exact ⟨fun e he => absurd he List.not_mem_nil, rfl⟩
  | some b =>
      rw [sent_of_block offset size hb]
      exact ⟨sendSyncBuffers_buffered find?_of_dropWhile size, bufferBytes_sendSyncBuffers find?_of_dropWhile size⟩

theorem syncBuffers_adjacent (hhole : f.NoHole) (hempty : f.NoEmptyBlock) {startPoint : Nat} (size : Int)
    (hk : getBlockStartPoint startPoint = startPoint) : Adjacent startPoint (syncBuffers f startPoint size) := by
  unfold syncBuffers
  cases f.blocks.find? startPoint with
  | none => trivial
  | some b => exact sendSyncBuffers_adjacent hhole hempty size hk (Nat.le_refl _)

/-- The buffers go as far as the write they are made for. -/
theorem syncBuffers_covers {r : WriteRange} (hhas : f.Has r) (hcount : getBlockStartPoint (r.offset + r.size - 1) < r.size) :
    r.offset + r.size ≤ bufferSize (syncBuffers f r.startPoint r.size) := by
  have hall : ∀ q, r.offset ≤ q → q < r.offset + r.size → (contents f.blocks (r.startPoint + q)).isSome := by
    intro q hq hq'
    exact hhas _ (by omega) (by omega)
  obtain ⟨b, hb, -⟩ := Primary.block_of_contents r.aligned r.offset_lt (hall r.offset (Nat.le_refl _) (by omega))
  have hcovers := (Primary.send_covers r.offset r.size r.aligned r.offset_lt (show r.offset < r.offset + r.size by omega) hall (by omega)).1
  rwa [← sent_of_block r.offset r.size hb, ← (syncBuffers_spec f r.startPoint r.offset r.size).2, length_bufferBytes] at hcovers

/-- All of a file that is not too long. -/
theorem syncBuffers_all (hhole : f.NoHole) (hlimit : ∀ k b, f.blocks.find? k = some b → k < MAX_FILE_SIZE) {p : Nat}
    (hp : (contents f.blocks p).isSome) : p < bufferSize (syncBuffers f 0 MAX_FILE_SIZE) := by
  have hzero : getBlockStartPoint 0 = 0 := getBlockStartPoint_of_lt (by decide)
  have hall : ∀ q, 0 ≤ q → q < p + 1 → (contents f.blocks (0 + q)).isSome := by
    intro q _ hq
    rw [Nat.zero_add]
    exact hhole q p (by omega) hp
  obtain ⟨b, hb, -⟩ := Primary.block_of_contents (r := 0) hzero (by decide) (hall 0 (Nat.le_refl 0) (by omega))
  have hlast : getBlockStartPoint p < MAX_FILE_SIZE := by
    have hlt := lt_getBlockStartPoint_add p
    obtain ⟨q, hq⟩ := Nat.exists_eq_add_of_le (getBlockStartPoint_le p)
    rw [hq] at hp
    obtain ⟨c, hc, -⟩ := Primary.block_of_contents (getBlockStartPoint_self p) (by omega) hp
    exact hlimit _ c hc
  have hcovers := (Primary.send_covers (n := p + 1) 0 MAX_FILE_SIZE hzero (by decide) (by omega) hall (by rw [Nat.add_sub_cancel]; omega)).1
  rwa [← sent_of_block 0 MAX_FILE_SIZE hb, ← (syncBuffers_spec f 0 0 MAX_FILE_SIZE).2, length_bufferBytes] at hcovers

end Buffers

/-! ## The primary and its replicas -/

/-- A task of `data_sync_queue`. -/
inductive SyncTask
  | write (r : WriteRange)
  | init (node : Nat)

/-- A message of the data-sync thread in its output queue. -/
structure SyncOutput where
  node : Nat
  startPoint : Nat
  offset : Nat
  buffers : List (Nat × Nat)

/-- A file on its primary, what is queued there for the replicas, and the replicas with what is on the wire to them. `due` has the
    positions that a node has to get, those that were written while it was in `IOnode_pool`, and all there are if it was there from
    the start or was initialised; the nodes for which it is all are `whole`. -/
structure ReplicatedFile where
  primary : Primary
  pool : List Nat
  tasks : List SyncTask
  output : List SyncOutput
  wire : Nat → List SyncMessage
  files : Nat → OrdMap Int SyncBlocks
  due : Nat → Nat → Bool
  whole : List Nat

/-- What can happen: a write at the primary; the data-sync thread takes a task; its sender takes a message; a node handles one that has
    come, or the `OPEN_FILE` of the Master; a node is put into `IOnode_pool`, with a task to initialise it (`_promoted_to_primary`) or
    without (`_replace_replica`), or taken from it. -/
inductive ReplicaEvent
  | write (r : WriteRange) (bytes : List Byte)
  | sync
  | send
  | handle (node : Nat)
  | openFile (node : Nat) (blocks : SyncBlocks)
  | join (node : Nat) (init : Bool)
  | leave (node : Nat)

/-- The positions of a write. -/
def WriteRange.covers (r : WriteRange) (p : Nat) : Bool := r.startPoint + r.offset ≤ p && p < r.startPoint + r.offset + r.size

theorem WriteRange.covers_iff {r : WriteRange} {p : Nat} :
    r.covers p = true ↔ r.startPoint + r.offset ≤ p ∧ p < r.startPoint + r.offset + r.size := by
  unfold WriteRange.covers
  rw [Bool.and_eq_true, decide_eq_true_iff, decide_eq_true_iff]

namespace ReplicatedFile

/-- A new file; its replicas, with the files they have. -/
def start (fileNo : Int) (pool : List Nat) (files : Nat → OrdMap Int SyncBlocks) : ReplicatedFile where
  primary := ⟨fileNo, false, OrdMap.empty, fun _ _ h => (by cases h), fun _ _ h => (by cases h)⟩
  pool := pool
  tasks := []
  output := []
  wire := fun _ => []
  files := files
  due := fun _ _ => false
  whole := pool

/-- `_send_sync_data`. -/
def message (s : ReplicatedFile) (startPoint offset : Nat) (size : Int) (node : Nat) : SyncOutput :=
  ⟨node, startPoint, offset, syncBuffers s.primary startPoint size⟩

/-- `data_sync_parser`: what a task puts into the output queue. -/
def parse (s : ReplicatedFile) : SyncTask → List SyncOutput
  | .write r => s.pool.map (s.message r.startPoint r.offset r.size)
  | .init node => if s.primary.dirtyFlag then [s.message 0 0 MAX_FILE_SIZE node] else []

/-- A message as it goes out. -/
def sent (s : ReplicatedFile) (o : SyncOutput) : SyncMessage :=
  ⟨s.primary.fileNo, o.startPoint, o.offset, bufferSize o.buffers, bufferBytes s.primary.blocks o.buffers⟩

def step (s : ReplicatedFile) : ReplicaEvent → Option ReplicatedFile
  | .write r bytes =>
      some { s with
        primary := s.primary.receive r bytes
        tasks := s.tasks ++ [.write r]
        due := fun n p => (decide (n ∈ s.pool) && r.covers p) || s.due n p }
  | .sync =>
      match s.tasks with
      | [] => none
      | t :: tasks => some { s with tasks := tasks, output := s.output ++ s.parse t }
  | .send =>
      match s.output with
      | [] => none
      | o :: output => some { s with output := output, wire := Function.update s.wire o.node (s.wire o.node ++ [s.sent o]) }
  | .handle n =>
      match s.wire n with
      | [] => none
      | m :: wire =>
          some { s with
            wire := Function.update s.wire n wire
            files := Function.update s.files n (getSyncData (s.files n) m).2 }
  | .openFile n blocks => some { s with files := Function.update s.files n ((s.files n).insert s.primary.fileNo blocks) }
  | .join n init =>
      some { s with
        pool := s.pool ++ [n]
        tasks := s.tasks ++ if init then [.init n] else []
        due := Function.update s.due n fun p => init && s.primary.dirtyFlag && (contents s.primary.blocks p).isSome
        whole := if init && s.primary.dirtyFlag then n :: s.whole else s.whole.filter (· ≠ n) }
  | .leave n => some { s with pool := s.pool.filter (· ≠ n) }

/-- What the clients and the Master keep to: a write has a byte, starts at the end of the file or before it, stays below `MAX_FILE_SIZE`,
    and its last byte is in a block that starts less than `size` bytes after `start_point`; what comes to a node finds the file open. -/
def Permitted (s : ReplicatedFile) : ReplicaEvent → Prop
  | .write r bytes => 0 < r.size ∧ bytes.length = r.size ∧
      (r.startPoint + r.offset = 0 ∨ (contents s.primary.blocks (r.startPoint + r.offset - 1)).isSome) ∧
      r.startPoint + r.offset + r.size ≤ MAX_FILE_SIZE ∧ getBlockStartPoint (r.offset + r.size - 1) < r.size
  | .sync => s.tasks.isEmpty = false
  | .send => s.output.isEmpty = false
  | .handle n => (s.wire n).isEmpty = false ∧ ((s.files n).find? s.primary.fileNo).isSome
  | .openFile _ _ => True
  | .join n _ => n ∉ s.pool
  | .leave _ => True

instance (s : ReplicatedFile) : (e : ReplicaEvent) → Decidable (s.Permitted e)
  | .write _ _ => inferInstanceAs (Decidable (_ ∧ _ ∧ (_ ∨ _) ∧ _ ∧ _))
  | .sync => inferInstanceAs (Decidable (_ = _))
  | .send => inferInstanceAs (Decidable (_ = _))
  | .handle _ => inferInstanceAs (Decidable (_ ∧ _))
  | .openFile _ _ => .isTrue trivial
  | .join _ _ => inferInstanceAs (Decidable (¬ _))
  | .leave _ => .isTrue trivial

/-- The contents of the file on a node. -/
def contentsAt (s : ReplicatedFile) (n : Nat) : Nat → Option Byte :=
  fun p => ((s.files n).find? s.primary.fileNo).bind fun blocks => contents blocks p

/-- What a position will be when the node has handled what is on the wire. -/
def arriving (s : ReplicatedFile) (n : Nat) : Nat → Option Byte :=
  replay (s.contentsAt n) ((s.wire n).map fun m => (m.startPoint, m.bytes))

/-- The position is still to be sent. -/
inductive Owed (s : ReplicatedFile) (n p : Nat) : Prop
  | write (r : WriteRange) (htask : .write r ∈ s.tasks) (hr : r.covers p = true)
  | init (htask : .init n ∈ s.tasks) (hdirty : s.primary.dirtyFlag = true)
  | output (o : SyncOutput) (ho : o ∈ s.output) (hnode : o.node = n) (hle : o.startPoint ≤ p) (hlt : p < o.startPoint + bufferSize o.buffers)

/-- **What holds between the primary and its replicas.** -/
structure ReplicaInv (s : ReplicatedFile) : Prop where
  hole : s.primary.NoHole
  empty : s.primary.NoEmptyBlock
  limit : ∀ k b, s.primary.blocks.find? k = some b → k < MAX_FILE_SIZE
  /-- a task has all that it is to send -/
  tasks : ∀ r, .write r ∈ s.tasks → s.primary.Has r ∧ 0 < r.size ∧ getBlockStartPoint (r.offset + r.size - 1) < r.size
  /-- the pointers lead to neighbouring blocks -/
  output : ∀ o ∈ s.output, getBlockStartPoint o.startPoint = o.startPoint ∧ BufferedFrom s.primary.blocks o.buffers ∧
    Adjacent o.startPoint o.buffers
  wire : ∀ n, ∀ m ∈ s.wire n, m.fileNo = s.primary.fileNo ∧ getBlockStartPoint m.startPoint = m.startPoint ∧ m.size = m.bytes.length
  due : ∀ n p, s.due n p = true → (contents s.primary.blocks p).isSome
  whole : ∀ n ∈ s.whole, n ∈ s.pool → ∀ p, (contents s.primary.blocks p).isSome → s.due n p = true
  /-- what a replica is to have is still to be sent, or the last message that has it has it right -/
  agrees : ∀ n ∈ s.pool, ∀ p, s.due n p = true → s.Owed n p ∨ s.arriving n p = contents s.primary.blocks p

/-! ## One step -/

section Step

variable {s : ReplicatedFile}

theorem start_inv (fileNo : Int) (pool : List Nat) (files : Nat → OrdMap Int SyncBlocks) : ReplicaInv (start fileNo pool files) where
  hole _ _ _ hq := by cases hq
  empty _ _ hb := by cases hb
  limit _ _ hb := by cases hb
  tasks _ hr := by cases hr
  output _ ho := by cases ho
  wire _ _ hm := by cases hm
  due _ _ h := by cases h
  whole _ _ _ _ hp := by cases hp
  agrees _ _ _ h := by cases h

/-- The write of a run, in the blocks. -/
theorem stored_of_permitted {r : WriteRange} {bytes : List Byte} (hp : s.Permitted (.write r bytes)) :
    Stored s.primary.blocks (s.primary.receive r bytes).blocks (r.startPoint + r.offset) bytes := by
  obtain ⟨hpos, hlength, hend, -, -⟩ := hp
  refine receiveLoop_stored (fun _ => r.turn) ?_ (Nat.le_refl _) hlength
  rcases Nat.eq_zero_or_pos r.offset with hzero | hoff
  · exact .inl hzero
  · right
    obtain hc | hlast := hend
    · omega
    · have hlt := r.offset_lt
      rw [show r.startPoint + r.offset - 1 = r.startPoint + (r.offset - 1) by omega] at hlast
      obtain ⟨b, hb, hin, -⟩ := Primary.block_of_contents r.aligned (by omega) hlast
      exact ⟨b, hb, by omega⟩

/-- **A write.** -/
theorem ReplicaInv.write (h : ReplicaInv s) {r : WriteRange} {bytes : List Byte} (hp : s.Permitted (.write r bytes)) :
    ∃ s', s.step (.write r bytes) = some s' ∧ ReplicaInv s' := by
  have hstored := stored_of_permitted hp
  obtain ⟨hpos, hlength, hend, hmax, hcount⟩ := hp
  have hold : ∀ p, (contents s.primary.blocks p).isSome → (contents (s.primary.receive r bytes).blocks p).isSome := by
    intro p hsome
    rw [hstored.contents]
    exact overlay_isSome hsome
  have hnew : ∀ p, r.covers p = true → (contents (s.primary.receive r bytes).blocks p).isSome := by
    intro p hr
    obtain ⟨hle, hlt⟩ := WriteRange.covers_iff.mp hr
    rw [hstored.contents, overlay_in hle (by omega), List.getElem?_eq_getElem (by omega)]
    rfl
  have hout : ∀ p, ¬ r.covers p = true → contents (s.primary.receive r bytes).blocks p = contents s.primary.blocks p := by
    intro p hr
    rw [hstored.contents]
    refine overlay_out fun hin => hr (WriteRange.covers_iff.mpr ⟨hin.1, by omega⟩)
  refine ⟨_, rfl, ?_, hstored.filled h.empty, ?_, ?_, ?_, h.wire, ?_, ?_, ?_⟩
  · intro p q hpq hq
    by_cases hr : r.covers p = true
    · exact hnew p hr
    · refine hold p ?_
      by_cases hrq : r.covers q = true
      · -- before the write, and so before the end of the file
        obtain ⟨hle, hlt⟩ := WriteRange.covers_iff.mp hrq
        have hbefore : p < r.startPoint + r.offset := by
          by_contra hc
          exact hr (WriteRange.covers_iff.mpr ⟨by omega, by omega⟩)
        obtain hzero | hlast := hend
        · omega
        · exact h.hole p _ (by omega) hlast
      · rw [show contents (s.primary.receive r bytes).blocks q = _ from hout q hrq] at hq
        exact h.hole p q hpq hq
  · intro k b hb
    obtain hbefore | hlt := hstored.fresh k b hb
    · obtain ⟨b', hb'⟩ := Option.isSome_iff_exists.mp hbefore
      exact h.limit k b' hb'
    · omega
  · intro r' hr'
    obtain hr' | hr' := List.mem_append.mp hr'
    · obtain ⟨hhas, hrest⟩ := h.tasks r' hr'
      exact ⟨fun p hle hlt => hold p (hhas p hle hlt), hrest⟩
    · obtain rfl : r' = r := by simpa using hr'
      exact ⟨fun p hle hlt => hnew p (WriteRange.covers_iff.mpr ⟨hle, hlt⟩), hpos, hcount⟩
  · intro o ho
    obtain ⟨haligned, hbuffered, hadjacent⟩ := h.output o ho
    exact ⟨haligned, hbuffered.mono hstored.grown, hadjacent⟩
  · intro n p hdue
    obtain hr | hdue := Bool.or_eq_true_iff.mp hdue
    · exact hnew p (Bool.and_eq_true_iff.mp hr).2
    · exact hold p (h.due n p hdue)
  · intro n hn hpool p hsome
    refine Bool.or_eq_true_iff.mpr ?_
    by_cases hr : r.covers p = true
    · exact .inl (Bool.and_eq_true_iff.mpr ⟨decide_eq_true hpool, hr⟩)
    · rw [show contents (s.primary.receive r bytes).blocks p = _ from hout p hr] at hsome
      exact .inr (h.whole n hn hpool p hsome)
  · intro n hpool p hdue
    by_cases hr : r.covers p = true
    · exact .inl (.write r (List.mem_append_right _ (List.mem_singleton_self _)) hr)
    · obtain hc | hdue := Bool.or_eq_true_iff.mp hdue
      · exact absurd (Bool.and_eq_true_iff.mp hc).2 hr
      · obtain howed | hsame := h.agrees n hpool p hdue
        · left
          cases howed with
          | write r' htask hr' => exact .write r' (List.mem_append_left _ htask) hr'
          | init htask hdirty => exact .init (List.mem_append_left _ htask) rfl
          | output o ho hnode hle hlt => exact .output o ho hnode hle hlt
        · right
          show s.arriving n p = contents (s.primary.receive r bytes).blocks p
          rw [hout p hr]
          exact hsame

/-- What the data-sync thread makes of a task has neighbouring buffers. -/
theorem ReplicaInv.parse (h : ReplicaInv s) (t : SyncTask) : ∀ o ∈ s.parse t, getBlockStartPoint o.startPoint = o.startPoint ∧
    BufferedFrom s.primary.blocks o.buffers ∧ Adjacent o.startPoint o.buffers := by
  have hmessage : ∀ (k off : Nat) (size : Int) n, getBlockStartPoint k = k → getBlockStartPoint (s.message k off size n).startPoint = k ∧
      BufferedFrom s.primary.blocks (s.message k off size n).buffers ∧ Adjacent k (s.message k off size n).buffers :=
    fun k off size n hk => ⟨hk, (syncBuffers_spec s.primary k off size).1, syncBuffers_adjacent h.hole h.empty size hk⟩
  intro o ho
  cases t with
  | write r =>
      obtain ⟨n, -, rfl⟩ := List.mem_map.mp ho
      exact hmessage r.startPoint r.offset r.size n r.aligned
  | init n =>
      unfold ReplicatedFile.parse at ho
      dsimp only at ho
      split at ho
      · obtain rfl := List.mem_singleton.mp ho
        exact hmessage 0 0 MAX_FILE_SIZE n (getBlockStartPoint_of_lt (by decide))
      · cases ho

/-- **The data-sync thread takes a task.** -/
theorem ReplicaInv.sync (h : ReplicaInv s) (hp : s.Permitted .sync) : ∃ s', s.step .sync = some s' ∧ ReplicaInv s' := by
  cases htasks : s.tasks with
  | nil =>
      rw [Permitted, htasks] at hp
      cases hp
  | cons t tasks =>
      have hmem : ∀ t', t' ∈ s.tasks ↔ t' = t ∨ t' ∈ tasks := by
        intro t'
        rw [htasks]
        exact List.mem_cons
      refine ⟨{ s with tasks := tasks, output := s.output ++ s.parse t }, ?_, h.hole, h.empty, h.limit, ?_, ?_, h.wire, h.due, h.whole, ?_⟩
      · simp only [ReplicatedFile.step, htasks]
      · intro r hr
        exact h.tasks r ((hmem _).mpr (.inr hr))
      · intro o ho
        obtain ho | ho := List.mem_append.mp ho
        · exact h.output o ho
        · exact h.parse t o ho
      · intro n hpool p hdue
        obtain howed | hsame := h.agrees n hpool p hdue
        · left
          cases howed with
          | write r htask hr =>
              obtain rfl | htask := (hmem _).mp htask
              · -- the task of this position: now it is in a message
                obtain ⟨hhas, hpos, hcount⟩ := h.tasks r ((hmem _).mpr (.inl rfl))
                obtain ⟨hle, hlt⟩ := WriteRange.covers_iff.mp hr
                have hcovers := syncBuffers_covers hhas hcount
                refine .output (s.message r.startPoint r.offset r.size n) (List.mem_append_right _ ?_) rfl ?_ ?_
                · exact List.mem_map.mpr ⟨n, hpool, rfl⟩
                · show r.startPoint ≤ p
                  omega
                · show p < r.startPoint + bufferSize (syncBuffers s.primary r.startPoint r.size)
                  omega
              · exact .write r htask hr
          | init htask hdirty =>
              obtain rfl | htask := (hmem _).mp htask
              · refine .output (s.message 0 0 MAX_FILE_SIZE n) (List.mem_append_right _ ?_) rfl (Nat.zero_le p) ?_
                · unfold ReplicatedFile.parse
                  dsimp only
                  rw [if_pos hdirty]
                  exact List.mem_singleton_self _
                · show p < 0 + bufferSize (syncBuffers s.primary 0 MAX_FILE_SIZE)
                  rw [Nat.zero_add]
                  exact syncBuffers_all h.hole h.limit (h.due n p hdue)
              · exact .init htask hdirty
          | output o ho hnode hle hlt => exact .output o (List.mem_append_left _ ho) hnode hle hlt
        · exact .inr hsame

/-- The bytes of a message are those the primary has. -/
theorem ReplicaInv.sent_get (h : ReplicaInv s) {o : SyncOutput} (ho : o ∈ s.output) {p : Nat} (hle : o.startPoint ≤ p)
    (hlt : p < o.startPoint + bufferSize o.buffers) :
    (bufferBytes s.primary.blocks o.buffers)[p - o.startPoint]? = contents s.primary.blocks p := by
  obtain ⟨-, hbuffered, hadjacent⟩ := h.output o ho
  obtain ⟨t, rfl⟩ := Nat.exists_eq_add_of_le hle
  rw [Nat.add_sub_cancel_left]
  exact (bufferBytes_get s.primary.formed hbuffered hadjacent (by omega)).2

/-- **The sender takes a message.** -/
theorem ReplicaInv.send (h : ReplicaInv s) (hp : s.Permitted .send) : ∃ s', s.step .send = some s' ∧ ReplicaInv s' := by
  cases houtput : s.output with
  | nil =>
      rw [Permitted, houtput] at hp
      cases hp
  | cons o output =>
      have hmem : ∀ o', o' ∈ s.output ↔ o' = o ∨ o' ∈ output := by
        intro o'
        rw [houtput]
        exact List.mem_cons
      have ho : o ∈ s.output := (hmem o).mpr (.inl rfl)
      refine ⟨{ s with output := output, wire := Function.update s.wire o.node (s.wire o.node ++ [s.sent o]) }, ?_, h.hole, h.empty,
        h.limit, h.tasks, fun o' ho' => h.output o' ((hmem o').mpr (.inr ho')), ?_, h.due, h.whole, ?_⟩
      · simp only [ReplicatedFile.step, houtput]
      · intro n m hm
        dsimp only at hm
        by_cases hn : n = o.node
        · rw [hn, Function.update_self] at hm
          obtain hm | hm := List.mem_append.mp hm
          · exact h.wire o.node m hm
          · obtain rfl := List.mem_singleton.mp hm
            exact ⟨rfl, (h.output o ho).1, (length_bufferBytes _ _).symm⟩
        · rw [Function.update_of_ne hn] at hm
          exact h.wire n m hm
      · intro n hpool p hdue
        -- what the message does to a position
        have harriving : ({ s with
            output := output
            wire := Function.update s.wire o.node (s.wire o.node ++ [s.sent o]) } : ReplicatedFile).arriving n p =
            if n = o.node ∧ o.startPoint ≤ p ∧ p < o.startPoint + bufferSize o.buffers then contents s.primary.blocks p
            else s.arriving n p := by
          unfold arriving
          dsimp only
          by_cases hn : n = o.node
          · rw [hn, Function.update_self, List.map_append, List.map_singleton, replay_concat]
            show overlay _ o.startPoint (bufferBytes s.primary.blocks o.buffers) p = _
            by_cases hin : o.startPoint ≤ p ∧ p < o.startPoint + bufferSize o.buffers
            · rw [overlay_in hin.1 (by rw [length_bufferBytes]; exact hin.2), if_pos ⟨rfl, hin⟩]
              exact h.sent_get ho hin.1 hin.2
            · rw [overlay_out (by rw [length_bufferBytes]; exact hin), if_neg fun hc => hin hc.2]
              rfl
          · rw [Function.update_of_ne hn, if_neg fun hc => hn hc.1]
            rfl
        rw [harriving]
        obtain howed | hsame := h.agrees n hpool p hdue
        · cases howed with
          | write r htask hr => exact .inl (.write r htask hr)
          | init htask hdirty => exact .inl (.init htask hdirty)
          | output o' ho' hnode hle hlt =>
              obtain rfl | ho' := (hmem o').mp ho'
              · right
                rw [if_pos ⟨hnode.symm, hle, hlt⟩]
              · exact .inl (.output o' ho' hnode hle hlt)
        · right
          rw [hsame]
          exact ite_self _

/-- A node stores what comes, when it has the file. -/
theorem contentsAt_handle {n : Nat} {m : SyncMessage} (hopen : ((s.files n).find? s.primary.fileNo).isSome)
    (hm : m.fileNo = s.primary.fileNo ∧ getBlockStartPoint m.startPoint = m.startPoint ∧ m.size = m.bytes.length) :
    (fun p => ((getSyncData (s.files n) m).2.find? s.primary.fileNo).bind fun blocks => contents blocks p) =
      overlay (s.contentsAt n) m.startPoint m.bytes := by
  obtain ⟨hno, haligned, hsize⟩ := hm
  obtain ⟨blocks, hblocks⟩ := Option.isSome_iff_exists.mp hopen
  funext p
  unfold getSyncData
  rw [hno, hblocks, hsize]
  dsimp only
  rw [OrdMap.find?_put_self, Option.bind_some, contents_getSyncLoop haligned (Nat.le_refl _)]
  unfold overlay contentsAt
  rw [hblocks, Option.bind_some]

/-- The other nodes do not see a change of one. -/
theorem arriving_ne {s' : ReplicatedFile} {n : Nat} (hfile : s'.primary.fileNo = s.primary.fileNo) (hwire : s'.wire n = s.wire n)
    (hfiles : s'.files n = s.files n) (p : Nat) : s'.arriving n p = s.arriving n p := by
  unfold arriving contentsAt
  rw [hfile, hwire, hfiles]

/-- What is still to be sent does not depend on the nodes. -/
theorem Owed.congr {s' : ReplicatedFile} {n p : Nat} (h : s.Owed n p) (htasks : s'.tasks = s.tasks) (houtput : s'.output = s.output)
    (hprimary : s'.primary = s.primary) : s'.Owed n p := by
  cases h with
  | write r htask hr => exact .write r (htasks ▸ htask) hr
  | init htask hdirty => exact .init (htasks ▸ htask) (hprimary ▸ hdirty)
  | output o ho hnode hle hlt => exact .output o (houtput ▸ ho) hnode hle hlt

/-- **A node handles a message.** -/
theorem ReplicaInv.handle (h : ReplicaInv s) {n : Nat} (hp : s.Permitted (.handle n)) :
    ∃ s', s.step (.handle n) = some s' ∧ ReplicaInv s' := by
  obtain ⟨hthere, hopen⟩ := hp
  cases hwire : s.wire n with
  | nil =>
      rw [hwire] at hthere
      cases hthere
  | cons m wire =>
      have hm := h.wire n m (by rw [hwire]; exact List.mem_cons_self)
      refine ⟨{ s with
        wire := Function.update s.wire n wire
        files := Function.update s.files n (getSyncData (s.files n) m).2 }, ?_, h.hole, h.empty, h.limit, h.tasks, h.output, ?_, h.due,
        h.whole, ?_⟩
      · simp only [ReplicatedFile.step, hwire]
      · intro k m' hm'
        dsimp only at hm'
        by_cases hk : k = n
        · rw [hk, Function.update_self] at hm'
          exact h.wire n m' (by rw [hwire]; exact List.mem_cons_of_mem _ hm')
        · rw [Function.update_of_ne hk] at hm'
          exact h.wire k m' hm'
      · intro k hpool p hdue
        refine (h.agrees k hpool p hdue).imp (fun howed => howed.congr rfl rfl rfl) fun hsame => ?_
        rw [← hsame]
        by_cases hk : k = n
        · subst hk
          unfold arriving
          rw [hwire]
          simp only [Function.update_self, List.map_cons, replay_cons]
          unfold contentsAt
          simp only [Function.update_self]
          rw [contentsAt_handle hopen hm]
          rfl
        · refine arriving_ne ?_ ?_ ?_ p
          · rfl
          · exact Function.update_of_ne hk _ _
          · exact Function.update_of_ne hk _ _

/-- **A node opens the file**, if it has not. What is on the wire comes behind. -/
theorem ReplicaInv.openFile (h : ReplicaInv s) (n : Nat) (blocks : SyncBlocks) :
    ∃ s', s.step (.openFile n blocks) = some s' ∧ ReplicaInv s' := by
  refine ⟨_, rfl, h.hole, h.empty, h.limit, h.tasks, h.output, h.wire, h.due, h.whole, fun k hpool p hdue => ?_⟩
  refine (h.agrees k hpool p hdue).imp (fun howed => howed.congr rfl rfl rfl) fun hsame => ?_
  by_cases hk : k = n
  · subst hk
    cases hfind : (s.files k).find? s.primary.fileNo with
    | none =>
        -- the position was on the wire, since the node had nothing
        obtain ⟨b, hb⟩ := Option.isSome_iff_exists.mp (h.due k p hdue)
        show replay _ ((s.wire k).map _) p = contents s.primary.blocks p
        rw [hb]
        have hnone : s.contentsAt k p = none := by
          unfold contentsAt
          rw [hfind]
          rfl
        exact replay_of_none hnone (hsame.trans hb)
    | some old =>
        rw [← hsame]
        have hsame : (Function.update s.files k ((s.files k).insert s.primary.fileNo blocks)) k = s.files k := by
          rw [Function.update_self, OrdMap.insert_of_some hfind]
        refine arriving_ne ?_ ?_ hsame p
        · rfl
        · rfl
  · rw [← hsame]
    refine arriving_ne ?_ ?_ ?_ p
    · rfl
    · rfl
    · exact Function.update_of_ne hk _ _

/-- **A node joins.** -/
theorem ReplicaInv.join (h : ReplicaInv s) (n : Nat) (init : Bool) :
    ∃ s', s.step (.join n init) = some s' ∧ ReplicaInv s' := by
  refine ⟨_, rfl, h.hole, h.empty, h.limit, ?_, h.output, h.wire, ?_, ?_, ?_⟩
  · intro r hr
    refine h.tasks r ?_
    obtain hr | hr := List.mem_append.mp hr
    · exact hr
    · cases init <;> simp at hr
  · intro k p hdue
    dsimp only at hdue
    by_cases hk : k = n
    · rw [hk, Function.update_self, Bool.and_eq_true_iff] at hdue
      exact hdue.2
    · rw [Function.update_of_ne hk] at hdue
      exact h.due k p hdue
  · intro k hk hpool p hsome
    dsimp only at hk hpool hsome ⊢
    by_cases hkn : k = n
    · rw [hkn, Function.update_self]
      by_cases hall : (init && s.primary.dirtyFlag) = true
      · exact Bool.and_eq_true_iff.mpr ⟨hall, hsome⟩
      · rw [if_neg hall, hkn] at hk
        simp at hk
    · rw [Function.update_of_ne hkn]
      have hold : k ∈ s.whole := by
        split at hk
        · exact (List.mem_cons.mp hk).resolve_left hkn
        · exact (List.mem_filter.mp hk).1
      refine h.whole k hold ?_ p hsome
      obtain hpool | hpool := List.mem_append.mp hpool
      · exact hpool
      · exact absurd (List.mem_singleton.mp hpool) hkn
  · intro k hpool p hdue
    dsimp only at hpool hdue
    by_cases hk : k = n
    · left
      rw [hk, Function.update_self, Bool.and_eq_true_iff, Bool.and_eq_true_iff] at hdue
      obtain ⟨⟨rfl, hdirty⟩, -⟩ := hdue
      rw [hk]
      exact .init (List.mem_append_right _ (List.mem_singleton_self _)) hdirty
    · rw [Function.update_of_ne hk] at hdue
      have hold : k ∈ s.pool := by
        obtain hpool | hpool := List.mem_append.mp hpool
        · exact hpool
        · exact absurd (List.mem_singleton.mp hpool) hk
      refine (h.agrees k hold p hdue).imp (fun howed => ?_) fun hsame => hsame
      cases howed with
      | write r htask hr => exact .write r (List.mem_append_left _ htask) hr
      | init htask hdirty => exact .init (List.mem_append_left _ htask) hdirty
      | output o ho hnode hle hlt => exact .output o ho hnode hle hlt

/-- **A node leaves.** -/
theorem ReplicaInv.leave (h : ReplicaInv s) (n : Nat) : ∃ s', s.step (.leave n) = some s' ∧ ReplicaInv s' := by
  have hstill : ∀ k ∈ s.pool.filter (· ≠ n), k ∈ s.pool := fun k hk => (List.mem_filter.mp hk).1
  refine ⟨_, rfl, h.hole, h.empty, h.limit, h.tasks, h.output, h.wire, h.due, fun k hk hpool => h.whole k hk (hstill k hpool), ?_⟩
  intro k hpool p hdue
  exact (h.agrees k (hstill k hpool) p hdue).imp (fun howed => howed.congr rfl rfl rfl) fun hsame => hsame

/-- **One step.** -/
theorem ReplicaInv.step (h : ReplicaInv s) {e : ReplicaEvent} (he : s.Permitted e) : ∃ s', s.step e = some s' ∧ ReplicaInv s' := by
  cases e with
  | write r bytes => exact h.write he
  | sync => exact h.sync he
  | send => exact h.send he
  | handle n => exact h.handle he
  | openFile n blocks => exact h.openFile n blocks
  | join n init => exact h.join n init
  | leave n => exact h.leave n

end Step

/-! ## Runs -/

end ReplicatedFile

end HuronFS
