import HuronFS.Protocol.ReadAfterWrite

/-!
# `Protocol.PosixCalls` — the calls of `CBB_posix.cpp` on the whole system

The descriptors a program has open on one file, each with its position, over the client, the Master's block lists and the IOnode. The
vectored calls are loops over `client.read` and `client.write`, and each of these sends its queries for itself. A position is an
`off64_t`; a call from a negative one, or over the end of `off64_t`, is outside this model.

Next to it is the byte array with the same positions, where a vectored call is one read or one write.
-/

namespace HuronFS

open ClientFile

/-- What the program calls. The buffers of a read are given by their sizes, those of a write by the bytes in them. -/
inductive PosixCall
  | read (fd size : Nat)
  | readv (fd : Nat) (sizes : List Nat)
  | write (fd : Nat) (bytes : List Byte)
  | writev (fd : Nat) (buffers : List (List Byte))
  | pread (fd count offset : Nat)
  | pwrite (fd : Nat) (bytes : List Byte) (offset : Nat)
  | lseekSet (fd offset : Nat)
  | tell (fd : Nat)

/-- What a call returns, and what it puts into each buffer. -/
structure PosixResult where
  value : Int
  buffers : List (List Byte)
deriving DecidableEq, Repr

/-! ## The client -/

/-- The client with `current_point` of each descriptor. -/
structure PosixClient where
  client : OneClient
  currentPoint : Nat → Int

namespace PosixClient

/-- `_read` and `_write` when there is something to move: the position goes on by what is returned. -/
def moved (s : PosixClient) (fileNo : Int) (fd : Nat) (c : IOCall) : Option (Returned × PosixClient) :=
  (s.client.call fileNo c).map fun (r, client) => (r, ⟨client, Function.update s.currentPoint fd (s.currentPoint fd + r.count)⟩)

/-- `client.read` -/
def read (s : PosixClient) (fileNo : Int) (fd size : Nat) : Option (Returned × PosixClient) :=
  if hsize : size = 0 then some (⟨0, []⟩, s)
  else if h : 0 ≤ s.currentPoint fd ∧ (s.currentPoint fd).toNat + size < 2 ^ 63 then
    s.moved fileNo fd
      { mode := .read, startPoint := (s.currentPoint fd).toNat, size := size, data := []
        size_pos := Nat.pos_of_ne_zero hsize, in_range := h.2, data_length := fun h => nomatch h }
  else none

/-- `client.write` -/
def write (s : PosixClient) (fileNo : Int) (fd : Nat) (bytes : List Byte) : Option (Returned × PosixClient) :=
  if hsize : bytes.length = 0 then some (⟨0, []⟩, s)
  else if h : 0 ≤ s.currentPoint fd ∧ (s.currentPoint fd).toNat + bytes.length < 2 ^ 63 then
    s.moved fileNo fd
      { mode := .write, startPoint := (s.currentPoint fd).toNat, size := bytes.length, data := bytes
        size_pos := Nat.pos_of_ne_zero hsize, in_range := h.2, data_length := fun _ => rfl }
  else none

/-- The loop of `readv`. -/
def readvLoop (fileNo : Int) (fd : Nat) : List Nat → (ans : Int) → PosixClient → Option (PosixResult × PosixClient)
  | [], ans, s => some (⟨ans, []⟩, s)
  | size :: sizes, ans, s =>
      match s.read fileNo fd size with
      | none => none
      | some (r, s) =>
          if r.count = -1 then some (⟨-1, []⟩, s)
          else (readvLoop fileNo fd sizes (ans + r.count) s).map fun (q, s) => (⟨q.value, r.bytes :: q.buffers⟩, s)

/-- The loop of `writev`. -/
def writevLoop (fileNo : Int) (fd : Nat) : List (List Byte) → (ans : Int) → PosixClient → Option (PosixResult × PosixClient)
  | [], ans, s => some (⟨ans, []⟩, s)
  | bytes :: buffers, ans, s =>
      match s.write fileNo fd bytes with
      | none => none
      | some (r, s) => if r.count = -1 then some (⟨-1, []⟩, s) else writevLoop fileNo fd buffers (ans + r.count) s

/-- `client.lseek` from the start of the file. -/
def lseekSet (s : PosixClient) (fd offset : Nat) : PosixClient := { s with currentPoint := Function.update s.currentPoint fd offset }

def call (fileNo : Int) (s : PosixClient) : PosixCall → Option (PosixResult × PosixClient)
  | .read fd size => (s.read fileNo fd size).map fun (r, s) => (⟨r.count, [r.bytes]⟩, s)
  | .readv fd sizes => readvLoop fileNo fd sizes 0 s
  | .write fd bytes => (s.write fileNo fd bytes).map fun (r, s) => (⟨r.count, []⟩, s)
  | .writev fd buffers => writevLoop fileNo fd buffers 0 s
  | .pread fd count offset => ((s.lseekSet fd offset).read fileNo fd count).map fun (r, s) => (⟨r.count, [r.bytes]⟩, s)
  | .pwrite fd bytes offset => ((s.lseekSet fd offset).write fileNo fd bytes).map fun (r, s) => (⟨r.count, []⟩, s)
  | .lseekSet fd offset => some (⟨offset, []⟩, s.lseekSet fd offset)
  | .tell fd => some (⟨s.currentPoint fd, []⟩, s)

end PosixClient

/-! ## The byte array -/

/-- A byte array, and the position of each descriptor on it. -/
structure PosixFile where
  file : ByteFile Byte
  position : Nat → Nat

namespace PosixFile

/-- The bytes that were read, one buffer after the other. -/
def cut (bytes : List Byte) : List Nat → List (List Byte)
  | [] => []
  | size :: sizes => bytes.take size :: cut (bytes.drop size) sizes

/-- One read at the position. -/
def gather (T : PosixFile) (fd size : Nat) : List Byte × PosixFile :=
  let bytes := T.file.read (T.position fd) size
  (bytes, { T with position := Function.update T.position fd (T.position fd + bytes.length) })

/-- One write at the position. -/
def put (T : PosixFile) (fd : Nat) (bytes : List Byte) : PosixFile :=
  ⟨T.file.write (T.position fd) bytes, Function.update T.position fd (T.position fd + bytes.length)⟩

def seekSet (T : PosixFile) (fd offset : Nat) : PosixFile := { T with position := Function.update T.position fd offset }

/-- What each call is to do; the positional ones leave the position behind what they moved. -/
def call (T : PosixFile) : PosixCall → Option (PosixResult × PosixFile)
  | .read fd size => some (⟨(T.gather fd size).1.length, [(T.gather fd size).1]⟩, (T.gather fd size).2)
  | .readv fd sizes => some (⟨(T.gather fd sizes.sum).1.length, cut (T.gather fd sizes.sum).1 sizes⟩, (T.gather fd sizes.sum).2)
  | .write fd bytes => some (⟨bytes.length, []⟩, T.put fd bytes)
  | .writev fd buffers => some (⟨buffers.flatten.length, []⟩, T.put fd buffers.flatten)
  | .pread fd count offset =>
      let r := (T.seekSet fd offset).gather fd count
      some (⟨r.1.length, [r.1]⟩, r.2)
  | .pwrite fd bytes offset => some (⟨bytes.length, []⟩, (T.seekSet fd offset).put fd bytes)
  | .lseekSet fd offset => some (⟨offset, []⟩, T.seekSet fd offset)
  | .tell fd => some (⟨T.position fd, []⟩, T)

/-- A read of `size` bytes stays inside `off64_t`. -/
def ReadsIn (T : PosixFile) (fd size : Nat) : Prop := T.position fd + size < 2 ^ 63

/-- A write stays inside `off64_t`, leaves no hole, and there is memory for the blocks of the file beside `inUse` others. -/
def WritesIn (cap inUse : Nat) (T : PosixFile) (fd : Nat) (bytes : List Byte) : Prop :=
  T.position fd + bytes.length < 2 ^ 63 ∧ T.position fd ≤ T.file.size ∧
    inUse + blockCount (T.file.write (T.position fd) bytes).size ≤ cap

/-- The condition on a call. `_write` returns through an `int`. -/
def Permitted (cap inUse : Nat) (T : PosixFile) : PosixCall → Prop
  | .read fd size => T.ReadsIn fd size
  | .readv fd sizes => T.ReadsIn fd sizes.sum
  | .write fd bytes => bytes.length < 2 ^ 31 ∧ T.WritesIn cap inUse fd bytes
  | .writev fd buffers => (∀ bytes ∈ buffers, bytes.length < 2 ^ 31) ∧ T.WritesIn cap inUse fd buffers.flatten
  | .pread fd count offset => (T.seekSet fd offset).ReadsIn fd count
  | .pwrite fd bytes offset => bytes.length < 2 ^ 31 ∧ (T.seekSet fd offset).WritesIn cap inUse fd bytes
  | .lseekSet _ _ | .tell _ => True

instance (T : PosixFile) (fd size : Nat) : Decidable (T.ReadsIn fd size) := inferInstanceAs (Decidable (_ < _))

instance (cap inUse : Nat) (T : PosixFile) (fd : Nat) (bytes : List Byte) : Decidable (T.WritesIn cap inUse fd bytes) :=
  inferInstanceAs (Decidable (_ ∧ _ ∧ _))

instance (cap inUse : Nat) (T : PosixFile) (c : PosixCall) : Decidable (T.Permitted cap inUse c) := by
  cases c <;> unfold Permitted <;> infer_instance

variable {T : PosixFile} {fd : Nat}

/-- A read in two parts: the second one goes on where the first one has ended. -/
theorem gather_add (T : PosixFile) (fd a b : Nat) :
    T.gather fd (a + b) = ((T.gather fd a).1 ++ ((T.gather fd a).2.gather fd b).1, ((T.gather fd a).2.gather fd b).2) := by
  have hat : (T.gather fd a).2.position fd = T.position fd + (T.file.read (T.position fd) a).length := Function.update_self ..
  have hbytes : T.file.read (T.position fd) (a + b) =
      T.file.read (T.position fd) a ++ T.file.read (T.position fd + (T.file.read (T.position fd) a).length) b := by
    by_cases hin : T.position fd + a ≤ T.file.size
    · rw [ByteFile.read_add b hin, ← ByteFile.read_within hin, ByteFile.length_read, show min a (T.file.size - T.position fd) = a by omega]
    · -- the file ends in the first part
      have hend : T.file.size ≤ T.position fd + min a (T.file.size - T.position fd) := by omega
      rw [ByteFile.length_read, ByteFile.read_of_ge hend, List.append_nil]
      unfold ByteFile.read
      rw [show min (a + b) (T.file.size - T.position fd) = min a (T.file.size - T.position fd) by omega]
  refine Prod.ext ?_ ?_
  · show T.file.read (T.position fd) (a + b) = T.file.read (T.position fd) a ++ T.file.read ((T.gather fd a).2.position fd) b
    rw [hat]
    exact hbytes
  · show ({ T with position := _ } : PosixFile) = { T with position := _ }
    congr 1
    show Function.update T.position fd (T.position fd + (T.file.read (T.position fd) (a + b)).length) =
      Function.update (Function.update T.position fd (T.position fd + (T.file.read (T.position fd) a).length)) fd
        ((T.gather fd a).2.position fd + (T.file.read ((T.gather fd a).2.position fd) b).length)
    rw [Function.update_idem, hat, hbytes, List.length_append, Nat.add_assoc]

theorem gather_zero (T : PosixFile) (fd : Nat) : (T.gather fd 0).1 = [] := by
  refine List.eq_nil_of_length_eq_zero ?_
  show (T.file.read (T.position fd) 0).length = 0
  rw [ByteFile.length_read, Nat.zero_min]

/-- The first buffer gets the first part, and the others what is left. -/
theorem cut_gather (T : PosixFile) (fd size : Nat) (sizes : List Nat) :
    cut (T.gather fd (size + sizes.sum)).1 (size :: sizes) =
      (T.gather fd size).1 :: cut ((T.gather fd size).2.gather fd sizes.sum).1 sizes := by
  have hlength : (T.gather fd size).1.length = min size (T.file.size - T.position fd) := ByteFile.length_read ..
  rw [gather_add, cut]
  by_cases hfull : (T.gather fd size).1.length = size
  · rw [List.take_left' hfull, List.drop_left' hfull]
  · -- the file has ended: nothing is left
    have hnone : ((T.gather fd size).2.gather fd sizes.sum).1 = [] := by
      refine ByteFile.read_of_ge ?_ _
      show T.file.size ≤ Function.update T.position fd _ fd
      rw [Function.update_self]
      show T.file.size ≤ T.position fd + (T.gather fd size).1.length
      omega
    have hle : (T.gather fd size).1.length ≤ size := by omega
    rw [hnone, List.append_nil, List.take_of_length_le hle, List.drop_of_length_le hle]

/-- A write in two parts. -/
theorem put_append (T : PosixFile) (fd : Nat) (a b : List Byte) : T.put fd (a ++ b) = (T.put fd a).put fd b := by
  have hat : (T.put fd a).position fd = T.position fd + a.length := Function.update_self ..
  unfold put at hat ⊢
  congr 1
  · rw [hat]
    by_cases ha : a = []
    · subst ha
      simp
    · exact ByteFile.write_append _ _ b ha
  · rw [Function.update_idem, hat, List.length_append, Nat.add_assoc]

theorem ReadsIn.parts {a b : Nat} (h : T.ReadsIn fd (a + b)) : T.ReadsIn fd a ∧ (T.gather fd a).2.ReadsIn fd b := by
  have hlength : (T.gather fd a).1.length ≤ a := by
    show (T.file.read _ a).length ≤ a
    rw [ByteFile.length_read]
    exact Nat.min_le_left ..
  unfold ReadsIn at h ⊢
  have hat : (T.gather fd a).2.position fd = T.position fd + (T.gather fd a).1.length := Function.update_self ..
  omega

theorem WritesIn.parts {cap inUse : Nat} {a b : List Byte} (h : T.WritesIn cap inUse fd (a ++ b)) :
    T.WritesIn cap inUse fd a ∧ (T.put fd a).WritesIn cap inUse fd b := by
  obtain ⟨hrange, hhole, hroom⟩ := h
  rw [List.length_append] at hrange
  have hfile : T.file.write (T.position fd) (a ++ b) = ((T.put fd a).put fd b).file := congrArg PosixFile.file (put_append T fd a b)
  have hat : (T.put fd a).position fd = T.position fd + a.length := Function.update_self ..
  rw [hfile] at hroom
  have hgrows : (T.file.write (T.position fd) a).size ≤ ((T.put fd a).put fd b).file.size := ByteFile.size_le_write ..
  refine ⟨⟨by omega, hhole, ?_⟩, ⟨by omega, ?_, hroom⟩⟩
  · have := blockCount_mono hgrows
    omega
  · rw [hat]
    show T.position fd + a.length ≤ (T.file.write (T.position fd) a).size
    by_cases ha : a = []
    · subst ha
      simpa using hhole
    · rw [ByteFile.size_write _ _ ha]
      exact Nat.le_max_right ..

end PosixFile

/-! ## The relation -/

namespace PosixClient

/-- The system has the bytes of the array, memory for its blocks, and the positions. -/
structure Shows (cap : Nat) (fileNo : Int) (held : List BlockKey) (s : PosixClient) (T : PosixFile) : Prop where
  synced : OneClient.Synced cap fileNo held s.client T.file
  room : held.length + blockCount T.file.size ≤ cap
  position : ∀ fd, s.currentPoint fd = T.position fd

namespace Shows

variable {cap : Nat} {fileNo : Int} {held : List BlockKey} {s : PosixClient} {T : PosixFile} {fd : Nat}

/-- A position goes on. -/
theorem position_update (h : ∀ fd, s.currentPoint fd = T.position fd) {n : Int} {m : Nat} (hn : n = m) (x : Nat) :
    Function.update s.currentPoint fd (s.currentPoint fd + n) x = (Function.update T.position fd (T.position fd + m) x : Nat) := by
  by_cases hx : x = fd
  · subst hx
    rw [Function.update_self, Function.update_self, h, hn, Int.natCast_add]
  · rw [Function.update_of_ne hx, Function.update_of_ne hx, h]

theorem lseekSet (h : Shows cap fileNo held s T) (fd offset : Nat) : Shows cap fileNo held (s.lseekSet fd offset) (T.seekSet fd offset) := by
  refine ⟨h.synced, h.room, fun x => ?_⟩
  show Function.update s.currentPoint fd (offset : Int) x = (Function.update T.position fd offset x : Nat)
  by_cases hx : x = fd
  · rw [hx, Function.update_self, Function.update_self]
  · rw [Function.update_of_ne hx, Function.update_of_ne hx, h.position]

/-- `client.read` is one read at the position. -/
theorem read (h : Shows cap fileNo held s T) (hcap : 0 < cap) {size : Nat} (hin : T.ReadsIn fd size) :
    ∃ s', s.read fileNo fd size = some (⟨(T.gather fd size).1.length, (T.gather fd size).1⟩, s') ∧
      Shows cap fileNo held s' (T.gather fd size).2 := by
  by_cases hsize : size = 0
  · subst hsize
    have hnone := T.gather_zero fd
    refine ⟨s, by rw [PosixClient.read, dif_pos rfl, hnone]; rfl, h.synced, h.room, fun x => ?_⟩
    show s.currentPoint x = (Function.update T.position fd (T.position fd + (T.gather fd 0).1.length) x : Nat)
    rw [hnone, List.length_nil, Nat.add_zero, Function.update_eq_self, h.position]
  · have hat : 0 ≤ s.currentPoint fd ∧ (s.currentPoint fd).toNat + size < 2 ^ 63 := by
      rw [h.position]
      exact ⟨Int.natCast_nonneg _, hin⟩
    have hstart : (s.currentPoint fd).toNat = T.position fd := by rw [h.position, Int.toNat_natCast]
    obtain ⟨client, hcall, hsynced⟩ := h.synced.call hcap (c :=
      { mode := .read, startPoint := (s.currentPoint fd).toNat, size := size, data := []
        size_pos := Nat.pos_of_ne_zero hsize, in_range := hat.2, data_length := fun h => nomatch h }) ⟨(fun hc => nomatch hc), h.room⟩
    have hbytes : T.file.read (s.currentPoint fd).toNat size = (T.gather fd size).1 := by rw [hstart]; rfl
    refine ⟨⟨client, Function.update s.currentPoint fd (s.currentPoint fd + (T.gather fd size).1.length)⟩, ?_, hsynced, h.room,
      position_update h.position rfl⟩
    rw [PosixClient.read, dif_neg hsize, dif_pos hat, moved, hcall]
    simp only [Reference.returned, hbytes, Option.map_some]

/-- `client.write` is one write at the position. -/
theorem write (h : Shows cap fileNo held s T) (hcap : 0 < cap) {bytes : List Byte} (hint : bytes.length < 2 ^ 31)
    (hin : T.WritesIn cap held.length fd bytes) :
    ∃ s', s.write fileNo fd bytes = some (⟨bytes.length, []⟩, s') ∧ Shows cap fileNo held s' (T.put fd bytes) := by
  obtain ⟨hrange, hhole, hroom⟩ := hin
  by_cases hsize : bytes.length = 0
  · obtain rfl := List.length_eq_zero_iff.mp hsize
    have hput : T.put fd [] = T := by
      unfold PosixFile.put
      rw [ByteFile.write_nil, List.length_nil, Nat.add_zero, Function.update_eq_self]
    refine ⟨s, by rw [PosixClient.write, dif_pos List.length_nil]; rfl, ?_⟩
    rw [hput]
    exact h
  · have hat : 0 ≤ s.currentPoint fd ∧ (s.currentPoint fd).toNat + bytes.length < 2 ^ 63 := by
      rw [h.position]
      exact ⟨Int.natCast_nonneg _, hrange⟩
    have hstart : (s.currentPoint fd).toNat = T.position fd := by rw [h.position, Int.toNat_natCast]
    have hcount : (bytes.length : Int).bmod (2 ^ 32) = bytes.length := Int.bmod_eq_of_le (by omega) (by omega)
    obtain ⟨client, hcall, hsynced⟩ := h.synced.call hcap (c :=
      { mode := .write, startPoint := (s.currentPoint fd).toNat, size := bytes.length, data := bytes
        size_pos := Nat.pos_of_ne_zero hsize, in_range := hat.2, data_length := fun _ => rfl })
      ⟨fun _ => hstart.trans_le hhole, by rw [Reference.after]; dsimp only; rw [hstart]; exact hroom⟩
    refine ⟨⟨client, Function.update s.currentPoint fd (s.currentPoint fd + bytes.length)⟩, ?_, ?_, hroom,
      position_update h.position rfl⟩
    · rw [PosixClient.write, dif_neg hsize, dif_pos hat, moved, hcall]
      simp only [Reference.returned, hcount, Option.map_some]
    · have hafter : T.file.write (s.currentPoint fd).toNat bytes = (T.put fd bytes).file := by rw [hstart]; rfl
      rw [← hafter]
      exact hsynced

/-- **The loop of `readv`** is one read, cut into its buffers. -/
theorem readvLoop (hcap : 0 < cap) {sizes : List Nat} (ans : Int) (h : Shows cap fileNo held s T) (hin : T.ReadsIn fd sizes.sum) :
    ∃ s', PosixClient.readvLoop fileNo fd sizes ans s =
        some (⟨ans + (T.gather fd sizes.sum).1.length, PosixFile.cut (T.gather fd sizes.sum).1 sizes⟩, s') ∧
      Shows cap fileNo held s' (T.gather fd sizes.sum).2 := by
  induction sizes generalizing s T ans with
  | nil =>
      obtain ⟨s', hread, hs'⟩ := h.read hcap hin
      have hsame : s' = s := by
        rw [PosixClient.read, dif_pos List.sum_nil] at hread
        exact (congrArg Prod.snd (Option.some.inj hread)).symm
      refine ⟨s, ?_, hsame ▸ hs'⟩
      have hnone : (T.gather fd ([] : List Nat).sum).1 = [] := T.gather_zero fd
      rw [hnone]
      simp [PosixClient.readvLoop, PosixFile.cut]
  | cons size sizes ih =>
      rw [List.sum_cons] at hin ⊢
      obtain ⟨hfirst, hrest⟩ := hin.parts
      obtain ⟨s₁, hread, hs₁⟩ := h.read hcap hfirst
      obtain ⟨s', hloop, hs'⟩ := ih (ans + (T.gather fd size).1.length) hs₁ hrest
      refine ⟨s', ?_, ?_⟩
      · have hne : ¬ ((T.gather fd size).1.length : Int) = -1 := by omega
        rw [PosixFile.cut_gather, PosixFile.gather_add, List.length_append]
        simp only [PosixClient.readvLoop, hread, if_neg hne, hloop, Option.map_some]
        rw [Int.natCast_add, Int.add_assoc]
      · rw [PosixFile.gather_add]
        exact hs'

/-- **The loop of `writev`** is one write of all the buffers. -/
theorem writevLoop (hcap : 0 < cap) {buffers : List (List Byte)} (ans : Int) (h : Shows cap fileNo held s T)
    (hint : ∀ bytes ∈ buffers, bytes.length < 2 ^ 31) (hin : T.WritesIn cap held.length fd buffers.flatten) :
    ∃ s', PosixClient.writevLoop fileNo fd buffers ans s = some (⟨ans + buffers.flatten.length, []⟩, s') ∧
      Shows cap fileNo held s' (T.put fd buffers.flatten) := by
  induction buffers generalizing s T ans with
  | nil =>
      have hshort : ([] : List Byte).length < 2 ^ 31 := by decide
      obtain ⟨s', hwrite, hs'⟩ := h.write hcap hshort hin
      have hsame : s' = s := by
        rw [PosixClient.write, dif_pos List.length_nil] at hwrite
        exact (congrArg Prod.snd (Option.some.inj hwrite)).symm
      refine ⟨s, ?_, hsame ▸ hs'⟩
      simp [PosixClient.writevLoop]
  | cons bytes buffers ih =>
      rw [List.flatten_cons] at hin ⊢
      obtain ⟨hfirst, hrest⟩ := hin.parts
      obtain ⟨s₁, hwrite, hs₁⟩ := h.write hcap (hint bytes List.mem_cons_self) hfirst
      obtain ⟨s', hloop, hs'⟩ := ih (ans + bytes.length) hs₁ (fun b hb => hint b (List.mem_cons_of_mem _ hb)) hrest
      refine ⟨s', ?_, ?_⟩
      · have hne : ¬ (bytes.length : Int) = -1 := by omega
        simp only [PosixClient.writevLoop, hwrite, if_neg hne, hloop]
        rw [List.length_append, Int.natCast_add, Int.add_assoc]
      · rw [PosixFile.put_append]
        exact hs'

/-- **Each call** returns what it does on the array. -/
theorem call (hcap : 0 < cap) (h : Shows cap fileNo held s T) {c : PosixCall} (hc : T.Permitted cap held.length c) :
    ∃ r s' T', PosixClient.call fileNo s c = some (r, s') ∧ T.call c = some (r, T') ∧ Shows cap fileNo held s' T' := by
  cases c with
  | read fd size =>
      obtain ⟨s', hread, hs'⟩ := h.read hcap hc
      exact ⟨_, s', _, by simp only [PosixClient.call, hread, Option.map_some], rfl, hs'⟩
  | readv fd sizes =>
      obtain ⟨s', hloop, hs'⟩ := h.readvLoop hcap 0 hc
      rw [Int.zero_add] at hloop
      exact ⟨_, s', _, hloop, rfl, hs'⟩
  | write fd bytes =>
      obtain ⟨s', hwrite, hs'⟩ := h.write hcap hc.1 hc.2
      exact ⟨_, s', _, by simp only [PosixClient.call, hwrite, Option.map_some], rfl, hs'⟩
  | writev fd buffers =>
      obtain ⟨s', hloop, hs'⟩ := h.writevLoop hcap 0 hc.1 hc.2
      rw [Int.zero_add] at hloop
      exact ⟨_, s', _, hloop, rfl, hs'⟩
  | pread fd count offset =>
      obtain ⟨s', hread, hs'⟩ := (h.lseekSet fd offset).read hcap hc
      exact ⟨_, s', _, by simp only [PosixClient.call, hread, Option.map_some], rfl, hs'⟩
  | pwrite fd bytes offset =>
      obtain ⟨s', hwrite, hs'⟩ := (h.lseekSet fd offset).write hcap hc.1 hc.2
      exact ⟨_, s', _, by simp only [PosixClient.call, hwrite, Option.map_some], rfl, hs'⟩
  | lseekSet fd offset => exact ⟨_, _, _, rfl, rfl, h.lseekSet fd offset⟩
  | tell fd =>
      refine ⟨⟨T.position fd, []⟩, s, T, ?_, rfl, h⟩
      simp only [PosixClient.call, h.position]

end Shows

variable {cap : Nat} {fileNo : Int}

end PosixClient

end HuronFS
