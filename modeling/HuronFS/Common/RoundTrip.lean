import HuronFS.Common.Tcp

/-!
# `Common.RoundTrip` — a message from the first push to the last pop (`CBB_IO_task.h`)

The header of a message and what is pushed share one array of bytes. A push reads `message_size` in the array to find its
place, and writes it back; the receiver reads the first word by itself, to find a queue, and the rest of the header over its
own, which already has its own id in it; then the two ids change places. Nothing in the array says what was pushed: the
receiver pops by the same types in the same order.

Values of a fixed size are their bytes. `Send_attr` and `Recv_attr` are a value among others.
-/

namespace HuronFS

open Region Wire Chunks Tcp

abbrev RECEIVER_ID_OFF : Nat := 0

/-- `basic_IO_task`, where it is filled to be sent: the id of its queue and `message_buffer`. Its own id is always in the
    header. -/
structure IOTask where
  id : BitVec 32
  message : Nat → Byte
  own : slice message SENDER_ID_OFF 4 = leBytes 4 id.toNat

namespace IOTask

/-- `memcpy` into the array, not onto the id. -/
def store (t : IOTask) (off : Nat) (bytes : List Byte) (h : SENDER_ID_OFF + 4 ≤ off ∨ off + bytes.length ≤ SENDER_ID_OFF) : IOTask :=
  { t with
    message := patch t.message off bytes
    own := by rw [slice_patch_outside h]; exact t.own }

/-- The constructor, with the id of the queue. -/
def create (id : BitVec 32) : IOTask where
  id := id
  message := patch (fun _ => 0) SENDER_ID_OFF (leBytes 4 id.toNat)
  own := by
    have h := slice_patch (fun _ => (0 : Byte)) SENDER_ID_OFF (leBytes 4 id.toNat)
    rwa [length_leBytes] at h

/-- `get_message_size`. -/
def messageSize (t : IOTask) : Nat := ofLe (slice t.message MESSAGE_SIZE_OFF 8)

/-- `get_total_message_size`. -/
def totalMessageSize (t : IOTask) : Nat := t.messageSize + MESSAGE_META_OFF

/-- `set_message_size`. -/
def setMessageSize (t : IOTask) (n : Nat) : IOTask := t.store MESSAGE_SIZE_OFF (leBytes 8 n) (.inl (by decide))

/-- `set_extended_data_size`. -/
def setExtendedDataSize (t : IOTask) (n : Nat) : IOTask := t.store EXTENDED_SIZE_OFF (leBytes 8 n) (.inl (by decide))

/-- `set_receiver_id`. -/
def setReceiverId (t : IOTask) (id : BitVec 32) : IOTask :=
  t.store RECEIVER_ID_OFF (leBytes 4 id.toNat) (.inr (by rw [length_leBytes]))

/-- `reset`, as far as the array goes. -/
def reset (t : IOTask) : IOTask := (t.setMessageSize 0).setExtendedDataSize 0

/-- `memcpy` to the end of the message. -/
def copyToEnd (t : IOTask) (bytes : List Byte) : IOTask :=
  t.store (MESSAGE_META_OFF + t.messageSize) bytes (.inl (Nat.le_trans (by decide) (Nat.le_add_right _ _)))

/-- `do_push`. -/
def doPush (t : IOTask) (bytes : List Byte) : IOTask :=
  let t := t.copyToEnd bytes
  t.setMessageSize (t.messageSize + bytes.length)

/-- `push_back` of a value with these bytes. -/
def pushBack (t : IOTask) (bytes : List Byte) : IOTask := t.doPush bytes

end IOTask

/-! ## Strings -/

namespace IOTask

/-- What a pointer to the string points to. -/
def cStr (s : CString) : List Byte := s.bytes ++ [0]

def strlen (s : CString) : Nat := s.bytes.length

/-- `push_back_string(const char*)`. -/
def pushBackString (t : IOTask) (s : CString) : IOTask :=
  let len := strlen s + 1
  (t.pushBack (leBytes 8 len)).doPush ((cStr s).take len)

/-- `push_back_string(const unsigned char*)`. -/
def pushBackStringUnsigned (t : IOTask) (s : CString) : IOTask := t.pushBackString s

/-- `push_back_string(const char*, size_t)`. -/
def pushBackStringSize (t : IOTask) (s : CString) (size : Nat) : IOTask :=
  (t.pushBack (leBytes 8 (size + 1))).doPush ((cStr s).take (size + 1))

/-- `push_back_string(const std::string&)`. -/
def pushBackStdString (t : IOTask) (s : CString) : IOTask := t.pushBackStringSize s s.bytes.length

/-- `Comm_basic::push_back_uri`, on the array and the message size in it. -/
def pushBackUri (t : IOTask) (uri : CString) : IOTask :=
  let uriLen := strlen uri + 1
  let t := t.copyToEnd (leBytes 8 uriLen)
  let t := t.setMessageSize (t.messageSize + 8)
  let t := t.copyToEnd ((cStr uri).take uriLen)
  t.setMessageSize (t.messageSize + uriLen)

end IOTask

/-! ## Attributes -/

/-- `struct stat`. -/
structure StructStat where
  stDev : BitVec 64
  stIno : BitVec 64
  stNlink : BitVec 64
  stMode : BitVec 32
  stUid : BitVec 32
  stGid : BitVec 32
  stRdev : BitVec 64
  stSize : BitVec 64
  stBlksize : BitVec 64
  stBlocks : BitVec 64
  stAtime : BitVec 64
  stAtimeNsec : BitVec 64
  stMtime : BitVec 64
  stMtimeNsec : BitVec 64
  stCtime : BitVec 64
  stCtimeNsec : BitVec 64
deriving DecidableEq, Repr

namespace StructStat

/-- All bytes zero. -/
def zero : StructStat := ⟨0, 0, 0, 0, 0, 0, 0, 0, 0, 0, 0, 0, 0, 0, 0, 0⟩

/-- The values `Send_attr` pushes. -/
def sent (st : StructStat) : List (List Byte) :=
  [leBytes 4 st.stMode.toNat, leBytes 4 st.stUid.toNat, leBytes 4 st.stGid.toNat, leBytes 8 st.stSize.toNat,
   leBytes 8 st.stAtime.toNat, leBytes 8 st.stMtime.toNat, leBytes 8 st.stCtime.toNat, leBytes 8 st.stBlksize.toNat]

/-- The eight fields that travel, in a zeroed structure. -/
def transmitted (st : StructStat) : StructStat :=
  { zero with
    stMode := st.stMode, stUid := st.stUid, stGid := st.stGid, stSize := st.stSize
    stAtime := st.stAtime, stMtime := st.stMtime, stCtime := st.stCtime, stBlksize := st.stBlksize }

/-- `Recv_attr`. -/
def recvAttr : Pop StructStat := do
  let st := zero
  let stMode ← pop32
  let st := { st with stMode := stMode }
  let stUid ← pop32
  let st := { st with stUid := stUid }
  let stGid ← pop32
  let st := { st with stGid := stGid }
  let stSize ← pop64
  let st := { st with stSize := stSize }
  let stAtime ← pop64
  let st := { st with stAtime := stAtime }
  let stMtime ← pop64
  let st := { st with stMtime := stMtime }
  let stCtime ← pop64
  let st := { st with stCtime := stCtime }
  let stBlksize ← pop64
  return { st with stBlksize := stBlksize }

end StructStat

/-- `Send_attr`. -/
def IOTask.sendAttr (t : IOTask) (st : StructStat) : IOTask := st.sent.foldl IOTask.pushBack t

/-! ## What is pushed and popped -/

/-- One push: a value, a string by one of the four overloads (the size given is the string's), or attributes. -/
inductive Item
  | value (bytes : List Byte)
  | string (s : CString)
  | stringUnsigned (s : CString)
  | stringSize (s : CString)
  | stdString (s : CString)
  | attr (st : StructStat)

/-- What is popped. -/
inductive Popped
  | value (bytes : List Byte)
  | string (s : CString)
  | attr (st : StructStat)
deriving DecidableEq

/-- What a pop knows of it beforehand. -/
inductive PopKind
  | value (size : Nat)
  | string
  | attr
deriving DecidableEq

namespace Item

def push (t : IOTask) : Item → IOTask
  | .value bytes => t.pushBack bytes
  | .string s => t.pushBackString s
  | .stringUnsigned s => t.pushBackStringUnsigned s
  | .stringSize s => t.pushBackStringSize s s.bytes.length
  | .stdString s => t.pushBackStdString s
  | .attr st => t.sendAttr st

def kind : Item → PopKind
  | .value bytes => .value bytes.length
  | .string _ | .stringUnsigned _ | .stringSize _ | .stdString _ => .string
  | .attr _ => .attr

/-- What should come out. -/
def popped : Item → Popped
  | .value bytes => .value bytes
  | .string s | .stringUnsigned s | .stringSize s | .stdString s => .string s
  | .attr st => .attr st.transmitted

/-- The bytes the push appends. -/
def encode : Item → List Byte
  | .value bytes => bytes
  | .string s | .stringUnsigned s | .stringSize s | .stdString s => stringBytes s.bytes
  | .attr st => st.sent.flatten

end Item

/-- `pop`, `pop_string` or `Recv_attr`. -/
def popItem : PopKind → Pop Popped
  | .value size => do
      let bytes ← popv size
      return .value bytes
  | .string => do
      let s ← popCString
      return .string s
  | .attr => do
      let st ← StructStat.recvAttr
      return .attr st

def popItems : List PopKind → Pop (List Popped)
  | [] => pure []
  | k :: ks => do
      let x ← popItem k
      let xs ← popItems ks
      return x :: xs

/-- A sequence with a uri last, which is popped as a string. -/
def withUri (items : List Item) (uri : Option CString) : List Item := items ++ (uri.map Item.string).toList

/-- The bytes of a sequence. -/
def encodeItems (items : List Item) : List Byte := items.flatMap Item.encode

/-- A task that is allocated, addressed and filled. -/
def IOTask.fill (t : IOTask) (receiverId : BitVec 32) (items : List Item) (uri : Option CString) : IOTask :=
  let t := items.foldl Item.push (t.reset.setReceiverId receiverId)
  match uri with
  | none => t
  | some uri => t.pushBackUri uri

/-- What is sent: `get_total_message_size` bytes. -/
def IOTask.transmit (t : IOTask) : List Byte := slice t.message 0 t.totalMessageSize

/-- `input_from_network`: the first word is the queue, whose task receives the rest. -/
def inputFromNetwork (tasks : Nat → ReceiveTask) : Conn Byte (Nat × ReceiveTask) := do
  let word ← recvInto 4 4
  let toId := ofLe word
  let t := tasks toId
  let t ← receiveMessage { t with message := patch t.message RECEIVER_ID_OFF word }
  return (toId, t)

/-! ## The array, as it is filled -/

/-- The array of a task that has `l` as its message. -/
structure IOTask.Packed (t : IOTask) (receiverId : BitVec 32) (l : List Byte) : Prop where
  receiver : slice t.message RECEIVER_ID_OFF 4 = leBytes 4 receiverId.toNat
  size : slice t.message MESSAGE_SIZE_OFF 8 = leBytes 8 l.length
  extended : slice t.message EXTENDED_SIZE_OFF 8 = leBytes 8 0
  body : slice t.message MESSAGE_META_OFF l.length = l

namespace IOTask

variable {t : IOTask} {receiverId : BitVec 32} {l : List Byte}

theorem copyToEnd_message (t : IOTask) (bytes : List Byte) :
    (t.copyToEnd bytes).message = patch t.message (MESSAGE_META_OFF + t.messageSize) bytes := by
  unfold copyToEnd store
  dsimp only

/-- What stands before the message stays. -/
theorem slice_copyToEnd (t : IOTask) (bytes : List Byte) {off n : Nat} (h : off + n ≤ MESSAGE_META_OFF + t.messageSize) :
    slice (t.copyToEnd bytes).message off n = slice t.message off n := by
  rw [copyToEnd_message]
  exact slice_patch_outside (.inl h)

/-- The size that is read back after the bytes is still the one before them. -/
theorem copyToEnd_messageSize (t : IOTask) (bytes : List Byte) : (t.copyToEnd bytes).messageSize = t.messageSize := by
  have hbefore : MESSAGE_SIZE_OFF + 8 ≤ MESSAGE_META_OFF + t.messageSize := Nat.le_add_right_of_le (by decide)
  unfold IOTask.messageSize
  rw [slice_copyToEnd t bytes hbefore]

theorem fill_start (t : IOTask) (receiverId : BitVec 32) : Packed (t.reset.setReceiverId receiverId) receiverId [] := by
  have hword : ∀ (f : Nat → Byte) (off n v : Nat), slice (patch f off (leBytes n v)) off n = leBytes n v := by
    intro f off n v
    have h := slice_patch f off (leBytes n v)
    rwa [length_leBytes] at h
  refine ⟨?_, ?_, ?_, rfl⟩
  · exact hword _ RECEIVER_ID_OFF 4 _
  · show slice (patch (patch _ EXTENDED_SIZE_OFF (leBytes 8 0)) RECEIVER_ID_OFF (leBytes 4 receiverId.toNat)) MESSAGE_SIZE_OFF 8 = _
    rw [slice_patch_outside (.inr (by rw [length_leBytes]; decide)), slice_patch_outside (.inl (by decide))]
    exact hword _ MESSAGE_SIZE_OFF 8 0
  · show slice (patch (patch _ EXTENDED_SIZE_OFF (leBytes 8 0)) RECEIVER_ID_OFF (leBytes 4 receiverId.toNat)) EXTENDED_SIZE_OFF 8 = _
    rw [slice_patch_outside (.inr (by rw [length_leBytes]; decide))]
    exact hword _ EXTENDED_SIZE_OFF 8 0

theorem Packed.messageSize (h : Packed t receiverId l) (hsmall : l.length < 256 ^ 8) : t.messageSize = l.length := by
  unfold IOTask.messageSize
  rw [h.size, ofLe_leBytes, Nat.mod_eq_of_lt hsmall]

/-- Bytes go to the end of the message and the size is written: the header has no other change. -/
theorem Packed.append (h : Packed t receiverId l) (hsmall : l.length < 256 ^ 8) (bytes : List Byte) :
    Packed ((t.copyToEnd bytes).setMessageSize (l.length + bytes.length)) receiverId (l ++ bytes) := by
  have hend := h.messageSize hsmall
  -- the header stands before the bytes, the message behind the size
  have hkeep : ∀ {off n : Nat}, off + n ≤ MESSAGE_META_OFF → slice (t.copyToEnd bytes).message off n = slice t.message off n := by
    intro off n hle
    exact slice_copyToEnd t bytes (Nat.le_add_right_of_le hle)
  refine ⟨?_, ?_, ?_, ?_⟩
  · show slice (patch (t.copyToEnd bytes).message MESSAGE_SIZE_OFF (leBytes 8 _)) RECEIVER_ID_OFF 4 = _
    rw [slice_patch_outside (.inl (by decide)), hkeep (by decide)]
    exact h.receiver
  · show slice (patch (t.copyToEnd bytes).message MESSAGE_SIZE_OFF (leBytes 8 _)) MESSAGE_SIZE_OFF 8 = _
    have hword := slice_patch (t.copyToEnd bytes).message MESSAGE_SIZE_OFF (leBytes 8 (l.length + bytes.length))
    rw [length_leBytes] at hword
    rw [hword, List.length_append]
  · show slice (patch (t.copyToEnd bytes).message MESSAGE_SIZE_OFF (leBytes 8 _)) EXTENDED_SIZE_OFF 8 = _
    rw [slice_patch_outside (.inr (by rw [length_leBytes])), hkeep (by decide)]
    exact h.extended
  · show slice (patch (t.copyToEnd bytes).message MESSAGE_SIZE_OFF (leBytes 8 _)) MESSAGE_META_OFF (l ++ bytes).length = _
    rw [slice_patch_outside (.inr (by rw [length_leBytes]; decide)), List.length_append, slice_add]
    have hold : slice (t.copyToEnd bytes).message MESSAGE_META_OFF l.length = l := by
      rw [slice_copyToEnd t bytes (Nat.le_of_eq (by rw [hend]))]
      exact h.body
    have hnew : slice (t.copyToEnd bytes).message (MESSAGE_META_OFF + l.length) bytes.length = bytes := by
      have hpatch := slice_patch t.message (MESSAGE_META_OFF + t.messageSize) bytes
      rw [← copyToEnd_message, hend] at hpatch
      exact hpatch
    rw [hold, hnew]

theorem Packed.doPush (h : Packed t receiverId l) (hsmall : l.length < 256 ^ 8) (bytes : List Byte) :
    Packed (t.doPush bytes) receiverId (l ++ bytes) := by
  unfold IOTask.doPush
  simp only [copyToEnd_messageSize, h.messageSize hsmall]
  exact h.append hsmall bytes

theorem length_cStr (s : CString) : (cStr s).length = strlen s + 1 := by
  unfold cStr strlen
  rw [List.length_append, List.length_singleton]

/-- A length and then the string, as all overloads push them. -/
theorem Packed.pushBackString (h : Packed t receiverId l) (s : CString) (hsmall : l.length + (s.bytes.length + 9) < 256 ^ 8) :
    Packed (t.pushBackString s) receiverId (l ++ stringBytes s.bytes) := by
  have hlen : (l ++ leBytes 8 (strlen s + 1)).length < 256 ^ 8 := by
    rw [List.length_append, length_leBytes]
    omega
  have hpacked := (h.doPush (by omega) (leBytes 8 (strlen s + 1))).doPush hlen ((cStr s).take (strlen s + 1))
  rw [List.take_of_length_le (Nat.le_of_eq (length_cStr s)), List.append_assoc] at hpacked
  have hbytes : stringBytes s.bytes = leBytes 8 (strlen s + 1) ++ cStr s := List.append_assoc _ _ _
  rw [hbytes]
  unfold IOTask.pushBackString IOTask.pushBack
  simp only [List.take_of_length_le (Nat.le_of_eq (length_cStr s))]
  exact hpacked

/-- The uri is pushed as a string is. -/
theorem pushBackUri_eq (t : IOTask) (uri : CString) : t.pushBackUri uri = t.pushBackString uri := by
  have hlen : ((cStr uri).take (strlen uri + 1)).length = strlen uri + 1 := by
    rw [List.length_take, length_cStr, Nat.min_self]
  unfold IOTask.pushBackUri IOTask.pushBackString IOTask.pushBack IOTask.doPush
  simp only [copyToEnd_messageSize, length_leBytes, hlen]

theorem Packed.pushAll (h : Packed t receiverId l) (values : List (List Byte)) (hsmall : l.length + values.flatten.length < 256 ^ 8) :
    Packed (values.foldl IOTask.pushBack t) receiverId (l ++ values.flatten) := by
  induction values generalizing t l with
  | nil =>
      rw [List.flatten_nil, List.append_nil]
      exact h
  | cons bytes values ih =>
      rw [List.flatten_cons, List.length_append] at hsmall
      have hnext : Packed (t.pushBack bytes) receiverId (l ++ bytes) := h.doPush (by omega) bytes
      have hrest := ih hnext (by rw [List.length_append]; omega)
      rw [List.foldl_cons, List.flatten_cons, ← List.append_assoc]
      exact hrest

theorem Packed.push (h : Packed t receiverId l) (item : Item) (hsmall : l.length + item.encode.length < 256 ^ 8) :
    Packed (item.push t) receiverId (l ++ item.encode) := by
  have hstring : ∀ s : CString, item.encode = stringBytes s.bytes → Packed (t.pushBackString s) receiverId (l ++ stringBytes s.bytes) := by
    intro s hs
    rw [hs, length_stringBytes] at hsmall
    exact h.pushBackString s hsmall
  cases item with
  | value bytes => exact h.doPush (Nat.lt_of_le_of_lt (Nat.le_add_right _ _) hsmall) bytes
  | string s => exact hstring s rfl
  | stringUnsigned s => exact hstring s rfl
  | stringSize s => exact hstring s rfl
  | stdString s => exact hstring s rfl
  | attr st => exact h.pushAll st.sent hsmall

theorem Packed.pushItems (h : Packed t receiverId l) (items : List Item) (hsmall : l.length + (items.flatMap Item.encode).length < 256 ^ 8) :
    Packed (items.foldl Item.push t) receiverId (l ++ items.flatMap Item.encode) := by
  induction items generalizing t l with
  | nil =>
      rw [List.flatMap_nil, List.append_nil]
      exact h
  | cons item items ih =>
      rw [List.flatMap_cons, List.length_append] at hsmall
      have hrest := ih (h.push item (by omega)) (by rw [List.length_append]; omega)
      rw [List.foldl_cons, List.flatMap_cons, ← List.append_assoc]
      exact hrest

theorem fill_packed (t : IOTask) (receiverId : BitVec 32) (items : List Item) (uri : Option CString)
    (hsmall : (encodeItems (withUri items uri)).length < 256 ^ 8) :
    Packed (t.fill receiverId items uri) receiverId (encodeItems (withUri items uri)) := by
  have hsplit : encodeItems (withUri items uri) = encodeItems items ++ encodeItems (uri.map Item.string).toList := List.flatMap_append
  rw [hsplit] at hsmall ⊢
  rw [List.length_append] at hsmall
  have hitems : Packed (items.foldl Item.push (t.reset.setReceiverId receiverId)) receiverId (encodeItems items) := by
    have hpushed := (fill_start t receiverId).pushItems items (by rw [List.length_nil]; unfold encodeItems at hsmall; omega)
    rw [List.nil_append] at hpushed
    exact hpushed
  unfold IOTask.fill
  cases uri with
  | none =>
      rw [show encodeItems (Option.map Item.string none).toList = [] from rfl, List.append_nil]
      exact hitems
  | some uri =>
      have huri : encodeItems (Option.map Item.string (some uri)).toList = stringBytes uri.bytes := List.append_nil _
      rw [huri, length_stringBytes] at hsmall
      rw [huri]
      simp only [pushBackUri_eq]
      exact hitems.pushBackString uri hsmall

/-! The id stays. -/

theorem doPush_id (t : IOTask) (bytes : List Byte) : (t.doPush bytes).id = t.id := by
  simp only [doPush, setMessageSize, copyToEnd, store]

theorem pushBackString_id (t : IOTask) (s : CString) : (t.pushBackString s).id = t.id := by
  simp only [pushBackString, pushBack, doPush_id]

theorem pushAll_id (values : List (List Byte)) (t : IOTask) : (values.foldl IOTask.pushBack t).id = t.id := by
  induction values generalizing t with
  | nil => rfl
  | cons bytes values ih =>
      rw [List.foldl_cons, ih]
      exact doPush_id t bytes

theorem push_id (item : Item) (t : IOTask) : (item.push t).id = t.id := by
  cases item with
  | value bytes => exact doPush_id t bytes
  | string s => exact pushBackString_id t s
  | stringUnsigned s => exact pushBackString_id t s
  | stringSize s => exact pushBackString_id t s
  | stdString s => exact pushBackString_id t s
  | attr st => exact pushAll_id st.sent t

theorem pushItems_id (items : List Item) (t : IOTask) : (items.foldl Item.push t).id = t.id := by
  induction items generalizing t with
  | nil => rfl
  | cons item items ih => rw [List.foldl_cons, ih, push_id]

theorem fill_id (t : IOTask) (receiverId : BitVec 32) (items : List Item) (uri : Option CString) :
    (t.fill receiverId items uri).id = t.id := by
  have hstart : (t.reset.setReceiverId receiverId).id = t.id := by
    simp only [reset, setReceiverId, setExtendedDataSize, setMessageSize, store]
  unfold IOTask.fill
  cases uri with
  | none => exact (pushItems_id items _).trans hstart
  | some uri =>
      simp only [pushBackUri_eq, pushBackString_id]
      exact (pushItems_id items _).trans hstart

/-- What is sent: the header, and the message. -/
theorem Packed.transmit (h : Packed t receiverId l) (hsmall : l.length < 256 ^ 8) :
    t.transmit = leBytes 4 receiverId.toNat ++ (leBytes 4 t.id.toNat ++ (leBytes 8 l.length ++ (leBytes 8 0 ++ l))) := by
  have hall : l.length + MESSAGE_META_OFF = 4 + (4 + (8 + (8 + l.length))) := by
    unfold MESSAGE_META_OFF
    omega
  unfold IOTask.transmit IOTask.totalMessageSize
  rw [h.messageSize hsmall, hall, slice_add, slice_add,
    slice_add, slice_add, ← h.receiver, ← t.own, ← h.size, ← h.extended]
  congr 4
  exact h.body

end IOTask

/-! ## The other end -/

/-- The bytes after the first word say how long the message is. -/
theorem bodySize_header (id len : Nat) (rest : List Byte) : bodySize (leBytes 4 id ++ (leBytes 8 len ++ rest)) = len % 256 ^ 8 := by
  unfold bodySize
  rw [List.drop_left' (length_leBytes 4 id), List.take_left' (length_leBytes 8 len), ofLe_leBytes]

theorem extendedSize_header (id len : Nat) (rest : List Byte) :
    extendedSize (leBytes 4 id ++ (leBytes 8 len ++ (leBytes 8 0 ++ rest))) = 0 := by
  unfold extendedSize
  rw [← List.append_assoc, List.drop_left' (by rw [List.length_append, length_leBytes, length_leBytes]),
    List.take_left' (length_leBytes 8 0)]
  exact (ofLe_leBytes 8 0).trans (Nat.zero_mod _)

/-- The message arrives: the queue is the one it was sent to, the reply goes to the queue it came from, and the message stands
    where it is popped. -/
theorem inputFromNetwork_eq (tasks : Nat → ReceiveTask) {receiverId id : BitVec 32} {l more : List Byte} {cs : List (Call Byte)}
    (hroom : l.length ≤ BASIC_MESSAGE_ROOM)
    (harrived : arrived cs = leBytes 4 receiverId.toNat ++ (leBytes 4 id.toNat ++ (leBytes 8 l.length ++ (leBytes 8 0 ++ l))) ++ more) :
    ∃ t rest, inputFromNetwork tasks cs = .ok ((receiverId.toNat, t), rest) ∧ slice t.message RECEIVER_ID_OFF 4 = leBytes 4 id.toNat ∧
      t.messageSize = l.length ∧ t.reader.Ahead l := by
  have hsmall : l.length < 256 ^ 8 := Nat.lt_of_le_of_lt hroom (by decide)
  have henough : 4 ≤ (arrived cs).length := by
    rw [harrived, List.append_assoc, List.length_append, length_leBytes]
    exact Nat.le_add_right _ _
  have hword : recvInto 4 4 cs = .ok (leBytes 4 receiverId.toNat, skip 4 cs) := by
    rw [recvInto_fits (le_refl _), moveAll_enough henough, harrived, List.append_assoc, List.take_left' (length_leBytes 4 _)]
  have hrest : arrived (skip 4 cs) = leBytes 4 id.toNat ++ (leBytes 8 l.length ++ (leBytes 8 0 ++ (l ++ more))) := by
    rw [arrived_skip henough, harrived, List.append_assoc, List.drop_left' (length_leBytes 4 _)]
    simp only [List.append_assoc]
  have hbody : bodySize (arrived (skip 4 cs)) = l.length := by
    rw [hrest, bodySize_header, Nat.mod_eq_of_lt hsmall]
  have hextended : extendedSize (arrived (skip 4 cs)) = 0 := by
    rw [hrest, extendedSize_header]
  have hlength : (arrived (skip 4 cs)).length = RECV_MESSAGE_OFF + l.length + more.length := by
    rw [hrest]
    simp only [List.length_append, length_leBytes]
    unfold RECV_MESSAGE_OFF MESSAGE_META_OFF
    omega
  obtain ⟨t, rest, hmessage, hholds⟩ : ∃ t rest, receiveMessage { tasks receiverId.toNat with
      message := patch (tasks receiverId.toNat).message RECEIVER_ID_OFF (leBytes 4 receiverId.toNat) } (skip 4 cs) = .ok (t, rest) ∧
      Holds t (arrived (skip 4 cs)) :=
    receiveMessage_holds _ (by rw [hbody, hextended, hlength]; omega) (by rw [hbody]; exact hroom)
      (by rw [hextended]; exact Nat.zero_le _)
  refine ⟨t, rest, ?_, ?_, ?_, ⟨?_, ?_⟩⟩
  · have hid : ofLe (leBytes 4 receiverId.toNat) = receiverId.toNat :=
      (ofLe_leBytes 4 receiverId.toNat).trans (Nat.mod_eq_of_lt receiverId.isLt)
    unfold inputFromNetwork
    rw [Conn.bind_ok hword, hid, Conn.bind_ok hmessage]
    rfl
  · show slice t.message 0 4 = _
    rw [hholds.peer, hrest, List.take_left' (length_leBytes 4 _)]
  · have hsizes : slice t.message MESSAGE_SIZE_OFF 8 = leBytes 8 l.length := by
      have hfirst := congrArg (List.take 8) hholds.sizes
      rw [take_slice _ _ (by decide), hrest, List.drop_left' (length_leBytes 4 _), List.take_take, Nat.min_eq_left (by decide),
        List.take_left' (length_leBytes 8 _)] at hfirst
      exact hfirst
    unfold ReceiveTask.messageSize
    rw [hsizes, ofLe_leBytes, Nat.mod_eq_of_lt hsmall]
  · have hmessage := hholds.body
    rw [hbody, hrest] at hmessage
    have hcut : (leBytes 4 id.toNat ++ (leBytes 8 l.length ++ (leBytes 8 0 ++ (l ++ more)))).drop RECV_MESSAGE_OFF = l ++ more := by
      rw [← List.append_assoc, ← List.append_assoc, List.drop_left']
      simp only [List.length_append, length_leBytes]
      rfl
    rw [hcut, List.take_left] at hmessage
    show slice (fun i => t.message (MESSAGE_META_OFF + i)) 0 l.length = l
    refine Eq.trans (slice_congr ?_) hmessage
    intro i _
    rw [Nat.zero_add]
  · show 0 + l.length ≤ BASIC_MESSAGE_ROOM
    rw [Nat.zero_add]
    exact hroom

/-! ## Popping -/

/-- Attributes that were sent, field by field. -/
theorem recvAttr_ahead {r : Reader} {st : StructStat} {rest : List Byte} (h : r.Ahead (st.sent.flatten ++ rest)) :
    StructStat.recvAttr r = some (st.transmitted, r.advance 52) ∧ (r.advance 52).Ahead rest := by
  unfold StructStat.sent at h
  simp only [List.flatten_cons, List.flatten_nil, List.nil_append, List.append_assoc] at h
  obtain ⟨h1, h⟩ := pop32_ahead h
  obtain ⟨h2, h⟩ := pop32_ahead h
  obtain ⟨h3, h⟩ := pop32_ahead h
  obtain ⟨h4, h⟩ := pop64_ahead h
  obtain ⟨h5, h⟩ := pop64_ahead h
  obtain ⟨h6, h⟩ := pop64_ahead h
  obtain ⟨h7, h⟩ := pop64_ahead h
  obtain ⟨h8, h⟩ := pop64_ahead h
  refine ⟨?_, h⟩
  unfold StructStat.recvAttr
  rw [Pop.bind_eq h1, Pop.bind_eq h2, Pop.bind_eq h3, Pop.bind_eq h4, Pop.bind_eq h5, Pop.bind_eq h6, Pop.bind_eq h7,
    Pop.bind_eq h8, Pop.pure_eq]
  rfl

theorem length_sent (st : StructStat) : st.sent.flatten.length = 52 := by
  unfold StructStat.sent
  simp only [List.flatten_cons, List.flatten_nil, List.length_append, List.length_nil, length_leBytes]

/-- A string without a zero byte is popped whole. -/
theorem popString_ahead {r : Reader} {s : CString} {rest : List Byte} (hsmall : s.bytes.length + 1 < 256 ^ 8)
    (h : r.Ahead (stringBytes s.bytes ++ rest)) :
    popCString r = some (s, r.advance (stringBytes s.bytes).length) ∧ (r.advance (stringBytes s.bytes).length).Ahead rest := by
  obtain ⟨⟨bytes, hzero⟩, hpop, hbytes, hrest⟩ := popCString_ahead hsmall h
  obtain ⟨sbytes, hs⟩ := s
  obtain rfl : bytes = sbytes := hbytes.trans (takeWhile_noZero.mpr hs)
  rw [length_stringBytes]
  exact ⟨hpop, hrest⟩

/-- **One pop undoes one push.** -/
theorem popItem_ahead {r : Reader} {item : Item} {rest : List Byte} (hsmall : item.encode.length < 256 ^ 8)
    (h : r.Ahead (item.encode ++ rest)) :
    popItem item.kind r = some (item.popped, r.advance item.encode.length) ∧ (r.advance item.encode.length).Ahead rest := by
  have hstring : ∀ s : CString, item.encode = stringBytes s.bytes →
      popItem .string r = some (.string s, r.advance item.encode.length) ∧ (r.advance item.encode.length).Ahead rest := by
    intro s hs
    rw [hs] at h hsmall ⊢
    rw [length_stringBytes] at hsmall
    obtain ⟨hpop, hrest⟩ := popString_ahead (by omega) h
    refine ⟨?_, hrest⟩
    show (popCString >>= fun s => (pure (.string s) : Pop Popped)) r = _
    rw [Pop.bind_eq hpop]
    rfl
  cases item with
  | value bytes =>
      obtain ⟨hpop, hrest⟩ := popv_ahead (show r.Ahead (bytes ++ rest) from h)
      refine ⟨?_, hrest⟩
      show (popv bytes.length >>= fun bytes => (pure (.value bytes) : Pop Popped)) r = _
      rw [Pop.bind_eq hpop]
      rfl
  | string s => exact hstring s rfl
  | stringUnsigned s => exact hstring s rfl
  | stringSize s => exact hstring s rfl
  | stdString s => exact hstring s rfl
  | attr st =>
      obtain ⟨hpop, hrest⟩ := recvAttr_ahead (show r.Ahead (st.sent.flatten ++ rest) from h)
      rw [show (Item.attr st).encode.length = 52 from length_sent st]
      refine ⟨?_, hrest⟩
      show (StructStat.recvAttr >>= fun st => (pure (.attr st) : Pop Popped)) r = _
      rw [Pop.bind_eq hpop]
      rfl

/-- All pops undo all pushes, in the same order. -/
theorem popItems_ahead : ∀ {items : List Item} {r : Reader} {rest : List Byte}, (encodeItems items).length < 256 ^ 8 →
    r.Ahead (encodeItems items ++ rest) →
    popItems (items.map Item.kind) r = some (items.map Item.popped, r.advance (encodeItems items).length)
  | [], r, rest, _, _ => rfl
  | item :: items, r, rest, hsmall, h => by
      have hcons : encodeItems (item :: items) = item.encode ++ encodeItems items := List.flatMap_cons
      rw [hcons, List.length_append] at hsmall
      rw [hcons, List.append_assoc] at h
      obtain ⟨hpop, hrest⟩ := popItem_ahead (by omega) h
      have hpops := popItems_ahead (by omega) hrest
      rw [hcons, List.map_cons, List.map_cons, List.length_append, ← Reader.advance_advance]
      unfold popItems
      rw [Pop.bind_eq hpop, Pop.bind_eq hpops]
      rfl

/-- **Popping undoes pushing.** A task is allocated on a queue, with whatever its array held, and filled with any sequence of
    values, strings and attributes that has room, and a uri after them or not. However its bytes arrive, the queue it was sent
    to gets a task whose pops give what was pushed, to the end of the message, and whose receiver is the queue of the sender. -/
theorem pop_undoes_push (task : IOTask) (receiverId : BitVec 32) (items : List Item) (uri : Option CString)
    (hroom : (encodeItems (withUri items uri)).length ≤ BASIC_MESSAGE_ROOM) (tasks : Nat → ReceiveTask) {cs : List (Call Byte)}
    {more : List Byte} (harrived : arrived cs = (task.fill receiverId items uri).transmit ++ more) :
    ∃ t rest r, inputFromNetwork tasks cs = .ok ((receiverId.toNat, t), rest) ∧
      popItems ((withUri items uri).map Item.kind) t.reader = some ((withUri items uri).map Item.popped, r) ∧
      r.point = t.messageSize ∧ slice t.message RECEIVER_ID_OFF 4 = leBytes 4 task.id.toNat := by
  have hsmall : (encodeItems (withUri items uri)).length < 256 ^ 8 := Nat.lt_of_le_of_lt hroom (by decide)
  have hsent := (IOTask.fill_packed task receiverId items uri hsmall).transmit hsmall
  rw [hsent, IOTask.fill_id] at harrived
  obtain ⟨t, rest, hreceived, hpeer, hsize, hahead⟩ := inputFromNetwork_eq tasks hroom harrived
  rw [← List.append_nil (encodeItems (withUri items uri))] at hahead
  refine ⟨t, rest, _, hreceived, popItems_ahead hsmall hahead, ?_, hpeer⟩
  show 0 + (encodeItems (withUri items uri)).length = t.messageSize
  rw [Nat.zero_add, hsize]

/-- An int, a string, attributes and a uri, which arrive byte by byte. -/
theorem pop_undoes_push_bytewise :
    let items : List Item := [.value [7, 0, 0, 0], .stdString ⟨[47, 97], by decide⟩, .attr { StructStat.zero with stSize := 5, stBlocks := 9 }]
    let uri : CString := ⟨[49], by decide⟩
    ∃ t rest r, inputFromNetwork (fun _ => ⟨1, fun _ => 255, fun _ => 255⟩)
        (((IOTask.create 3).fill 1 items (some uri)).transmit.map (fun b => .moved b [])) = .ok ((1, t), rest) ∧
      popItems [.value 4, .string, .attr, .string] t.reader = some ([.value [7, 0, 0, 0], .string ⟨[47, 97], by decide⟩,
        .attr { StructStat.zero with stSize := 5 }, .string uri], r) ∧
      r.point = t.messageSize ∧ slice t.message RECEIVER_ID_OFF 4 = [3, 0, 0, 0] :=
  pop_undoes_push (IOTask.create 3) 1
    [.value [7, 0, 0, 0], .stdString ⟨[47, 97], by decide⟩, .attr { StructStat.zero with stSize := 5, stBlocks := 9 }]
    (some ⟨[49], by decide⟩) (by decide) _ (by rw [arrived_singles, List.append_nil])

end HuronFS
