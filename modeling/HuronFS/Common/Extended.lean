import HuronFS.Common.RoundTrip

/-!
# `Common.Extended` — a message and its send buffers, among others on a connection

A task is pushed to in two ways: onto its message (`Common.RoundTrip`), and with `push_send_buffer`, which keeps the pointer and
adds to the extended size in the header. `send` puts out the message and, when that size is not zero, the buffers; the receiver
reads the size from the header and takes as many bytes after the message into its own buffer. Nothing marks where a message ends,
so the next one is found only if each is taken to its last byte.

A buffer is given by the bytes it holds when it is sent.
-/

namespace HuronFS

open Region Wire Chunks Tcp

/-- One push: onto the message, or of a send buffer. -/
inductive Push
  | item (x : Item)
  | buffer (bytes : List Byte)

namespace Push

/-- What goes onto the message. -/
def items (pushes : List Push) : List Item := pushes.filterMap fun
  | .item x => some x
  | .buffer _ => none

/-- What goes out after it. -/
def buffers (pushes : List Push) : List (List Byte) := pushes.filterMap fun
  | .item _ => none
  | .buffer bytes => some bytes

@[simp] theorem items_item (x : Item) (l : List Push) : items (.item x :: l) = x :: items l := rfl
@[simp] theorem items_buffer (bytes : List Byte) (l : List Push) : items (.buffer bytes :: l) = items l := rfl
@[simp] theorem buffers_nil : buffers [] = [] := rfl
@[simp] theorem buffers_item (x : Item) (l : List Push) : buffers (.item x :: l) = buffers l := rfl
@[simp] theorem buffers_buffer (bytes : List Byte) (l : List Push) : buffers (.buffer bytes :: l) = bytes :: buffers l := rfl

end Push

/-- `get_extended_data_size`. -/
def IOTask.extendedDataSize (t : IOTask) : Nat := ofLe (slice t.message EXTENDED_SIZE_OFF 8)

/-- `extended_IO_task`, where it is filled to be sent. -/
structure ExtendedIOTask where
  task : IOTask
  sendBuffer : List (List Byte)

namespace ExtendedIOTask

/-- `push_send_buffer`. -/
def pushSendBuffer (t : ExtendedIOTask) (bytes : List Byte) : ExtendedIOTask where
  task := t.task.setExtendedDataSize (t.task.extendedDataSize + bytes.length)
  sendBuffer := t.sendBuffer ++ [bytes]

def push (t : ExtendedIOTask) : Push → ExtendedIOTask
  | .item x => { t with task := x.push t.task }
  | .buffer bytes => t.pushSendBuffer bytes

/-- A task that is allocated, addressed and filled. -/
def fill (t : IOTask) (receiverId : BitVec 32) (pushes : List Push) : ExtendedIOTask :=
  pushes.foldl push ⟨t.reset.setReceiverId receiverId, []⟩

/-- `Send_large`, buffer by buffer: what is put out. -/
def sendLarge : List (List Byte) → Conn Unit (List Byte)
  | [] => pure []
  | bytes :: rest => do
      let (_, sent) ← doSend bytes
      let more ← sendLarge rest
      return sent ++ more

/-- `CBB_communication_thread::send`: what is put out. -/
def send (t : ExtendedIOTask) : Conn Unit (List Byte) := do
  let (_, sent) ← doSend t.task.transmit
  if t.task.extendedDataSize ≠ 0 then
    let more ← sendLarge t.sendBuffer
    return sent ++ more
  else
    return sent

end ExtendedIOTask

/-! ## What a buffer changes of the message -/

namespace IOTask

/-- Two tasks that differ in the extended size at most. -/
structure SameMessage (t u : IOTask) : Prop where
  id : t.id = u.id
  message : ∀ i, i < EXTENDED_SIZE_OFF ∨ MESSAGE_META_OFF ≤ i → t.message i = u.message i

variable {t u : IOTask}

theorem SameMessage.refl (t : IOTask) : SameMessage t t := ⟨rfl, fun _ _ => rfl⟩

theorem SameMessage.slice (h : SameMessage t u) (off n : Nat) (hout : off + n ≤ EXTENDED_SIZE_OFF ∨ MESSAGE_META_OFF ≤ off) :
    slice t.message off n = slice u.message off n := by
  refine slice_congr fun i hi => h.message _ ?_
  omega

theorem SameMessage.messageSize (h : SameMessage t u) : t.messageSize = u.messageSize :=
  congrArg ofLe (h.slice _ _ (.inl (Nat.le_refl _)))

theorem patch_congr {f g : Nat → Byte} {off i : Nat} {l : List Byte} (h : f i = g i) : patch f off l i = patch g off l i := by
  unfold patch
  rw [h]

theorem SameMessage.doPush (h : SameMessage t u) (bytes : List Byte) : SameMessage (t.doPush bytes) (u.doPush bytes) := by
  refine ⟨?_, fun i hi => ?_⟩
  · rw [doPush_id, doPush_id]
    exact h.id
  · have hsize := h.messageSize
    simp only [IOTask.doPush, setMessageSize, store, copyToEnd_messageSize, copyToEnd_message, hsize]
    exact patch_congr (patch_congr (h.message i hi))

theorem SameMessage.pushAll (h : SameMessage t u) (values : List (List Byte)) :
    SameMessage (values.foldl pushBack t) (values.foldl pushBack u) := by
  induction values generalizing t u with
  | nil => exact h
  | cons bytes values ih =>
      have hnext : SameMessage (t.pushBack bytes) (u.pushBack bytes) := h.doPush bytes
      rw [List.foldl_cons, List.foldl_cons]
      exact ih hnext

theorem SameMessage.pushBackString (h : SameMessage t u) (s : CString) : SameMessage (t.pushBackString s) (u.pushBackString s) := by
  unfold IOTask.pushBackString IOTask.pushBack
  exact (h.doPush _).doPush _

theorem SameMessage.push (h : SameMessage t u) (x : Item) : SameMessage (x.push t) (x.push u) := by
  cases x with
  | value bytes => exact h.doPush bytes
  | string s => exact h.pushBackString s
  | stringUnsigned s => exact h.pushBackString s
  | stringSize s => exact h.pushBackString s
  | stdString s => exact h.pushBackString s
  | attr st => exact h.pushAll st.sent

theorem SameMessage.setExtendedDataSize (h : SameMessage t u) (n : Nat) : SameMessage (t.setExtendedDataSize n) u := by
  refine ⟨h.id, fun i hi => ?_⟩
  show patch t.message EXTENDED_SIZE_OFF (leBytes 8 n) i = u.message i
  rw [patch_outside (by rw [length_leBytes]; exact hi)]
  exact h.message i hi

/-- The extended size stands apart from the message. -/
theorem slice_extended_doPush (t : IOTask) (bytes : List Byte) :
    slice (t.doPush bytes).message EXTENDED_SIZE_OFF 8 = slice t.message EXTENDED_SIZE_OFF 8 := by
  show slice (patch (t.copyToEnd bytes).message MESSAGE_SIZE_OFF (leBytes 8 _)) EXTENDED_SIZE_OFF 8 = _
  have hbefore : EXTENDED_SIZE_OFF + 8 ≤ MESSAGE_META_OFF + t.messageSize := Nat.le_add_right_of_le (by decide)
  rw [slice_patch_outside (.inr (by rw [length_leBytes])), slice_copyToEnd t bytes hbefore]

theorem slice_extended_pushAll (values : List (List Byte)) (t : IOTask) :
    slice (values.foldl pushBack t).message EXTENDED_SIZE_OFF 8 = slice t.message EXTENDED_SIZE_OFF 8 := by
  induction values generalizing t with
  | nil => rfl
  | cons bytes values ih =>
      rw [List.foldl_cons, ih]
      exact slice_extended_doPush t bytes

theorem slice_extended_pushBackString (s : CString) (t : IOTask) :
    slice (t.pushBackString s).message EXTENDED_SIZE_OFF 8 = slice t.message EXTENDED_SIZE_OFF 8 := by
  unfold IOTask.pushBackString IOTask.pushBack
  rw [slice_extended_doPush, slice_extended_doPush]

theorem slice_extended_push (x : Item) (t : IOTask) :
    slice (x.push t).message EXTENDED_SIZE_OFF 8 = slice t.message EXTENDED_SIZE_OFF 8 := by
  cases x with
  | value bytes => exact slice_extended_doPush t bytes
  | string s => exact slice_extended_pushBackString s t
  | stringUnsigned s => exact slice_extended_pushBackString s t
  | stringSize s => exact slice_extended_pushBackString s t
  | stdString s => exact slice_extended_pushBackString s t
  | attr st => exact slice_extended_pushAll st.sent t

end IOTask

namespace ExtendedIOTask

/-- A task with some pushes behind it: its message is that of the items alone, and its buffers are counted. -/
structure Loaded (t : ExtendedIOTask) (u : IOTask) (bs : List (List Byte)) : Prop where
  same : t.task.SameMessage u
  size : slice t.task.message EXTENDED_SIZE_OFF 8 = leBytes 8 bs.flatten.length
  buffers : t.sendBuffer = bs

variable {t : ExtendedIOTask} {u : IOTask} {bs : List (List Byte)}

theorem Loaded.extendedDataSize (h : Loaded t u bs) (hsmall : bs.flatten.length < 256 ^ 8) :
    t.task.extendedDataSize = bs.flatten.length := by
  unfold IOTask.extendedDataSize
  rw [h.size, ofLe_leBytes, Nat.mod_eq_of_lt hsmall]

theorem Loaded.item (h : Loaded t u bs) (x : Item) : Loaded (t.push (.item x)) (x.push u) bs where
  same := h.same.push x
  size := (IOTask.slice_extended_push x t.task).trans h.size
  buffers := h.buffers

theorem Loaded.buffer (h : Loaded t u bs) {bytes : List Byte} (hsmall : bs.flatten.length < 256 ^ 8) :
    Loaded (t.push (.buffer bytes)) u (bs ++ [bytes]) where
  same := h.same.setExtendedDataSize _
  size := by
    have hword := slice_patch t.task.message EXTENDED_SIZE_OFF (leBytes 8 (t.task.extendedDataSize + bytes.length))
    rw [length_leBytes, h.extendedDataSize hsmall] at hword
    show slice (patch t.task.message EXTENDED_SIZE_OFF (leBytes 8 (t.task.extendedDataSize + bytes.length))) EXTENDED_SIZE_OFF 8 = _
    rw [h.extendedDataSize hsmall, hword, List.flatten_append, List.length_append, List.flatten_singleton]
  buffers := by
    show t.sendBuffer ++ [bytes] = bs ++ [bytes]
    rw [h.buffers]

/-- However items and buffers are mixed. -/
theorem Loaded.pushes (pushes : List Push) (h : Loaded t u bs) (hsmall : (bs ++ Push.buffers pushes).flatten.length < 256 ^ 8) :
    Loaded (pushes.foldl push t) ((Push.items pushes).foldl Item.push u) (bs ++ Push.buffers pushes) := by
  induction pushes generalizing t u bs with
  | nil =>
      rw [Push.buffers_nil, List.append_nil]
      exact h
  | cons p pushes ih =>
      rw [List.foldl_cons]
      cases p with
      | item x => exact ih (h.item x) hsmall
      | buffer bytes =>
          rw [Push.buffers_buffer, List.append_cons] at hsmall ⊢
          refine ih (h.buffer ?_) hsmall
          rw [List.append_assoc, List.flatten_append, List.length_append] at hsmall
          omega

/-- What a filled task is. -/
theorem fill_loaded (t : IOTask) (receiverId : BitVec 32) (pushes : List Push) (hsmall : (Push.buffers pushes).flatten.length < 256 ^ 8) :
    Loaded (fill t receiverId pushes) (t.fill receiverId (Push.items pushes) none) (Push.buffers pushes) := by
  have hstart : Loaded ⟨t.reset.setReceiverId receiverId, []⟩ (t.reset.setReceiverId receiverId) [] :=
    ⟨.refl _, (IOTask.fill_start t receiverId).extended, rfl⟩
  exact hstart.pushes pushes hsmall

/-- The bytes of a task on a connection: the header, the message and the buffers. -/
def wireBytes (receiverId id : BitVec 32) (pushes : List Push) : List Byte :=
  leBytes 4 receiverId.toNat ++ (leBytes 4 id.toNat ++ (leBytes 8 (encodeItems (Push.items pushes)).length ++
    (leBytes 8 (Push.buffers pushes).flatten.length ++ (encodeItems (Push.items pushes) ++ (Push.buffers pushes).flatten))))

/-- What has room in the message and in the receive buffer. -/
structure Fits (pushes : List Push) : Prop where
  message : (encodeItems (Push.items pushes)).length ≤ BASIC_MESSAGE_ROOM
  buffers : (Push.buffers pushes).flatten.length ≤ MAX_TRANSFER_SIZE

instance (pushes : List Push) : Decidable (Fits pushes) :=
  decidable_of_iff (_ ∧ _) ⟨fun h => ⟨h.1, h.2⟩, fun h => ⟨h.message, h.buffers⟩⟩

variable {pushes : List Push} {receiverId id : BitVec 32}

theorem Fits.message_small (h : Fits pushes) : (encodeItems (Push.items pushes)).length < 256 ^ 8 :=
  Nat.lt_of_le_of_lt h.message (by decide)

theorem Fits.buffers_small (h : Fits pushes) : (Push.buffers pushes).flatten.length < 256 ^ 8 :=
  Nat.lt_of_le_of_lt h.buffers (by decide)

/-- The message of a filled task, with its header. -/
theorem fill_transmit (t : IOTask) (receiverId : BitVec 32) (h : Fits pushes) :
    (fill t receiverId pushes).task.transmit ++ (Push.buffers pushes).flatten = wireBytes receiverId t.id pushes := by
  have hloaded := fill_loaded t receiverId pushes h.buffers_small
  have hpacked : (t.fill receiverId (Push.items pushes) none).Packed receiverId (encodeItems (Push.items pushes)) := by
    have hall := IOTask.fill_packed t receiverId (Push.items pushes) none
      (by rw [show withUri (Push.items pushes) none = Push.items pushes from List.append_nil _]; exact h.message_small)
    rwa [show withUri (Push.items pushes) none = Push.items pushes from List.append_nil _] at hall
  have hsize := hloaded.same.messageSize
  rw [hpacked.messageSize h.message_small] at hsize
  have hall : (encodeItems (Push.items pushes)).length + MESSAGE_META_OFF = 4 + (4 + (8 + (8 + (encodeItems (Push.items pushes)).length))) := by
    unfold MESSAGE_META_OFF
    omega
  have hid : slice (fill t receiverId pushes).task.message SENDER_ID_OFF 4 = leBytes 4 t.id.toNat := by
    rw [(fill t receiverId pushes).task.own, hloaded.same.id, IOTask.fill_id]
  unfold IOTask.transmit IOTask.totalMessageSize wireBytes
  -- field by field; all but the extended size are those of the task without buffers
  rw [hsize, hall, slice_add, slice_add, slice_add, slice_add, ← hpacked.receiver, ← hid, ← hpacked.size, ← hloaded.size,
    ← hloaded.same.slice RECEIVER_ID_OFF 4 (.inl (by decide)),
    ← hloaded.same.slice MESSAGE_SIZE_OFF 8 (.inl (by decide))]
  have hbody : slice (fill t receiverId pushes).task.message MESSAGE_META_OFF (encodeItems (Push.items pushes)).length =
      encodeItems (Push.items pushes) := by
    rw [hloaded.same.slice _ _ (.inr (Nat.le_refl _))]
    exact hpacked.body
  have hoff : 0 + 4 + 4 + 8 + 8 = MESSAGE_META_OFF := rfl
  rw [hoff, hbody]
  simp only [List.append_assoc]

/-! ## Sending -/

theorem doSend_enough {buffer : List Byte} {cs : List (Chunks.Call Unit)} (h : buffer.length ≤ (arrived cs).length) :
    doSend buffer cs = .ok ((buffer.length, buffer), skip buffer.length cs) := by
  unfold doSend
  rw [Conn.bind_ok (moveAll_enough h), List.length_take_of_le h, List.take_length]
  rfl

theorem sendLarge_enough (bs : List (List Byte)) (cs : List (Chunks.Call Unit)) (h : bs.flatten.length ≤ (arrived cs).length) :
    ∃ rest, sendLarge bs cs = .ok (bs.flatten, rest) := by
  induction bs generalizing cs with
  | nil => exact ⟨cs, rfl⟩
  | cons bytes bs ih =>
      rw [List.flatten_cons, List.length_append] at h
      have hbytes : bytes.length ≤ (arrived cs).length := by omega
      obtain ⟨rest, hrest⟩ := ih (skip bytes.length cs) (by rw [arrived_skip hbytes, List.length_drop]; omega)
      refine ⟨rest, ?_⟩
      unfold sendLarge
      rw [Conn.bind_ok (doSend_enough hbytes)]
      exact (Conn.bind_ok hrest).trans rfl

/-- **A task is put out whole**, in whatever pieces, when the connection takes all of it. -/
theorem send_enough (t : IOTask) (receiverId : BitVec 32) (h : Fits pushes) {cs : List (Chunks.Call Unit)}
    (hcs : (wireBytes receiverId t.id pushes).length ≤ (arrived cs).length) :
    ∃ rest, (fill t receiverId pushes).send cs = .ok (wireBytes receiverId t.id pushes, rest) := by
  have hloaded := fill_loaded t receiverId pushes h.buffers_small
  have hbytes := fill_transmit t receiverId h
  have hlength := congrArg List.length hbytes
  rw [List.length_append] at hlength
  have hmessage : (fill t receiverId pushes).task.transmit.length ≤ (arrived cs).length := by omega
  unfold send
  rw [Conn.bind_ok (doSend_enough hmessage), hloaded.extendedDataSize h.buffers_small, hloaded.buffers]
  by_cases hzero : (Push.buffers pushes).flatten.length = 0
  · -- no buffers, or empty ones: the message is all
    rw [List.length_eq_zero_iff.mp hzero, List.append_nil] at hbytes
    refine ⟨skip (fill t receiverId pushes).task.transmit.length cs, ?_⟩
    simp only [hzero, ne_eq, not_true_eq_false, if_false]
    rw [hbytes]
    rfl
  · obtain ⟨rest, hrest⟩ := sendLarge_enough (Push.buffers pushes) (skip (fill t receiverId pushes).task.transmit.length cs)
      (by rw [arrived_skip hmessage, List.length_drop]; omega)
    refine ⟨rest, ?_⟩
    simp only [ne_eq, hzero, not_false_eq_true, if_true]
    rw [Conn.bind_ok hrest, hbytes]
    rfl

end ExtendedIOTask

/-! ## Receiving -/

namespace Tcp

/-- Parts that all arrive, and fit, are taken off the front and nothing more. -/
theorem recvAll_enough (layout : List (Nat × Nat)) (cs : List (Chunks.Call Byte)) (hfits : ∀ p ∈ layout, p.2 ≤ p.1)
    (henough : (layout.map Prod.snd).sum ≤ (arrived cs).length) :
    ∃ xs rest, recvAll layout cs = .ok (xs, rest) ∧ arrived rest = (arrived cs).drop (layout.map Prod.snd).sum := by
  induction layout generalizing cs with
  | nil => exact ⟨[], cs, rfl, rfl⟩
  | cons p layout ih =>
      obtain ⟨room, size⟩ := p
      rw [List.map_cons, List.sum_cons] at henough ⊢
      have hfirst : size ≤ (arrived cs).length := by
        simp only at henough
        omega
      have hrecv : recvInto room size cs = .ok ((arrived cs).take size, skip size cs) := by
        rw [recvInto_fits (hfits (room, size) List.mem_cons_self)]
        exact moveAll_enough hfirst
      obtain ⟨xs, rest, hrest, harrived⟩ := ih (skip size cs) (fun p hp => hfits p (List.mem_cons_of_mem _ hp))
        (by rw [arrived_skip hfirst, List.length_drop]; simp only at henough; omega)
      refine ⟨(arrived cs).take size :: xs, rest, ?_, ?_⟩
      · rw [recvAll_ok hrecv, hrest]
        rfl
      · rw [harrived, arrived_skip hfirst, List.drop_drop]

/-- A message that arrives, and fits, is received, and the next one is in front. -/
theorem receiveMessage_enough (t : ReceiveTask) {cs : List (Chunks.Call Byte)}
    (hall : RECV_MESSAGE_OFF + bodySize (arrived cs) + extendedSize (arrived cs) ≤ (arrived cs).length)
    (hbody : bodySize (arrived cs) ≤ BASIC_MESSAGE_ROOM) (hextended : extendedSize (arrived cs) ≤ MAX_TRANSFER_SIZE) :
    ∃ t' rest, receiveMessage t cs = .ok (t', rest) ∧ Holds t' (arrived cs) ∧
      arrived rest = (arrived cs).drop (RECV_MESSAGE_OFF + bodySize (arrived cs) + extendedSize (arrived cs)) := by
  obtain ⟨t', rest, hmessage, hholds⟩ := receiveMessage_holds t hall hbody hextended
  refine ⟨t', rest, hmessage, hholds, ?_⟩
  have hheader : RECV_MESSAGE_OFF ≤ (arrived cs).length := by omega
  have hsum : ((messageLayout t cs).map Prod.snd).sum = RECV_MESSAGE_OFF + bodySize (arrived cs) + extendedSize (arrived cs) := by
    unfold messageLayout
    rw [messageSize_headed hheader, extendedDataSize_headed hheader]
    simp only [List.map_cons, List.map_nil, List.sum_cons, List.sum_nil]
    omega
  have hfits : ∀ p ∈ messageLayout t cs, p.2 ≤ p.1 := by
    unfold messageLayout
    rw [messageSize_headed hheader, extendedDataSize_headed hheader]
    simp only [List.forall_mem_cons, List.not_mem_nil, false_implies, implies_true, and_true]
    exact ⟨Nat.le_refl _, hbody, hextended⟩
  obtain ⟨xs, rest', hrecv, harrived⟩ := recvAll_enough (messageLayout t cs) _ hfits (by rw [hsum]; exact hall)
  rw [receiveMessage_eq, hrecv] at hmessage
  obtain ⟨-, rfl⟩ := Prod.mk.inj (Except.ok.inj hmessage)
  rw [harrived, hsum]

/-- What a received task gives: its pops undo the pushes to the end of the message, its receive buffer has what the send buffers
    held, and a reply to it goes to the queue of the sender. -/
structure ReceiveTask.Carries (t : ReceiveTask) (id : BitVec 32) (pushes : List Push) : Prop where
  popped : ∃ r, popItems ((Push.items pushes).map Item.kind) t.reader = some ((Push.items pushes).map Item.popped, r) ∧
    r.point = t.messageSize
  extended : t.extendedDataSize = (Push.buffers pushes).flatten.length
  buffer : slice t.receiveBuffer 0 t.extendedDataSize = (Push.buffers pushes).flatten
  peer : slice t.message RECEIVER_ID_OFF 4 = leBytes 4 id.toNat

end Tcp

section Header

variable (id len ext : Nat) (rest : List Byte)

/-- What follows the first word says how long the two parts are. -/
theorem extendedSize_word : extendedSize (leBytes 4 id ++ (leBytes 8 len ++ (leBytes 8 ext ++ rest))) = ext % 256 ^ 8 := by
  unfold extendedSize
  rw [← List.append_assoc, List.drop_left' (by rw [List.length_append, length_leBytes, length_leBytes]),
    List.take_left' (length_leBytes 8 ext), ofLe_leBytes]

/-- The header ends where the message begins. -/
theorem drop_header : (leBytes 4 id ++ (leBytes 8 len ++ (leBytes 8 ext ++ rest))).drop RECV_MESSAGE_OFF = rest := by
  rw [← List.append_assoc, ← List.append_assoc, List.drop_left']
  simp only [List.length_append, length_leBytes]
  rfl

/-- The two sizes. -/
theorem take_sizes : ((leBytes 4 id ++ (leBytes 8 len ++ (leBytes 8 ext ++ rest))).drop 4).take 16 = leBytes 8 len ++ leBytes 8 ext := by
  rw [List.drop_left' (length_leBytes 4 id), ← List.append_assoc, List.take_left']
  rw [List.length_append, length_leBytes, length_leBytes]

end Header

/-- **A message is taken to its last byte**: the queue it was sent to gets a task that carries it, and what stands behind it on the
    connection is in front now. -/
theorem inputFromNetwork_wire (tasks : Nat → ReceiveTask) {receiverId id : BitVec 32} {pushes : List Push}
    (h : ExtendedIOTask.Fits pushes) {cs : List (Chunks.Call Byte)} {more : List Byte}
    (harrived : arrived cs = ExtendedIOTask.wireBytes receiverId id pushes ++ more) :
    ∃ t rest, inputFromNetwork tasks cs = .ok ((receiverId.toNat, t), rest) ∧ arrived rest = more ∧ t.Carries id pushes := by
  unfold ExtendedIOTask.wireBytes at harrived
  obtain ⟨l, hl⟩ : ∃ l, l = encodeItems (Push.items pushes) := ⟨_, rfl⟩
  obtain ⟨e, he⟩ : ∃ e, e = (Push.buffers pushes).flatten := ⟨_, rfl⟩
  have hmessage := h.message
  have hbuffers := h.buffers
  have hsmall := h.message_small
  have hesmall := h.buffers_small
  rw [← hl, ← he] at harrived
  rw [← hl] at hmessage hsmall
  rw [← he] at hbuffers hesmall
  -- the first word
  have henough : 4 ≤ (arrived cs).length := by
    rw [harrived, List.append_assoc, List.length_append, length_leBytes]
    exact Nat.le_add_right _ _
  have hword : recvInto 4 4 cs = .ok (leBytes 4 receiverId.toNat, skip 4 cs) := by
    rw [recvInto_fits (le_refl _), moveAll_enough henough, harrived, List.append_assoc, List.take_left' (length_leBytes 4 _)]
  have hrest : arrived (skip 4 cs) =
      leBytes 4 id.toNat ++ (leBytes 8 l.length ++ (leBytes 8 e.length ++ (l ++ (e ++ more)))) := by
    rw [arrived_skip henough, harrived, List.append_assoc, List.drop_left' (length_leBytes 4 _)]
    simp only [List.append_assoc]
  -- the rest of the header, and the two parts
  have hbody : bodySize (arrived (skip 4 cs)) = l.length := by
    rw [hrest, bodySize_header, Nat.mod_eq_of_lt hsmall]
  have hextended : extendedSize (arrived (skip 4 cs)) = e.length := by
    rw [hrest, extendedSize_word, Nat.mod_eq_of_lt hesmall]
  have hlength : (arrived (skip 4 cs)).length = RECV_MESSAGE_OFF + l.length + e.length + more.length := by
    rw [hrest]
    simp only [List.length_append, length_leBytes]
    unfold RECV_MESSAGE_OFF MESSAGE_META_OFF
    omega
  obtain ⟨t, rest, hreceived, hholds, hdrop⟩ : ∃ t rest, receiveMessage { tasks receiverId.toNat with
      message := patch (tasks receiverId.toNat).message RECEIVER_ID_OFF (leBytes 4 receiverId.toNat) } (skip 4 cs) = .ok (t, rest) ∧
      Holds t (arrived (skip 4 cs)) ∧ arrived rest = (arrived (skip 4 cs)).drop
        (RECV_MESSAGE_OFF + bodySize (arrived (skip 4 cs)) + extendedSize (arrived (skip 4 cs))) :=
    receiveMessage_enough _ (by rw [hbody, hextended, hlength]; omega) (by rw [hbody]; exact hmessage)
      (by rw [hextended]; exact hbuffers)
  rw [hbody, hextended, hrest, ← List.drop_drop, ← List.drop_drop, drop_header, List.drop_left, List.drop_left] at hdrop
  have hsizes := hholds.sizes
  rw [hrest, take_sizes] at hsizes
  have hsize : t.messageSize = l.length := by
    have hfirst := congrArg (List.take 8) hsizes
    rw [take_slice _ _ (by decide), List.take_left' (length_leBytes 8 _)] at hfirst
    unfold ReceiveTask.messageSize
    rw [hfirst, ofLe_leBytes, Nat.mod_eq_of_lt hsmall]
  have hextendedSize : t.extendedDataSize = e.length := by
    have hlast := congrArg (List.drop 8) hsizes
    rw [show (16 : Nat) = 8 + 8 from rfl, drop_slice, List.drop_left' (length_leBytes 8 _)] at hlast
    unfold ReceiveTask.extendedDataSize
    rw [show EXTENDED_SIZE_OFF = MESSAGE_SIZE_OFF + 8 from rfl, hlast, ofLe_leBytes, Nat.mod_eq_of_lt hesmall]
  have hahead : t.reader.Ahead (l ++ []) := by
    have hmess := hholds.body
    rw [hbody, hrest, drop_header, List.take_left] at hmess
    rw [List.append_nil]
    refine ⟨?_, ?_⟩
    · show slice (fun i => t.message (MESSAGE_META_OFF + i)) 0 l.length = l
      refine Eq.trans (slice_congr ?_) hmess
      intro i _
      rw [Nat.zero_add]
    · show 0 + l.length ≤ BASIC_MESSAGE_ROOM
      rw [Nat.zero_add]
      exact hmessage
  rw [hl] at hahead
  refine ⟨t, rest, ?_, hdrop, ⟨?_, ?_, ?_, ?_⟩⟩
  · have hid : ofLe (leBytes 4 receiverId.toNat) = receiverId.toNat :=
      (ofLe_leBytes 4 receiverId.toNat).trans (Nat.mod_eq_of_lt receiverId.isLt)
    unfold inputFromNetwork
    rw [Conn.bind_ok hword, hid, Conn.bind_ok hreceived]
    rfl
  · refine ⟨_, popItems_ahead h.message_small hahead, ?_⟩
    show 0 + (encodeItems (Push.items pushes)).length = t.messageSize
    rw [Nat.zero_add, hsize, hl]
  · rw [hextendedSize, he]
  · have hbuffer := hholds.extended
    rw [hextended, hbody, hrest, ← List.drop_drop, drop_header, List.drop_left, List.take_left] at hbuffer
    rw [hextendedSize, ← he]
    exact hbuffer
  · show slice t.message 0 4 = _
    rw [hholds.peer, hrest, List.take_left' (length_leBytes 4 _)]

end HuronFS
