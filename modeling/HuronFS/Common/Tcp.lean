import HuronFS.Common.Wire
import HuronFS.Lib.Chunks

/-!
# `Common.Tcp` — a message on a TCP connection (`CBB_tcp.cpp`, `receive_message`)

`do_recv` and `do_send` repeat `recv` and `send` until all bytes are moved, a call fails or the peer is gone; a
call that was interrupted or would block is made again. A script (`Lib.Chunks`) says what the calls return. After
the loop the only question is whether anything was moved: nothing closes the socket and throws, and *anything*
returns what there is, which the callers take for all of it.

`receive_message` makes three such calls, for the header after the receiver's id, for the basic message and for
the extended data, into a task that holds what an earlier message left there. The sizes of the last two are read
from the header in the task, received or not.
-/

namespace HuronFS

open Region Wire Chunks

/-- How a call on a connection ends when it does not return: with an exception, not at all, or with more bytes
    asked for than its buffer holds. -/
inductive Stop
  | runtimeError
  | never
  | overrun
deriving DecidableEq, Repr

/-- A function that works on one end of a connection. -/
abbrev Conn (β : Type) (α : Type) := StateT (List (Call β)) (Except Stop) α

namespace Conn

variable {α α' β : Type} {x : Conn β α} {f : α → Conn β α'} {cs : List (Call β)}

theorem bind_ok {a : α} {cs' : List (Call β)} (h : x cs = .ok (a, cs')) : (x >>= f) cs = f a cs' := by
  show Except.bind (x cs) _ = _
  rw [h]
  rfl

theorem bind_error {e : Stop} (h : x cs = .error e) : (x >>= f) cs = .error e := by
  show Except.bind (x cs) _ = _
  rw [h]
  rfl

end Conn

namespace Tcp

/-! ## The two loops -/

/-- The loop and the test after it, which `do_recv` and `do_send` share: what the calls moved. -/
def moveAll {β : Type} (size : Nat) : Conn β (List β) := fun cs =>
  if size = 0 then .ok ([], cs)
  else
    match transfer size cs with
    | none => .error .never
    | some (moved, rest) => if moved.length = 0 then .error .runtimeError else .ok (moved, rest)

/-- `TCP_handle::do_recv`: the bytes written to the buffer. -/
def doRecv (size : Nat) : Conn Byte (List Byte) := moveAll size

/-- `TCP_handle::do_send`: the number of bytes it returns and the bytes it sent. A call has no say in which bytes it
    moves, they are the next ones of the buffer. -/
def doSend (buffer : List Byte) : Conn Unit (Nat × List Byte) := do
  let moved ← moveAll buffer.length
  return (moved.length, buffer.take moved.length)

/-! ## Receiving a message -/

abbrev SENDER_ID_OFF : Nat := 4
abbrev MESSAGE_SIZE_OFF : Nat := 8
abbrev EXTENDED_SIZE_OFF : Nat := 16
abbrev RECV_MESSAGE_OFF : Nat := MESSAGE_META_OFF - 4

/-- What `receive_message` fills of an `extended_IO_task`. -/
structure ReceiveTask where
  id : Nat
  message : Nat → Byte
  receiveBuffer : Nat → Byte

namespace ReceiveTask

def messageSize (t : ReceiveTask) : Nat := ofLe (slice t.message MESSAGE_SIZE_OFF 8)

def extendedDataSize (t : ReceiveTask) : Nat := ofLe (slice t.message EXTENDED_SIZE_OFF 8)

/-- `swap_sender_receiver` -/
def swapSenderReceiver (t : ReceiveTask) : ReceiveTask :=
  { t with message := patch (patch t.message 0 (slice t.message SENDER_ID_OFF 4)) SENDER_ID_OFF (leBytes 4 t.id) }

end ReceiveTask

/-- `do_recv` into a buffer with this room. -/
def recvInto (room size : Nat) : Conn Byte (List Byte) := fun cs =>
  if room < size then .error .overrun else doRecv size cs

/-- `CBB_communication_thread::receive_message` -/
def receiveMessage (t : ReceiveTask) : Conn Byte ReceiveTask := do
  let header ← recvInto RECV_MESSAGE_OFF RECV_MESSAGE_OFF
  let t := ReceiveTask.swapSenderReceiver { t with message := patch t.message SENDER_ID_OFF header }
  let body ← recvInto BASIC_MESSAGE_ROOM t.messageSize
  let t := { t with message := patch t.message MESSAGE_META_OFF body }
  if t.extendedDataSize ≠ 0 then
    let extended ← recvInto MAX_TRANSFER_SIZE t.extendedDataSize
    return { t with receiveBuffer := patch t.receiveBuffer 0 extended }
  else
    return t

/-! ## Whole or not at all -/

/-- All that was asked for has been moved, in order, or the call throws. -/
def RecvWhole {β : Type} (size : Nat) (cs : List (Call β)) : Except Stop (List β × List (Call β)) → Prop
  | .ok (moved, _) => moved.length = size ∧ moved = (arrived cs).take size
  | .error e => e = .runtimeError

/-- The whole buffer has been sent, in order, and the call says so, or it throws. -/
def SendWhole (buffer : List Byte) : Except Stop ((Nat × List Byte) × List (Call Unit)) → Prop
  | .ok ((n, sent), _) => n = buffer.length ∧ sent = buffer
  | .error e => e = .runtimeError

/-- The sizes in the header that stands at the front of `bytes`, the sender's id first. -/
def bodySize (bytes : List Byte) : Nat := ofLe ((bytes.drop 4).take 8)

def extendedSize (bytes : List Byte) : Nat := ofLe ((bytes.drop 12).take 8)

/-- A task with the whole of the message at the front of `bytes`. -/
structure Holds (t : ReceiveTask) (bytes : List Byte) : Prop where
  complete : RECV_MESSAGE_OFF + bodySize bytes + extendedSize bytes ≤ bytes.length
  peer : slice t.message 0 4 = bytes.take 4
  sizes : slice t.message MESSAGE_SIZE_OFF 16 = (bytes.drop 4).take 16
  body : slice t.message MESSAGE_META_OFF (bodySize bytes) = (bytes.drop RECV_MESSAGE_OFF).take (bodySize bytes)
  extended : slice t.receiveBuffer 0 (extendedSize bytes) =
    (bytes.drop (RECV_MESSAGE_OFF + bodySize bytes)).take (extendedSize bytes)

/-- A whole message is in the task, or the call throws. -/
def MessageWhole (cs : List (Call Byte)) : Except Stop (ReceiveTask × List (Call Byte)) → Prop
  | .ok (t, _) => Holds t (arrived cs)
  | .error e => e = .runtimeError

/-! ## What a call gives -/

section

variable {β : Type} {cs : List (Call β)} {size : Nat}

theorem moveAll_enough (h : size ≤ (arrived cs).length) : moveAll size cs = .ok ((arrived cs).take size, skip size cs) := by
  obtain ⟨rest, htransfer, -, -⟩ := transfer_enough cs size h
  unfold moveAll skip
  rw [htransfer]
  by_cases hzero : size = 0
  · rw [if_pos hzero, hzero, List.take_zero]
    rw [hzero, List.take_zero] at htransfer
    have hrest : transfer 0 cs = some ([], cs) := by cases cs <;> rfl
    rw [hrest] at htransfer
    obtain ⟨-, rfl⟩ := Prod.mk.inj (Option.some.inj htransfer)
    rfl
  · rw [if_neg hzero]
    have hlen : ((arrived cs).take size).length ≠ 0 := by
      rw [List.length_take]
      omega
    simp only [hlen, if_false]

theorem moveAll_silent (hpos : 0 < size) (h : Silent cs) : moveAll size cs = .error .runtimeError := by
  have hnone : (arrived cs).length = 0 := by rw [h.1]; rfl
  obtain ⟨rest, htransfer⟩ := transfer_stopped cs size (by omega) h.2
  unfold moveAll
  rw [htransfer, if_neg (by omega)]
  simp only [hnone, if_true]

/-- The connection stops after some bytes and before the last: the call returns. -/
theorem moveAll_cut (hsome : arrived cs ≠ []) (hlt : (arrived cs).length < size) (hs : stops cs = true) :
    moveAll size cs = .ok (arrived cs, skip size cs) := by
  obtain ⟨rest, htransfer⟩ := transfer_stopped cs size hlt hs
  unfold moveAll skip
  rw [htransfer, if_neg (by omega)]
  simp only [List.length_eq_zero_iff, hsome, if_false]

theorem moveAll_never (hlt : (arrived cs).length < size) (hs : stops cs = false) : moveAll size cs = .error .never := by
  unfold moveAll
  rw [transfer_waiting cs size hlt hs, if_neg (by omega)]

/-- The four ways a call can go. -/
theorem script_cases (size : Nat) (cs : List (Call β)) :
    size ≤ (arrived cs).length ∨ (0 < size ∧ Silent cs) ∨ (arrived cs ≠ [] ∧ (arrived cs).length < size ∧ stops cs = true) ∨
      ((arrived cs).length < size ∧ stops cs = false) := by
  by_cases hle : size ≤ (arrived cs).length
  · exact .inl hle
  · have hlt : (arrived cs).length < size := by omega
    cases hs : stops cs with
    | false => exact .inr (.inr (.inr ⟨hlt, rfl⟩))
    | true =>
      by_cases hnone : arrived cs = []
      · exact .inr (.inl ⟨by omega, hnone, hs⟩)
      · exact .inr (.inr (.inl ⟨hnone, hlt, rfl⟩))

theorem moveAll_whole_iff (size : Nat) (cs : List (Call β)) :
    RecvWhole size cs (moveAll size cs) ↔ size ≤ (arrived cs).length ∨ Silent cs := by
  obtain hle | ⟨hpos, hsilent⟩ | ⟨hsome, hlt, hs⟩ | ⟨hlt, hs⟩ := script_cases size cs
  · rw [moveAll_enough hle]
    exact iff_of_true ⟨List.length_take_of_le hle, rfl⟩ (.inl hle)
  · rw [moveAll_silent hpos hsilent]
    exact iff_of_true rfl (.inr hsilent)
  · rw [moveAll_cut hsome hlt hs]
    refine iff_of_false (fun h => ?_) ?_
    · exact absurd h.1 (by omega)
    · rintro (hle | hsilent)
      · omega
      · exact hsome hsilent.1
  · rw [moveAll_never hlt hs]
    refine iff_of_false (fun h => by cases h) ?_
    rintro (hle | hsilent)
    · omega
    · rw [hsilent.2] at hs
      cases hs

end

/-- Sending a buffer whole is moving as many items. -/
theorem sendWhole_iff (buffer : List Byte) (cs : List (Call Unit)) :
    SendWhole buffer (doSend buffer cs) ↔ RecvWhole buffer.length cs (moveAll buffer.length cs) := by
  have hsend : doSend buffer cs = (moveAll buffer.length cs).map fun (moved, rest) =>
      ((moved.length, buffer.take moved.length), rest) := by
    unfold doSend
    cases hmoved : moveAll buffer.length cs with
    | error e =>
      rw [Conn.bind_error hmoved]
      rfl
    | ok r =>
      rw [Conn.bind_ok hmoved]
      rfl
  obtain hle | ⟨hpos, hsilent⟩ | ⟨hsome, hlt, hs⟩ | ⟨hlt, hs⟩ := script_cases buffer.length cs
  · rw [hsend, moveAll_enough hle]
    have hlen := List.length_take_of_le hle
    refine iff_of_true ?_ ⟨hlen, rfl⟩
    show ((arrived cs).take buffer.length).length = buffer.length ∧ buffer.take ((arrived cs).take buffer.length).length = buffer
    rw [hlen]
    exact ⟨rfl, List.take_length⟩
  · rw [hsend, moveAll_silent hpos hsilent]
    exact Iff.rfl
  · rw [hsend, moveAll_cut hsome hlt hs]
    exact iff_of_false (fun h => absurd h.1 (by omega)) (fun h => absurd h.1 (by omega))
  · rw [hsend, moveAll_never hlt hs]
    exact Iff.rfl

/-! ## The parts of a message -/

/-- A call of `do_recv`: the room of its buffer, the bytes it asks for and the script it meets. -/
structure Part where
  room : Nat
  size : Nat
  script : List (Call Byte)

/-- The part finds the connection gone. -/
def Part.Missing (p : Part) : Prop := 0 < p.size ∧ p.size ≤ p.room ∧ Silent p.script

/-- The part arrives, and its buffer holds it. -/
def Part.Whole (p : Part) : Prop := p.size ≤ p.room ∧ p.size ≤ (arrived p.script).length

/-- The calls for parts with these rooms and sizes, one after the other; a part too large for its buffer is the last. -/
def parts : List (Nat × Nat) → List (Call Byte) → List Part
  | [], _ => []
  | (room, size) :: layout, cs => ⟨room, size, cs⟩ :: if size ≤ room then parts layout (skip size cs) else []

/-- The calls as a program. -/
def recvAll : List (Nat × Nat) → Conn Byte (List (List Byte))
  | [] => pure []
  | (room, size) :: layout => do
      let x ← recvInto room size
      let xs ← recvAll layout
      return x :: xs

section

variable {room size : Nat} {layout : List (Nat × Nat)} {cs : List (Call Byte)}

theorem parts_cons_fits (h : size ≤ room) : parts ((room, size) :: layout) cs = ⟨room, size, cs⟩ :: parts layout (skip size cs) := by
  rw [parts, if_pos h]

theorem recvAll_ok {x : List Byte} {cs' : List (Call Byte)} (h : recvInto room size cs = .ok (x, cs')) :
    recvAll ((room, size) :: layout) cs = (recvAll layout cs').map fun (xs, rest) => (x :: xs, rest) := by
  rw [recvAll, Conn.bind_ok h]
  cases hrest : recvAll layout cs' with
  | error e =>
    rw [Conn.bind_error hrest]
    rfl
  | ok r =>
    rw [Conn.bind_ok hrest]
    rfl

theorem recvAll_error {e : Stop} (h : recvInto room size cs = .error e) : recvAll ((room, size) :: layout) cs = .error e := by
  rw [recvAll, Conn.bind_error h]

theorem recvInto_fits (h : size ≤ room) : recvInto room size cs = moveAll size cs := if_neg (by omega)

/-- Nothing is found missing on a connection that does not stop. -/
theorem not_missing_nil : ∀ (layout : List (Nat × Nat)), ∀ p ∈ parts layout [], ¬ p.Missing
  | [], p, hp, _ => by cases hp
  | (room, size) :: layout, p, hp, hmissing => by
      have hskip : skip size ([] : List (Call Byte)) = [] := by cases size <;> rfl
      obtain rfl | hrest := List.mem_cons.mp hp
      · exact not_silent_nil hmissing.2.2
      · split at hrest
        · rw [hskip] at hrest
          exact not_missing_nil layout p hrest hmissing
        · cases hrest

/-- A part that fits its buffer: it gives what arrives of it, cut or not, or finds the connection gone, or waits. -/
theorem recvInto_cases (cs : List (Call Byte)) (hfits : size ≤ room) :
    (recvInto room size cs = .ok ((arrived cs).take size, skip size cs) ∧ ¬ (⟨room, size, cs⟩ : Part).Missing) ∨
    (recvInto room size cs = .error .runtimeError ∧ (⟨room, size, cs⟩ : Part).Missing) ∨
    (recvInto room size cs = .error .never ∧ ¬ (⟨room, size, cs⟩ : Part).Missing ∧ skip size cs = []) := by
  rw [recvInto_fits hfits]
  obtain hle | ⟨hpos, hsilent⟩ | ⟨hsome, hlt, hs⟩ | ⟨hlt, hs⟩ := script_cases size cs
  · refine .inl ⟨moveAll_enough hle, fun hmissing => ?_⟩
    obtain ⟨hpos, -, hnone, -⟩ := hmissing
    rw [hnone] at hle
    exact absurd hle (Nat.not_le_of_lt hpos)
  · exact .inr (.inl ⟨moveAll_silent hpos hsilent, hpos, hfits, hsilent⟩)
  · refine .inl ⟨?_, fun hmissing => hsome hmissing.2.2.1⟩
    rw [List.take_of_length_le (Nat.le_of_lt hlt)]
    exact moveAll_cut hsome hlt hs
  · refine .inr (.inr ⟨moveAll_never hlt hs, fun hmissing => ?_, skip_waiting hlt hs⟩)
    have hstops := hmissing.2.2.2
    rw [hs] at hstops
    cases hstops

theorem recvInto_overrun (cs : List (Call Byte)) (h : ¬ size ≤ room) : recvInto room size cs = .error .overrun := if_pos (by omega)

/-- The calls throw exactly when one of them finds the connection gone. -/
theorem recvAll_throws_iff : ∀ (layout : List (Nat × Nat)) (cs : List (Call Byte)),
    recvAll layout cs = .error .runtimeError ↔ ∃ p ∈ parts layout cs, p.Missing
  | [], cs => by
      refine iff_of_false (fun h => by cases h) ?_
      rintro ⟨p, hp, -⟩
      cases hp
  | (room, size) :: layout, cs => by
      by_cases hfits : size ≤ room
      · rw [parts_cons_fits hfits, List.exists_mem_cons_iff]
        obtain ⟨hrecv, hnot⟩ | ⟨hrecv, hmissing⟩ | ⟨hrecv, hnot, hskip⟩ := recvInto_cases cs hfits
        · rw [recvAll_ok hrecv, or_iff_right hnot, ← recvAll_throws_iff layout (skip size cs)]
          cases recvAll layout (skip size cs) with
          | error e => exact Iff.rfl
          | ok r => exact iff_of_false (fun h => by cases h) (fun h => by cases h)
        · rw [recvAll_error hrecv]
          exact iff_of_true rfl (.inl hmissing)
        · rw [recvAll_error hrecv, or_iff_right hnot, hskip]
          refine iff_of_false (fun h => by cases h) ?_
          rintro ⟨p, hp, hmissing⟩
          exact not_missing_nil layout p hp hmissing
      · rw [recvAll_error (recvInto_overrun cs hfits)]
        refine iff_of_false (fun h => by cases h) ?_
        rintro ⟨p, hp, hmissing⟩
        rw [parts, if_neg hfits, List.mem_singleton] at hp
        obtain rfl := hp
        exact hfits hmissing.2.1

/-- What the calls return is what arrived of each part. -/
theorem recvAll_bytes : ∀ {layout : List (Nat × Nat)} {cs rest : List (Call Byte)} {xs : List (List Byte)},
    recvAll layout cs = .ok (xs, rest) →
      xs = (parts layout cs).map (fun p => (arrived p.script).take p.size) ∧ ∀ p ∈ parts layout cs, p.size ≤ p.room
  | [], cs, rest, xs, h => by
      obtain ⟨rfl, rfl⟩ := Prod.mk.inj (Except.ok.inj h)
      exact ⟨rfl, fun p hp => by cases hp⟩
  | (room, size) :: layout, cs, rest, xs, h => by
      by_cases hfits : size ≤ room
      · obtain ⟨hrecv, -⟩ | ⟨hrecv, -⟩ | ⟨hrecv, -, -⟩ := recvInto_cases cs hfits
        · rw [recvAll_ok hrecv] at h
          cases hrest : recvAll layout (skip size cs) with
          | error e =>
            rw [hrest] at h
            cases h
          | ok r =>
            rw [hrest] at h
            obtain ⟨rfl, rfl⟩ := Prod.mk.inj (Except.ok.inj h)
            obtain ⟨hbytes, hall⟩ := recvAll_bytes hrest
            rw [parts_cons_fits hfits, List.map_cons, List.forall_mem_cons, ← hbytes]
            exact ⟨rfl, hfits, hall⟩
        · rw [recvAll_error hrecv] at h
          cases h
        · rw [recvAll_error hrecv] at h
          cases h
      · rw [recvAll_error (recvInto_overrun cs hfits)] at h
        cases h

/-- Parts that arrive are all returned. -/
theorem recvAll_returns : ∀ {layout : List (Nat × Nat)} {cs : List (Call Byte)}, (∀ p ∈ parts layout cs, p.Whole) →
    ∃ r, recvAll layout cs = .ok r
  | [], cs, _ => ⟨([], cs), rfl⟩
  | (room, size) :: layout, cs, h => by
      obtain ⟨hfits, henough⟩ := h ⟨room, size, cs⟩ List.mem_cons_self
      have hrecv : recvInto room size cs = .ok ((arrived cs).take size, skip size cs) := by
        rw [recvInto_fits hfits]
        exact moveAll_enough henough
      rw [parts_cons_fits hfits, List.forall_mem_cons] at h
      obtain ⟨r, hrest⟩ := recvAll_returns h.2
      rw [recvAll_ok hrecv, hrest]
      exact ⟨_, rfl⟩

end

/-! ## A message -/

namespace ReceiveTask

/-- The task once a header, or the beginning of one, is in it. -/
def headed (t : ReceiveTask) (header : List Byte) : ReceiveTask :=
  swapSenderReceiver { t with message := patch t.message SENDER_ID_OFF header }

/-- The task with all parts of a message, as far as they were received. -/
def filled (t : ReceiveTask) (header body extended : List Byte) : ReceiveTask :=
  { t.headed header with
    message := patch (t.headed header).message MESSAGE_META_OFF body
    receiveBuffer := patch t.receiveBuffer 0 extended }

/-- The task as `receive_message` leaves it. -/
def assemble (t : ReceiveTask) : List (List Byte) → ReceiveTask
  | [header, body, extended] => t.filled header body extended
  | _ => t

end ReceiveTask

/-- The parts `receive_message` asks for. The sizes are those of the task once the header has come, whatever has come of it. -/
def messageLayout (t : ReceiveTask) (cs : List (Call Byte)) : List (Nat × Nat) :=
  [(RECV_MESSAGE_OFF, RECV_MESSAGE_OFF),
   (BASIC_MESSAGE_ROOM, (t.headed ((arrived cs).take RECV_MESSAGE_OFF)).messageSize),
   (MAX_TRANSFER_SIZE, (t.headed ((arrived cs).take RECV_MESSAGE_OFF)).extendedDataSize)]

section

variable {t : ReceiveTask} {cs : List (Call Byte)}

/-- The body is written behind the sizes. -/
theorem extendedDataSize_body (t : ReceiveTask) (body : List Byte) :
    ReceiveTask.extendedDataSize { t with message := patch t.message MESSAGE_META_OFF body } = t.extendedDataSize := by
  unfold ReceiveTask.extendedDataSize
  rw [slice_patch_outside (.inl (by decide))]

theorem receiveMessage_eq (t : ReceiveTask) (cs : List (Call Byte)) :
    receiveMessage t cs = (recvAll (messageLayout t cs) cs).map fun (xs, rest) => (t.assemble xs, rest) := by
  have hfits : RECV_MESSAGE_OFF ≤ RECV_MESSAGE_OFF := le_refl _
  unfold receiveMessage messageLayout
  obtain ⟨hheader, -⟩ | ⟨hheader, -⟩ | ⟨hheader, -, -⟩ := recvInto_cases cs hfits
  · rw [Conn.bind_ok hheader, recvAll_ok hheader]
    generalize (arrived cs).take RECV_MESSAGE_OFF = header
    generalize skip RECV_MESSAGE_OFF cs = cs₁
    cases hbody : recvInto BASIC_MESSAGE_ROOM (t.headed header).messageSize cs₁ with
    | error e =>
      rw [recvAll_error hbody]
      exact Conn.bind_error hbody
    | ok r =>
      obtain ⟨body, cs₂⟩ := r
      have hsize := extendedDataSize_body (t.headed header) body
      rw [recvAll_ok hbody]
      refine (Conn.bind_ok hbody).trans ?_
      by_cases hzero : (t.headed header).extendedDataSize = 0
      · have hnothing : recvInto MAX_TRANSFER_SIZE (t.headed header).extendedDataSize cs₂ = .ok ([], cs₂) := by
          rw [hzero]
          rfl
        rw [recvAll_ok hnothing]
        refine Eq.trans (congrFun (if_neg (not_not.mpr (hsize.trans hzero))) cs₂) ?_
        show _ = Except.ok (t.filled header body [], cs₂)
        unfold ReceiveTask.filled
        rw [patch_nil]
        rfl
      · have hne : ReceiveTask.extendedDataSize
            { t.headed header with message := patch (t.headed header).message MESSAGE_META_OFF body } ≠ 0 := by
          rwa [hsize]
        refine Eq.trans (congrFun (if_pos hne) cs₂) ?_
        cases hextended : recvInto MAX_TRANSFER_SIZE (t.headed header).extendedDataSize cs₂ with
        | error e =>
          rw [recvAll_error hextended]
          rw [← hsize] at hextended
          exact Conn.bind_error hextended
        | ok r =>
          rw [recvAll_ok hextended]
          rw [← hsize] at hextended
          exact Conn.bind_ok hextended
  · rw [Conn.bind_error hheader, recvAll_error hheader]
    rfl
  · rw [Conn.bind_error hheader, recvAll_error hheader]
    rfl

/-- The sizes stay as they were received. -/
theorem slice_headed (t : ReceiveTask) (header : List Byte) {a n : Nat} (ha : 4 ≤ a) (h : a + n ≤ header.length) :
    slice (t.headed header).message (SENDER_ID_OFF + a) n = (header.drop a).take n := by
  show slice (patch (patch _ 0 (slice _ SENDER_ID_OFF 4)) SENDER_ID_OFF (leBytes 4 t.id)) (SENDER_ID_OFF + a) n = _
  rw [slice_patch_outside (.inr (by rw [length_leBytes]; omega)), slice_patch_outside (.inr (by rw [length_slice]; omega)),
    slice_patch_inside _ _ h]

/-- The sender is whom the reply goes to. -/
theorem slice_headed_peer (t : ReceiveTask) (header : List Byte) (h : 4 ≤ header.length) :
    slice (t.headed header).message 0 4 = header.take 4 := by
  show slice (patch (patch _ 0 (slice (patch t.message SENDER_ID_OFF header) SENDER_ID_OFF 4)) SENDER_ID_OFF (leBytes 4 t.id)) 0 4 = _
  rw [slice_patch_outside (.inl (by decide))]
  have hsender : slice (patch t.message SENDER_ID_OFF header) SENDER_ID_OFF 4 = header.take 4 :=
    slice_patch_inside t.message SENDER_ID_OFF (a := 0) (by omega)
  have hlen : (header.take 4).length = 4 := List.length_take_of_le h
  have hpatched := slice_patch (patch t.message SENDER_ID_OFF header) 0 (header.take 4)
  rw [hlen] at hpatched
  rw [hsender, hpatched]

section

variable {bytes : List Byte}

theorem messageSize_headed (h : RECV_MESSAGE_OFF ≤ bytes.length) :
    (t.headed (bytes.take RECV_MESSAGE_OFF)).messageSize = bodySize bytes := by
  have hlen : (bytes.take RECV_MESSAGE_OFF).length = RECV_MESSAGE_OFF := List.length_take_of_le h
  have hslice := slice_headed t (bytes.take RECV_MESSAGE_OFF) (a := 4) (n := 8) (le_refl _) (by rw [hlen]; decide)
  unfold ReceiveTask.messageSize bodySize
  rw [show MESSAGE_SIZE_OFF = SENDER_ID_OFF + 4 from rfl, hslice, List.drop_take, List.take_take]
  rfl

theorem extendedDataSize_headed (h : RECV_MESSAGE_OFF ≤ bytes.length) :
    (t.headed (bytes.take RECV_MESSAGE_OFF)).extendedDataSize = extendedSize bytes := by
  have hlen : (bytes.take RECV_MESSAGE_OFF).length = RECV_MESSAGE_OFF := List.length_take_of_le h
  have hslice := slice_headed t (bytes.take RECV_MESSAGE_OFF) (a := 12) (n := 8) (by decide) (by rw [hlen]; decide)
  unfold ReceiveTask.extendedDataSize extendedSize
  rw [show EXTENDED_SIZE_OFF = SENDER_ID_OFF + 12 from rfl, hslice, List.drop_take, List.take_take]
  rfl

/-- The three parts of a message that has arrived make a task that holds it. -/
theorem holds_filled (t : ReceiveTask) (hall : RECV_MESSAGE_OFF + bodySize bytes + extendedSize bytes ≤ bytes.length) :
    Holds (t.filled (bytes.take RECV_MESSAGE_OFF) ((bytes.drop RECV_MESSAGE_OFF).take (bodySize bytes))
      ((bytes.drop (RECV_MESSAGE_OFF + bodySize bytes)).take (extendedSize bytes))) bytes := by
  have hheader : (bytes.take RECV_MESSAGE_OFF).length = RECV_MESSAGE_OFF := List.length_take_of_le (by omega)
  have hbody : ((bytes.drop RECV_MESSAGE_OFF).take (bodySize bytes)).length = bodySize bytes :=
    List.length_take_of_le (by rw [List.length_drop]; omega)
  have hextended : ((bytes.drop (RECV_MESSAGE_OFF + bodySize bytes)).take (extendedSize bytes)).length = extendedSize bytes :=
    List.length_take_of_le (by rw [List.length_drop]; omega)
  refine ⟨hall, ?_, ?_, ?_, ?_⟩
  · show slice (patch _ MESSAGE_META_OFF _) 0 4 = _
    rw [slice_patch_outside (.inl (by decide)), slice_headed_peer t _ (by rw [hheader]; decide), List.take_take]
    rfl
  · show slice (patch _ MESSAGE_META_OFF _) (SENDER_ID_OFF + 4) 16 = _
    rw [slice_patch_outside (.inl (by decide)), slice_headed t _ (le_refl _) (by rw [hheader]; decide), List.drop_take, List.take_take]
    rfl
  · show slice (patch _ MESSAGE_META_OFF _) MESSAGE_META_OFF _ = _
    have hpatched := slice_patch (t.headed (bytes.take RECV_MESSAGE_OFF)).message MESSAGE_META_OFF
      ((bytes.drop RECV_MESSAGE_OFF).take (bodySize bytes))
    rwa [hbody] at hpatched
  · show slice (patch _ 0 _) 0 _ = _
    have hpatched := slice_patch t.receiveBuffer 0 ((bytes.drop (RECV_MESSAGE_OFF + bodySize bytes)).take (extendedSize bytes))
    rwa [hextended] at hpatched

end

/-- With room for all of them there are three parts. -/
theorem parts_message (hrooms : ∀ p ∈ parts (messageLayout t cs) cs, p.size ≤ p.room) :
    ∃ body extended, body = (t.headed ((arrived cs).take RECV_MESSAGE_OFF)).messageSize ∧
      extended = (t.headed ((arrived cs).take RECV_MESSAGE_OFF)).extendedDataSize ∧
      parts (messageLayout t cs) cs =
        [⟨RECV_MESSAGE_OFF, RECV_MESSAGE_OFF, cs⟩, ⟨BASIC_MESSAGE_ROOM, body, skip RECV_MESSAGE_OFF cs⟩,
         ⟨MAX_TRANSFER_SIZE, extended, skip body (skip RECV_MESSAGE_OFF cs)⟩] := by
  refine ⟨_, _, rfl, rfl, ?_⟩
  unfold messageLayout at hrooms ⊢
  rw [parts_cons_fits (le_refl _)] at hrooms ⊢
  have hbody := hrooms ⟨_, _, _⟩ (List.mem_cons_of_mem _ List.mem_cons_self)
  rw [parts_cons_fits hbody]
  simp [parts]

/-- A message is received whole, or not at all, exactly when a part is missing or all parts arrive. -/
theorem messageWhole_iff (t : ReceiveTask) (cs : List (Call Byte)) :
    MessageWhole cs (receiveMessage t cs) ↔
      (∃ p ∈ parts (messageLayout t cs) cs, p.Missing) ∨ ∀ p ∈ parts (messageLayout t cs) cs, p.Whole := by
  rw [receiveMessage_eq, ← recvAll_throws_iff]
  cases hrecv : recvAll (messageLayout t cs) cs with
  | error e =>
    show e = .runtimeError ↔ _
    constructor
    · rintro rfl
      exact .inl rfl
    · rintro (hthrown | hwhole)
      · exact Except.error.inj hthrown
      · obtain ⟨r, hreturned⟩ := recvAll_returns hwhole
        rw [hrecv] at hreturned
        cases hreturned
  | ok r =>
    obtain ⟨xs, rest⟩ := r
    obtain ⟨hbytes, hrooms⟩ := recvAll_bytes hrecv
    obtain ⟨body, extended, hbodySize, hextendedSize, hparts⟩ := parts_message hrooms
    rw [or_iff_right (fun h => by cases h)]
    show Holds (t.assemble xs) (arrived cs) ↔ _
    rw [hparts] at hrooms hbytes ⊢
    simp only [List.forall_mem_cons, List.not_mem_nil, false_implies, implies_true, and_true] at hrooms ⊢
    constructor
    · intro hholds
      have hcomplete := hholds.complete
      have hheader : RECV_MESSAGE_OFF ≤ (arrived cs).length := by omega
      rw [messageSize_headed hheader] at hbodySize
      rw [extendedDataSize_headed hheader] at hextendedSize
      have hrest : body ≤ (arrived (skip RECV_MESSAGE_OFF cs)).length := by
        rw [arrived_skip hheader, List.length_drop]
        omega
      refine ⟨⟨hrooms.1, hheader⟩, ⟨hrooms.2.1, hrest⟩, ⟨hrooms.2.2, ?_⟩⟩
      show extended ≤ (arrived (skip body (skip RECV_MESSAGE_OFF cs))).length
      rw [arrived_skip hrest, arrived_skip hheader, List.length_drop, List.length_drop]
      omega
    · rintro ⟨⟨-, hheader⟩, ⟨-, hrest⟩, ⟨-, hlast⟩⟩
      simp only at hheader hrest hlast
      rw [messageSize_headed hheader] at hbodySize
      rw [extendedDataSize_headed hheader] at hextendedSize
      have harrived := arrived_skip hheader
      have harrived' := arrived_skip hrest
      rw [harrived, List.length_drop] at hrest
      rw [harrived', harrived, List.length_drop, List.length_drop] at hlast
      simp only [List.map_cons, List.map_nil, harrived, harrived', List.drop_drop] at hbytes
      subst hbytes hbodySize hextendedSize
      exact holds_filled t (by omega)

/-- A message that arrives, and fits, is received. -/
theorem receiveMessage_holds (t : ReceiveTask) (hall : RECV_MESSAGE_OFF + bodySize (arrived cs) + extendedSize (arrived cs) ≤ (arrived cs).length)
    (hbody : bodySize (arrived cs) ≤ BASIC_MESSAGE_ROOM) (hextended : extendedSize (arrived cs) ≤ MAX_TRANSFER_SIZE) :
    ∃ t' rest, receiveMessage t cs = .ok (t', rest) ∧ Holds t' (arrived cs) := by
  have hheader : RECV_MESSAGE_OFF ≤ (arrived cs).length := by omega
  have hrest : bodySize (arrived cs) ≤ (arrived (skip RECV_MESSAGE_OFF cs)).length := by
    rw [arrived_skip hheader, List.length_drop]
    omega
  have hlast : extendedSize (arrived cs) ≤ (arrived (skip (bodySize (arrived cs)) (skip RECV_MESSAGE_OFF cs))).length := by
    rw [arrived_skip hrest, arrived_skip hheader, List.length_drop, List.length_drop]
    omega
  have hwhole : ∀ p ∈ parts (messageLayout t cs) cs, p.Whole := by
    unfold messageLayout
    rw [messageSize_headed hheader, extendedDataSize_headed hheader, parts_cons_fits (le_refl _), parts_cons_fits hbody,
      parts_cons_fits hextended]
    simp only [parts, List.forall_mem_cons, List.not_mem_nil, false_implies, implies_true, and_true]
    exact ⟨⟨le_refl _, hheader⟩, ⟨hbody, hrest⟩, ⟨hextended, hlast⟩⟩
  obtain ⟨⟨xs, rest⟩, hrecv⟩ := recvAll_returns hwhole
  have hmessage : receiveMessage t cs = .ok (t.assemble xs, rest) := by
    rw [receiveMessage_eq, hrecv]
    rfl
  have hholds := (messageWhole_iff t cs).mpr (.inr hwhole)
  rw [hmessage] at hholds
  exact ⟨t.assemble xs, rest, hmessage, hholds⟩

end

/-- The message of a task, from the beginning. -/
def ReceiveTask.reader (t : ReceiveTask) : Reader := ⟨fun i => t.message (MESSAGE_META_OFF + i), BASIC_MESSAGE_ROOM, 0⟩

/-- A task that holds a message of fields pops them like any task that has received them. -/
theorem Holds.received {t : ReceiveTask} {bytes : List Byte} {fs : List Field} (h : Holds t bytes)
    (hbody : (bytes.drop RECV_MESSAGE_OFF).take (bodySize bytes) = encode fs) : ∃ stale, t.reader = received stale fs := by
  have hslice : slice (fun i => t.message (MESSAGE_META_OFF + i)) 0 (encode fs).length = encode fs := by
    rw [← hbody, ← h.body, length_slice]
    apply slice_congr
    intro i _
    rw [Nat.zero_add]
  refine ⟨fun i => t.message (MESSAGE_META_OFF + i), ?_⟩
  unfold ReceiveTask.reader HuronFS.received
  congr 1
  conv_rhs => rw [← hslice]
  rw [patch_slice _ _ (fun i _ => rfl)]

/-- **Whole, or the connection fails**: of `do_recv` and `do_send` exactly when all bytes are moved before the connection
    stops, or none are; of `receive_message` exactly when one of its parts finds the connection gone, or all arrive and
    have room. -/
theorem transfers_whole_exact (size : Nat) (buffer : List Byte) (t : ReceiveTask) (cs : List (Call Byte)) (sends : List (Call Unit)) :
    (RecvWhole size cs (doRecv size cs) ↔ size ≤ (arrived cs).length ∨ Silent cs) ∧
    (SendWhole buffer (doSend buffer sends) ↔ buffer.length ≤ (arrived sends).length ∨ Silent sends) ∧
    (MessageWhole cs (receiveMessage t cs) ↔
      (∃ p ∈ parts (messageLayout t cs) cs, p.Missing) ∨ ∀ p ∈ parts (messageLayout t cs) cs, p.Whole) := by
  refine ⟨moveAll_whole_iff size cs, ?_, messageWhole_iff t cs⟩
  rw [sendWhole_iff]
  exact moveAll_whole_iff buffer.length sends

/-- The peer of the first two is gone after one byte of four; that of the third has sent a header, which announces two bytes,
    and one of them. -/
theorem cut_transfers_return :
    ¬ RecvWhole 4 [.moved 7 [], .ended] (doRecv 4 [.moved 7 [], .ended]) ∧
    ¬ SendWhole [7, 8, 9, 10] (doSend [7, 8, 9, 10] [.moved () [], .failed]) ∧
    ¬ MessageWhole [.moved 1 [0, 0, 0, 2, 0, 0, 0, 0, 0, 0, 0, 0, 0, 0, 0, 0, 0, 0, 0, 65], .ended]
      (receiveMessage ⟨0, fun _ => 66, fun _ => 66⟩
        [.moved 1 [0, 0, 0, 2, 0, 0, 0, 0, 0, 0, 0, 0, 0, 0, 0, 0, 0, 0, 0, 65], .ended]) := by
  refine ⟨?_, ?_, ?_⟩
  · rintro ⟨hlen, -⟩
    cases hlen
  · rintro ⟨hlen, -⟩
    cases hlen
  · intro h
    have hholds : Holds _ _ := h
    exact absurd hholds.complete (by decide)

end Tcp

end HuronFS
