import HuronFS.Common.Const

/-!
# `Common.Task` — outgoing tasks (`extended_IO_task`) and what a handler does to an output queue

A message is the list of the `push_back` calls that built it. Each call appends a fixed number of
bytes, so the sizes the buffer limits speak of are sums over the list. A handler touches an output
queue in two ways only: `allocate_tmp_node` (the node is then filled) and `task_enqueue` (which
publishes whatever node stands at `queue_head`). Both are recorded, in program order, as `QueueOp`s.
-/

namespace HuronFS

/-- A TCP handle: its socket. `compare_handle` compares sockets. -/
abbrev Handle := Nat

/-- One `push_back` on a message: a 4-byte value, an 8-byte value, or a string with its length. -/
inductive Field
  | w32 (v : BitVec 32)
  | w64 (v : BitVec 64)
  | str (s : Str)
deriving DecidableEq, Repr

namespace Field

/-- `push_back` of an `int`. -/
def int (v : Int) : Field := .w32 (BitVec.ofInt 32 v)
/-- `push_back` of an `ssize_t` or `off64_t` that may be negative. -/
def long (v : Int) : Field := .w64 (BitVec.ofInt 64 v)
/-- `push_back` of a `size_t`, or of a non-negative offset. -/
def size (n : Nat) : Field := .w64 (BitVec.ofNat 64 n)

/-- The bytes the call appends; `push_back_string` sends the length and the terminating NUL. -/
def bytes : Field → Nat
  | .w32 _ => 4
  | .w64 _ => 8
  | .str s => 8 + (s.length + 1)

@[simp] theorem bytes_int (v : Int) : (int v).bytes = 4 := rfl
@[simp] theorem bytes_long (v : Int) : (long v).bytes = 8 := rfl
@[simp] theorem bytes_size (n : Nat) : (size n).bytes = 8 := rfl
@[simp] theorem bytes_w32 (v : BitVec 32) : (w32 v).bytes = 4 := rfl
@[simp] theorem bytes_w64 (v : BitVec 64) : (w64 v).bytes = 8 := rfl
@[simp] theorem bytes_str (s : Str) : (str s).bytes = s.length + 9 := by simp only [bytes]; omega

end Field

/-- The total bytes of a list of pushes. -/
def fieldBytes (fs : List Field) : Nat := (fs.map Field.bytes).sum

@[simp] theorem fieldBytes_nil : fieldBytes [] = 0 := rfl
@[simp] theorem fieldBytes_cons (f : Field) (fs : List Field) :
    fieldBytes (f :: fs) = f.bytes + fieldBytes fs := by simp [fieldBytes]
@[simp] theorem fieldBytes_append (fs gs : List Field) :
    fieldBytes (fs ++ gs) = fieldBytes fs + fieldBytes gs := by simp [fieldBytes]

/-- An outgoing task: where it goes (`handle`, `receiver_id`), the pushes of its message, and the
    strings appended with `push_string_prealloc`. -/
structure OutTask where
  handle : Handle
  receiverId : Int
  message : List Field
  extended : List Str
deriving DecidableEq, Repr

namespace OutTask

/-- `message_size`. -/
def messageSize (t : OutTask) : Nat := fieldBytes t.message

/-- `extended_size` once all `push_string_prealloc` calls are done (`setup_prealloc_buffer` counts the
    buffer twice and halves the sum, so it leaves this value). -/
def extendedSize (t : OutTask) : Nat := (t.extended.map (fun s => 8 + (s.length + 1))).sum

end OutTask

/-- A handler's action on an output queue. -/
inductive QueueOp
  /-- `allocate_tmp_node` on queue `q`, the node being filled with `t` before it is published. -/
  | alloc (q : Nat) (t : OutTask)
  /-- `task_enqueue` on queue `q`. -/
  | enqueue (q : Nat)
deriving DecidableEq, Repr

/-- Allocate a node, fill it, publish it: what every handler means to do. -/
def sendOn (q : Nat) (t : OutTask) : List QueueOp := [.alloc q t, .enqueue q]

/-- The tasks a handler allocates on queue `q`, in order. -/
def allocatedOn (q : Nat) : List QueueOp → List OutTask
  | [] => []
  | .alloc p t :: ops => if p = q then t :: allocatedOn q ops else allocatedOn q ops
  | .enqueue _ :: ops => allocatedOn q ops

/-- How many times a handler publishes on queue `q`. -/
def enqueuesOn (q : Nat) : List QueueOp → Nat
  | [] => 0
  | .alloc _ _ :: ops => enqueuesOn q ops
  | .enqueue p :: ops => if p = q then enqueuesOn q ops + 1 else enqueuesOn q ops

theorem allocatedOn_append (q : Nat) (a b : List QueueOp) :
    allocatedOn q (a ++ b) = allocatedOn q a ++ allocatedOn q b := by
  induction a with
  | nil => rfl
  | cons op a ih =>
      cases op with
      | alloc p t => simp only [List.cons_append, allocatedOn, ih]; split <;> rfl
      | enqueue p => simpa only [List.cons_append, allocatedOn] using ih

theorem enqueuesOn_append (q : Nat) (a b : List QueueOp) :
    enqueuesOn q (a ++ b) = enqueuesOn q a + enqueuesOn q b := by
  induction a with
  | nil => simp [enqueuesOn]
  | cons op a ih =>
      cases op with
      | alloc p t => simpa only [List.cons_append, enqueuesOn] using ih
      | enqueue p => simp only [List.cons_append, enqueuesOn, ih]; split <;> omega

/-- Every task a handler fills, on whatever queue. -/
def tasksOf : List QueueOp → List OutTask
  | [] => []
  | .alloc _ t :: ops => t :: tasksOf ops
  | .enqueue _ :: ops => tasksOf ops

theorem tasksOf_append (a b : List QueueOp) : tasksOf (a ++ b) = tasksOf a ++ tasksOf b := by
  induction a with
  | nil => rfl
  | cons op a ih => cases op <;> simp [tasksOf, ih]

/-! ## Attributes -/

/-- The fields of `struct stat` that travel (`Send_attr`, `Recv_attr`); the others stay zero. -/
structure Stat where
  stMode : BitVec 32
  stUid : BitVec 32
  stGid : BitVec 32
  stSize : Nat
  stAtime : BitVec 64
  stMtime : BitVec 64
  stCtime : BitVec 64
  stBlksize : BitVec 64
deriving DecidableEq, Repr

/-- A zeroed `struct stat`. -/
def Stat.zero : Stat := ⟨0, 0, 0, 0, 0, 0, 0, 0⟩

/-- `Send_attr`. -/
def sendAttr (st : Stat) : List Field :=
  [.w32 st.stMode, .w32 st.stUid, .w32 st.stGid, .size st.stSize,
   .w64 st.stAtime, .w64 st.stMtime, .w64 st.stCtime, .w64 st.stBlksize]

@[simp] theorem fieldBytes_sendAttr (st : Stat) : fieldBytes (sendAttr st) = 52 := by
  simp [sendAttr]

/-- A storage operation handed to the remote-task thread (`add_remote_task`). -/
structure RemoteTask where
  taskId : Int
  fileName : Str
  mode : BitVec 32
deriving DecidableEq, Repr

end HuronFS
