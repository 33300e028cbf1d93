import HuronFS.Lib.ByteFile
import Mathlib.Order.Fin.Basic
import Mathlib.Data.List.Lex
import Mathlib.Tactic.Common

/-!
# `Common.Const` — the constants of `CBB_const.h` and the block arithmetic of `CBB_internal.h`

Only the constants a modelled function reads are here, under their source names. Offsets and sizes
(`off64_t`, `size_t`) are natural numbers; a value that can be negative in the source (a file number,
a status) is an `Int`.
-/

namespace HuronFS

/-- A byte (`unsigned char`). -/
abbrev Byte := Fin 256

/-- A `std::string`: its bytes. `std::map<std::string, _>` orders it lexicographically by bytes. -/
abbrev Str := List Byte

/-! ## Sizes and limits -/

def KB : Nat := 1000
def MB : Nat := KB * 1000
def GB : Nat := MB * 1000
def KiB : Nat := 1024
def MiB : Nat := KiB * 1024
def GiB : Nat := MiB * 1024

/-- The size of a block, and the unit of every transfer. -/
abbrev BLOCK_SIZE : Nat := 1048576
abbrev STREAM_BUFFER_SIZE : Nat := BLOCK_SIZE
abbrev MAX_TRANSFER_SIZE : Nat := STREAM_BUFFER_SIZE
abbrev MAX_BASIC_MESSAGE_SIZE : Nat := 4000
abbrev MAX_EXTENDED_MESSAGE_SIZE : Nat := 5000000
abbrev MAX_FILE_NUMBER : Nat := 1000000
abbrev MAX_IONODE : Nat := 1000

example : BLOCK_SIZE = 1 * MiB ∧ MAX_BASIC_MESSAGE_SIZE = 4 * KB ∧ MAX_EXTENDED_MESSAGE_SIZE = 5 * MB := by
  decide

/-- `2 * sizeof(int) + 2 * sizeof(size_t)`: the header before the fields of a message. -/
abbrev MESSAGE_META_OFF : Nat := 24

/-- The output queue of replies to clients (the handler thread's own queue). -/
abbrev SERVER_QUEUE_NUM : Nat := 0
/-- The output queue of messages to IOnodes. -/
abbrev IONODE_COMMUNICATE_QUEUE_NUM : Nat := 1

/-! ## Request codes -/

def REGISTER : Int := 1
def OPEN_FILE : Int := 5
def READ_FILE : Int := 6
def WRITE_FILE : Int := 7
def FLUSH_FILE : Int := 8
def CLOSE_FILE : Int := 9
def GET_ATTR : Int := 13
def READ_DIR : Int := 14
def RM_DIR : Int := 15
def UNLINK : Int := 16
def ACCESS : Int := 17
def MKDIR : Int := 18
def RENAME : Int := 19
def NEW_CLIENT : Int := 20
def CLOSE_CLIENT : Int := 21
def TRUNCATE : Int := 22
def RENAME_MIGRATING : Int := 23
def NODE_FAILURE : Int := 25
def PROMOTED_TO_PRIMARY_REPLICA : Int := 29
def REPLACE_REPLICA : Int := 30
def REMOVE_IONODE : Int := 31
def IONODE_FAILURE : Int := 32
def UPDATE_META : Int := 33

/-! ## Statuses and flags -/

def SUCCESS : Int := 0
def FAILURE : Int := -1
def TOO_MANY_FILES : Int := 50
def FILE_NOT_FOUND : Int := 51
def UNKNOWN_ERROR : Int := 52
def OUT_OF_RANGE : Int := 100
def ENOENT : Int := 2
def MYSELF : Int := -1
def MAIN_REPLICA : Int := 0
def SUB_REPLICA : Int := 1

def O_CREAT : BitVec 32 := 0x40#32
def O_TRUNC : BitVec 32 := 0x200#32
def S_IFREG : BitVec 32 := 0x8000#32
def S_IFDIR : BitVec 32 := 0x4000#32

/-- `exist_flag`: whether the file was on shared storage when it was buffered. -/
inductive ExistFlag
  | notExist
  | existing
deriving DecidableEq, Repr

/-- The `int` sent on the wire for an `exist_flag`. -/
def ExistFlag.code : ExistFlag → Int
  | .notExist => 0
  | .existing => 1

/-- `external_flag`: where the file of a Master's path entry really lives. -/
inductive ExternalFlag
  | internal
  | ext
  | renamed
deriving DecidableEq, Repr

/-! ## The master of a path -/

/-- `file_path_hash`; `hash` is `std::hash<std::string>`. -/
def filePathHash (hash : Str → Nat) (filePath : Str) (number : Nat) : Nat := hash filePath % number

/-- `_get_master_number_from_path`, for a client that knows `number` masters. -/
def getMasterNumberFromPath (hash : Str → Nat) (number : Nat) (path : Str) : Nat := filePathHash hash path number

/-! ## Block arithmetic -/

/-- `get_block_start_point`: the start of the block that holds `startPoint`. -/
def getBlockStartPoint (startPoint : Nat) : Nat := startPoint / BLOCK_SIZE * BLOCK_SIZE

/-- `get_block_size`: every file has blocks of the one size. -/
def getBlockSize (_size : Nat) : Nat := BLOCK_SIZE

theorem getBlockStartPoint_le (p : Nat) : getBlockStartPoint p ≤ p := Nat.div_mul_le_self _ _

theorem lt_getBlockStartPoint_add (p : Nat) : p < getBlockStartPoint p + BLOCK_SIZE := by
  unfold getBlockStartPoint BLOCK_SIZE; omega

theorem getBlockStartPoint_mul_add (q r : Nat) (h : r < BLOCK_SIZE) :
    getBlockStartPoint (q * BLOCK_SIZE + r) = q * BLOCK_SIZE := by
  unfold getBlockStartPoint BLOCK_SIZE; unfold BLOCK_SIZE at h; omega

/-- Seen from the start of a block. -/
theorem getBlockStartPoint_add {k : Nat} (hk : getBlockStartPoint k = k) (q : Nat) : getBlockStartPoint (k + q) = k + getBlockStartPoint q := by
  have hk' : k / BLOCK_SIZE * BLOCK_SIZE = k := hk
  have hpos : 0 < BLOCK_SIZE := by decide
  show (k + q) / BLOCK_SIZE * BLOCK_SIZE = k + q / BLOCK_SIZE * BLOCK_SIZE
  generalize BLOCK_SIZE = B at hk' hpos ⊢
  have hdiv : (k + q) / B = k / B + q / B := by
    conv_lhs => rw [← hk', Nat.add_comm, Nat.add_mul_div_right _ _ hpos]
    exact Nat.add_comm _ _
  rw [hdiv, Nat.add_mul, hk']

theorem getBlockStartPoint_of_lt {r : Nat} (h : r < BLOCK_SIZE) : getBlockStartPoint r = 0 := by
  unfold getBlockStartPoint
  rw [Nat.div_eq_of_lt h, Nat.zero_mul]

theorem getBlockStartPoint_next {start : Nat} (h : getBlockStartPoint start = start) :
    getBlockStartPoint (start + BLOCK_SIZE) = start + BLOCK_SIZE := getBlockStartPoint_add h BLOCK_SIZE

theorem getBlockStartPoint_self (p : Nat) : getBlockStartPoint (getBlockStartPoint p) = getBlockStartPoint p := by
  unfold getBlockStartPoint
  rw [Nat.mul_div_cancel _ (by decide)]

/-- The start of the next block is the next start of a block. -/
theorem block_le_of_lt {k j : Nat} (hk : getBlockStartPoint k = k) (hj : getBlockStartPoint j = j) (h : k < j) : k + BLOCK_SIZE ≤ j := by
  by_contra hlt
  obtain ⟨q, rfl⟩ := Nat.exists_eq_add_of_lt h
  rw [Nat.add_assoc, getBlockStartPoint_add hk, getBlockStartPoint_of_lt (by omega)] at hj
  omega

theorem getBlockStartPoint_add_block (p : Nat) : getBlockStartPoint (p + BLOCK_SIZE) = getBlockStartPoint p + BLOCK_SIZE := by
  unfold getBlockStartPoint
  rw [Nat.add_div_right _ (by decide), Nat.succ_mul]

/-- The number of transfers (and of blocks the Master selects) for `size` bytes. -/
def blockCount (size : Nat) : Nat := (size + (BLOCK_SIZE - 1)) / BLOCK_SIZE

theorem blockCount_zero : blockCount 0 = 0 := rfl

theorem blockCount_step {size : Nat} (h : 0 < size) :
    blockCount size = blockCount (size - BLOCK_SIZE) + 1 := by
  unfold blockCount BLOCK_SIZE; omega

/-- Block `i` is needed exactly when the range goes past its start. -/
theorem lt_blockCount_iff {size i : Nat} : i < blockCount size ↔ i * BLOCK_SIZE < size := by
  unfold blockCount BLOCK_SIZE; omega

theorem blockCount_mono {a b : Nat} (h : a ≤ b) : blockCount a ≤ blockCount b :=
  Nat.div_le_div_right (Nat.add_le_add_right h _)

end HuronFS
