import HuronFS.Common.Const
import HuronFS.Lib.ByteFile
import HuronFS.Lib.Run

/-!
# `Client.Stream` — the buffered stream (`CBB_stream.cpp`)

A stream is a buffer over a file descriptor. The descriptor is the plain file it stands for: a byte array
with a cursor, which `read`, `write` and `lseek` of `CBB_client` implement. `cur_buf_ptr` is kept as its
distance from `buf`, a signed number, for the source moves it by differences that can be negative; a
`memcpy` that leaves the buffer is undefined behaviour, and has no result.
-/

namespace HuronFS

open Region

/-- A file descriptor: the file and the position in it. -/
structure Fd where
  file : ByteFile Byte
  cursor : Nat

namespace Fd

/-- `CBB_client::read`. -/
def read (d : Fd) (size : Nat) : List Byte × Fd :=
  (d.file.read d.cursor size, { d with cursor := d.cursor + (d.file.read d.cursor size).length })

/-- `CBB_client::write`. -/
def write (d : Fd) (bytes : List Byte) : Fd := ⟨d.file.write d.cursor bytes, d.cursor + bytes.length⟩

/-- `CBB_client::lseek` with `SEEK_SET`. -/
def seekSet (d : Fd) (offset : Nat) : Fd := { d with cursor := offset }

/-- `CBB_client::lseek` with `SEEK_CUR`. -/
def seekCur (d : Fd) (offset : Nat) : Fd := { d with cursor := d.cursor + offset }

/-- `CBB_client::_update_file_size`: bytes below the new size that were never written read as zero. -/
def updateFileSize (d : Fd) (size : Nat) : Fd := { d with file := d.file.grow size }

end Fd

def EBADF : Int := 9
def O_WRONLY : BitVec 32 := 1#32
def O_RDWR : BitVec 32 := 2#32

/-- `stream_info`, with the descriptor it is over. -/
structure Stream where
  dirtyFlag : Bool
  openFlag : BitVec 32
  err : Int
  buf : Nat → Byte
  curBufOff : Int
  bufferedDataSize : Nat
  fileSize : Nat
  bufFileOff : Nat
  fd : Fd

namespace Stream

/-- The constructor, over a descriptor just opened. The buffer holds whatever the pool's memory held. -/
def opened (file : ByteFile Byte) (openFlag : BitVec 32) (memory : Nat → Byte) : Stream :=
  { dirtyFlag := false, openFlag := openFlag, err := 0, buf := memory, curBufOff := 0, bufferedDataSize := 0,
    fileSize := file.size, bufFileOff := 0, fd := ⟨file, 0⟩ }

/-- `_cur_file_off`. -/
def curFileOff (s : Stream) : Int := s.bufFileOff + s.curBufOff

/-- `_remaining_buffer_data_size`. -/
def remainingBufferDataSize (s : Stream) : Nat :=
  if s.curBufOff > s.bufferedDataSize then s.bufferedDataSize else (s.bufferedDataSize - s.curBufOff).toNat

/-- `_remaining_buffer_size`, a difference of `size_t`. -/
def remainingBufferSize (s : Stream) : Nat := ((STREAM_BUFFER_SIZE - s.curBufOff) % 2 ^ 64).toNat

/-- `memcpy` of `size` bytes from `cur_buf_ptr`. -/
def copyOut (s : Stream) (size : Nat) : Option (List Byte) :=
  if size = 0 then some []
  else if 0 ≤ s.curBufOff ∧ s.curBufOff + size ≤ STREAM_BUFFER_SIZE then some (slice s.buf s.curBufOff.toNat size)
  else none

/-- `memcpy` of bytes to `buf + off`. -/
def copyIn (s : Stream) (off : Int) (bytes : List Byte) : Option Stream :=
  if bytes = [] then some s
  else if 0 ≤ off ∧ off + bytes.length ≤ STREAM_BUFFER_SIZE then some { s with buf := patch s.buf off.toNat bytes }
  else none

/-- `_flush_stream`: after the write the descriptor is moved on by the buffered size once more. -/
def flush (s : Stream) : Stream :=
  if s.dirtyFlag then
    { s with
      dirtyFlag := false
      fd := (((s.fd.updateFileSize s.fileSize).seekSet s.bufFileOff).write
        (slice s.buf 0 s.bufferedDataSize)).seekCur s.bufferedDataSize }
  else s

/-- `CBB_client::read` into the buffer. -/
def fillBuffer (s : Stream) : List Byte × Stream :=
  let (bytes, fd) := s.fd.read STREAM_BUFFER_SIZE
  (bytes, { s with fd := fd, buf := patch s.buf 0 bytes })

/-- `_update_meta_for_rebuf`. -/
def updateMetaForRebuf (s : Stream) (newDirtyFlag : Bool) (rebufferedDataSize : Nat) : Stream :=
  let bufFileOff := s.bufFileOff + s.bufferedDataSize
  { s with
    bufFileOff := bufFileOff
    dirtyFlag := newDirtyFlag
    bufferedDataSize := rebufferedDataSize
    fileSize := if bufFileOff + rebufferedDataSize > s.fileSize then bufFileOff + rebufferedDataSize else s.fileSize
    curBufOff := if s.curBufOff ≥ STREAM_BUFFER_SIZE then 0 else s.curBufOff }

/-- `_update_cur_buf_ptr`. -/
def updateCurBufPtr (s : Stream) (updateSize : Nat) : Stream :=
  let fileSize := if s.fileSize < s.fd.file.size then s.fd.file.size else s.fileSize
  { s with
    fileSize := fileSize
    curBufOff := if (fileSize : Int) < updateSize + s.curFileOff then s.curBufOff + (fileSize - s.curFileOff)
      else s.curBufOff + updateSize }

/-- `_write_meta_update`. -/
def writeMetaUpdate (s : Stream) (writeSize : Nat) : Stream :=
  let curBufOff := s.curBufOff + writeSize
  { s with
    curBufOff := curBufOff
    bufferedDataSize := if curBufOff > s.bufferedDataSize then curBufOff.toNat else s.bufferedDataSize
    fileSize := if s.bufFileOff + curBufOff > s.fileSize then (s.bufFileOff + curBufOff).toNat else s.fileSize }

/-- `_init_buffer_for_writing`. The buffered size is not updated. -/
def initBufferForWriting (s : Stream) : Stream :=
  if s.curBufOff > s.bufferedDataSize ∧ s.bufFileOff < s.fileSize then s.flush.fillBuffer.2 else s

/-- The `while` loop of `read_stream`. -/
def readLoop : (fuel unbufferedSize : Nat) → (acc : List Byte) → Stream → Option (List Byte × Stream)
  | 0, _, _, _ => none
  | fuel + 1, unbufferedSize, acc, s =>
      if unbufferedSize = 0 then some (acc, s)
      else
        let (bytes, s) := s.flush.fillBuffer
        if bytes.length = 0 then some (acc, s)
        else
          let s := s.updateMetaForRebuf false bytes.length
          let currentIOSize := min unbufferedSize s.remainingBufferDataSize
          match s.copyOut currentIOSize with
          | none => none
          | some out => readLoop fuel (unbufferedSize - currentIOSize) (acc ++ out) (s.updateCurBufPtr currentIOSize)

/-- `read_stream`. Each turn of the loop moves the descriptor on towards the end of the file, which
    gives the fuel. -/
def readStream (s : Stream) (size : Nat) : Option (List Byte × Stream) :=
  let bufferedSize := min s.remainingBufferDataSize size
  match s.copyOut bufferedSize with
  | none => none
  | some out =>
      readLoop (s.fd.file.size + s.fileSize + s.bufFileOff + s.bufferedDataSize + 2) (size - bufferedSize) out
        (s.updateCurBufPtr bufferedSize)

/-- The `while` loop of `write_stream`: the rest of the bytes goes to the start of the buffer. -/
def writeLoop : (fuel : Nat) → (bytes : List Byte) → Stream → Option Stream
  | 0, _, _ => none
  | fuel + 1, bytes, s =>
      if bytes.length = 0 then some s
      else
        let s := s.flush.updateMetaForRebuf true 0
        let currentIOSize := min bytes.length s.remainingBufferSize
        match s.copyIn 0 (bytes.take currentIOSize) with
        | none => none
        | some s => writeLoop fuel (bytes.drop currentIOSize) (s.writeMetaUpdate currentIOSize)

/-- The stream was opened for writing. -/
def Writable (s : Stream) : Prop := s.openFlag &&& O_WRONLY ≠ 0 ∨ s.openFlag &&& O_RDWR ≠ 0

/-- `write_stream`: how many bytes it took. -/
def writeStream (s : Stream) (bytes : List Byte) : Option (Nat × Stream) :=
  if s.openFlag &&& O_WRONLY = 0 ∧ s.openFlag &&& O_RDWR = 0 then some (0, { s with err := EBADF })
  else
    let bufferableSize := min s.remainingBufferSize bytes.length
    match s.initBufferForWriting.copyIn s.curBufOff (bytes.take bufferableSize) with
    | none => none
    | some s =>
        (writeLoop (bytes.length + 1) (bytes.drop bufferableSize)
          { s.writeMetaUpdate bufferableSize with dirtyFlag := true }).map (fun s => (bytes.length, s))

/-- `whence`. -/
inductive Whence
  | set
  | cur
  | fromEnd
deriving DecidableEq, Repr

/-- The position `seek_stream` goes to; for `SEEK_END` it asks the client for the size of the file. -/
def newPosition (s : Stream) (offset : Int) : Whence → Int
  | .set => offset
  | .cur => s.curFileOff + offset
  | .fromEnd => s.fd.file.size + offset

/-- `seek_stream` to a position that is not negative. -/
def seekTo (s : Stream) (newPos : Nat) : Stream :=
  if newPos > s.bufFileOff + s.bufferedDataSize ∨ newPos < s.bufFileOff then
    let s := s.flush
    { s with
      bufFileOff := getBlockStartPoint newPos
      bufferedDataSize := 0
      curBufOff := newPos - getBlockStartPoint newPos
      fd := s.fd.seekSet (getBlockStartPoint newPos) }
  else { s with curBufOff := newPos - s.curFileOff + s.curBufOff }

end Stream

/-! ## Runs, next to the plain file -/

/-- An operation on a stream, or on the file it stands for. -/
inductive StreamOp
  | read (size : Nat)
  | write (bytes : List Byte)
  | seek (offset : Int) (whence : Stream.Whence)
  | tell
  | eof
  | flush

/-- What an operation returns. -/
inductive StreamOut
  | bytes (l : List Byte)
  | count (n : Nat)
  | position (p : Int)
  | flag (b : Bool)
  | done
deriving DecidableEq, Repr

/-- An operation on the stream. A seek before the start of the file is not modelled. -/
def Stream.exec (s : Stream) : StreamOp → Option (Stream × StreamOut)
  | .read size => (s.readStream size).map (fun (l, s') => (s', .bytes l))
  | .write bytes => (s.writeStream bytes).map (fun (n, s') => (s', .count n))
  | .seek offset whence =>
      if s.newPosition offset whence < 0 then none
      else some (s.seekTo (s.newPosition offset whence).toNat, .position (s.newPosition offset whence))
  | .tell => some (s, .position s.curFileOff)
  | .eof => some (s, .flag (!decide (s.curFileOff < s.fileSize)))
  | .flush => some (s.flush, .done)

/-- The position a seek on the plain file goes to. -/
def Fd.newPosition (d : Fd) (offset : Int) : Stream.Whence → Int
  | .set => offset
  | .cur => d.cursor + offset
  | .fromEnd => d.file.size + offset

/-- The same operation on the plain file. -/
def Fd.exec (d : Fd) : StreamOp → Option (Fd × StreamOut)
  | .read size => some ((d.read size).2, .bytes (d.read size).1)
  | .write bytes => some (d.write bytes, .count bytes.length)
  | .seek offset whence =>
      if d.newPosition offset whence < 0 then none
      else some (d.seekSet (d.newPosition offset whence).toNat, .position (d.newPosition offset whence))
  | .tell => some (d, .position d.cursor)
  | .eof => some (d, .flag (!decide (d.cursor < d.file.size)))
  | .flush => some (d, .done)

/-- A stream next to the plain file, with what each operation returned on the one and on the other. -/
structure Twin where
  stream : Stream
  plain : Fd
  outs : List (StreamOut × StreamOut)

/-- One operation on both. -/
def Twin.step (t : Twin) (op : StreamOp) : Option Twin :=
  match t.stream.exec op, t.plain.exec op with
  | some (s', out), some (d', out') => some ⟨s', d', t.outs ++ [(out, out')]⟩
  | _, _ => none

end HuronFS
