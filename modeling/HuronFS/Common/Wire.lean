import HuronFS.Common.Task
import HuronFS.Lib.Reader

/-!
# `Common.Wire` — messages as bytes (`CBB_IO_task.h`)

`push_back` copies the bytes of a value to the end of the message and `pop` copies as many from the current
point; neither says what the value is. A task that receives a message is reused: past the end of the
message its buffer holds what earlier messages left there.
-/

namespace HuronFS

open Wire Region

/-- The bytes of a message that follow its header. -/
abbrev BASIC_MESSAGE_ROOM : Nat := MAX_BASIC_MESSAGE_SIZE - MESSAGE_META_OFF

/-- The buffer a client collects directory entries in. -/
abbrev MAX_DIR_FILE_SIZE : Nat := MAX_EXTENDED_MESSAGE_SIZE

/-- The bytes one push appends. -/
def Field.encode : Field → List Byte
  | .w32 v => leBytes 4 v.toNat
  | .w64 v => leBytes 8 v.toNat
  | .str s => stringBytes s

/-- The bytes of a message. -/
def encode (fs : List Field) : List Byte := fs.flatMap Field.encode

@[simp] theorem encode_nil : encode [] = [] := rfl
theorem encode_cons (f : Field) (fs : List Field) : encode (f :: fs) = f.encode ++ encode fs := rfl

theorem Field.length_encode (f : Field) : f.encode.length = f.bytes := by
  cases f with
  | w32 v => exact length_leBytes 4 _
  | w64 v => exact length_leBytes 8 _
  | str s => rw [Field.encode, length_stringBytes, Field.bytes_str]

theorem length_encode (fs : List Field) : (encode fs).length = fieldBytes fs := by
  induction fs with
  | nil => rfl
  | cons f fs ih => rw [encode_cons, List.length_append, ih, Field.length_encode, fieldBytes_cons]

/-- A task that has received a message: `stale` is what its buffer held before. -/
def received (stale : Nat → Byte) (fs : List Field) : Reader := ⟨patch stale 0 (encode fs), BASIC_MESSAGE_ROOM, 0⟩

@[simp] theorem received_point (stale : Nat → Byte) (fs : List Field) : (received stale fs).point = 0 := rfl
@[simp] theorem received_room (stale : Nat → Byte) (fs : List Field) :
    (received stale fs).room = BASIC_MESSAGE_ROOM := rfl

/-! ## Pops -/

/-- `pop` into a 4-byte variable. -/
def pop32 : Pop (BitVec 32) := fun r => (popWord 4 r).map (fun (v, r) => (BitVec.ofNat 32 v, r))

/-- `pop` into an 8-byte variable. -/
def pop64 : Pop (BitVec 64) := fun r => (popWord 8 r).map (fun (v, r) => (BitVec.ofNat 64 v, r))

/-- The attributes in a message, the size a 64-bit number. -/
structure Attr where
  st : Stat
  small : st.stSize < 2 ^ 64

/-- `Recv_attr`. -/
def recvAttr : Pop Attr := do
  let mode ← pop32
  let uid ← pop32
  let gid ← pop32
  let size ← pop64
  let atime ← pop64
  let mtime ← pop64
  let ctime ← pop64
  let blksize ← pop64
  return ⟨⟨mode, uid, gid, size.toNat, atime, mtime, ctime, blksize⟩, size.isLt⟩

/-- The fields of a message stand at the point. -/
def HasFields (r : Reader) (fs : List Field) : Prop := r.Ahead (encode fs)

theorem received_hasFields {fs : List Field} (h : fieldBytes fs ≤ BASIC_MESSAGE_ROOM) (stale : Nat → Byte) :
    HasFields (received stale fs) fs := by
  refine ⟨slice_patch stale 0 (encode fs), ?_⟩
  show 0 + (encode fs).length ≤ BASIC_MESSAGE_ROOM
  rw [length_encode]
  omega

section
variable {r : Reader} {fs : List Field}

theorem pop32_ahead {v : BitVec 32} {rest : List Byte} (h : r.Ahead (leBytes 4 v.toNat ++ rest)) :
    pop32 r = some (v, r.advance 4) ∧ (r.advance 4).Ahead rest := by
  obtain ⟨hpop, hrest⟩ := popWord_ahead h
  refine ⟨?_, hrest⟩
  have hvalue : v.toNat % 256 ^ 4 = v.toNat := Nat.mod_eq_of_lt v.isLt
  unfold pop32
  rw [hpop, hvalue]
  simp only [Option.map_some, BitVec.ofNat_toNat, BitVec.setWidth_eq]

theorem pop64_ahead {v : BitVec 64} {rest : List Byte} (h : r.Ahead (leBytes 8 v.toNat ++ rest)) :
    pop64 r = some (v, r.advance 8) ∧ (r.advance 8).Ahead rest := by
  obtain ⟨hpop, hrest⟩ := popWord_ahead h
  refine ⟨?_, hrest⟩
  have hvalue : v.toNat % 256 ^ 8 = v.toNat := Nat.mod_eq_of_lt v.isLt
  unfold pop64
  rw [hpop, hvalue]
  simp only [Option.map_some, BitVec.ofNat_toNat, BitVec.setWidth_eq]

theorem pop32_eq {v : BitVec 32} (h : HasFields r (.w32 v :: fs)) :
    pop32 r = some (v, r.advance 4) ∧ HasFields (r.advance 4) fs := pop32_ahead h

theorem pop64_eq {v : BitVec 64} (h : HasFields r (.w64 v :: fs)) :
    pop64 r = some (v, r.advance 8) ∧ HasFields (r.advance 8) fs := pop64_ahead h

theorem popString_cut {s : Str} (hsmall : s.length + 1 < 256 ^ 8) (h : HasFields r (.str s :: fs)) :
    ∃ c : CString, popCString r = some (c, r.advance (s.length + 9)) ∧ c.bytes = s.takeWhile (· != 0) ∧
      HasFields (r.advance (s.length + 9)) fs :=
  popCString_ahead hsmall h

/-- A string without a zero byte arrives whole. -/
theorem popString_eq {s : CString} (hsmall : s.bytes.length + 1 < 256 ^ 8) (h : HasFields r (.str s.bytes :: fs)) :
    popCString r = some (s, r.advance (s.bytes.length + 9)) ∧ HasFields (r.advance (s.bytes.length + 9)) fs := by
  obtain ⟨c, hpop, hbytes, hrest⟩ := popString_cut hsmall h
  have hcs : c = s := by
    obtain ⟨b, hb⟩ := c
    obtain ⟨b', hb'⟩ := s
    obtain rfl : b = b' := hbytes.trans (takeWhile_noZero.mpr hb')
    rfl
  rw [hcs] at hpop
  exact ⟨hpop, hrest⟩

/-- The attributes that were sent are received. -/
theorem recvAttr_eq {attr : Attr} (h : HasFields r (sendAttr attr.st ++ fs)) :
    recvAttr r = some (attr, r.advance 52) ∧ HasFields (r.advance 52) fs := by
  obtain ⟨⟨mode, uid, gid, size, atime, mtime, ctime, blksize⟩, hsmall⟩ := attr
  obtain ⟨h1, h⟩ := pop32_eq h
  obtain ⟨h2, h⟩ := pop32_eq h
  obtain ⟨h3, h⟩ := pop32_eq h
  obtain ⟨h4, h⟩ := pop64_eq h
  obtain ⟨h5, h⟩ := pop64_eq h
  obtain ⟨h6, h⟩ := pop64_eq h
  obtain ⟨h7, h⟩ := pop64_eq h
  obtain ⟨h8, h⟩ := pop64_eq h
  refine ⟨?_, h⟩
  unfold recvAttr
  rw [Pop.bind_eq h1, Pop.bind_eq h2, Pop.bind_eq h3, Pop.bind_eq h4, Pop.bind_eq h5, Pop.bind_eq h6, Pop.bind_eq h7,
    Pop.bind_eq h8, Pop.pure_eq]
  simp only [Reader.advance_advance, BitVec.toNat_ofNat, Nat.mod_eq_of_lt hsmall]

/-- Whatever the attributes sent, the ones received are the same on the wire. -/
theorem recvAttr_fields {st : Stat} (h : HasFields r (sendAttr st ++ fs)) :
    ∃ attr, recvAttr r = some (attr, r.advance 52) ∧ sendAttr attr.st = sendAttr st ∧ HasFields (r.advance 52) fs := by
  have hlt : st.stSize % 2 ^ 64 < 2 ^ 64 := Nat.mod_lt _ (by decide)
  have hsame : sendAttr { st with stSize := st.stSize % 2 ^ 64 } = sendAttr st := by
    have hsize : BitVec.ofNat 64 (st.stSize % 2 ^ 64) = BitVec.ofNat 64 st.stSize := by
      apply BitVec.eq_of_toNat_eq
      rw [BitVec.toNat_ofNat, BitVec.toNat_ofNat, Nat.mod_mod]
    unfold sendAttr Field.size
    rw [hsize]
  rw [← hsame] at h
  obtain ⟨hpop, hrest⟩ := recvAttr_eq (show HasFields r (sendAttr (Attr.mk _ hlt).st ++ fs) from h)
  exact ⟨_, hpop, hsame, hrest⟩

end

/-! ## Pops that go on past what was sent -/

/-- A 4-byte pop moves the point by four, whatever it finds. -/
theorem pop32_advance {r r' : Reader} {v : BitVec 32} (h : pop32 r = some (v, r')) : r' = r.advance 4 := by
  unfold pop32 at h
  cases hw : popWord 4 r with
  | none => rw [hw] at h; cases h
  | some p =>
      rw [hw] at h
      cases h
      exact popWord_advance hw

theorem pop64_advance {r r' : Reader} {v : BitVec 64} (h : pop64 r = some (v, r')) : r' = r.advance 8 := by
  unfold pop64 at h
  cases hw : popWord 8 r with
  | none => rw [hw] at h; cases h
  | some p =>
      rw [hw] at h
      cases h
      exact popWord_advance hw

end HuronFS
