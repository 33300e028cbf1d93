import HuronFS.Client.Calls
import HuronFS.Master.Replies

/-!
# `Client.WireFormat` — when client and Master agree on the wire format

`Exchange.Condition` says, call by call and in terms of the arguments and the state before the call, when
the two sides read the same message. It leaves out an open without `O_CREAT`, whose flag is never sent; a
path that lives with another Master, for which only a number is sent back; an open that fails, whose status
the client does not survive; a mkdir, whose reply has no field; a read or write of an unknown number, whose
request is popped in part; the entries of a second Master in one readdir; and messages that do not fit.
-/

namespace HuronFS

open Wire Region

/-! ## The request -/

namespace Call

/-- When the Master's pops match the pushes. -/
def RequestMatches (m : Master) : Call → Prop
  | .openFile _ flag mode => Master.hasCreate flag = true ∨ (flag = mode ∧ mode = Master.defaultMode)
  | .readFile fileNo _ _ => m.isBuffered fileNo = true
  | .writeFile fileNo _ _ _ => m.isBuffered fileNo = true
  | .updateMeta fileNo _ => m.isBuffered fileNo = true
  | _ => True

end Call

namespace Master

section
variable {m : Master} {r : Reader} {fs : List Field}

/-- The code is popped first, and chooses the handler. -/
theorem decode_eq {code : Int} (hlo : -2 ^ 31 ≤ code) (hhi : code < 2 ^ 31) (h : HasFields r (.int code :: fs)) :
    m.decode r = m.popRequest code (r.advance 4) ∧ HasFields (r.advance 4) fs := by
  obtain ⟨hpop, hrest⟩ := pop32_eq h
  refine ⟨?_, hrest⟩
  unfold decode
  rw [Pop.bind_eq hpop, BitVec.toInt_ofInt_eq_self (by decide) hlo hhi]

theorem popFileNo_eq {fileNo : BitVec 64} (call : BitVec 64 → Call) (h : HasFields r (.w64 fileNo :: fs)) :
    popFileNo call r = some (call fileNo, r.advance 8) := by
  unfold popFileNo
  rw [Pop.bind_eq (pop64_eq h).1, Pop.pure_eq]

theorem popPath_eq {path : CString} (hsmall : path.bytes.length + 1 < 256 ^ 8) (call : CString → Call)
    (h : HasFields r (.str path.bytes :: fs)) :
    popPath call r = some (call path, r.advance (path.bytes.length + 9)) := by
  unfold popPath
  rw [Pop.bind_eq (popString_eq hsmall h).1, Pop.pure_eq]

theorem popPathInt_eq {path : CString} {v : BitVec 32} (hsmall : path.bytes.length + 1 < 256 ^ 8)
    (call : CString → BitVec 32 → Call) (h : HasFields r (.str path.bytes :: .w32 v :: fs)) :
    popPathInt call r = some (call path v, r.advance (path.bytes.length + 13)) := by
  obtain ⟨h1, h⟩ := popString_eq hsmall h
  obtain ⟨h2, _⟩ := pop32_eq h
  unfold popPathInt
  rw [Pop.bind_eq h1, Pop.bind_eq h2, Pop.pure_eq, Reader.advance_advance]

theorem popRename_eq {a b : CString} {v : BitVec 32} (ha : a.bytes.length + 1 < 256 ^ 8)
    (hb : b.bytes.length + 1 < 256 ^ 8) (h : HasFields r (.str a.bytes :: .str b.bytes :: .w32 v :: fs)) :
    popRename r = some (.rename a b v, r.advance (a.bytes.length + 9 + (b.bytes.length + 9) + 4)) := by
  obtain ⟨h1, h⟩ := popString_eq ha h
  obtain ⟨h2, h⟩ := popString_eq hb h
  obtain ⟨h3, _⟩ := pop32_eq h
  unfold popRename
  rw [Pop.bind_eq h1, Pop.bind_eq h2, Pop.bind_eq h3, Pop.pure_eq]
  simp only [Reader.advance_advance, Nat.add_assoc]

theorem popTruncate_eq {path : CString} {size : BitVec 64} (hsmall : path.bytes.length + 1 < 256 ^ 8)
    (h : HasFields r (.str path.bytes :: .w64 size :: fs)) :
    popTruncate r = some (.truncate path size, r.advance (path.bytes.length + 9 + 8)) := by
  obtain ⟨h1, h⟩ := popString_eq hsmall h
  obtain ⟨h2, _⟩ := pop64_eq h
  unfold popTruncate
  rw [Pop.bind_eq h1, Pop.bind_eq h2, Pop.pure_eq, Reader.advance_advance]

/-- With `O_CREAT` both the flag and the mode arrive. -/
theorem popOpenFile_create {path : CString} {flag mode : BitVec 32} (hsmall : path.bytes.length + 1 < 256 ^ 8)
    (hcreate : hasCreate flag = true) (h : HasFields r (.str path.bytes :: .w32 flag :: .w32 mode :: fs)) :
    popOpenFile r = some (.openFile path flag mode, r.advance (path.bytes.length + 9 + 4 + 4)) := by
  obtain ⟨h1, h⟩ := popString_eq hsmall h
  obtain ⟨h2, h⟩ := pop32_eq h
  obtain ⟨h3, _⟩ := pop32_eq h
  unfold popOpenFile
  rw [Pop.bind_eq h1, Pop.bind_eq h2, if_pos hcreate, Pop.bind_eq h3, Pop.pure_eq]
  simp only [Reader.advance_advance, Nat.add_assoc]

/-- Without it the mode is popped as the flag; when it happens to hold the bit of `O_CREAT`, four more
    bytes are popped as the mode. -/
theorem popOpenFile_plain {path : CString} {mode : BitVec 32} (hsmall : path.bytes.length + 1 < 256 ^ 8)
    (h : HasFields r (.str path.bytes :: .w32 mode :: fs)) :
    (hasCreate mode = false ∧
      popOpenFile r = some (.openFile path mode defaultMode, r.advance (path.bytes.length + 9 + 4))) ∨
    (hasCreate mode = true ∧
      ∀ call r', popOpenFile r = some (call, r') → r' = r.advance (path.bytes.length + 9 + 4 + 4)) := by
  obtain ⟨h1, h⟩ := popString_eq hsmall h
  obtain ⟨h2, h⟩ := pop32_eq h
  unfold popOpenFile
  rw [Pop.bind_eq h1, Pop.bind_eq h2]
  cases hc : hasCreate mode with
  | false =>
      left
      refine ⟨rfl, ?_⟩
      rw [if_neg (by decide), Pop.pure_eq, Reader.advance_advance]
  | true =>
      right
      refine ⟨rfl, ?_⟩
      intro call r' hr'
      rw [if_pos rfl] at hr'
      obtain ⟨v, r1, hp, hpure⟩ := Pop.bind_some hr'
      cases hpure
      rw [pop32_advance hp]
      simp only [Reader.advance_advance, Nat.add_assoc]

/-- The pops of a handler that looks the file number up first: nothing more is popped when it is unknown. -/
theorem popReadFile_eq {fileNo startPoint size : BitVec 64} (h : HasFields r (.w64 fileNo :: .w64 startPoint :: .w64 size :: fs)) :
    m.popReadFile r = if m.isBuffered fileNo then some (.readFile fileNo startPoint size, r.advance 24)
      else some (.readFile fileNo 0 0, r.advance 8) := by
  obtain ⟨h1, h⟩ := pop64_eq h
  obtain ⟨h2, h⟩ := pop64_eq h
  obtain ⟨h3, _⟩ := pop64_eq h
  unfold popReadFile
  rw [Pop.bind_eq h1]
  split
  · rw [Pop.bind_eq h2, Pop.bind_eq h3, Pop.pure_eq]
    simp only [Reader.advance_advance]
  · rw [Pop.pure_eq]

theorem popWriteFile_eq {fileNo startPoint size : BitVec 64} {attr : Attr}
    (h : HasFields r (.w64 fileNo :: (sendAttr attr.st ++ .w64 startPoint :: .w64 size :: fs))) :
    m.popWriteFile r = if m.isBuffered fileNo then some (.writeFile fileNo attr startPoint size, r.advance 76)
      else some (.writeFile fileNo ⟨Stat.zero, by decide⟩ 0 0, r.advance 8) := by
  obtain ⟨h1, h⟩ := pop64_eq h
  obtain ⟨h2, h⟩ := recvAttr_eq h
  obtain ⟨h3, h⟩ := pop64_eq h
  obtain ⟨h4, _⟩ := pop64_eq h
  unfold popWriteFile
  rw [Pop.bind_eq h1]
  split
  · rw [Pop.bind_eq h2, Pop.bind_eq h3, Pop.bind_eq h4, Pop.pure_eq]
    simp only [Reader.advance_advance]
  · rw [Pop.pure_eq]

theorem popMetaUpdate_eq {fileNo : BitVec 64} {attr : Attr} (h : HasFields r (.w64 fileNo :: (sendAttr attr.st ++ fs))) :
    m.popMetaUpdate r = if m.isBuffered fileNo then some (.updateMeta fileNo attr, r.advance 60)
      else some (.updateMeta fileNo ⟨Stat.zero, by decide⟩, r.advance 8) := by
  obtain ⟨h1, h⟩ := pop64_eq h
  obtain ⟨h2, _⟩ := recvAttr_eq h
  unfold popMetaUpdate
  rw [Pop.bind_eq h1]
  split
  · rw [Pop.bind_eq h2, Pop.pure_eq]
    simp only [Reader.advance_advance]
  · rw [Pop.pure_eq]

end

/-- A string in a message that fits is short. -/
theorem path_small {l : List Field} (s : Str) (hroom : fieldBytes l ≤ BASIC_MESSAGE_ROOM) (hs : .str s ∈ l) :
    s.length + 1 < 256 ^ 8 := by
  have hR : BASIC_MESSAGE_ROOM = 3976 := rfl
  obtain ⟨a, b, rfl⟩ := List.append_of_mem hs
  rw [fieldBytes_append, fieldBytes_cons, Field.bytes_str] at hroom
  omega

/-- The Master decodes the call, and nothing is left. -/
def Decodes (m : Master) (call : Call) (r : Reader) : Prop :=
  ∃ r', m.decode r = some (call, r') ∧ r'.point = r.point + fieldBytes call.fields

/-- A handler that pops all the fields there are. -/
theorem decodes_of {m : Master} {call : Call} {r : Reader} {n : Nat} {p : Pop Call}
    (hdec : m.decode r = p (r.advance 4)) (hpop : p (r.advance 4) = some (call, (r.advance 4).advance n))
    (hn : fieldBytes call.fields = 4 + n) : m.Decodes call r := by
  refine ⟨_, hdec.trans hpop, ?_⟩
  rw [Reader.advance_point, Reader.advance_point, hn, Nat.add_assoc]

/-- A handler that pops everything of a known file, and only the number of an unknown one. -/
theorem decodes_iff_of {m : Master} {call call' : Call} {r : Reader} {n : Nat} {p : Pop Call} {known : Bool}
    (hdec : m.decode r = p (r.advance 4))
    (hpop : p (r.advance 4) = if known then some (call, (r.advance 4).advance n) else some (call', (r.advance 4).advance 8))
    (hn : fieldBytes call.fields = 4 + n) (hlt : 8 < n) : m.Decodes call r ↔ known = true := by
  cases known with
  | true => exact iff_of_true (decodes_of hdec hpop hn) rfl
  | false =>
      refine iff_of_false ?_ (by decide)
      rintro ⟨r', hr', hpoint⟩
      rw [hdec, hpop] at hr'
      cases hr'
      rw [Reader.advance_point, Reader.advance_point, hn] at hpoint
      omega

/-- **The Master's pops match the pushes** exactly under `RequestMatches`. -/
theorem decodes_iff (m : Master) (call : Call) {r : Reader} (hroom : fieldBytes call.fields ≤ BASIC_MESSAGE_ROOM)
    (h : HasFields r call.fields) : m.Decodes call r ↔ call.RequestMatches m := by
  have hR : BASIC_MESSAGE_ROOM = 3976 := rfl
  cases call with
  | openFile path flag mode =>
      cases hc : hasCreate flag with
      | true =>
          have hf : (Call.openFile path flag mode).fields = [.int OPEN_FILE, .str path.bytes, .w32 flag, .w32 mode] := by
            simp [Call.fields, hc]
          rw [hf] at h hroom
          simp only [fieldBytes_cons, Field.bytes_int, Field.bytes_str, Field.bytes_w32, fieldBytes_nil] at hroom
          obtain ⟨hdec, hrest⟩ := decode_eq (by decide) (by decide) h
          refine iff_of_true (decodes_of hdec (popOpenFile_create (by omega) hc hrest) ?_) (Or.inl hc)
          rw [hf]
          simp only [fieldBytes_cons, Field.bytes_int, Field.bytes_str, Field.bytes_w32, fieldBytes_nil]
      | false =>
          have hf : (Call.openFile path flag mode).fields = [.int OPEN_FILE, .str path.bytes, .w32 mode] := by
            simp [Call.fields, hc]
          rw [hf] at h hroom
          have hsize : fieldBytes (Call.openFile path flag mode).fields = 4 + (path.bytes.length + 9 + 4) := by
            rw [hf]
            simp only [fieldBytes_cons, Field.bytes_int, Field.bytes_str, Field.bytes_w32, fieldBytes_nil]
          simp only [fieldBytes_cons, Field.bytes_int, Field.bytes_str, Field.bytes_w32, fieldBytes_nil] at hroom
          obtain ⟨hdec, hrest⟩ := decode_eq (m := m) (by decide) (by decide) h
          have hdec' : m.decode r = popOpenFile (r.advance 4) := hdec
          rcases popOpenFile_plain (by omega) hrest with ⟨_, hpop⟩ | ⟨hbit, hmore⟩
          · constructor
            · rintro ⟨r', hr', _⟩
              rw [hdec', hpop] at hr'
              cases hr'
              exact Or.inr ⟨rfl, rfl⟩
            · rintro (hc' | ⟨rfl, hmode⟩)
              · rw [hc] at hc'; cases hc'
              · refine decodes_of hdec' ?_ hsize
                rw [hpop, ← hmode]
          · constructor
            · rintro ⟨r', hr', hpoint⟩
              rw [hdec'] at hr'
              rw [hmore _ _ hr', hsize, Reader.advance_point, Reader.advance_point] at hpoint
              omega
            · rintro (hc' | ⟨rfl, hmode⟩)
              · rw [hc] at hc'; cases hc'
              · -- the default mode does not hold the bit
                rw [hmode] at hbit
                exact absurd hbit (by decide)
  | readFile fileNo startPoint size =>
      obtain ⟨hdec, hrest⟩ := decode_eq (m := m) (by decide) (by decide) h
      exact decodes_iff_of hdec (popReadFile_eq hrest) (by simp [Call.fields]) (by omega)
  | writeFile fileNo attr startPoint size =>
      obtain ⟨hdec, hrest⟩ := decode_eq (m := m) (by decide) (by decide) h
      have hrest' : HasFields (r.advance 4) (.w64 fileNo :: (sendAttr attr.st ++ [.w64 startPoint, .w64 size])) := by
        simpa using hrest
      exact decodes_iff_of hdec (popWriteFile_eq hrest') (by simp [Call.fields]) (by omega)
  | updateMeta fileNo attr =>
      obtain ⟨hdec, hrest⟩ := decode_eq (m := m) (by decide) (by decide) h
      have hrest' : HasFields (r.advance 4) (.w64 fileNo :: (sendAttr attr.st ++ [])) := by simpa using hrest
      exact decodes_iff_of hdec (popMetaUpdate_eq hrest') (by simp [Call.fields]) (by omega)
  | flushFile fileNo =>
      obtain ⟨hdec, hrest⟩ := decode_eq (m := m) (by decide) (by decide) h
      exact iff_of_true (decodes_of hdec (popFileNo_eq _ hrest) (by simp [Call.fields])) trivial
  | closeFile fileNo =>
      obtain ⟨hdec, hrest⟩ := decode_eq (m := m) (by decide) (by decide) h
      exact iff_of_true (decodes_of hdec (popFileNo_eq _ hrest) (by simp [Call.fields])) trivial
  | getAttr path =>
      obtain ⟨hdec, hrest⟩ := decode_eq (m := m) (by decide) (by decide) h
      have hsmall := path_small path.bytes hroom (by simp [Call.fields])
      exact iff_of_true (decodes_of hdec (popPath_eq hsmall _ hrest) (by simp [Call.fields])) trivial
  | access path mode =>
      obtain ⟨hdec, hrest⟩ := decode_eq (m := m) (by decide) (by decide) h
      have hsmall := path_small path.bytes hroom (by simp [Call.fields])
      exact iff_of_true (decodes_of hdec (popPathInt_eq hsmall _ hrest) (by simp [Call.fields])) trivial
  | readDir path =>
      obtain ⟨hdec, hrest⟩ := decode_eq (m := m) (by decide) (by decide) h
      have hsmall := path_small path.bytes hroom (by simp [Call.fields])
      exact iff_of_true (decodes_of hdec (popPath_eq hsmall _ hrest) (by simp [Call.fields])) trivial
  | unlink path =>
      obtain ⟨hdec, hrest⟩ := decode_eq (m := m) (by decide) (by decide) h
      have hsmall := path_small path.bytes hroom (by simp [Call.fields])
      exact iff_of_true (decodes_of hdec (popPath_eq hsmall _ hrest) (by simp [Call.fields])) trivial
  | rmDir path =>
      obtain ⟨hdec, hrest⟩ := decode_eq (m := m) (by decide) (by decide) h
      have hsmall := path_small path.bytes hroom (by simp [Call.fields])
      exact iff_of_true (decodes_of hdec (popPath_eq hsmall _ hrest) (by simp [Call.fields])) trivial
  | mkdir path mode =>
      obtain ⟨hdec, hrest⟩ := decode_eq (m := m) (by decide) (by decide) h
      have hsmall := path_small path.bytes hroom (by simp [Call.fields])
      exact iff_of_true (decodes_of hdec (popPathInt_eq hsmall _ hrest) (by simp [Call.fields])) trivial
  | rename oldName newName newMaster =>
      obtain ⟨hdec, hrest⟩ := decode_eq (m := m) (by decide) (by decide) h
      have hold := path_small oldName.bytes hroom (by simp [Call.fields])
      have hnew := path_small newName.bytes hroom (by simp [Call.fields])
      exact iff_of_true (decodes_of hdec (popRename_eq hold hnew hrest) (by simp [Call.fields]; omega)) trivial
  | renameMigrating newName oldMaster =>
      obtain ⟨hdec, hrest⟩ := decode_eq (m := m) (by decide) (by decide) h
      have hsmall := path_small newName.bytes hroom (by simp [Call.fields])
      exact iff_of_true (decodes_of hdec (popPathInt_eq hsmall _ hrest) (by simp [Call.fields])) trivial
  | truncate path size =>
      obtain ⟨hdec, hrest⟩ := decode_eq (m := m) (by decide) (by decide) h
      have hsmall := path_small path.bytes hroom (by simp [Call.fields])
      exact iff_of_true (decodes_of hdec (popTruncate_eq hsmall hrest) (by simp [Call.fields])) trivial

end Master

/-! ## The reply -/

namespace Call

section
variable {r r' : Reader} {fs : List Field} {rc : Receipt}

theorem receiveStatus_eq {s : Int} (hlo : -2 ^ 31 ≤ s) (hhi : s < 2 ^ 31) (h : HasFields r [.int s]) :
    receiveStatus r = some (⟨s, [.int s], 0⟩, r.advance 4) := by
  unfold receiveStatus
  rw [Pop.bind_eq (pop32_eq h).1, Pop.pure_eq, BitVec.toInt_ofInt_eq_self (by decide) hlo hhi]
  split
  · rename_i hs
    rw [hs]
    rfl
  · rfl

theorem receiveStatus_popped (h : receiveStatus r = some (rc, r')) : rc.popped.length = 1 := by
  obtain ⟨ret, r1, _, hpure⟩ := Pop.bind_some h
  cases hpure
  rfl

/-- `_close` and `_flush` return `-1` for every error, which is what the Master sends. -/
theorem receiveDone_eq {s : Int} (hs : s = SUCCESS ∨ s = FAILURE) (h : HasFields r [.int s]) :
    receiveDone r = some (⟨s, [.int s], 0⟩, r.advance 4) := by
  unfold receiveDone
  rw [Pop.bind_eq (pop32_eq h).1, Pop.pure_eq]
  rcases hs with rfl | rfl
  · rfl
  · rfl

/-- The pops go on when the number of the Master is one the client knows. -/
theorem knownMaster_bind {α : Type} (masters : Nat) (number : Int) (f : Unit → Pop α) (r : Reader) :
    (knownMaster masters number >>= f) r = if 0 ≤ number ∧ number < masters then f () r else none := by
  show (knownMaster masters number r).bind _ = _
  unfold knownMaster
  split
  · rfl
  · rfl

theorem receiveForwarded_eq {masters : Nat} {number s : Int} (hn : -2 ^ 31 ≤ number ∧ number < 2 ^ 31)
    (hs : -2 ^ 31 ≤ s ∧ s < 2 ^ 31) (h : HasFields r [.int number, .int s]) :
    receiveForwarded masters r = if 0 ≤ number ∧ number < masters then
      some (⟨s, [.int number, .int s], 0⟩, r.advance 8) else none := by
  obtain ⟨h1, h⟩ := pop32_eq h
  obtain ⟨h2, _⟩ := pop32_eq h
  unfold receiveForwarded
  rw [Pop.bind_eq h1, BitVec.toInt_ofInt_eq_self (by decide) hn.1 hn.2, knownMaster_bind]
  split
  · rw [Pop.bind_eq h2, Pop.pure_eq, BitVec.toInt_ofInt_eq_self (by decide) hs.1 hs.2,
      Reader.advance_advance]
    split
    · rename_i hz
      rw [hz]
      rfl
    · rfl
  · rfl

theorem receiveForwarded_popped {masters : Nat} (h : receiveForwarded masters r = some (rc, r')) :
    rc.popped.length = 2 := by
  obtain ⟨number, r1, _, h⟩ := Pop.bind_some h
  obtain ⟨_, r2, _, h⟩ := Pop.bind_some h
  obtain ⟨ret, r3, _, hpure⟩ := Pop.bind_some h
  cases hpure
  rfl

theorem receiveAttr_eq {masters : Nat} {number : Int} {st : Stat} (hn : -2 ^ 31 ≤ number ∧ number < 2 ^ 31)
    (h : HasFields r ([.int number, .int SUCCESS] ++ sendAttr st)) :
    receiveAttr masters r = if 0 ≤ number ∧ number < masters then
      some (⟨SUCCESS, [.int number, .int SUCCESS] ++ sendAttr st, 0⟩, r.advance 60) else none := by
  obtain ⟨h1, h⟩ := pop32_eq h
  obtain ⟨h2, h⟩ := pop32_eq h
  rw [show [].append (sendAttr st) = sendAttr st ++ [] from (List.append_nil _).symm] at h
  obtain ⟨attr, h3, hsame, _⟩ := recvAttr_fields h
  unfold receiveAttr
  rw [Pop.bind_eq h1, BitVec.toInt_ofInt_eq_self (by decide) hn.1 hn.2, knownMaster_bind]
  split
  · rw [Pop.bind_eq h2, if_pos (by decide), Pop.bind_eq h3, Pop.pure_eq, hsame]
    rfl
  · rfl

theorem receiveAttr_error {masters : Nat} {number s : Int} (hn : -2 ^ 31 ≤ number ∧ number < 2 ^ 31)
    (hs : -2 ^ 31 ≤ s ∧ s < 2 ^ 31) (hne : s ≠ SUCCESS) (h : HasFields r [.int number, .int s]) :
    receiveAttr masters r = if 0 ≤ number ∧ number < masters then
      some (⟨s, [.int number, .int s], 0⟩, r.advance 8) else none := by
  obtain ⟨h1, h⟩ := pop32_eq h
  obtain ⟨h2, _⟩ := pop32_eq h
  unfold receiveAttr
  rw [Pop.bind_eq h1, BitVec.toInt_ofInt_eq_self (by decide) hn.1 hn.2, knownMaster_bind]
  split
  · rw [Pop.bind_eq h2, BitVec.toInt_ofInt_eq_self (by decide) hs.1 hs.2, if_neg hne, Pop.pure_eq,
      Reader.advance_advance]
    rfl
  · rfl

theorem receiveAttr_popped {masters : Nat} (h : receiveAttr masters r = some (rc, r')) : 2 ≤ rc.popped.length := by
  obtain ⟨number, r1, _, h⟩ := Pop.bind_some h
  obtain ⟨_, r2, _, h⟩ := Pop.bind_some h
  obtain ⟨ret, r3, _, h⟩ := Pop.bind_some h
  split at h
  · obtain ⟨attr, r4, _, hpure⟩ := Pop.bind_some h
    cases hpure
    simp
  · cases h
    simp

theorem receiveOpen_eq {fileNo : Int} {blockSize : Nat} {st : Stat} (h : HasFields r (Master.openReply fileNo blockSize st)) :
    receiveOpen r = some (⟨SUCCESS, Master.openReply fileNo blockSize st, 0⟩, r.advance 72) := by
  obtain ⟨h1, h⟩ := pop32_eq h
  obtain ⟨h2, h⟩ := pop64_eq h
  obtain ⟨h3, h⟩ := pop64_eq h
  rw [show [].append (sendAttr st) = sendAttr st ++ [] from (List.append_nil _).symm] at h
  obtain ⟨attr, h4, hsame, _⟩ := recvAttr_fields h
  unfold receiveOpen
  rw [Pop.bind_eq h1, if_pos (by decide), Pop.bind_eq h2, Pop.bind_eq h3, Pop.bind_eq h4, Pop.pure_eq, hsame]
  rfl

/-- An open that has a result has popped a whole success reply. -/
theorem receiveOpen_popped (h : receiveOpen r = some (rc, r')) : rc.popped.length = 11 := by
  obtain ⟨ret, r1, _, h⟩ := Pop.bind_some h
  split at h
  · obtain ⟨fileNo, r2, _, h⟩ := Pop.bind_some h
    obtain ⟨blockSize, r3, _, h⟩ := Pop.bind_some h
    obtain ⟨attr, r4, _, hpure⟩ := Pop.bind_some h
    cases hpure
    rfl
  · cases h

theorem popBlocks_eq (l : List (Nat × Nat)) : ∀ {r : Reader},
    HasFields r (l.flatMap (fun b => [.size b.1, .size b.2])) →
    popBlocks l.length r = some (l.flatMap (fun b => [.size b.1, .size b.2]), r.advance (16 * l.length)) := by
  induction l with
  | nil => intro r _; rfl
  | cons b l ih =>
      intro r h
      obtain ⟨h1, h⟩ := pop64_eq h
      obtain ⟨h2, h⟩ := pop64_eq h
      have h3 := ih h
      show (do
        let startPoint ← pop64
        let blockSize ← pop64
        let rest ← popBlocks l.length
        return Field.w64 startPoint :: .w64 blockSize :: rest) r = _
      rw [Pop.bind_eq h1, Pop.bind_eq h2, Pop.bind_eq h3, Pop.pure_eq]
      simp only [Reader.advance_advance, List.length_cons]
      rw [show 8 + 8 + 16 * l.length = 16 * (l.length + 1) by omega]
      rfl

/-- The fields of a block reply, with a uri of one node. -/
def blockReply (fileSize : Nat) (nodeId : Int) (uri : Str) (bl : BlockList) : List Field :=
  [.int SUCCESS, .size fileSize, .int 1, .long nodeId, .str uri, .int bl.size] ++ Master.blockFields bl

/-- The blocks arrive; of the uri, what comes before its first zero byte. -/
theorem receiveBlocks_eq {fileSize : Nat} {nodeId : Int} {uri : Str} {bl : BlockList} (huri : uri.length + 1 < 256 ^ 8)
    (hsize : bl.size < 2 ^ 31) (h : HasFields r (blockReply fileSize nodeId uri bl)) :
    receiveBlocks r = some (⟨SUCCESS, blockReply fileSize nodeId (uri.takeWhile (· != 0)) bl, 0⟩,
      r.advance (37 + uri.length + 16 * bl.size)) := by
  obtain ⟨h1, h⟩ := pop32_eq h
  obtain ⟨h2, h⟩ := pop64_eq h
  obtain ⟨h3, h⟩ := pop32_eq h
  obtain ⟨h4, h⟩ := pop64_eq h
  obtain ⟨c, h5, hc, h⟩ := popString_cut huri h
  obtain ⟨h6, h⟩ := pop32_eq h
  have h7 : popBlocks bl.size _ = _ := popBlocks_eq bl.entries h
  have hnodes : popNodes 1 (((r.advance 4).advance 8).advance 4)
      = some ([.long nodeId, .str c.bytes], (((((r.advance 4).advance 8).advance 4).advance 8).advance (uri.length + 9))) := by
    show (do
      let nodeId ← pop64
      let uri ← popCString
      let rest ← popNodes 0
      return Field.w64 nodeId :: .str uri.bytes :: rest) _ = _
    rw [Pop.bind_eq h4, Pop.bind_eq h5]
    rfl
  have hcount : (BitVec.ofInt 32 (bl.size : Int)).toInt.toNat = bl.size := by
    rw [BitVec.toInt_ofInt_eq_self (by decide) (by omega) (by omega)]
    rfl
  unfold receiveBlocks
  rw [Pop.bind_eq h1, if_pos (by decide), Pop.bind_eq h2, Pop.bind_eq h3]
  show (popNodes 1 >>= _) _ = _
  rw [Pop.bind_eq hnodes, Pop.bind_eq h6, hcount]
  rw [Pop.bind_eq h7, Pop.pure_eq, hc]
  simp only [Reader.advance_advance]
  rw [show 4 + 8 + 4 + 8 + (uri.length + 9) + 4 + 16 * bl.entries.length = 37 + uri.length + 16 * bl.size by
    unfold OrdMap.size; omega]
  rfl

theorem receiveDir_eq {count : Nat} (hcount : count < 2 ^ 31) (h : HasFields r [.int SUCCESS, .int count]) :
    receiveDir r = some (⟨SUCCESS, [.int SUCCESS, .int count], count⟩, r.advance 8) := by
  obtain ⟨h1, h⟩ := pop32_eq h
  obtain ⟨h2, _⟩ := pop32_eq h
  unfold receiveDir
  rw [Pop.bind_eq h1, if_pos (by decide), Pop.bind_eq h2, Pop.pure_eq,
    BitVec.toInt_ofInt_eq_self (by decide) (by omega) (by omega)]
  rfl

/-- The entries of a directory arrive, each up to its first zero byte. -/
theorem popNames_eq (l : List Str) : ∀ {r : Reader}, (∀ s ∈ l, s.length + 1 < 256 ^ 8) →
    HasFields r (l.map Field.str) → ∃ names, popNames l.length r
        = some (names, r.advance (l.map (fun s => 8 + (s.length + 1))).sum) ∧
      names.map CString.bytes = l.map (List.takeWhile (· != 0)) := by
  induction l with
  | nil => intro r _ _; exact ⟨[], rfl, rfl⟩
  | cons s l ih =>
      intro r hsmall h
      obtain ⟨c, h1, hc, h⟩ := popString_cut (hsmall s (List.mem_cons_self ..)) h
      obtain ⟨names, h2, hnames⟩ := ih (fun t ht => hsmall t (List.mem_cons_of_mem _ ht)) h
      refine ⟨c :: names, ?_, by rw [List.map_cons, List.map_cons, hc, hnames]⟩
      show (do
        let name ← popCString
        let rest ← popNames l.length
        return name :: rest) r = _
      rw [Pop.bind_eq h1, Pop.bind_eq h2, Pop.pure_eq, Reader.advance_advance, List.map_cons, List.sum_cons]
      rw [show s.length + 9 = 8 + (s.length + 1) by omega]

end

end Call

/-! ## One exchange -/

namespace Master

/-- When `_open_file` succeeds on a path of this Master: it is open, or it can be opened. -/
def OpenSucceeds (m : Master) (path : Str) : Prop :=
  match m.fileStatPool.find? path with
  | none => m.HasFreeNumber ∧ m.registeredIOnodes.size ≠ 0
  | some s => s.isExternal = false ∧ (s.openedFileInfo ≠ none ∨ m.registeredIOnodes.size ≠ 0)

theorem not_openSucceeds_of_error {m m' : Master} {e : Env} {path : Str} {flag mode : BitVec 32} {ops : List QueueOp}
    {err : OpenError} (h : m.openFile e path flag mode = some (m', ops, .error err)) : ¬ m.OpenSucceeds path := by
  obtain ⟨_, hno⟩ := openFile_error h
  unfold OpenSucceeds
  rcases hno with ⟨hst, _, hg⟩ | ⟨hz, _, hclosed⟩
  · rw [hst]
    rintro ⟨⟨hnum, n, hn, hfree⟩, _⟩
    rcases getFileNo_cases m with ⟨k, _, _, _, hg'⟩ | ⟨c, hfull, _⟩
    · rw [hg] at hg'
      have hfst := congrArg Prod.fst hg'
      simp only at hfst
      omega
    · rcases hfull with hc | hc
      · exact hnum hc
      · rw [hc n hn] at hfree
        cases hfree
  · cases hst : m.fileStatPool.find? path with
    | none => exact fun h => h.2 hz
    | some s =>
        rintro ⟨_, hop | hsize⟩
        · exact hop (hclosed s hst)
        · exact hsize hz

theorem openSucceeds_of_ok {m m' : Master} {e : Env} {path : Str} {flag mode : BitVec 32} {ops : List QueueOp}
    {fileNo : Int} (hin : ∀ s, m.fileStatPool.find? path = some s → s.isExternal = false)
    (h : m.openFile e path flag mode = some (m', ops, .ok fileNo)) : m.OpenSucceeds path := by
  unfold OpenSucceeds
  rcases openFile_ok h with ⟨s, r, f, hst, hop, _⟩ | ⟨m1, r, hg, hst, hne, hc⟩ | ⟨s, m1, m2, r, hg, hst, hop, hc, _⟩
  · rw [hst]
    exact ⟨hin s hst, Or.inl (by rw [hop]; exact Option.some_ne_none r)⟩
  · rw [hst]
    have hreg := create_registered hc
    rcases getFileNo_cases m with ⟨n, hn, hfree, hnum, hg'⟩ | ⟨c, _, hg'⟩
    · rw [hg'] at hg
      cases hg
      exact ⟨⟨hnum, n, hn, hfree⟩, hreg⟩
    · rw [hg'] at hg
      cases hg
      exact absurd rfl hne
  · rw [hst]
    refine ⟨hin s hst, Or.inr ?_⟩
    have hreg := (getFileNo_frame m).2
    rw [hg] at hreg
    rw [← hreg]
    exact create_registered hc

/-- The path is no entry for a file of another Master. -/
def NotExternal (m : Master) (path : Str) : Prop := ∀ s, m.fileStatPool.find? path = some s → s.isExternal = false

/-- The uri of the node a file's blocks are on has no zero byte. -/
def UriSent (m : Master) (fileNo : Int) : Prop :=
  ∀ r f n, m.bufferedFiles.find? fileNo = some r → m.files r = some f → f.primaryReplicaNode.bind m.nodes = some n →
    0 ∉ n.uri

end Master

namespace Exchange

/-- The client has this Master in its list, under its number. -/
def KnowsMaster (x : Exchange) : Prop := 0 ≤ x.master.masterNumber ∧ x.master.masterNumber < x.masters

/-- The bytes of a list of directory entries. -/
def namesBytes (l : List Str) : Nat := (l.map (fun name => name.length + 9)).sum

/-- When the client's pops match the reply. -/
def ReplyMatches (x : Exchange) : Prop :=
  match x.call with
  | .openFile path _ _ => x.master.OpenSucceeds path.bytes
  | .readFile fileNo _ size => x.master.BlockInfoFits fileNo.toInt size.toNat ∧ x.master.UriSent fileNo.toInt
  | .writeFile fileNo _ _ size => x.master.BlockInfoFits fileNo.toInt size.toNat ∧ x.master.UriSent fileNo.toInt
  | .getAttr path => x.master.NotExternal path.bytes ∧ x.KnowsMaster
  | .access path _ => x.master.NotExternal path.bytes ∧ x.KnowsMaster
  | .truncate path _ => x.master.NotExternal path.bytes ∧ x.KnowsMaster
  | .readDir path => ∀ names, x.master.getFileStatFromDir path.bytes = some names →
      (x.filesPoint = 0 ∨ names.keys = []) ∧ namesBytes names.keys ≤ MAX_TRANSFER_SIZE ∧ ∀ name ∈ names.keys, 0 ∉ name
  | .mkdir _ _ => False
  | _ => True

/-- **When client and Master agree.** -/
def Condition (x : Exchange) : Prop :=
  fieldBytes x.call.fields ≤ BASIC_MESSAGE_ROOM ∧ x.call.RequestMatches x.master ∧ x.ReplyMatches

variable {x : Exchange}

/-- A reply without directory entries, popped whole. -/
theorem replyAgrees_of {o : Origin} {message : List Field} {status : Int} {n : Nat}
    (hfit : fieldBytes message ≤ BASIC_MESSAGE_ROOM)
    (hrecv : x.call.receive x.masters (received x.atClient message)
      = some (⟨status, message, 0⟩, (received x.atClient message).advance n))
    (hn : fieldBytes message = n) (hsent : x.call.sentStatus message = some status) :
    x.ReplyAgrees (responseTask o message) := by
  refine ⟨?_, _, _, hrecv, rfl, ?_, hsent, [], x.files (responseTask o message), rfl, rfl, ?_⟩
  · rw [responseTask, fits_iff]
    unfold BASIC_MESSAGE_ROOM MAX_BASIC_MESSAGE_SIZE MESSAGE_META_OFF at hfit
    unfold MAX_BASIC_MESSAGE_SIZE MESSAGE_META_OFF
    omega
  · rw [Reader.advance_point, received_point, Nat.zero_add]
    exact hn.symm
  · intro i
    constructor
    · rintro ⟨hge, hlt⟩
      exact absurd hlt (Nat.not_lt.mpr hge)
    · intro hlt
      exact absurd hlt (Nat.not_lt_zero i)

/-- A reply the client pops more or fewer fields of. -/
theorem not_replyAgrees {t : OutTask}
    (h : ∀ r rc r', x.call.receive x.masters r = some (rc, r') → rc.popped.length ≠ t.message.length) : ¬ x.ReplyAgrees t := by
  rintro ⟨_, rc, r, hrecv, hpopped, _⟩
  exact h _ rc r hrecv (congrArg List.length hpopped)

/-- The one reply among a handler's operations. -/
theorem exists_reply_iff {ops : List QueueOp} {t : OutTask} {P : OutTask → Prop}
    (h : allocatedOn SERVER_QUEUE_NUM ops = [t]) : (∃ t', allocatedOn SERVER_QUEUE_NUM ops = [t'] ∧ P t') ↔ P t := by
  constructor
  · rintro ⟨t', ht', hP⟩
    rw [h] at ht'
    cases ht'
    exact hP
  · intro hP
    exact ⟨t, h, hP⟩

/-- A reply of one status, to a call that pops one. -/
theorem replyAgrees_status {o : Origin} {s : Int} (hlo : -2 ^ 31 ≤ s) (hhi : s < 2 ^ 31)
    (hcall : x.call.receive x.masters = Call.receiveStatus) (hidx : x.call.statusIndex = 0) :
    x.ReplyAgrees (responseTask o [.int s]) := by
  have hfit : fieldBytes [Field.int s] ≤ BASIC_MESSAGE_ROOM := by
    show 4 ≤ 3976
    omega
  have hrecv : x.call.receive x.masters (received x.atClient [.int s])
      = some (⟨s, [.int s], 0⟩, (received x.atClient [.int s]).advance 4) := by
    rw [hcall]
    exact Call.receiveStatus_eq hlo hhi (received_hasFields hfit _)
  refine replyAgrees_of hfit hrecv rfl ?_
  unfold Call.sentStatus
  rw [hidx]
  exact congrArg some (BitVec.toInt_ofInt_eq_self (by decide) hlo hhi)

/-- The same for `_close` and `_flush`. -/
theorem replyAgrees_done {o : Origin} {s : Int} (hs : s = SUCCESS ∨ s = FAILURE)
    (hcall : x.call.receive x.masters = Call.receiveDone) (hidx : x.call.statusIndex = 0) :
    x.ReplyAgrees (responseTask o [.int s]) := by
  have hfit : fieldBytes [Field.int s] ≤ BASIC_MESSAGE_ROOM := by
    show 4 ≤ 3976
    omega
  have hrecv : x.call.receive x.masters (received x.atClient [.int s])
      = some (⟨s, [.int s], 0⟩, (received x.atClient [.int s]).advance 4) := by
    rw [hcall]
    exact Call.receiveDone_eq hs (received_hasFields hfit _)
  refine replyAgrees_of hfit hrecv rfl ?_
  unfold Call.sentStatus
  rw [hidx]
  rcases hs with rfl | rfl
  · rfl
  · rfl

/-- The number of the Master and a status, popped by a call that knows the number. -/
theorem replyAgrees_pair {o : Origin} {s : Int} {message : List Field} {n : Nat}
    (hmsg : message[1]? = some (.int s)) (hs : -2 ^ 31 ≤ s ∧ s < 2 ^ 31) (hidx : x.call.statusIndex = 1)
    (hfit : fieldBytes message ≤ BASIC_MESSAGE_ROOM) (hn : fieldBytes message = n)
    (hrecv : x.call.receive x.masters (received x.atClient message)
      = if 0 ≤ x.master.masterNumber ∧ x.master.masterNumber < x.masters then
          some (⟨s, message, 0⟩, (received x.atClient message).advance n) else none) :
    x.ReplyAgrees (responseTask o message) ↔ x.KnowsMaster := by
  constructor
  · rintro ⟨_, rc, r, hr, _⟩
    by_cases hk : 0 ≤ x.master.masterNumber ∧ x.master.masterNumber < x.masters
    · exact hk
    · have hr' : x.call.receive x.masters (received x.atClient message) = some (rc, r) := hr
      rw [hrecv, if_neg hk] at hr'
      cases hr'
  · rintro ⟨hge, hlt⟩
    rw [if_pos ⟨hge, hlt⟩] at hrecv
    refine replyAgrees_of hfit hrecv hn ?_
    unfold Call.sentStatus
    rw [hidx, hmsg]
    exact congrArg some (BitVec.toInt_ofInt_eq_self (by decide) hs.1 hs.2)

section
variable {out : Outcome}

/-- `master_number` is an `int`. -/
def NumberInt (x : Exchange) : Prop := -2 ^ 31 ≤ x.master.masterNumber ∧ x.master.masterNumber < 2 ^ 31

/-- The calls whose reply starts with the number of a Master: for an external entry it is the whole reply,
    and the client pops on. -/
theorem forwarded_iff (path : Str) (hM : x.ReplyMatches = (x.master.NotExternal path ∧ x.KnowsMaster))
    (hpops : ∀ r rc r', x.call.receive x.masters r = some (rc, r') → 2 ≤ rc.popped.length)
    (h : (x.master.NotExternal path ∧ ∃ message, allocatedOn SERVER_QUEUE_NUM out.ops = [responseTask x.origin message] ∧
        (x.ReplyAgrees (responseTask x.origin message) ↔ x.KnowsMaster)) ∨
      (¬ x.master.NotExternal path ∧ ∃ v, allocatedOn SERVER_QUEUE_NUM out.ops = [responseTask x.origin [.int v]])) :
    (∃ t, allocatedOn SERVER_QUEUE_NUM out.ops = [t] ∧ x.ReplyAgrees t) ↔ x.ReplyMatches := by
  rw [hM]
  rcases h with ⟨hin, message, halloc, hiff⟩ | ⟨hext, v, halloc⟩
  · rw [exists_reply_iff halloc, hiff]
    exact ⟨fun hk => ⟨hin, hk⟩, fun hk => hk.2⟩
  · rw [exists_reply_iff halloc]
    refine iff_of_false (not_replyAgrees ?_) (fun hk => hext hk.1)
    intro r rc r' hr
    have hlen := hpops r rc r' hr
    have hone : (responseTask x.origin [.int v]).message.length = 1 := rfl
    omega

theorem notExternal_none {m : Master} {path : Str} (h : m.fileStatPool.find? path = none) : m.NotExternal path := by
  intro s hs
  rw [h] at hs
  cases hs

theorem notExternal_iff {m : Master} {path : Str} {s : FileStat} (h : m.fileStatPool.find? path = some s) :
    m.NotExternal path ↔ s.isExternal = false := by
  constructor
  · intro hall
    exact hall s h
  · intro hx s' hs'
    rw [h] at hs'
    cases hs'
    exact hx

/-- A number and a status, popped by `remote_access` or `_truncate`. -/
theorem forwarded_pair (hcall : x.call.receive x.masters = Call.receiveForwarded x.masters)
    (hidx : x.call.statusIndex = 1) (hnum : x.NumberInt) {s : Int} (hs : -2 ^ 31 ≤ s ∧ s < 2 ^ 31) :
    x.ReplyAgrees (responseTask x.origin [.int x.master.masterNumber, .int s]) ↔ x.KnowsMaster := by
  have hfit : fieldBytes [.int x.master.masterNumber, .int s] ≤ BASIC_MESSAGE_ROOM := by
    show 8 ≤ 3976
    omega
  refine replyAgrees_pair rfl hs hidx hfit rfl ?_
  rw [hcall]
  exact Call.receiveForwarded_eq hnum hs (received_hasFields hfit _)

theorem access_iff {path : CString} {mode : BitVec 32} (hcall : x.call = .access path mode) (hnum : x.NumberInt)
    (hout : out = x.master.parseAccess x.origin path.bytes) :
    (∃ t, allocatedOn SERVER_QUEUE_NUM out.ops = [t] ∧ x.ReplyAgrees t) ↔ x.ReplyMatches := by
  have hrecv : x.call.receive x.masters = Call.receiveForwarded x.masters := by rw [hcall]; rfl
  have hidx : x.call.statusIndex = 1 := by rw [hcall]; rfl
  refine forwarded_iff path.bytes (by unfold ReplyMatches; rw [hcall]) ?_ ?_
  · intro r rc r' hr
    rw [hrecv] at hr
    exact (Call.receiveForwarded_popped hr).ge
  · rw [hout]
    unfold Master.parseAccess
    cases hst : x.master.fileStatPool.find? path.bytes with
    | none => exact Or.inl ⟨notExternal_none hst, _, rfl, forwarded_pair hrecv hidx hnum (by decide)⟩
    | some s =>
        cases hx : s.isExternal with
        | true =>
            right
            refine ⟨fun hall => ?_, s.externalMaster, ?_⟩
            · rw [(notExternal_iff hst).mp hall] at hx
              cases hx
            · simp only [hx, if_true]
              rfl
        | false =>
            left
            refine ⟨(notExternal_iff hst).mpr hx, [.int x.master.masterNumber, .int SUCCESS], ?_,
              forwarded_pair hrecv hidx hnum (by decide)⟩
            simp only [hx]
            rfl

theorem truncate_iff {path : CString} {size : BitVec 64} (hcall : x.call = .truncate path size) (hnum : x.NumberInt)
    (hout : x.master.parseTruncateFile x.origin path.bytes size.toNat = some out) :
    (∃ t, allocatedOn SERVER_QUEUE_NUM out.ops = [t] ∧ x.ReplyAgrees t) ↔ x.ReplyMatches := by
  have hrecv : x.call.receive x.masters = Call.receiveForwarded x.masters := by rw [hcall]; rfl
  have hidx : x.call.statusIndex = 1 := by rw [hcall]; rfl
  refine forwarded_iff path.bytes (by unfold ReplyMatches; rw [hcall]) ?_ ?_
  · intro r rc r' hr
    rw [hrecv] at hr
    exact (Call.receiveForwarded_popped hr).ge
  · rcases Master.parseTruncateFile_some hout with ⟨hst, rfl⟩ | ⟨s, hst, hx, rfl⟩ | ⟨s, m', ops, hst, hx, htr, rfl⟩
    · exact Or.inl ⟨notExternal_none hst, _, rfl, forwarded_pair hrecv hidx hnum (by decide)⟩
    · right
      refine ⟨fun hall => ?_, s.externalMaster, rfl⟩
      rw [(notExternal_iff hst).mp hall] at hx
      cases hx
    · exact Or.inl ⟨(notExternal_iff hst).mpr hx, _, allocatedOn_reply (Master.truncateLocal_effect htr).sends _ _,
        forwarded_pair hrecv hidx hnum (by decide)⟩

theorem getAttr_iff {path : CString} (hcall : x.call = .getAttr path) (hnum : x.NumberInt)
    (hout : out = x.master.parseAttr x.origin path.bytes) :
    (∃ t, allocatedOn SERVER_QUEUE_NUM out.ops = [t] ∧ x.ReplyAgrees t) ↔ x.ReplyMatches := by
  have hrecv : x.call.receive x.masters = Call.receiveAttr x.masters := by rw [hcall]; rfl
  have hidx : x.call.statusIndex = 1 := by rw [hcall]; rfl
  refine forwarded_iff path.bytes (by unfold ReplyMatches; rw [hcall]) ?_ ?_
  · intro r rc r' hr
    rw [hrecv] at hr
    exact Call.receiveAttr_popped hr
  · rw [hout]
    unfold Master.parseAttr
    cases hst : x.master.fileStatPool.find? path.bytes with
    | none =>
        have hfit : fieldBytes [.int x.master.masterNumber, .int (-ENOENT)] ≤ BASIC_MESSAGE_ROOM := by
          show 8 ≤ 3976
          omega
        refine Or.inl ⟨notExternal_none hst, _, rfl, replyAgrees_pair rfl (by decide) hidx hfit rfl ?_⟩
        rw [hrecv]
        exact Call.receiveAttr_error hnum (by decide) (by decide) (received_hasFields hfit _)
    | some s =>
        cases hx : s.isExternal with
        | true =>
            right
            refine ⟨fun hall => ?_, s.externalMaster, ?_⟩
            · rw [(notExternal_iff hst).mp hall] at hx
              cases hx
            · simp only [hx, if_true]
              rfl
        | false =>
            have hfit : fieldBytes ([.int x.master.masterNumber, .int SUCCESS] ++ sendAttr s.status) ≤ BASIC_MESSAGE_ROOM := by
              show 60 ≤ 3976
              omega
            left
            refine ⟨(notExternal_iff hst).mpr hx, [.int x.master.masterNumber, .int SUCCESS] ++ sendAttr s.status, ?_,
              replyAgrees_pair rfl (by decide) hidx hfit rfl ?_⟩
            · simp only [hx]
              rfl
            · rw [hrecv]
              exact Call.receiveAttr_eq hnum (received_hasFields hfit _)

/-- **Open.** The client survives only a success, and reads it whole. -/
theorem openFile_iff {path : CString} {flag mode : BitVec 32} (hcall : x.call = .openFile path flag mode)
    (hout : x.master.parseOpenFile x.env x.origin path.bytes flag mode = some out) :
    (∃ t, allocatedOn SERVER_QUEUE_NUM out.ops = [t] ∧ x.ReplyAgrees t) ↔ x.ReplyMatches := by
  have hrecv : x.call.receive x.masters = Call.receiveOpen := by rw [hcall]; rfl
  have hM : x.ReplyMatches = x.master.OpenSucceeds path.bytes := by
    unfold ReplyMatches
    rw [hcall]
  have hshort (v : Int) : ¬ x.ReplyAgrees (responseTask x.origin [.int v]) := by
    apply not_replyAgrees
    intro r rc r' hr
    rw [hrecv] at hr
    rw [Call.receiveOpen_popped hr]
    exact (by decide : (11 : Nat) ≠ 1)
  rw [hM]
  rcases Master.parseOpenFile_some hout with ⟨s, hst, hx, rfl⟩ | ⟨hin, hlocal⟩
  · rw [exists_reply_iff rfl]
    unfold Master.OpenSucceeds
    rw [hst]
    refine iff_of_false (hshort _) ?_
    rintro ⟨hno, _⟩
    rw [hx] at hno
    cases hno
  · rcases Master.parseOpenLocal_some hlocal with ⟨m', ops, err, hopen, rfl⟩ | ⟨m', ops, fileNo, r, f, st, hopen, _, rfl⟩
    · rw [exists_reply_iff (allocatedOn_reply (Master.openFile_effect hopen).sends _ _)]
      exact iff_of_false (hshort _) (Master.not_openSucceeds_of_error hopen)
    · rw [exists_reply_iff (allocatedOn_reply (Master.openFile_effect hopen).sends _ _)]
      have hbytes := Master.fieldBytes_openReply fileNo f.blockSize st.status
      have hfit : fieldBytes (Master.openReply fileNo f.blockSize st.status) ≤ BASIC_MESSAGE_ROOM := by
        rw [hbytes]
        show 72 ≤ 3976
        omega
      have hpop := Call.receiveOpen_eq (received_hasFields hfit x.atClient)
      rw [← hrecv] at hpop
      refine iff_of_true (replyAgrees_of hfit hpop hbytes ?_) (Master.openSucceeds_of_ok hin hopen)
      unfold Call.sentStatus
      rw [show x.call.statusIndex = 0 by rw [hcall]; rfl]
      rfl

/-- **The block list of a read or write.** -/
theorem blocks_iff {fileNo : Int} {size fileSize : Nat} {r : FileRef} {f : OpenFileInfo} {bl : BlockList}
    {message : List Field} {m' : Master} (hrecv : x.call.receive x.masters = Call.receiveBlocks)
    (hidx : x.call.statusIndex = 0) (hb : x.master.bufferedFiles.find? fileNo = some r) (hf : x.master.files r = some f)
    (hnodes : m'.nodes = x.master.nodes) (hsize : bl.size = blockCount size)
    (hmsg : m'.sendBlockInfo fileSize f.primaryReplicaNode bl = some message) :
    x.ReplyAgrees (responseTask x.origin message) ↔
      x.master.BlockInfoFits fileNo size ∧ x.master.UriSent fileNo := by
  obtain ⟨n, hn⟩ : ∃ n, f.primaryReplicaNode.bind m'.nodes = some n := by
    unfold Master.sendBlockInfo at hmsg
    split at hmsg
    · cases hmsg
    · rename_i n hn
      exact ⟨n, hn⟩
  have hbytes := Master.fieldBytes_sendBlockInfo hn hmsg
  have hform : message = Call.blockReply fileSize n.nodeId n.uri bl := by
    unfold Master.sendBlockInfo at hmsg
    rw [hn] at hmsg
    cases hmsg
    rfl
  rw [hnodes] at hn
  have hfits : x.master.BlockInfoFits fileNo size ↔ fieldBytes message + MESSAGE_META_OFF ≤ MAX_BASIC_MESSAGE_SIZE := by
    rw [← allFit_sendResponse x.origin message]
    exact (Master.allFit_blockInfo hb hf hnodes hsize hmsg).symm
  have huri : x.master.UriSent fileNo ↔ 0 ∉ n.uri := by
    constructor
    · intro h
      exact h r f n hb hf hn
    · intro h r' f' n' hb' hf' hn'
      rw [hb] at hb'
      cases hb'
      rw [hf] at hf'
      cases hf'
      rw [hn] at hn'
      cases hn'
      exact h
  rw [hfits, huri]
  have hR : BASIC_MESSAGE_ROOM = MAX_BASIC_MESSAGE_SIZE - MESSAGE_META_OFF := rfl
  have hM : MAX_BASIC_MESSAGE_SIZE = 4000 := rfl
  have hO : MESSAGE_META_OFF = 24 := rfl
  -- the pops of a reply that fits
  have hpops (hfit : fieldBytes message + MESSAGE_META_OFF ≤ MAX_BASIC_MESSAGE_SIZE) :
      x.call.receive x.masters (received x.atClient message)
        = some (⟨SUCCESS, Call.blockReply fileSize n.nodeId (n.uri.takeWhile (· != 0)) bl, 0⟩,
          (received x.atClient message).advance (37 + n.uri.length + 16 * bl.size)) := by
    rw [hrecv, hform]
    refine Call.receiveBlocks_eq (by omega) (by omega) ?_
    rw [← hform]
    exact received_hasFields (by omega) _
  constructor
  · rintro ⟨hfit, rc, r', hr, hpopped, _⟩
    rw [responseTask, fits_iff] at hfit
    refine ⟨hfit, ?_⟩
    have hr' : x.call.receive x.masters (received x.atClient message) = some (rc, r') := hr
    rw [hpops hfit] at hr'
    cases hr'
    have heq : Call.blockReply fileSize n.nodeId (n.uri.takeWhile (· != 0)) bl = Call.blockReply fileSize n.nodeId n.uri bl :=
      hpopped.trans hform
    have hstr : Field.str (n.uri.takeWhile (· != 0)) = .str n.uri := by
      have := congrArg (fun l => l[4]?) heq
      exact Option.some.inj this
    exact takeWhile_noZero.mp (Field.str.inj hstr)
  · rintro ⟨hfit, hzero⟩
    have hrecv' := hpops hfit
    rw [takeWhile_noZero.mpr hzero, ← hform] at hrecv'
    refine replyAgrees_of (by omega) hrecv' hbytes ?_
    unfold Call.sentStatus
    rw [hidx, hform]
    rfl

theorem namesBytes_ge (l : List Str) : 9 * l.length ≤ namesBytes l := by
  unfold namesBytes
  induction l with
  | nil => exact Nat.le_refl 0
  | cons s l ih =>
      rw [List.length_cons, List.map_cons, List.sum_cons]
      omega

theorem le_namesBytes {l : List Str} {s : Str} (h : s ∈ l) : s.length + 9 ≤ namesBytes l := by
  obtain ⟨a, b, rfl⟩ := List.append_of_mem h
  unfold namesBytes
  rw [List.map_append, List.sum_append, List.map_cons, List.sum_cons]
  omega

/-- The reply of `_parse_readdir`. -/
def dirTask (o : Origin) (l : List Str) : OutTask := ⟨o.handle, o.queue, [.int SUCCESS, .int l.length], l⟩

theorem extendedSize_dirTask (o : Origin) (l : List Str) : (dirTask o l).extendedSize = namesBytes l := by
  show (l.map (fun s => 8 + (s.length + 1))).sum = (l.map (fun name => name.length + 9)).sum
  congr 2
  funext s
  omega

/-- The string buffer of a readdir that has popped nothing yet. -/
theorem files_hasFields {o : Origin} {l : List Str} (hsum : namesBytes l ≤ MAX_TRANSFER_SIZE) (hzero : x.filesPoint = 0) :
    HasFields (x.files (dirTask o l)) (l.map Field.str) := by
  have hbytes : fieldBytes (l.map Field.str) = namesBytes l := by
    unfold fieldBytes namesBytes
    rw [List.map_map]
    congr 2
    funext s
    exact Field.bytes_str s
  have hlen : (encode (l.map Field.str)).length = namesBytes l := by rw [length_encode, hbytes]
  refine ⟨?_, ?_⟩
  · show slice (patch x.inFiles 0 (encode (l.map Field.str))) x.filesPoint _ = _
    rw [hzero, slice_patch]
  · show x.filesPoint + (encode (l.map Field.str)).length ≤ MAX_EXTENDED_MESSAGE_SIZE
    unfold MAX_EXTENDED_MESSAGE_SIZE
    unfold MAX_TRANSFER_SIZE STREAM_BUFFER_SIZE BLOCK_SIZE at hsum
    omega

/-- **The entries of a directory.** -/
theorem dir_iff {o : Origin} {l : List Str} (hrecv : x.call.receive x.masters = Call.receiveDir)
    (hidx : x.call.statusIndex = 0) : x.ReplyAgrees (dirTask o l) ↔
      (x.filesPoint = 0 ∨ l = []) ∧ namesBytes l ≤ MAX_TRANSFER_SIZE ∧ ∀ name ∈ l, 0 ∉ name := by
  have hT : MAX_TRANSFER_SIZE = 1048576 := rfl
  have hE : MAX_EXTENDED_MESSAGE_SIZE = 5000000 := rfl
  have hext := extendedSize_dirTask o l
  have hfit : fieldBytes [.int SUCCESS, .int l.length] ≤ BASIC_MESSAGE_ROOM := by
    show 8 ≤ 3976
    omega
  have hpops (hsum : namesBytes l ≤ MAX_TRANSFER_SIZE) :
      x.call.receive x.masters (received x.atClient (dirTask o l).message)
        = some (⟨SUCCESS, (dirTask o l).message, l.length⟩, (received x.atClient (dirTask o l).message).advance 8) := by
    have hmin := namesBytes_ge l
    rw [hrecv]
    exact Call.receiveDir_eq (by omega) (received_hasFields hfit _)
  have hnames (hsum : namesBytes l ≤ MAX_TRANSFER_SIZE) (hzero : x.filesPoint = 0) :=
    Call.popNames_eq l (fun s hs => by have := le_namesBytes hs; omega) (files_hasFields (o := o) hsum hzero)
  constructor
  · rintro ⟨⟨_, _, hsum⟩, rc, r, hr, _, _, _, popped, r', hpop, hsame, hrange⟩
    rw [hext] at hsum hrange
    rw [hpops hsum] at hr
    cases hr
    have hstart : x.filesPoint = 0 ∨ l = [] := by
      rcases List.eq_nil_or_concat l with hnil | ⟨init, last, hl⟩
      · exact Or.inr hnil
      · left
        have hmem : last ∈ l := by rw [hl]; simp
        have hpos := le_namesBytes hmem
        have := (hrange 0).mpr (by omega)
        omega
    refine ⟨hstart, hsum, ?_⟩
    intro name hname
    have hzero : x.filesPoint = 0 := by
      rcases hstart with hzero | hnil
      · exact hzero
      · rw [hnil] at hname
        cases hname
    obtain ⟨names, hpop', hcut⟩ := hnames hsum hzero
    rw [hpop'] at hpop
    cases hpop
    rw [hcut] at hsame
    have hid : List.takeWhile (· != 0) name = name :=
      List.map_inj_left.mp (hsame.trans (List.map_id' _).symm) name hname
    exact takeWhile_noZero.mp hid
  · rintro ⟨hstart, hsum, hzeros⟩
    refine ⟨⟨?_, by omega, by omega⟩, _, _, hpops hsum, rfl, rfl, ?_, ?_⟩
    · show 8 + 24 ≤ 4000
      omega
    · unfold Call.sentStatus
      rw [hidx]
      rfl
    · rcases hstart with hzero | hnil
      · obtain ⟨names, hpop, hcut⟩ := hnames hsum hzero
        refine ⟨names, _, hpop, ?_, ?_⟩
        · rw [hcut]
          show l.map _ = l
          conv_rhs => rw [← List.map_id' l]
          apply List.map_congr_left
          intro name hname
          exact takeWhile_noZero.mpr (hzeros name hname)
        · intro i
          rw [Reader.advance_point, hext, ← hext]
          show x.filesPoint ≤ i ∧ i < x.filesPoint + (l.map (fun s => 8 + (s.length + 1))).sum ↔
            i < (l.map (fun s => 8 + (s.length + 1))).sum
          omega
      · subst hnil
        refine ⟨[], x.files (dirTask o []), rfl, rfl, ?_⟩
        intro i
        rw [hext]
        show x.filesPoint ≤ i ∧ i < x.filesPoint ↔ i < 0
        omega

theorem requestAgrees_iff (x : Exchange) :
    x.RequestAgrees ↔ fieldBytes x.call.fields ≤ BASIC_MESSAGE_ROOM ∧ x.call.RequestMatches x.master := by
  unfold RequestAgrees
  constructor
  · rintro ⟨hfit, r, hdec, hpoint⟩
    refine ⟨hfit, (Master.decodes_iff x.master x.call hfit (received_hasFields hfit x.atMaster)).mp ⟨r, hdec, ?_⟩⟩
    rw [received_point, Nat.zero_add]
    exact hpoint
  · rintro ⟨hfit, hmatch⟩
    obtain ⟨r, hdec, hpoint⟩ := (Master.decodes_iff x.master x.call hfit (received_hasFields hfit x.atMaster)).mpr hmatch
    rw [received_point, Nat.zero_add] at hpoint
    exact ⟨hfit, r, hdec, hpoint⟩

/-- `_parse_unlink` and `_parse_rmdir`. -/
theorem remove_agrees {code : Int} {path : Str} (h : Master.parseRemove code x.master x.origin path = some out)
    (hcall : x.call.receive x.masters = Call.receiveStatus) (hidx : x.call.statusIndex = 0) :
    ∃ t, allocatedOn SERVER_QUEUE_NUM out.ops = [t] ∧ x.ReplyAgrees t := by
  unfold Master.parseRemove at h
  split at h
  · cases h
  · rename_i m' ops found hrem
    cases h
    refine ⟨_, allocatedOn_reply (Master.removeFile_effect hrem).sends _ _, replyAgrees_status ?_ ?_ hcall hidx⟩
    · cases found
      · decide
      · decide
    · cases found
      · decide
      · decide

/-- A file number the Master knows. -/
theorem isBuffered_some {m : Master} {fileNo : BitVec 64} (h : m.isBuffered fileNo = true) :
    ∃ r, m.bufferedFiles.find? fileNo.toInt = some r := Option.isSome_iff_exists.mp h

/-- **The reply**, when the request was read as it was sent. -/
theorem reply_iff (x : Exchange) (hnum : x.NumberInt) (hmatch : x.call.RequestMatches x.master)
    (hout : x.master.parseRequest x.env x.origin x.call.request = some out) :
    (if x.call.hasReply then ∃ t, allocatedOn SERVER_QUEUE_NUM out.ops = [t] ∧ x.ReplyAgrees t else out.ret = SUCCESS) ↔
      x.ReplyMatches := by
  have hM := show x.ReplyMatches = _ from by unfold ReplyMatches; rfl
  cases hcall : x.call with
  | openFile path flag mode =>
      rw [hcall] at hout
      exact openFile_iff hcall hout
  | readFile fileNo startPoint size =>
      rw [hcall] at hout hmatch
      obtain ⟨r, hr⟩ := isBuffered_some hmatch
      rcases Master.parseReadFile_some hout with ⟨hnone, _⟩ | ⟨r, f, st, bl, msg, hobj, hsel, hmsg, rfl⟩
      · rw [hr] at hnone
        cases hnone
      · have hiff := blocks_iff (x := x) (by rw [hcall]; rfl) (by rw [hcall]; rfl) hobj.buffered hobj.object rfl
          (Master.selectNodeBlockSet_size hsel) hmsg
        rw [hcall] at hM
        rw [hM]
        exact (exists_reply_iff rfl).trans hiff
  | writeFile fileNo attr startPoint size =>
      rw [hcall] at hout hmatch
      obtain ⟨r, hr⟩ := isBuffered_some hmatch
      rcases Master.parseWriteFile_some hout with ⟨hnone, _⟩ | ⟨r, f, st, bl, msg, hobj, hsel, hmsg, rfl⟩
      · rw [hr] at hnone
        cases hnone
      · have hiff := blocks_iff (x := x) (by rw [hcall]; rfl) (by rw [hcall]; rfl) hobj.buffered hobj.object rfl
          (Master.selectNodeBlockSet_size hsel) hmsg
        rw [hcall] at hM
        rw [hM]
        exact (exists_reply_iff rfl).trans hiff
  | updateMeta fileNo attr =>
      rw [hcall] at hout hmatch hM
      obtain ⟨r, hr⟩ := isBuffered_some hmatch
      rw [hM]
      refine iff_of_true ?_ trivial
      have hout' : x.master.parseMetaUpdate fileNo.toInt attr.st = some out := hout
      unfold Master.parseMetaUpdate at hout'
      rw [hr] at hout'
      simp only at hout'
      split at hout'
      · cases hout'
      · split at hout'
        · cases hout'
        · cases hout'
          rfl
  | flushFile fileNo =>
      rw [hcall] at hout hM
      rw [hM]
      refine iff_of_true ?_ trivial
      have hout' : x.master.parseFlushFile x.origin fileNo.toInt = some out := hout
      unfold Master.parseFlushFile at hout'
      split at hout'
      · cases hout'
        exact ⟨_, rfl, replyAgrees_done (Or.inr rfl) (by rw [hcall]; rfl) (by rw [hcall]; rfl)⟩
      · obtain ⟨n, _, rfl⟩ := Option.map_eq_some_iff.mp hout'
        exact ⟨_, rfl, replyAgrees_done (Or.inl rfl) (by rw [hcall]; rfl) (by rw [hcall]; rfl)⟩
  | closeFile fileNo =>
      rw [hcall] at hout hM
      rw [hM]
      refine iff_of_true ?_ trivial
      have hout' : x.master.parseCloseFile x.origin fileNo.toInt = some out := hout
      unfold Master.parseCloseFile at hout'
      split at hout'
      · cases hout'
        exact ⟨_, rfl, replyAgrees_done (Or.inr rfl) (by rw [hcall]; rfl) (by rw [hcall]; rfl)⟩
      · obtain ⟨n, _, rfl⟩ := Option.map_eq_some_iff.mp hout'
        exact ⟨_, rfl, replyAgrees_done (Or.inl rfl) (by rw [hcall]; rfl) (by rw [hcall]; rfl)⟩
  | getAttr path =>
      rw [hcall] at hout
      exact getAttr_iff hcall hnum (Option.some.inj hout).symm
  | access path mode =>
      rw [hcall] at hout
      exact access_iff hcall hnum (Option.some.inj hout).symm
  | readDir path =>
      rw [hcall] at hout hM
      obtain ⟨names, hnames, rfl⟩ := Option.map_eq_some_iff.mp hout
      have hreply : { responseTask x.origin [.int SUCCESS, .int names.size] with extended := names.keys }
          = dirTask x.origin names.keys := by
        rw [OrdMap.size_eq_keys_length]
        rfl
      have hiff := dir_iff (x := x) (o := x.origin) (l := names.keys) (by rw [hcall]; rfl) (by rw [hcall]; rfl)
      rw [← hreply] at hiff
      rw [hM]
      refine (exists_reply_iff rfl).trans (hiff.trans ?_)
      constructor
      · intro h names' hnames'
        rw [hnames] at hnames'
        cases hnames'
        exact h
      · intro h
        exact h names hnames
  | unlink path =>
      rw [hcall] at hout hM
      rw [hM]
      exact iff_of_true (remove_agrees hout (by rw [hcall]; rfl) (by rw [hcall]; rfl)) trivial
  | rmDir path =>
      rw [hcall] at hout hM
      rw [hM]
      exact iff_of_true (remove_agrees hout (by rw [hcall]; rfl) (by rw [hcall]; rfl)) trivial
  | mkdir path mode =>
      rw [hcall] at hout hM
      cases hout
      rw [hM]
      refine iff_of_false ?_ id
      rintro ⟨t, ht, hagrees⟩
      cases ht
      refine not_replyAgrees ?_ hagrees
      intro r rc r' hr
      rw [hcall] at hr
      rw [Call.receiveStatus_popped hr]
      exact (by decide : (1 : Nat) ≠ 0)
  | rename oldName newName newMaster =>
      rw [hcall] at hout hM
      rw [hM]
      obtain ⟨⟨m', ops⟩, hren, rfl⟩ := Option.map_eq_some_iff.mp hout
      refine iff_of_true ⟨_, allocatedOn_reply (Master.renameTables_effect hren).sends _ _, ?_⟩ trivial
      exact replyAgrees_status (by decide) (by decide) (by rw [hcall]; rfl) (by rw [hcall]; rfl)
  | renameMigrating newName oldMaster =>
      rw [hcall] at hout hM
      rw [hM]
      cases hout
      exact iff_of_true ⟨_, rfl, replyAgrees_status (by decide) (by decide) (by rw [hcall]; rfl) (by rw [hcall]; rfl)⟩ trivial
  | truncate path size =>
      rw [hcall] at hout
      exact truncate_iff hcall hnum hout

/-- **Client and Master agree on a call exactly under `Condition`**, for every call, every argument, every
    state of the Master and whatever the buffers held before. -/
theorem wire_agrees_iff (x : Exchange) (hnum : x.NumberInt)
    (hout : x.master.parseRequest x.env x.origin x.call.request = some out) : x.Agrees out ↔ x.Condition := by
  unfold Agrees Condition
  rw [requestAgrees_iff, and_assoc]
  refine and_congr_right (fun _ => and_congr_right (fun hmatch => ?_))
  exact reply_iff x hnum hmatch hout

/-- An open of `/a` at a Master with one IOnode. -/
def ofOpen (flag mode : BitVec 32) : Exchange :=
  { master := Master.oneNode, env := ⟨0, 0, 0⟩, origin := ⟨3, 0⟩, call := .openFile ⟨Master.pathA, by decide⟩ flag mode,
    masters := 1, atMaster := fun _ => 0, atClient := fun _ => 0, inFiles := fun _ => 0, filesPoint := 0 }

/-- With `O_CREAT` the two agree. -/
theorem wire_agrees_iff_create : ∃ out, Master.oneNode.parseRequest ⟨0, 0, 0⟩ ⟨3, 0⟩ (ofOpen O_CREAT 0x1b6#32).call.request
    = some out ∧ (ofOpen O_CREAT 0x1b6#32).Agrees out := by
  refine ⟨_, rfl, (wire_agrees_iff (ofOpen O_CREAT 0x1b6#32) ⟨by decide, by decide⟩ rfl).mpr ⟨by decide, Or.inl (by decide), ?_⟩⟩
  show Master.oneNode.HasFreeNumber ∧ Master.oneNode.registeredIOnodes.size ≠ 0
  refine ⟨⟨by decide, 0, by decide, rfl⟩, by decide⟩

/-- **An open without `O_CREAT`.** The Master takes the mode `0666` for the flag. -/
theorem wire_disagrees_without_create :
    ∃ out, Master.oneNode.parseRequest ⟨0, 0, 0⟩ ⟨3, 0⟩ (ofOpen 0 0x1b6#32).call.request = some out ∧
      ¬ (ofOpen 0 0x1b6#32).Agrees out := by
  refine ⟨_, rfl, ?_⟩
  rintro ⟨hreq, _⟩
  rcases ((requestAgrees_iff _).mp hreq).2 with hcreate | ⟨hflag, _⟩
  · exact absurd hcreate (by decide)
  · exact absurd hflag (by decide)

end

end Exchange

end HuronFS
