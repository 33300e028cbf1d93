import HuronFS.Protocol.ReadAfterWrite

/-!
# `Protocol.ManyClients` — one file, and any number of clients that have it open

Each client has a `file_meta` of its own, with a size that other clients' writes leave behind; the Master's view of the file and the
IOnode are the same for all. The calls of the clients follow each other in any order and do not overlap, and no client uses the block
cache.

A read is cut at the size its own client knows, and a client learns the size only when it asks the Master. Next to the system is one
byte array with what each client knows of its size: that is all a stale client can tell.
-/

namespace HuronFS

open ClientFile Region

/-- What a client does with the file. -/
inductive SharedCall (ι : Type)
  | opens (i : ι)
  | io (i : ι) (c : IOCall)

/-- The `file_meta` of every client, the Master's view of the file, and the IOnode. -/
structure ManyClients (ι : Type) where
  file : ι → ClientFile
  view : OpenView
  node : IOnode

/-- The byte array, and what each client takes for its size. -/
structure SharedArray (ι : Type) where
  file : ByteFile Byte
  known : ι → Nat

variable {ι : Type} [DecidableEq ι]

namespace ManyClients

/-- The system as a call of one client sees it. -/
def client (s : ManyClients ι) (i : ι) : OneClient := ⟨{ s.file i with view := s.view }, s.node⟩

/-- A call of a client; an open of an open file is answered with its attributes. -/
def call (fileNo : Int) (s : ManyClients ι) : SharedCall ι → Option (Returned × ManyClients ι)
  | .opens i => some (⟨s.view.size, []⟩, { s with file := Function.update s.file i (ClientFile.opened s.view) })
  | .io i c => ((s.client i).call fileNo c).map fun (r, t) => (r, ⟨Function.update s.file i t.file, t.file.view, t.node⟩)

/-- The file opened for the first time, by all the clients. -/
def opened (n : IOnode) (fileNo : Int) (existFlag : ExistFlag) (path : Str) (primary : Int) : ManyClients ι :=
  let s := OneClient.opened n fileNo existFlag path primary
  ⟨fun _ => s.file, s.file.view, s.node⟩

end ManyClients

namespace SharedArray

/-- A read gives the bytes of the array up to the size that is known; one that starts there does not even ask for more. -/
def call (T : SharedArray ι) : SharedCall ι → Option (Returned × SharedArray ι)
  | .opens i => some (⟨T.file.size, []⟩, { T with known := Function.update T.known i T.file.size })
  | .io i c =>
      match c.mode with
      | .read =>
          if T.known i ≤ c.startPoint then some (⟨0, []⟩, T)
          else
            let bytes := T.file.read c.startPoint (min c.size (T.known i - c.startPoint))
            some (⟨bytes.length, bytes⟩, { T with known := Function.update T.known i T.file.size })
      | .write =>
          let file := T.file.write c.startPoint c.data
          some (⟨(c.size : Int).bmod (2 ^ 32), []⟩, ⟨file, Function.update T.known i file.size⟩)

/-- The array when all the clients have opened it. -/
def opened (F : ByteFile Byte) : SharedArray ι := ⟨F, fun _ => F.size⟩

/-- No write leaves a hole, and there is memory for the blocks of the file beside `inUse` others. -/
def Permitted (cap inUse : Nat) (T : SharedArray ι) : SharedCall ι → Prop
  | .opens _ => True
  | .io _ c => Reference.Permitted cap inUse T.file c

instance (cap inUse : Nat) (T : SharedArray ι) (c : SharedCall ι) : Decidable (T.Permitted cap inUse c) := by
  cases c <;> unfold Permitted <;> [skip; unfold Reference.Permitted] <;> infer_instance

end SharedArray

/-! ## A client that is behind -/

/-- A reply that knows more makes what the client knew no matter. -/
theorem ClientFile.parseBlocks_refresh (f : ClientFile) (info : OpenView.BlockInfo) {a b : Nat} (ha : a ≤ info.fileSize)
    (hb : b ≤ info.fileSize) : parseBlocks false { f with stSize := a } info = parseBlocks false { f with stSize := b } info := by
  have hsize : ∀ {x : Nat}, x ≤ info.fileSize → (if info.fileSize > x then info.fileSize else x) = info.fileSize := by
    intro x hx
    split <;> omega
  simp [parseBlocks, hsize ha, hsize hb]

/-- **The Master brings a client up to date.** A client that knows less than the Master comes to the transfer with what one that knows
    the size has. -/
theorem ClientFile.prepare_refresh {f : ClientFile} (h : f.stSize ≤ f.view.size) (c : IOCall) :
    f.prepare false c = { f with stSize := f.view.size }.prepare false c := by
  simp only [prepare, ClientFile.getBlocksFromMaster, askMaster, Bool.false_eq_true, if_false]
  cases hmode : c.mode with
  | read =>
      -- nothing of the client is sent, and the reply is larger than what it knows
      simp only [Option.map_map]
      refine Option.map_congr fun info hinfo => ?_
      obtain ⟨bl, -, rfl⟩ := Option.map_eq_some_iff.mp hinfo
      have hparse := f.parseBlocks_refresh ⟨f.view.size, f.view.primary, bl⟩ h (Nat.le_refl _)
      simpa using hparse
  | write =>
      -- the size that is sent does not matter to the Master either, which keeps the larger one
      have hwritten : f.view.written (max f.stSize (c.startPoint + c.size)) c.startPoint c.size =
          f.view.written (max f.view.size (c.startPoint + c.size)) c.startPoint c.size := by
        unfold OpenView.written OpenView.updateMeta
        rw [show max f.view.size (max f.stSize (c.startPoint + c.size)) = max f.view.size (max f.view.size (c.startPoint + c.size)) by omega]
      simp only [writeUpdateFileSize_eq, OpenView.writeFile, hwritten, Option.map_map]
      set v := f.view.written (max f.view.size (c.startPoint + c.size)) c.startPoint c.size
      have hsize : v.size = max f.view.size (max f.view.size (c.startPoint + c.size)) := rfl
      refine Option.map_congr fun info hinfo => ?_
      obtain ⟨bl, -, rfl⟩ := Option.map_eq_some_iff.mp hinfo
      have hparse := { f with view := v }.parseBlocks_refresh ⟨v.size, v.primary, bl⟩
        (a := max f.stSize (c.startPoint + c.size)) (b := max f.view.size (c.startPoint + c.size))
        (by show _ ≤ v.size; omega) (by show _ ≤ v.size; omega)
      simpa using hparse

namespace OneClient

theorem remoteIo_refresh {s : OneClient} (h : s.file.stSize ≤ s.file.view.size) (fileNo : Int) (c : IOCall) :
    s.remoteIo fileNo c = (⟨{ s.file with stSize := s.file.view.size }, s.node⟩ : OneClient).remoteIo fileNo c := by
  unfold remoteIo
  rw [prepare_refresh h]

/-- A read that starts before the end its client knows of is a `remote_IO` of what lies before that end. -/
theorem read_cut (s : OneClient) (fileNo : Int) {c : IOCall} (hmode : c.mode = .read) (hstart : c.startPoint < s.file.stSize) :
    ∃ c' : IOCall, c'.mode = .read ∧ c'.startPoint = c.startPoint ∧ c'.size = min c.size (s.file.stSize - c.startPoint) ∧
      s.read fileNo c = (s.remoteIo fileNo c').map fun (count, bytes, s) => (⟨count, bytes⟩, s) := by
  unfold read
  by_cases hend : s.file.stSize < c.size + c.startPoint
  · refine ⟨c.trim s.file.stSize hstart hend, rfl, rfl, ?_, by rw [dif_pos hend, dif_pos hstart]⟩
    show s.file.stSize - c.startPoint = _
    omega
  · exact ⟨c, hmode, rfl, by omega, by rw [dif_neg hend]⟩

/-- One that starts there or behind asks nobody. -/
theorem read_past (s : OneClient) (fileNo : Int) {c : IOCall} (hstart : s.file.stSize ≤ c.startPoint) :
    s.read fileNo c = some (⟨0, []⟩, s) := by
  have hpos := c.size_pos
  unfold read
  rw [dif_pos (by omega), dif_neg (by omega)]

end OneClient

/-! ## The relation -/

namespace ManyClients

/-- The system has the bytes of the array and memory for its blocks; every client has the size it is said to know, which is none that
    the file never had. -/
structure Shows (cap : Nat) (fileNo : Int) (held : List BlockKey) (s : ManyClients ι) (T : SharedArray ι) : Prop where
  node : IOnode.Serves cap fileNo (Reference.bytes T.file) (held ++ fileBlocks fileNo T.file.size) s.node
  view_size : s.view.size = T.file.size
  covered : Master.Covered s.view.blocks T.file.size
  room : held.length + blockCount T.file.size ≤ cap
  known : ∀ i, (s.file i).stSize = T.known i
  behind : ∀ i, T.known i ≤ T.file.size

namespace Shows

variable {cap : Nat} {fileNo : Int} {held : List BlockKey} {s : ManyClients ι} {T : SharedArray ι}

/-- A client that asked the Master is in step with the array. -/
theorem synced (h : Shows cap fileNo held s T) (i : ι) (needUpdate : Bool) :
    OneClient.Synced cap fileNo held
      ⟨{ s.file i with stSize := s.view.size, needUpdate := needUpdate, view := s.view }, s.node⟩ T.file :=
  ⟨h.node, h.view_size, h.view_size, h.covered⟩

theorem stale (h : Shows cap fileNo held s T) (i : ι) : (s.file i).stSize ≤ s.view.size := by
  rw [h.known, h.view_size]
  exact h.behind i

/-- One client has another size, and is said to know it. -/
theorem known_update (h : Shows cap fileNo held s T) {f : ClientFile} {size : Nat} (hf : f.stSize = size) (i j : ι) :
    (Function.update s.file i f j).stSize = Function.update T.known i size j := by
  by_cases hj : j = i
  · subst hj
    simpa using hf
  · simpa [hj] using h.known j

/-- **A call of one client leaves the others where they are.** -/
theorem of_synced (h : Shows cap fileNo held s T) {t : OneClient} {F : ByteFile Byte} (ht : OneClient.Synced cap fileNo held t F)
    (hgrows : T.file.size ≤ F.size) (hroom : held.length + blockCount F.size ≤ cap) (i : ι) :
    Shows cap fileNo held ⟨Function.update s.file i t.file, t.file.view, t.node⟩ ⟨F, Function.update T.known i F.size⟩ := by
  refine ⟨ht.node, ht.view_size, ht.covered, hroom, h.known_update ht.size_eq i, ?_⟩
  intro j
  by_cases hj : j = i
  · simp [hj]
  · simpa [hj] using (h.behind j).trans hgrows

/-- **A read** of a client that may be behind. -/
theorem read (h : Shows cap fileNo held s T) (hcap : 0 < cap) (i : ι) {c : IOCall} (hmode : c.mode = .read) :
    ∃ r s' T', ManyClients.call fileNo s (.io i c) = some (r, s') ∧ T.call (.io i c) = some (r, T') ∧ Shows cap fileNo held s' T' := by
  have hknown : (s.client i).file.stSize = T.known i := h.known i
  by_cases hstart : T.known i ≤ c.startPoint
  · -- nothing is asked for and nothing is learnt
    have hpast := OneClient.read_past (s.client i) fileNo (hknown.trans_le hstart)
    refine ⟨⟨0, []⟩, ⟨Function.update s.file i (s.client i).file, s.view, s.node⟩, T, ?_, ?_, ?_⟩
    · simp only [ManyClients.call, OneClient.call, hmode, hpast, Option.map_some]
      rfl
    · simp only [SharedArray.call, hmode, if_pos hstart]
    · have hsame := h.known_update hknown i
      simp only [Function.update_eq_self] at hsame
      exact ⟨h.node, h.view_size, h.covered, h.room, hsame, h.behind⟩
  · -- the cut is at the size the client knows, but the transfer already runs with that of the Master
    obtain ⟨c', hmode', hpoint, hsize, hread⟩ := OneClient.read_cut (s.client i) fileNo hmode (by omega)
    rw [hknown] at hsize
    have hin := h.behind i
    obtain ⟨t, hio, ht⟩ := (h.synced i (s.file i).needUpdate).remoteRead hcap h.room hmode' (by omega)
    refine ⟨⟨c'.size, slice T.file.cell c'.startPoint c'.size⟩, _, _, ?_, ?_, h.of_synced ht (Nat.le_refl _) h.room i⟩
    · have hrefresh := OneClient.remoteIo_refresh (s := s.client i) (h.stale i) fileNo c'
      simp only [ManyClients.call, OneClient.call, hmode, hread, hrefresh]
      simp only [client, hio, Option.map_some]
    · have hbytes : T.file.read c.startPoint (min c.size (T.known i - c.startPoint)) =
          slice T.file.cell c.startPoint (min c.size (T.known i - c.startPoint)) := ByteFile.read_within (by omega)
      simp only [SharedArray.call, hmode, if_neg hstart, hbytes, hpoint, hsize, length_slice]

/-- **A write** of a client that may be behind: it takes nothing back that others wrote. -/
theorem write (h : Shows cap fileNo held s T) (hcap : 0 < cap) (i : ι) {c : IOCall} (hmode : c.mode = .write)
    (hc : Reference.Permitted cap held.length T.file c) :
    ∃ r s' T', ManyClients.call fileNo s (.io i c) = some (r, s') ∧ T.call (.io i c) = some (r, T') ∧ Shows cap fileNo held s' T' := by
  obtain ⟨hstart, hroom⟩ := hc
  have hroom' : held.length + blockCount (T.file.write c.startPoint c.data).size ≤ cap := by
    simpa only [Reference.after, hmode] using hroom
  obtain ⟨t, hio, ht⟩ := (h.synced i true).remoteWrite hcap hmode (hstart hmode) hroom'
  refine ⟨⟨(c.size : Int).bmod (2 ^ 32), []⟩, _, _, ?_, ?_, h.of_synced ht (ByteFile.size_le_write ..) hroom' i⟩
  · have hrefresh := OneClient.remoteIo_refresh (s := ⟨{ s.file i with needUpdate := true, view := s.view }, s.node⟩) (h.stale i)
      fileNo c
    simp only [ManyClients.call, OneClient.call, hmode, OneClient.write, client, hrefresh, hio, Option.map_some]
  · simp only [SharedArray.call, hmode]

/-- **Each call** of any client. -/
theorem call (hcap : 0 < cap) (h : Shows cap fileNo held s T) {c : SharedCall ι} (hc : T.Permitted cap held.length c) :
    ∃ r s' T', ManyClients.call fileNo s c = some (r, s') ∧ T.call c = some (r, T') ∧ Shows cap fileNo held s' T' := by
  cases c with
  | opens i =>
      refine ⟨_, _, _, rfl, by rw [h.view_size]; rfl, ?_⟩
      have ht : OneClient.Synced cap fileNo held ⟨ClientFile.opened s.view, s.node⟩ T.file :=
        ⟨h.node, h.view_size, h.view_size, h.covered⟩
      exact h.of_synced ht (Nat.le_refl _) h.room i
  | io i c =>
      cases hmode : c.mode with
      | read => exact h.read hcap i hmode
      | write => exact h.write hcap i hmode hc

end Shows

variable {cap : Nat} {fileNo : Int}

end ManyClients

end HuronFS
