import HuronFS.IOnode.Regrow
import HuronFS.Protocol.ReadAfterWrite

/-!
# `Protocol.ReadProgress` — every reply brings the read loop nearer to its end

The loop of `_read_from_IOnode` counts what the replies bring, and an IOnode ends its reply, with `SUCCESS`, at the first block it does
not have. A file without holes has all its blocks: each query is answered in full and starts in its own block. Where a write, a truncate
or a metadata update has left a hole the loop comes to a query that is answered with nothing, and repeats it.
-/

namespace HuronFS

open ClientFile Region

/-! ## The queries of the loop -/

section Trace

variable {σ : Type} (io : NodeIo σ) (node : Int) (blocks : BlockList) (first : Nat)

/-- The queries of `_read_from_IOnode` and their replies, in the order they are made. -/
def readTrace : (fuel currentPoint startPoint readSize : Nat) → σ → List (Transfer × List Byte)
  | 0, _, _, _, _ => []
  | fuel + 1, currentPoint, startPoint, readSize, s =>
      if readSize = 0 then []
      else
        match io.read node ⟨startPoint, (currentPoint : Int) - startPoint, transferSize readSize⟩ s with
        | none => []
        | some (bytes, s) =>
            (⟨startPoint, (currentPoint : Int) - startPoint, transferSize readSize⟩, bytes) ::
              readTrace fuel (currentPoint + bytes.length) (findStartPoint blocks first startPoint bytes.length)
                (readSize - bytes.length) s

end Trace

/-- **The loop when each query is answered in full**: all of them start in their own block, and the loop ends with all the bytes. -/
theorem readLoop_sized {σ : Type} {io : NodeIo σ} {node : Int} {blocks : BlockList} {start offset : Nat} (first : Nat) {size : Nat}
    {I : σ → Prop} (hblocks : Lists blocks start size)
    (hstep : ∀ i s, i * BLOCK_SIZE < size → I s → ∃ bytes s',
      io.read node ⟨start + i * BLOCK_SIZE, offset, min BLOCK_SIZE (size - i * BLOCK_SIZE)⟩ s = some (bytes, s') ∧
        bytes.length = min BLOCK_SIZE (size - i * BLOCK_SIZE) ∧ I s') :
    ∀ {fuel i currentPoint startPoint : Nat} (buffer : List Byte) {s : σ},
      (i * BLOCK_SIZE < size → currentPoint = start + offset + i * BLOCK_SIZE ∧ startPoint = start + i * BLOCK_SIZE) → I s →
      (∀ e ∈ readTrace io node blocks first fuel currentPoint startPoint (size - i * BLOCK_SIZE) s, e.1.offset = offset ∧ e.2 ≠ []) ∧
      (size - i * BLOCK_SIZE ≤ fuel →
        ∃ l s', readLoop io node blocks first fuel currentPoint startPoint (size - i * BLOCK_SIZE) buffer s = some (buffer ++ l, s') ∧
          l.length = size - i * BLOCK_SIZE ∧ I s') := by
  have hpos : 0 < BLOCK_SIZE := by decide
  have hnext := nextPoints first offset hblocks
  have htransfer : ∀ n, transferSize n = min BLOCK_SIZE n := transferSize_eq
  generalize BLOCK_SIZE = B at hpos hnext htransfer hstep ⊢
  intro fuel
  induction fuel with
  | zero =>
      intro i currentPoint startPoint buffer s _ hI
      refine ⟨fun e he => (nomatch he), ?_⟩
      intro hfuel
      have hend : size - i * B = 0 := by omega
      refine ⟨[], s, ?_, hend.symm, hI⟩
      rw [hend, List.append_nil]
      rfl
  | succ fuel ih =>
      intro i currentPoint startPoint buffer s hpoints hI
      by_cases hend : size - i * B = 0
      · rw [hend]
        refine ⟨fun e he => (nomatch he), ?_⟩
        intro _
        refine ⟨[], s, ?_, rfl, hI⟩
        rw [List.append_nil]
        rfl
      · have hi : i * B < size := by omega
        obtain ⟨rfl, rfl⟩ := hpoints hi
        obtain ⟨bytes, s1, hread, hlength, hI1⟩ := hstep i s hi hI
        have hleft : size - i * B - bytes.length = size - (i + 1) * B := by
          rw [hlength, Nat.succ_mul]
          omega
        have hne : bytes ≠ [] := by
          rintro rfl
          rw [List.length_nil] at hlength
          omega
        obtain ⟨htrace, hloop⟩ := ih (buffer ++ bytes) (hnext i) hI1
        rw [← hlength, ← hleft] at htrace hloop
        constructor
        · intro e he
          unfold readTrace at he
          rw [if_neg hend, htransfer, queryOffset, hread] at he
          rcases List.mem_cons.mp he with rfl | he
          · exact ⟨rfl, hne⟩
          · exact htrace e he
        · intro hfuel
          have hpositive : 0 < bytes.length := List.length_pos_iff.mpr hne
          obtain ⟨l, s', hrest, hl, hI'⟩ := hloop (by omega)
          refine ⟨bytes ++ l, s', ?_, ?_, hI'⟩
          · unfold readLoop
            rw [if_neg hend, htransfer, queryOffset, hread]
            dsimp only
            rw [hrest, List.append_assoc]
          · rw [List.length_append, hl]
            have hle : bytes.length ≤ size - i * B := by
              rw [hlength]
              exact Nat.min_le_right _ _
            exact Nat.add_sub_of_le hle

/-- The whole loop, from its first query on. -/
theorem readLoop_whole {σ : Type} {io : NodeIo σ} {node : Int} {blocks : BlockList} {start offset size : Nat} {I : σ → Prop} {s : σ}
    (hblocks : Lists blocks start size)
    (hstep : ∀ i s, i * BLOCK_SIZE < size → I s → ∃ bytes s',
      io.read node ⟨start + i * BLOCK_SIZE, offset, min BLOCK_SIZE (size - i * BLOCK_SIZE)⟩ s = some (bytes, s') ∧
        bytes.length = min BLOCK_SIZE (size - i * BLOCK_SIZE) ∧ I s') (hI : I s) :
    (∀ fuel, ∀ e ∈ readTrace io node blocks start fuel (start + offset) start size s, e.1.offset = offset ∧ e.2 ≠ []) ∧
      ∃ l s', readLoop io node blocks start size (start + offset) start size [] s = some (l, s') ∧ l.length = size ∧ I s' := by
  have hpoints : 0 * BLOCK_SIZE < size → start + offset = start + offset + 0 * BLOCK_SIZE ∧ start = start + 0 * BLOCK_SIZE :=
    fun _ => ⟨by omega, by omega⟩
  constructor
  · intro fuel
    have htrace : ∀ e ∈ readTrace io node blocks start fuel (start + offset) start (size - 0 * BLOCK_SIZE) s,
        e.1.offset = offset ∧ e.2 ≠ [] := (readLoop_sized start hblocks hstep [] hpoints hI).1
    rwa [Nat.zero_mul, Nat.sub_zero] at htrace
  · have hloop : size - 0 * BLOCK_SIZE ≤ size →
        ∃ l s', readLoop io node blocks start size (start + offset) start (size - 0 * BLOCK_SIZE) [] s = some ([] ++ l, s') ∧
          l.length = size - 0 * BLOCK_SIZE ∧ I s' := (readLoop_sized start hblocks hstep [] hpoints hI).2
    rw [Nat.zero_mul, Nat.sub_zero] at hloop
    exact hloop (Nat.le_refl size)

/-! ## A client, its file and the calls that change it -/

/-- `_parse_truncate_file`: the size is set; no block goes. -/
def OpenView.truncate (v : OpenView) (size : Nat) : OpenView := { v with size := size }

/-- **A truncate** of an open file leaves the view with the new size. -/
theorem Master.Views.truncateFile {m m' : Master} {fileNo : Int} {n : NodeInfo} {v : OpenView} (h : Views m fileNo n v) {size : Nat}
    {ops : List QueueOp} {s : FileStat} (hopen : m.bufferedFiles.find? fileNo = s.openedFileInfo)
    (htruncate : m.truncateLocal s size = some (m', ops)) : Views m' fileNo n (v.truncate size) := by
  obtain ⟨r, f, st, hobj, hn, rfl⟩ := h.objects
  obtain ⟨r', f', st', ho, hf', hst', rfl, -⟩ := truncateLocal_some htruncate
  obtain rfl := Option.some.inj (hobj.buffered.symm.trans (hopen.trans ho))
  obtain rfl := Option.some.inj (hobj.object.symm.trans hf')
  exact ⟨r, f, st'.setStatus { st'.status with stSize := size }, ⟨hobj.buffered, hobj.object, OrdMap.find?_put_self ..⟩, hn, rfl⟩

namespace OneClient

/-- `truncate` by path: the Master sets the size, and the IOnode cuts the file off where it gets shorter. -/
def truncate (s : OneClient) (fileNo : Int) (size : Nat) : Option OneClient :=
  let file := { s.file with view := s.file.view.truncate size }
  if size < s.file.view.size then
    (s.node.intervalProcess.truncateFile fileNo (getBlockStartPoint size) (size - getBlockStartPoint size)).map (fun node => ⟨file, node⟩)
  else some ⟨file, s.node⟩

/-- `_ftruncate`. -/
def ftruncate (s : OneClient) (fileNo : Int) (size : Nat) : Option OneClient :=
  truncate { s with file := { s.file with stSize := size, needUpdate := true } } fileNo size

/-- The queries `remote_IO` makes for a read. -/
def sent (s : OneClient) (fileNo : Int) (c : IOCall) (fuel : Nat) : List (Transfer × List Byte) :=
  match s.file.prepare false c with
  | none => []
  | some p =>
      match p.blocks.firstKey, p.nodes.firstKey with
      | some first, some node =>
          readTrace (IOnode.nodeIo fileNo) node p.blocks first fuel c.startPoint first (min c.size (p.file.stSize - c.startPoint)) s.node
      | _, _ => []

/-- The queries of a `_read`. -/
def queries (s : OneClient) (fileNo : Int) (c : IOCall) (fuel : Nat) : List (Transfer × List Byte) :=
  if hend : s.file.stSize < c.size + c.startPoint then
    if hstart : c.startPoint < s.file.stSize then s.sent fileNo (c.trim s.file.stSize hstart hend) fuel else []
  else s.sent fileNo c fuel

/-- **A read makes progress**, in a state where `ref` has the bytes that were written or were on storage: each reply brings a byte and
    each offset is in a block, the call returns, and what was never written is zero. -/
structure Progresses (fileNo : Int) (ref : IOnode.Ref) (s : OneClient) (c : IOCall) : Prop where
  replies : ∀ fuel, ∀ e ∈ s.queries fileNo c fuel, 0 ≤ e.1.offset ∧ e.1.offset ≤ BLOCK_SIZE ∧ e.2 ≠ []
  returns : ∃ l s', s.read fileNo c = some (⟨l.length, l⟩, s') ∧ l.length = min c.size (s.file.stSize - c.startPoint) ∧
    ∀ i v, l[i]? = some v → ref fileNo (c.startPoint + i) = none → v = 0

end OneClient

theorem Master.Covered.shorter {bl : BlockList} {size size' : Nat} (h : Covered bl size) (hle : size' ≤ size) :
    Covered bl size' := by
  obtain ⟨n, hcov, hn⟩ := h
  exact ⟨n, hcov, Nat.le_trans hle hn⟩

/-- An open file: a client of it, the IOnode, and the bytes its files should have. -/
structure FileInUse where
  client : OneClient
  ref : IOnode.Ref

/-- What happens to an open file. The other requests to the IOnode are those of other files, and reads. -/
inductive FileEvent
  | call (c : IOCall)
  | truncate (size : Nat)
  | ftruncate (size : Nat)
  | updateMeta (startPoint size : Nat)
  | other (r : IOnode.Request)

namespace FileInUse

/-- The bytes once the Master has been told a size. -/
def cutTo (t : FileInUse) (fileNo : Int) (size : Nat) : IOnode.Ref :=
  if size < t.client.file.view.size then IOnode.cutRef t.ref fileNo size else t.ref

/-- The bytes after a call. -/
def called (t : FileInUse) (fileNo : Int) (c : IOCall) : IOnode.Ref :=
  match c.mode with
  | .read => t.ref
  | .write => IOnode.refWrite t.ref fileNo c.startPoint c.data

def step (fileNo : Int) (t : FileInUse) : FileEvent → Option FileInUse
  | .call c => (t.client.call fileNo c).map (fun (_, client) => ⟨client, t.called fileNo c⟩)
  | .truncate size => (t.client.truncate fileNo size).map (fun client => ⟨client, t.cutTo fileNo size⟩)
  | .ftruncate size => (t.client.ftruncate fileNo size).map (fun client => ⟨client, t.cutTo fileNo size⟩)
  | .updateMeta startPoint size => some { t with client := { t.client with file := t.client.file.updateMeta startPoint size } }
  | .other r =>
      (t.client.node.handle r).map (fun (_, node) =>
        ⟨{ t.client with node := node }, IOnode.Tracked.refAfter ⟨t.client.node, t.ref⟩ r⟩)

/-- What the others keep to: the file is not unlinked under the client, and not written. -/
def Allowed (fileNo : Int) (t : FileInUse) : FileEvent → Prop
  | .other r => IOnode.Tracked.Permitted ⟨t.client.node, t.ref⟩ r ∧ IOnode.Cut.writesTo fileNo r = false ∧ r ≠ .unlink fileNo
  | _ => True

/-- No hole is left: a write begins inside the file or at its end, the size is never set behind the end, and the client knows of a file
    that gets shorter. -/
def NoHole (t : FileInUse) : FileEvent → Prop
  | .call c => c.mode = .write → c.startPoint ≤ t.client.file.stSize
  | .truncate size => size = t.client.file.stSize
  | .ftruncate size => size ≤ t.client.file.stSize
  | .updateMeta startPoint size => startPoint + size ≤ t.client.file.stSize
  | .other _ => True

/-! ## Files without holes -/

/-- The invariant: every byte up to the size is known, and the Master lists the blocks up to there. -/
structure Whole (cap : Nat) (fileNo : Int) (t : FileInUse) : Prop where
  node : IOnode.Inv cap [] t.client.node t.ref
  live : t.client.node.Live fileNo
  known : ∀ p < t.client.file.stSize, (t.ref fileNo p).isSome
  view_size : t.client.file.view.size = t.client.file.stSize
  covered : Master.Covered t.client.file.view.blocks t.client.file.stSize

variable {cap : Nat} {fileNo : Int} {t : FileInUse}

/-- The answers of the IOnode to the queries of a read inside the file. -/
theorem Whole.answers (h : Whole cap fileNo t) (hcap : 0 < cap) {off size : Nat} (hend : off + size ≤ t.client.file.stSize) (node : Int)
    (i : Nat) {n : IOnode} (_ : i * BLOCK_SIZE < size) (hn : IOnode.Inv cap [] n t.ref ∧ n.Live fileNo) :
    ∃ bytes n', (IOnode.nodeIo fileNo).read node ⟨getBlockStartPoint off + i * BLOCK_SIZE, (off - getBlockStartPoint off : Nat),
        min BLOCK_SIZE (size - i * BLOCK_SIZE)⟩ n = some (bytes, n') ∧ bytes.length = min BLOCK_SIZE (size - i * BLOCK_SIZE) ∧
      IOnode.Inv cap [] n' t.ref ∧ n'.Live fileNo := by
  have hbytes : ∀ j < min BLOCK_SIZE (size - i * BLOCK_SIZE),
      (t.ref fileNo (getBlockStartPoint off + i * BLOCK_SIZE + (off - getBlockStartPoint off) + j)).isSome := by
    intro j hj
    rw [OneClient.query_pos]
    apply h.known
    have hle : j < size - i * BLOCK_SIZE := Nat.lt_of_lt_of_le hj (Nat.min_le_right _ _)
    generalize i * BLOCK_SIZE = m at hle ⊢
    omega
  obtain ⟨l, n', hhandle, hlength, hn', hlive⟩ := hn.1.handle_readFile hcap hn.2 (blockStart_add off i) (OneClient.offset_lt off) hbytes
  refine ⟨l, n', ?_, hlength, hn', hlive⟩
  simp only [IOnode.nodeIo, hhandle]

/-- **A read inside the file**: its queries, and what it returns. -/
theorem Whole.remoteRead (h : Whole cap fileNo t) (hcap : 0 < cap) {c : IOCall} (hmode : c.mode = .read)
    (hend : c.startPoint + c.size ≤ t.client.file.stSize) :
    (∀ fuel, ∀ e ∈ t.client.sent fileNo c fuel, 0 ≤ e.1.offset ∧ e.1.offset ≤ BLOCK_SIZE ∧ e.2 ≠ []) ∧
    ∃ l client, t.client.remoteIo fileNo c = some (l.length, l, client) ∧ l.length = c.size ∧ Whole cap fileNo ⟨client, t.ref⟩ := by
  obtain ⟨f', sel, hprepare, hlists, hsize, hview⟩ := OneClient.prepare_read hmode h.view_size h.covered hend
  have hfirst := hlists.firstKey c.size_pos
  have hoff : getBlockStartPoint c.startPoint + (c.startPoint - getBlockStartPoint c.startPoint) = c.startPoint :=
    Nat.add_sub_cancel' (getBlockStartPoint_le c.startPoint)
  obtain ⟨htrace, l, n', hloop, hlength, hn'⟩ := readLoop_whole hlists
    (fun i _ => h.answers hcap hend t.client.file.view.primary i) ⟨h.node, h.live⟩
  rw [hoff] at htrace hloop
  constructor
  · intro fuel e he
    unfold OneClient.sent at he
    rw [hprepare] at he
    dsimp only at he
    rw [hfirst, OneClient.firstKey_single, hsize, Nat.min_eq_left (by omega)] at he
    obtain ⟨hoffset, hne⟩ := htrace fuel e he
    have hlt := OneClient.offset_lt c.startPoint
    exact ⟨by omega, by omega, hne⟩
  · refine ⟨l, ⟨f', n'⟩, ?_, hlength, hn'.1, hn'.2, ?_, ?_, ?_⟩
    · have hread : readFromIOnode (IOnode.nodeIo fileNo) sel (OrdSet.add OrdMap.empty t.client.file.view.primary) f'.stSize c.startPoint
          c.size t.client.node = some (l, n') := by
        unfold readFromIOnode
        rw [hfirst, OneClient.firstKey_single, hsize]
        dsimp only
        rw [if_neg (by omega)]
        exact hloop
      unfold OneClient.remoteIo
      rw [hprepare]
      simp only [Option.bind_some, transfer, if_true, hmode, hread, Option.map_some]
    · rw [hsize]
      exact h.known
    · rw [hsize, hview]
      exact h.view_size
    · rw [hsize, hview]
      exact h.covered

/-- A query of a write, and what the file should have after it. -/
theorem Whole.accepts (hcap : 0 < cap) {ref : IOnode.Ref} {off : Nat} {data : List Byte} (node : Int) (i : Nat) {n : IOnode}
    (hi : i * BLOCK_SIZE < data.length)
    (hn : IOnode.Inv cap [] n (IOnode.refWrite ref fileNo off (data.take (i * BLOCK_SIZE))) ∧ n.Live fileNo) :
    ∃ n', (IOnode.nodeIo fileNo).write node ⟨getBlockStartPoint off + i * BLOCK_SIZE, (off - getBlockStartPoint off : Nat),
        min BLOCK_SIZE (data.length - i * BLOCK_SIZE)⟩ ((data.drop (i * BLOCK_SIZE)).take BLOCK_SIZE) n = some n' ∧
      IOnode.Inv cap [] n' (IOnode.refWrite ref fileNo off (data.take ((i + 1) * BLOCK_SIZE))) ∧ n'.Live fileNo := by
  have hchunk : ((data.drop (i * BLOCK_SIZE)).take BLOCK_SIZE).length = min BLOCK_SIZE (data.length - i * BLOCK_SIZE) := by
    rw [List.length_take, List.length_drop]
  have hdone : (data.take (i * BLOCK_SIZE)).length = i * BLOCK_SIZE := by
    rw [List.length_take]
    exact Nat.min_eq_left (Nat.le_of_lt hi)
  obtain ⟨n', hhandle, hn', hlive⟩ := hn.1.handle_writeFile hcap hn.2 (blockStart_add off i) (OneClient.offset_lt off)
    ((data.drop (i * BLOCK_SIZE)).take BLOCK_SIZE)
  have hmore := IOnode.refWrite_append ref fileNo off (data.take (i * BLOCK_SIZE)) ((data.drop (i * BLOCK_SIZE)).take BLOCK_SIZE)
  rw [← List.take_add, ← Nat.succ_mul, hdone] at hmore
  rw [OneClient.query_pos, ← hmore] at hn'
  rw [hchunk] at hhandle
  refine ⟨n', ?_, hn', hlive⟩
  simp only [IOnode.nodeIo, hhandle, if_true]

/-- **A write that starts in the file.** -/
theorem Whole.remoteWrite (h : Whole cap fileNo t) (hcap : 0 < cap) {c : IOCall} (hmode : c.mode = .write)
    (hstart : c.startPoint ≤ t.client.file.stSize) :
    ∃ r, t.client.remoteIo fileNo c = some r ∧ Whole cap fileNo ⟨r.2.2, IOnode.refWrite t.ref fileNo c.startPoint c.data⟩ := by
  obtain ⟨f', sel, hprepare, hlists, hsize, hview, hcovered⟩ := OneClient.prepare_write hmode h.view_size h.covered hstart
  have hlength := c.data_length hmode
  have hdata : 0 < c.data.length := by
    rw [hlength]
    exact c.size_pos
  have hoff : getBlockStartPoint c.startPoint + (c.startPoint - getBlockStartPoint c.startPoint) = c.startPoint :=
    Nat.add_sub_cancel' (getBlockStartPoint_le c.startPoint)
  have hzero : IOnode.Inv cap [] t.client.node (IOnode.refWrite t.ref fileNo c.startPoint (c.data.take (0 * BLOCK_SIZE))) ∧
      t.client.node.Live fileNo := by
    unfold IOnode.refWrite
    rw [Nat.zero_mul, List.take_zero, List.map_nil, patch_nil, Function.update_eq_self]
    exact ⟨h.node, h.live⟩
  obtain ⟨n', hwrite, hn', hlive⟩ := writeToIOnode_spec hdata (hlength ▸ hlists) (OneClient.firstKey_single t.client.file.view.primary)
    (fun i _ => Whole.accepts hcap t.client.file.view.primary i) hzero
  have hall : c.data.length ≤ blockCount c.data.length * BLOCK_SIZE := by
    unfold blockCount BLOCK_SIZE
    omega
  rw [hoff] at hwrite
  rw [List.take_of_length_le hall] at hn'
  refine ⟨(c.data.length, [], ⟨f', n'⟩), ?_, hn', hlive, ?_, hview.trans hsize.symm, hsize ▸ hcovered⟩
  · unfold OneClient.remoteIo
    rw [hprepare]
    simp only [Option.bind_some, transfer, if_true, hmode, hwrite, Option.map_some]
  · -- a position is one that was just written, or one that was known before
    intro p hp
    have hp' : p < max t.client.file.stSize (c.startPoint + c.size) := hsize ▸ hp
    by_cases hin : c.startPoint ≤ p ∧ p < c.startPoint + c.size
    · obtain ⟨i, rfl⟩ : ∃ i, p = c.startPoint + i := ⟨p - c.startPoint, by omega⟩
      have hi : i < c.data.length := by omega
      show (IOnode.refWrite t.ref fileNo c.startPoint c.data fileNo (c.startPoint + i)).isSome
      rw [IOnode.refWrite_inside _ _ _ hi]
      rfl
    · exact IOnode.refWrite_known (h.known p (by omega))

/-! ## The events -/

/-- **A read** in a file without holes. -/
theorem Whole.read (h : Whole cap fileNo t) (hcap : 0 < cap) {c : IOCall} (hmode : c.mode = .read) (hstart : c.startPoint < t.client.file.stSize) :
    t.client.Progresses fileNo t.ref c ∧ ∃ r, t.client.read fileNo c = some r ∧ Whole cap fileNo ⟨r.2, t.ref⟩ := by
  -- what the read returns is known, so none of it is a hole
  have hnone : ∀ {l : List Byte} {count : Nat}, l.length = count → c.startPoint + count ≤ t.client.file.stSize →
      ∀ i v, l[i]? = some v → t.ref fileNo (c.startPoint + i) = none → v = 0 := by
    intro l count hl hle i v hv hc
    obtain ⟨hi, -⟩ := List.getElem?_eq_some_iff.mp hv
    have hknown := h.known (c.startPoint + i) (by omega)
    rw [hc] at hknown
    cases hknown
  by_cases hend : t.client.file.stSize < c.size + c.startPoint
  · have hcut : c.startPoint + (t.client.file.stSize - c.startPoint) ≤ t.client.file.stSize := by omega
    obtain ⟨hreplies, l, client, hio, hlength, hwhole⟩ := h.remoteRead hcap (c := c.trim t.client.file.stSize hstart hend) rfl hcut
    have hl : l.length = t.client.file.stSize - c.startPoint := hlength
    have hread : t.client.read fileNo c = some (⟨l.length, l⟩, client) := by
      unfold OneClient.read
      rw [dif_pos hend, dif_pos hstart, hio]
      rfl
    refine ⟨⟨?_, l, client, hread, ?_, hnone hl hcut⟩, _, hread, hwhole⟩
    · intro fuel e he
      unfold OneClient.queries at he
      rw [dif_pos hend, dif_pos hstart] at he
      exact hreplies fuel e he
    · rw [hl, Nat.min_eq_right (by omega)]
  · have hle : c.startPoint + c.size ≤ t.client.file.stSize := by omega
    obtain ⟨hreplies, l, client, hio, hlength, hwhole⟩ := h.remoteRead hcap hmode hle
    have hread : t.client.read fileNo c = some (⟨l.length, l⟩, client) := by
      unfold OneClient.read
      rw [dif_neg hend, hio]
      rfl
    refine ⟨⟨?_, l, client, hread, ?_, hnone hlength hle⟩, _, hread, hwhole⟩
    · intro fuel e he
      unfold OneClient.queries at he
      rw [dif_neg hend] at he
      exact hreplies fuel e he
    · rw [hlength, Nat.min_eq_left (by omega)]

theorem Whole.call (h : Whole cap fileNo t) (hcap : 0 < cap) {c : IOCall} (hstart : c.mode = .write → c.startPoint ≤ t.client.file.stSize) :
    ∃ t', step fileNo t (.call c) = some t' ∧ Whole cap fileNo t' := by
  have hcall : ∃ r, t.client.call fileNo c = some r ∧ Whole cap fileNo ⟨r.2, t.called fileNo c⟩ := by
    unfold OneClient.call called
    cases hmode : c.mode with
    | read =>
        dsimp only
        by_cases hin : c.startPoint < t.client.file.stSize
        · exact (h.read hcap hmode hin).2
        · have hend : t.client.file.stSize < c.size + c.startPoint := by
            have hpos := c.size_pos
            omega
          refine ⟨(⟨0, []⟩, t.client), ?_, h⟩
          unfold OneClient.read
          rw [dif_pos hend, dif_neg hin]
    | write =>
        -- the touch of the access time is not seen here
        have htouched : Whole cap fileNo ⟨{ t.client with file := { t.client.file with needUpdate := true } }, t.ref⟩ :=
          ⟨h.node, h.live, h.known, h.view_size, h.covered⟩
        obtain ⟨r, hio, hwhole⟩ := htouched.remoteWrite hcap hmode (hstart hmode)
        dsimp only at hio ⊢
        unfold OneClient.write
        dsimp only
        rw [hio]
        exact ⟨_, rfl, hwhole⟩
  obtain ⟨r, hr, hwhole⟩ := hcall
  refine ⟨_, ?_, hwhole⟩
  simp only [step, hr, Option.map_some]

/-- **A truncate through the descriptor**, to at most the size of the file. -/
theorem Whole.ftruncate (h : Whole cap fileNo t) {size : Nat} (hsize : size ≤ t.client.file.stSize) :
    ∃ t', step fileNo t (.ftruncate size) = some t' ∧ Whole cap fileNo t' := by
  unfold step OneClient.ftruncate OneClient.truncate cutTo
  dsimp only
  rw [h.view_size]
  by_cases hlt : size < t.client.file.stSize
  · rw [if_pos hlt, if_pos hlt]
    obtain ⟨v, hv⟩ := Option.isSome_iff_exists.mp (h.known size hlt)
    obtain ⟨hm, -⟩ := h.node.intervalProcess
    have hlive := h.node.interval_live h.live
    obtain ⟨n', hn'⟩ := hm.truncateFile_progress hlive hv (size - getBlockStartPoint size)
    obtain ⟨hinv, hlive'⟩ := hm.truncateFile hlive hn'
    rw [hn']
    refine ⟨_, rfl, hinv, hlive', ?_, rfl, h.covered.shorter hsize⟩
    intro p hp
    have hps : p < size := hp
    show (IOnode.cutRef t.ref fileNo size fileNo p).isSome
    unfold IOnode.cutRef
    rw [Function.update_self, if_pos hps]
    exact h.known p (Nat.lt_trans hps hlt)
  · obtain rfl : size = t.client.file.stSize := by omega
    rw [if_neg hlt, if_neg hlt]
    exact ⟨_, rfl, h.node, h.live, h.known, rfl, h.covered⟩

/-- **A truncate by path** to the size the file has. -/
theorem Whole.truncate (h : Whole cap fileNo t) : ∃ t', step fileNo t (.truncate t.client.file.stSize) = some t' ∧ Whole cap fileNo t' := by
  unfold step OneClient.truncate cutTo
  dsimp only
  rw [h.view_size, if_neg (Nat.lt_irrefl _), if_neg (Nat.lt_irrefl _)]
  exact ⟨_, rfl, h.node, h.live, h.known, rfl, h.covered⟩

theorem Whole.updateMeta (h : Whole cap fileNo t) {startPoint size : Nat} (hend : startPoint + size ≤ t.client.file.stSize) :
    Whole cap fileNo { t with client := { t.client with file := t.client.file.updateMeta startPoint size } } := by
  have hsame : t.client.file.updateMeta startPoint size = t.client.file := by
    have hview : t.client.file.view.updateMeta t.client.file.stSize = t.client.file.view := by
      unfold OpenView.updateMeta
      rw [← h.view_size, Nat.max_self]
    rw [ClientFile.updateMeta, writeUpdateFileSize_eq, Nat.max_eq_left hend]
    show { t.client.file with view := t.client.file.view.updateMeta t.client.file.stSize } = t.client.file
    rw [hview]
  rw [hsame]
  exact h

theorem Whole.other (h : Whole cap fileNo t) (hcap : 0 < cap) {r : IOnode.Request} (hallowed : Allowed fileNo t (.other r)) :
    ∃ t', step fileNo t (.other r) = some t' ∧ Whole cap fileNo t' := by
  obtain ⟨hpermitted, hwrites, hunlink⟩ := hallowed
  obtain ⟨t', hstep, hinv⟩ := h.node.handle hcap hpermitted
  obtain ⟨⟨reply, node⟩, hhandle, rfl⟩ := Option.map_eq_some_iff.mp hstep
  unfold step
  dsimp only
  rw [hhandle]
  refine ⟨_, rfl, hinv, h.node.handle_live hcap hpermitted h.live hunlink hhandle, ?_, h.view_size, h.covered⟩
  intro p hp
  show (IOnode.Tracked.refAfter ⟨t.client.node, t.ref⟩ r fileNo p).isSome
  rw [IOnode.Cut.refAfter_other hwrites (h.node.interval_live h.live)]
  exact h.known p hp

/-- **One event.** -/
theorem Whole.step (h : Whole cap fileNo t) (hcap : 0 < cap) {e : FileEvent} (hallowed : Allowed fileNo t e) (hhole : NoHole t e) :
    ∃ t', step fileNo t e = some t' ∧ Whole cap fileNo t' := by
  cases e with
  | call c => exact h.call hcap hhole
  | truncate size =>
      obtain rfl : size = t.client.file.stSize := hhole
      exact h.truncate
  | ftruncate size => exact h.ftruncate hhole
  | updateMeta startPoint size => exact ⟨_, rfl, h.updateMeta hhole⟩
  | other r => exact h.other hcap hallowed

/-- A file opened for the first time on an IOnode that has served some requests, with the bytes it has then. -/
def opened (t : IOnode.Tracked) (fileNo : Int) (existFlag : ExistFlag) (path : Str) (primary : Int) : FileInUse :=
  ⟨OneClient.opened t.node.intervalProcess fileNo existFlag path primary,
    Function.update t.ref fileNo (t.node.intervalProcess.openedBytes existFlag path)⟩

theorem opened_whole {t : IOnode.Tracked} (h : IOnode.Inv cap [] t.node t.ref) {existFlag : ExistFlag} {path : Str} (primary : Int)
    (hnew : t.node.intervalProcess.files.find? fileNo = none)
    (hfresh : ∀ e ∈ t.node.intervalProcess.files.entries, e.2.filePath ≠ path)
    (hpresent : existFlag = .existing → (t.node.intervalProcess.storage path).isSome) :
    Whole cap fileNo (opened t fileNo existFlag path primary) := by
  obtain ⟨hm, hlist⟩ := h.intervalProcess
  have hopenable := OneClient.opened_openable primary hfresh hpresent
  refine ⟨hm.openFile hlist hnew hopenable, ?_, ?_, rfl, Master.createBlockList_covered _⟩
  · have hfind : ∀ blocks, (t.node.intervalProcess.openFile fileNo existFlag path blocks).files.find? fileNo
        = some ⟨path, existFlag, false, IOnode.openedBlocks existFlag blocks⟩ := by
      intro blocks
      rw [IOnode.openFile_unknown hnew]
      exact OrdMap.find?_put_self ..
    exact ⟨_, hfind _, rfl⟩
  · intro p hp
    show (Function.update t.ref fileNo (t.node.intervalProcess.openedBytes existFlag path) fileNo p).isSome
    rw [Function.update_self, OneClient.openedBytes_eq hpresent, Reference.bytes_of_lt hp]
    rfl

/-- **The read loop always makes progress** in a file without holes. Whatever an IOnode has served before a file is opened on it, and
    whatever calls, truncates, metadata updates and requests of others come then, as long as none of them leaves a hole: each reply to a
    read inside the file brings at least a byte and each query starts in a block, the read returns all the bytes it asks for up to the end
    of the file, and what was never written is zero. -/
theorem reads_make_progress (hcap : 0 < cap) (memory : Nat → Nat → Byte) (storage : Str → Option (ByteFile Byte))
    {requests : List IOnode.Request} {t₀ : IOnode.Tracked}
    (hrequests : Run.Guarded IOnode.Tracked.step IOnode.Tracked.Permitted
      ⟨IOnode.start cap memory storage, fun _ _ => none⟩ requests)
    (hrun : Run.run IOnode.Tracked.step ⟨IOnode.start cap memory storage, fun _ _ => none⟩ requests = some t₀)
    {existFlag : ExistFlag} {path : Str} (primary : Int) (hnew : t₀.node.intervalProcess.files.find? fileNo = none)
    (hfresh : ∀ e ∈ t₀.node.intervalProcess.files.entries, e.2.filePath ≠ path)
    (hpresent : existFlag = .existing → (t₀.node.intervalProcess.storage path).isSome) {events : List FileEvent}
    (hallowed : Run.Guarded (step fileNo) (Allowed fileNo) (opened t₀ fileNo existFlag path primary) events)
    (hhole : Run.Guarded (step fileNo) NoHole (opened t₀ fileNo existFlag path primary) events) :
    ∃ t, Run.run (step fileNo) (opened t₀ fileNo existFlag path primary) events = some t ∧
      ∀ c : IOCall, c.mode = .read → c.startPoint < t.client.file.stSize → t.client.Progresses fileNo t.ref c := by
  have hserve : ∀ (t : IOnode.Tracked) r, IOnode.Inv cap [] t.node t.ref → t.Permitted r →
      ∃ t', IOnode.Tracked.step t r = some t' ∧ IOnode.Inv cap [] t'.node t'.ref := fun t r h hr => h.handle hcap hr
  obtain ⟨t, ht, hinv⟩ := Run.run_progress hserve (IOnode.start_inv hcap memory storage _) hrequests
  obtain rfl := Option.some.inj (hrun.symm.trans ht)
  obtain ⟨t, hevents, hwhole⟩ := Run.run_progress (fun t e h he => Whole.step h hcap he.1 he.2)
    (opened_whole hinv primary hnew hfresh hpresent) (hallowed.and hhole)
  exact ⟨t, hevents, fun c hmode hstart => (hwhole.read hcap hmode hstart).1⟩

instance (fileNo : Int) (t : FileInUse) (e : FileEvent) : Decidable (Allowed fileNo t e) := by
  cases e <;> unfold Allowed <;> infer_instance

instance (t : FileInUse) (e : FileEvent) : Decidable (NoHole t e) := by
  cases e <;> unfold NoHole <;> infer_instance

/-- A write over the end of the first block, a truncate to that end, and a write there. -/
def cutAndWritten : List FileEvent :=
  [.call OneClient.writeThree, .ftruncate BLOCK_SIZE,
    .call ⟨.write, BLOCK_SIZE, 1, [5], by decide, by decide, fun _ => rfl⟩, .updateMeta 0 7]

def readAcross : IOCall := OneClient.readTwo (BLOCK_SIZE - 1) (by decide)

theorem reads_make_progress_cut_and_written :
    ∃ t, Run.run (step 0) (opened ⟨IOnode.start 2 (fun _ _ => 0) OneClient.almostFull, fun _ _ => none⟩ 0 .existing [98] 7) cutAndWritten = some t ∧
      t.client.file.stSize = BLOCK_SIZE + 1 ∧ t.client.Progresses 0 t.ref readAcross := by
  have hrequests : Run.Guarded IOnode.Tracked.step IOnode.Tracked.Permitted
      ⟨IOnode.start 2 (fun _ _ => 0) OneClient.almostFull, fun _ _ => none⟩ [] := trivial
  have hallowed : Run.Guarded (step 0) (Allowed 0)
      (opened ⟨IOnode.start 2 (fun _ _ => 0) OneClient.almostFull, fun _ _ => none⟩ 0 .existing [98] 7) cutAndWritten := by decide +kernel
  have hhole : Run.Guarded (step 0) NoHole
      (opened ⟨IOnode.start 2 (fun _ _ => 0) OneClient.almostFull, fun _ _ => none⟩ 0 .existing [98] 7) cutAndWritten := by decide +kernel
  have hsize : (Run.run (step 0) (opened ⟨IOnode.start 2 (fun _ _ => 0) OneClient.almostFull, fun _ _ => none⟩ 0 .existing [98] 7)
      cutAndWritten).map (fun t => t.client.file.stSize) = some (BLOCK_SIZE + 1) := by decide +kernel
  obtain ⟨t, ht, hall⟩ := reads_make_progress (by decide) (fun _ _ => 0) OneClient.almostFull hrequests rfl 7 rfl (fun _ he => nomatch he)
    (fun _ => rfl) hallowed hhole
  rw [ht] at hsize
  have hst : t.client.file.stSize = BLOCK_SIZE + 1 := Option.some.inj hsize
  exact ⟨t, ht, hst, hall readAcross rfl (by rw [hst]; decide)⟩

/-- A byte is written far behind the end of a new file; the read that comes to the end of the first block is then answered with nothing. -/
theorem read_of_hole_stops :
    (Run.run (step 0) (opened ⟨IOnode.start 2 (fun _ _ => 0) (fun _ => none), fun _ _ => none⟩ 0 .notExist [97] 7)
        [.call ⟨.write, 2 * BLOCK_SIZE, 1, [5], by decide, by decide, fun _ => rfl⟩]).map
      (fun t => (t.client.file.stSize, t.client.queries 0 readAcross 3)) =
    some (2 * BLOCK_SIZE + 1, [(⟨0, (BLOCK_SIZE - 1 : Nat), 2⟩, [0]), (⟨0, BLOCK_SIZE, 1⟩, []), (⟨0, BLOCK_SIZE, 1⟩, [])]) := by
  decide +kernel

end FileInUse

end HuronFS
