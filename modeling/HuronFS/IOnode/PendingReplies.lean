import HuronFS.IOnode.Serving

/-!
# `IOnode.PendingReplies` — replies that point into the memory of blocks

`_send_data` puts pointers into a reply, not bytes, and over TCP it lets go of the block at once. The sender thread transmits
the reply later, while the handler goes on to other blocks and other requests. Each turn of a loop over blocks is a step here, and so
is each byte that leaves: a byte that is copied while the sender looks is the old one or the new one, so nothing is lost by taking the
copy into one block as one step.

A piece stays good as long as its block keeps the memory. A block loses it to another one when it is the oldest and the pool is
exhausted, and to nobody in particular when its file is removed.
-/

namespace HuronFS

open Region

namespace IOnode

variable {n n' n'' : IOnode} {j k : BlockKey} {b : Block} {cap : Nat} {ref : Ref}

/-! ## Whose memory is taken -/

/-- The block that has to give its memory when `k` is worked on. -/
def victim (n : IOnode) (k : BlockKey) : Option BlockKey :=
  if (n.elemOf k).isNone && !n.pool.hasMemoryLeft BLOCK_SIZE then n.queue.head? else none

/-- A block keeps its memory, and the memory its bytes. -/
def Keeps (j : BlockKey) (n n' : IOnode) : Prop :=
  ∀ e, n.elemOf j = some e → n'.elemOf j = some e ∧ n'.memory e = n.memory e

theorem Keeps.trans (h : Keeps j n n') (h' : Keeps j n' n'') : Keeps j n n'' := by
  intro e he
  obtain ⟨he', hmem⟩ := h e he
  obtain ⟨he'', hmem'⟩ := h' e he'
  exact ⟨he'', hmem'.trans hmem⟩

theorem Keeps.worksIn (hw : WorksIn k n n') (hj : j ≠ k) (hapart : ∀ e, n.elemOf j = some e → n.elemOf k ≠ some e) :
    Keeps j n n' := by
  intro e he
  exact ⟨(hw.elemOf hj).trans he, hw.memory e (hapart e he)⟩

theorem freeData_memory (n : IOnode) (k : BlockKey) : (n.freeData k).2.memory = n.memory := by
  unfold freeData
  split <;> rfl

theorem writeback_memory (n : IOnode) (k : BlockKey) : (n.writeback k).memory = n.memory := by
  unfold writeback writeToStorage
  split
  · split
    · dsimp only
      split
      · rfl
      · split
        · rfl
        · split <;> rfl
    · rfl
  · rfl

theorem swapOutLoop_memory : ∀ (l : List BlockKey) (size : Nat) (n : IOnode), (swapOutLoop l size n).memory = n.memory
  | [], _, _ => rfl
  | k :: rest, size, n => by
      unfold swapOutLoop
      split
      · rfl
      · dsimp only
        rw [swapOutLoop_memory rest, freeData_memory]
        split
        · exact writeback_memory _ k
        · rfl

/-- Making room takes the memory of the victim, and of nobody else. -/
theorem Inv.room_keeps (h : Inv cap [] n ref) (hk : n.elemOf k = none) (hj : n.victim k ≠ some j) :
    Keeps j n n.room := by
  intro e he
  unfold victim at hj
  rw [hk] at hj
  unfold IOnode.room
  by_cases hleft : n.pool.hasMemoryLeft BLOCK_SIZE = true
  · rw [if_pos hleft]
    exact ⟨he, rfl⟩
  · rw [if_neg hleft]
    refine ⟨?_, congrFun (swapOutLoop_memory n.queue BLOCK_SIZE n) e⟩
    cases hqueue : n.queue with
    | nil =>
        have hmem := (h.frames.mem_held j).mpr ⟨e, he⟩
        rw [hqueue] at hmem
        cases hmem
    | cons i rest =>
        have hne : j ≠ i := by
          rintro rfl
          apply hj
          simp [hleft, hqueue]
        unfold elemOf at he ⊢
        rw [(h.swapOut hqueue).2.2.1 j hne]
        exact he

/-- What a turn on the block `k` leaves alone. -/
structure Spares (k : BlockKey) (n n' : IOnode) : Prop where
  others : ∀ j, j ≠ k → n.victim k ≠ some j → Keeps j n n'
  self : ∀ e, n.elemOf k = some e → n'.elemOf k = some e

theorem Spares.of_worksIn (h : Inv cap [] n ref) (hw : WorksIn k n n') : Spares k n n' := by
  refine ⟨?_, fun e he => hw.elem.trans he⟩
  intro j hj _
  apply Keeps.worksIn hw hj
  intro e he hk
  exact hj (h.frames.owner_inj j k e he hk)

/-- A block that is given memory and then filled: the memory belonged to nobody, or to the victim. -/
theorem Inv.allocated_spares {m : IOnode} (h : Inv cap [] n ref) (hcap : 0 < cap) (hb : n.block? k = some b) (helem : b.elem = none)
    (halloc : n.allocateMemoryForBlock k = some m) (hw : WorksIn k m n') : Spares k n n' := by
  obtain ⟨e, pool, hm, -, hframes⟩ := h.allocateMemoryForBlock hcap hb helem
  have hk : n.elemOf k = none := by rw [elemOf_of_block hb, helem]
  obtain ⟨-, -, hroom, -⟩ := h.room hcap hk
  obtain ⟨file, hfile, -⟩ := block?_some_iff.mp (hroom.trans hb)
  rw [hm] at halloc
  obtain rfl := Option.some.inj halloc
  have hself : (n.room.withMemory k b e pool).elemOf k = some e := elemOf_of_block (withMemory_block hfile)
  have htouch : Touches k n.room (n.room.withMemory k b e pool) := Touches.setBlock rfl rfl
  constructor
  · intro j hj hvictim
    have hgiven : Keeps j n.room (n.room.withMemory k b e pool) := fun x hx => ⟨(htouch.elemOf hj).trans hx, rfl⟩
    apply ((h.room_keeps hk hvictim).trans hgiven).trans
    apply Keeps.worksIn hw hj
    intro x hx hxk
    rw [hself] at hxk
    obtain rfl := Option.some.inj hxk
    exact hframes.owned_not_free j e ((htouch.elemOf hj).symm.trans hx) List.mem_cons_self
  · intro x hx
    rw [hk] at hx
    cases hx

theorem WorksIn.blockForWriting (n : IOnode) (k : BlockKey) (size : Nat) : WorksIn k n (n.blockForWriting k size) := by
  unfold IOnode.blockForWriting
  cases hfile : n.files.find? k.1 with
  | none => exact WorksIn.refl k n
  | some file =>
      dsimp only
      cases hb : file.blocks.find? k.2 with
      | some b => exact WorksIn.refl k n
      | none =>
          refine ⟨Touches.setBlock rfl rfl, ?_, fun _ _ => rfl⟩
          have hnone : n.elemOf k = none := by
            unfold elemOf
            rw [block?_of_file hfile, hb]
            rfl
          rw [hnone]
          exact elemOf_of_block (block?_setBlock_self hfile)

theorem victim_blockForWriting (n : IOnode) (k : BlockKey) (size : Nat) :
    (n.blockForWriting k size).victim k = n.victim k := by
  have hpool : (n.blockForWriting k size).pool = n.pool ∧ (n.blockForWriting k size).queue = n.queue := by
    unfold IOnode.blockForWriting
    split
    · exact ⟨rfl, rfl⟩
    · split <;> exact ⟨rfl, rfl⟩
  unfold victim
  rw [(WorksIn.blockForWriting n k size).elem, hpool.1, hpool.2]

/-- **One turn of `_receive_data`.** -/
theorem Inv.updateBlockData_spares {offset size count : Nat} {data : List Byte} (h : Inv cap [] n ref) (hcap : 0 < cap)
    (hlive : n.Live k.1) (haligned : getBlockStartPoint k.2 = k.2) (hsize : size ≤ BLOCK_SIZE)
    (hstep : n.updateBlockData k offset size data = some (count, n')) : Spares k n n' := by
  obtain ⟨h0, -, b, hb⟩ := h.blockForWriting hlive haligned hsize
  have hfirst := Spares.of_worksIn h (WorksIn.blockForWriting n k size)
  unfold IOnode.updateBlockData at hstep
  simp only [hb] at hstep
  have hrest : Spares k (n.blockForWriting k size) n' := by
    by_cases hneed : b.needAllocation = true
    · rw [if_pos hneed] at hstep
      obtain ⟨m', hload, hreceive⟩ := Option.bind_eq_some_iff.mp hstep
      obtain ⟨m, halloc⟩ := loadForWriting_allocates hload
      exact h0.allocated_spares hcap hb (h0.elem_of_needAllocation hb hneed) halloc
        ((WorksIn.loadForWriting halloc hload).trans (WorksIn.receiveInto hreceive))
    · rw [if_neg hneed] at hstep
      exact Spares.of_worksIn h0 (WorksIn.receiveInto hstep)
  refine ⟨?_, fun e he => hrest.self e (hfirst.self e he)⟩
  intro j hj hvictim
  exact (hfirst.others j hj hvictim).trans (hrest.others j hj (by rw [victim_blockForWriting]; exact hvictim))

/-- **One turn of `_send_data`**: the piece points at the memory the block has afterwards. -/
theorem Inv.sendBlock_spares {offset size : Nat} {piece : SendBuffer} (h : Inv cap [] n ref) (hcap : 0 < cap)
    (hb : n.block? k = some b) (hstep : n.sendBlock k b offset size = some (piece, n')) :
    Spares k n n' ∧ ∃ e, piece = ⟨e, offset, size⟩ ∧ n'.elemOf k = some e := by
  obtain ⟨m, e, hm, he, rfl, rfl⟩ := sendBlock_some hstep
  have hlast := WorksIn.updateAccessOrder m k
  refine ⟨?_, e, rfl, hlast.elem.trans he⟩
  by_cases hneed : b.needAllocation = true
  · rw [if_pos hneed] at hm
    obtain ⟨m', halloc⟩ := loadForSending_allocates hm
    exact h.allocated_spares hcap hb (h.elem_of_needAllocation hb hneed) halloc
      ((WorksIn.loadForSending halloc hm).trans hlast)
  · rw [if_neg hneed] at hm
    obtain rfl := Option.some.inj hm
    exact Spares.of_worksIn h hlast

end IOnode

/-! ## The handler and the sender -/

open IOnode

/-- A pointer in a reply: the block it was taken from, the first position of the file it stands for, and what the files have been from
    the handling of the request until now. -/
structure ReplyPiece where
  key : BlockKey
  buffer : SendBuffer
  addressed : Nat
  seen : List Ref

def ReplyPiece.note (ref : Ref) (p : ReplyPiece) : ReplyPiece := { p with seen := p.seen ++ [ref] }

/-- What the handler is at, with the variables of the loops in `_receive_data` and `_send_data`. `addressed` is the position of the
    file that the next byte of the reply stands for. -/
inductive HandlerJob
  | idle
  | receiving (fileNo : Int) (startPoint offset receiveSize remaining : Nat) (data : List Byte)
  | sending (fileNo : Int) (startPoint offset IOsize remaining addressed : Nat) (pieces : List ReplyPiece)

namespace HandlerJob

/-- The pieces of the reply that is being made. -/
def pieces : HandlerJob → List ReplyPiece
  | .sending _ _ _ _ _ _ pieces => pieces
  | _ => []

/-- The block the next turn works on. -/
def block : HandlerJob → Option BlockKey
  | .idle => none
  | .receiving fileNo startPoint _ _ remaining _ => if remaining = 0 then none else some (fileNo, startPoint)
  | .sending fileNo startPoint _ _ remaining _ _ => if remaining = 0 then none else some (fileNo, startPoint)

def isIdle : HandlerJob → Bool
  | .idle => true
  | _ => false

end HandlerJob

/-- A byte that was transmitted for a position of a file, and what the files were in the meantime. -/
structure SentByte where
  fileNo : Int
  pos : Nat
  value : Byte
  seen : List Ref

/-- An IOnode with the replies the sender has not transmitted yet, oldest first. `ref` is what the files should have, `sent` what has
    been transmitted. -/
structure SendingNode where
  node : IOnode
  ref : Ref
  job : HandlerJob
  output : List ReplyPiece
  sent : List SentByte

inductive SendEvent
  | request (r : Request)
  | turn
  | transmit

namespace SendingNode

/-- Every pointer that is still going to be read from. -/
def pieces (s : SendingNode) : List ReplyPiece := s.output ++ s.job.pieces

/-- The files have changed. -/
def observe (s : SendingNode) (ref : Ref) : SendingNode := { s with ref := ref, output := s.output.map (ReplyPiece.note ref) }

/-- A request reaches the handler: `interval_process`, and what comes before the loops. -/
def accept (s : SendingNode) (r : Request) : SendingNode :=
  let node := s.node.intervalProcess
  match r with
  | .openFile fileNo existFlag path blocks =>
      { s.observe (Tracked.refAfter ⟨s.node, s.ref⟩ r) with node := node.openFile fileNo existFlag path blocks }
  | .writeFile fileNo startPoint offset size data =>
      if (node.files.find? fileNo).isNone then { s with node := node }
      else
        let receiveSize := if offset + size > BLOCK_SIZE then BLOCK_SIZE - offset else size
        { s with node := node, job := .receiving fileNo startPoint offset receiveSize size data }
  | .readFile fileNo startPoint offset size =>
      if (node.files.find? fileNo).isNone then { s with node := node }
      else
        let IOsize := if offset + size > BLOCK_SIZE then BLOCK_SIZE - offset else size
        { s with node := node, job := .sending fileNo startPoint offset IOsize size (startPoint + offset) [] }
  | .unlink fileNo => { s with node := node.removeFile fileNo }

/-- The reply goes to the sender (`output_task_enqueue`). -/
def enqueue (s : SendingNode) (pieces : List ReplyPiece) : SendingNode :=
  { s with job := .idle, output := s.output ++ pieces }

/-- The next turn of the loop the handler is in, or what comes after it. -/
def turn (s : SendingNode) : Option SendingNode :=
  match s.job with
  | .idle => some s
  | .receiving fileNo startPoint offset receiveSize remaining data =>
      if remaining = 0 then some { s with job := .idle }
      else
        match s.node.updateBlockData (fileNo, startPoint) offset receiveSize data with
        | none => none
        | some (IOsize, node) =>
            some { s.observe (refWrite s.ref fileNo (startPoint + offset) (data.take IOsize)) with
              node := node
              job := .receiving fileNo (startPoint + (IOsize + offset)) 0 (min (remaining - IOsize) BLOCK_SIZE)
                (remaining - IOsize) (data.drop IOsize) }
  | .sending fileNo startPoint offset IOsize remaining addressed pieces =>
      if remaining = 0 then some (s.enqueue pieces)
      else
        match s.node.block? (fileNo, startPoint) with
        | none => some (s.enqueue pieces)
        | some b =>
            match s.node.sendBlock (fileNo, startPoint) b offset IOsize with
            | none => none
            | some (buffer, node) =>
                some { s with
                  node := node
                  job := .sending fileNo (startPoint + BLOCK_SIZE) 0 (min (remaining - IOsize) BLOCK_SIZE) (remaining - IOsize)
                    (addressed + IOsize) (pieces ++ [⟨(fileNo, startPoint), buffer, addressed, [s.ref]⟩]) }

/-- The sender transmits one more byte (`Send_large`). -/
def transmit (s : SendingNode) : SendingNode :=
  match s.output with
  | [] => s
  | p :: rest =>
      if p.buffer.size = 0 then { s with output := rest }
      else
        { s with
          output := { p with
            buffer := ⟨p.buffer.elem, p.buffer.offset + 1, p.buffer.size - 1⟩, addressed := p.addressed + 1 } :: rest
          sent := s.sent ++ [⟨p.key.1, p.addressed, s.node.memory p.buffer.elem p.buffer.offset, p.seen⟩] }

/-- A request waits while the handler is busy. -/
def step (s : SendingNode) : SendEvent → Option SendingNode
  | .request r => if s.job.isIdle then some (s.accept r) else some s
  | .turn => s.turn
  | .transmit => some s.transmit

def start (count : Nat) (memory : Nat → Nat → Byte) (storage : Str → Option (ByteFile Byte)) : SendingNode :=
  { node := IOnode.start count memory storage, ref := fun _ _ => none, job := .idle, output := [], sent := [] }

/-- What the Master and the clients keep to. -/
def Permitted (s : SendingNode) : SendEvent → Prop
  | .request r => s.job.isIdle = true → Tracked.Permitted ⟨s.node, s.ref⟩ r
  | _ => True

/-- No memory that a reply still points into is taken away: by the removal of its file, or for another block. -/
def Undisturbed (s : SendingNode) : SendEvent → Prop
  | .request _ => s.job.isIdle = true → ∀ p ∈ s.pieces, p.key.1 ∉ s.node.removeFileList
  | .turn => ∀ k ∈ s.job.block, ∀ p ∈ s.pieces, s.node.victim k ≠ some p.key
  | .transmit => True

instance (s : SendingNode) (e : SendEvent) : Decidable (s.Permitted e) := by
  cases e <;> unfold Permitted <;> infer_instance

instance (s : SendingNode) (e : SendEvent) : Decidable (s.Undisturbed e) := by
  cases e <;> unfold Undisturbed <;> infer_instance

end SendingNode

/-! ## The loops -/

namespace SendingNode

variable {s t : SendingNode}

theorem run_last_turn (h : s.step .turn = some t) : Run.run step s (List.replicate 1 .turn) = some t := by
  rw [List.replicate_one, Run.run, h]
  rfl

theorem run_next_turn {turns : Nat} {t' : SendingNode} (h : s.step .turn = some t)
    (hrest : Run.run step t (List.replicate turns .turn) = some t') :
    Run.run step s (List.replicate (turns + 1) .turn) = some t' := by
  rw [List.replicate_succ, Run.run, h]
  exact hrest

theorem turn_sending {fileNo : Int} {startPoint offset IOsize remaining addressed : Nat} {pieces : List ReplyPiece} {b : Block}
    {buffer : SendBuffer} {node : IOnode} (hjob : s.job = .sending fileNo startPoint offset IOsize remaining addressed pieces)
    (hzero : remaining ≠ 0) (hb : s.node.block? (fileNo, startPoint) = some b)
    (hsend : s.node.sendBlock (fileNo, startPoint) b offset IOsize = some (buffer, node)) :
    s.turn = some { s with
      node := node
      job := .sending fileNo (startPoint + BLOCK_SIZE) 0 (min (remaining - IOsize) BLOCK_SIZE) (remaining - IOsize)
        (addressed + IOsize) (pieces ++ [⟨(fileNo, startPoint), buffer, addressed, [s.ref]⟩]) } := by
  simp only [turn, hjob, hb, hsend, if_neg hzero]

theorem turn_receiving {fileNo : Int} {startPoint offset receiveSize remaining IOsize : Nat} {data : List Byte} {node : IOnode}
    (hjob : s.job = .receiving fileNo startPoint offset receiveSize remaining data) (hzero : remaining ≠ 0)
    (hupdate : s.node.updateBlockData (fileNo, startPoint) offset receiveSize data = some (IOsize, node)) :
    s.turn = some { s.observe (refWrite s.ref fileNo (startPoint + offset) (data.take IOsize)) with
      node := node
      job := .receiving fileNo (startPoint + (IOsize + offset)) 0 (min (remaining - IOsize) BLOCK_SIZE)
        (remaining - IOsize) (data.drop IOsize) } := by
  simp only [turn, hjob, hupdate, if_neg hzero]

/-- The turns of a read make the reply that `_send_data` makes. -/
theorem run_turns_sendLoop {fileNo : Int} : ∀ {fuel startPoint offset IOsize remaining addressed : Nat} {pieces : List ReplyPiece}
    {buffers : List SendBuffer} {node : IOnode} {s : SendingNode},
    s.job = .sending fileNo startPoint offset IOsize remaining addressed pieces →
    sendLoop fileNo fuel startPoint offset IOsize remaining (pieces.map ReplyPiece.buffer) s.node = some (buffers, node) →
    ∃ turns pieces', Run.run step s (List.replicate turns .turn) = some ({ s with node := node }.enqueue pieces') ∧
      pieces'.map ReplyPiece.buffer = buffers := by
  intro fuel
  induction fuel with
  | zero =>
      intro startPoint offset IOsize remaining addressed pieces buffers node s hjob hloop
      unfold sendLoop at hloop
      split at hloop
      · rename_i hzero
        cases hloop
        refine ⟨1, pieces, run_last_turn ?_, rfl⟩
        simp only [step, turn, hjob, if_pos hzero]
        rfl
      · cases hloop
  | succ fuel ih =>
      intro startPoint offset IOsize remaining addressed pieces buffers node s hjob hloop
      unfold sendLoop at hloop
      by_cases hzero : remaining = 0
      · rw [if_pos hzero] at hloop
        cases hloop
        refine ⟨1, pieces, run_last_turn ?_, rfl⟩
        simp only [step, turn, hjob, if_pos hzero]
        rfl
      · rw [if_neg hzero] at hloop
        cases hb : s.node.block? (fileNo, startPoint) with
        | none =>
            rw [hb] at hloop
            cases hloop
            refine ⟨1, pieces, run_last_turn ?_, rfl⟩
            simp only [step, turn, hjob, if_neg hzero, hb]
            rfl
        | some b =>
            simp only [hb] at hloop
            cases hsend : s.node.sendBlock (fileNo, startPoint) b offset IOsize with
            | none =>
                rw [hsend] at hloop
                cases hloop
            | some r =>
                obtain ⟨buffer, m⟩ := r
                simp only [hsend] at hloop
                have hmap : (pieces ++ [(⟨(fileNo, startPoint), buffer, addressed, [s.ref]⟩ : ReplyPiece)]).map ReplyPiece.buffer
                    = pieces.map ReplyPiece.buffer ++ [buffer] := by
                  rw [List.map_append]
                  rfl
                rw [← hmap] at hloop
                obtain ⟨turns, pieces', hrun, hbuffers⟩ := ih (s := { s with node := m, job := _ }) rfl hloop
                exact ⟨turns + 1, pieces', run_next_turn (turn_sending hjob hzero hb hsend) hrun, hbuffers⟩

/-- And those of a write leave the blocks that `_receive_data` leaves. -/
theorem run_turns_receiveLoop {fileNo : Int} : ∀ {fuel startPoint offset receiveSize remaining : Nat} {data : List Byte}
    {node : IOnode} {s : SendingNode}, s.job = .receiving fileNo startPoint offset receiveSize remaining data →
    receiveLoop fileNo fuel startPoint offset receiveSize remaining data s.node = some node →
    ∃ turns t, Run.run step s (List.replicate turns .turn) = some t ∧ t.node = node ∧ t.job = .idle := by
  intro fuel
  induction fuel with
  | zero =>
      intro startPoint offset receiveSize remaining data node s hjob hloop
      unfold receiveLoop at hloop
      split at hloop
      · rename_i hzero
        cases hloop
        refine ⟨1, { s with job := .idle }, run_last_turn ?_, rfl, rfl⟩
        simp only [step, turn, hjob, if_pos hzero]
      · cases hloop
  | succ fuel ih =>
      intro startPoint offset receiveSize remaining data node s hjob hloop
      unfold receiveLoop at hloop
      by_cases hzero : remaining = 0
      · rw [if_pos hzero] at hloop
        cases hloop
        refine ⟨1, { s with job := .idle }, run_last_turn ?_, rfl, rfl⟩
        simp only [step, turn, hjob, if_pos hzero]
      · rw [if_neg hzero] at hloop
        cases hupdate : s.node.updateBlockData (fileNo, startPoint) offset receiveSize data with
        | none =>
            rw [hupdate] at hloop
            cases hloop
        | some r =>
            obtain ⟨IOsize, m⟩ := r
            simp only [hupdate] at hloop
            obtain ⟨turns, t, hrun, hnode, hidle⟩ := ih (s := { s.observe _ with node := m, job := _ }) rfl hloop
            exact ⟨turns + 1, t, run_next_turn (turn_receiving hjob hzero hupdate) hrun, hnode, hidle⟩

end SendingNode

/-! ## Pieces that are good -/

/-- The piece points into the memory of its block, and each byte there is one the file has had since. -/
structure ReplyPiece.Good (n : IOnode) (ref : Ref) (p : ReplyPiece) : Prop where
  owns : n.elemOf p.key = some p.buffer.elem
  fits : p.buffer.offset + p.buffer.size ≤ BLOCK_SIZE
  aligned : getBlockStartPoint p.key.2 = p.key.2
  place : p.addressed = p.key.2 + p.buffer.offset
  known : ∀ i < p.buffer.size, (ref p.key.1 (p.addressed + i)).isSome
  current : ref ∈ p.seen
  bytes : ∀ i < p.buffer.size, ∃ r ∈ p.seen, r p.key.1 (p.addressed + i) = some (n.memory p.buffer.elem (p.buffer.offset + i))

section Good

variable {n n' : IOnode} {ref ref' : Ref} {p : ReplyPiece} {cap : Nat}

theorem ReplyPiece.Good.kept (h : p.Good n ref) (hkeeps : Keeps p.key n n') : p.Good n' ref := by
  obtain ⟨howns, hmemory⟩ := hkeeps _ h.owns
  refine ⟨howns, h.fits, h.aligned, h.place, h.known, h.current, ?_⟩
  rw [hmemory]
  exact h.bytes

theorem ReplyPiece.Good.note (h : p.Good n ref) (hknown : ∀ i < p.buffer.size, (ref' p.key.1 (p.addressed + i)).isSome) :
    (p.note ref').Good n ref' := by
  refine ⟨h.owns, h.fits, h.aligned, h.place, hknown, List.mem_append_right _ (List.mem_singleton_self _), ?_⟩
  intro i hi
  obtain ⟨r, hr, hv⟩ := h.bytes i hi
  exact ⟨r, List.mem_append_left _ hr, hv⟩

/-- What a block of a live file has in memory is what the file has now. -/
theorem ReplyPiece.good_of_inv (h : IOnode.Inv cap [] n ref) (hlive : n.Live p.key.1) (howns : n.elemOf p.key = some p.buffer.elem)
    (hfits : p.buffer.offset + p.buffer.size ≤ BLOCK_SIZE) (haligned : getBlockStartPoint p.key.2 = p.key.2)
    (hplace : p.addressed = p.key.2 + p.buffer.offset) (hknown : ∀ i < p.buffer.size, (ref p.key.1 (p.addressed + i)).isSome)
    (hseen : ref ∈ p.seen) : p.Good n ref := by
  refine ⟨howns, hfits, haligned, hplace, hknown, hseen, ?_⟩
  intro i hi
  obtain ⟨v, hv⟩ := Option.isSome_iff_exists.mp (hknown i hi)
  refine ⟨ref, hseen, hv.trans ?_⟩
  have hpos : p.addressed + i = p.key.2 + (p.buffer.offset + i) := by omega
  have hstart : getBlockStartPoint (p.addressed + i) = p.key.2 := by
    rw [hpos, getBlockStartPoint_add haligned, getBlockStartPoint_of_lt (by omega), Nat.add_zero]
  obtain ⟨file, hfile, hdel⟩ := hlive
  obtain ⟨b, hb, helem⟩ := Option.bind_eq_some_iff.mp howns
  have hholds := h.holds hfile hb hdel hstart hv
  have hmem := hholds.inMemory _ helem
  rw [hstart, hpos, Nat.add_sub_cancel_left] at hmem
  rw [hmem]

/-- A turn on a block that does not take the memory of the piece's own. -/
theorem ReplyPiece.Good.spared {k : BlockKey} (h : p.Good n ref) (hinv : IOnode.Inv cap [] n' ref) (hlive : n'.Live k.1)
    (hspares : Spares k n n') (hvictim : n.victim k ≠ some p.key) : p.Good n' ref := by
  by_cases hkey : p.key = k
  · refine ReplyPiece.good_of_inv hinv ?_ ?_ h.fits h.aligned h.place h.known h.current
    · rw [hkey]
      exact hlive
    · rw [hkey]
      exact hspares.self _ (hkey ▸ h.owns)
  · exact h.kept (hspares.others p.key hkey hvictim)

end Good

namespace IOnode

variable {n : IOnode} {j : BlockKey} {cap : Nat} {ref : Ref}

theorem eraseFile_memory (n : IOnode) (f : Int) : (n.eraseFile f).memory = n.memory := by
  have hblocks : ∀ (starts : List Nat) (n : IOnode),
      (starts.foldl (fun n startPoint => n.deleteBlock (f, startPoint)) n).memory = n.memory := by
    intro starts
    induction starts with
    | nil => exact fun _ => rfl
    | cons start starts ih =>
        intro n
        rw [List.foldl_cons, ih]
        unfold deleteBlock
        split <;> rfl
  unfold eraseFile
  split
  · rfl
  · exact hblocks _ n

theorem intervalProcess_memory (n : IOnode) : n.intervalProcess.memory = n.memory := by
  have hfiles : ∀ (l : List Int) (n : IOnode), (l.foldl eraseFile n).memory = n.memory := by
    intro l
    induction l with
    | nil => exact fun _ => rfl
    | cons f l ih =>
        intro n
        rw [List.foldl_cons, ih, eraseFile_memory]
  exact hfiles n.removeFileList n

/-- Between two requests the blocks of the files that stay keep their memory. -/
theorem Inv.interval_keeps (h : Inv cap [] n ref) (hj : j.1 ∉ n.removeFileList) : Keeps j n n.intervalProcess := by
  intro e he
  refine ⟨?_, congrFun (intervalProcess_memory n) e⟩
  have hfiles : n.intervalProcess.files.find? j.1 = n.files.find? j.1 := by
    have := (Inv.eraseFiles n.removeFileList h (fun _ hf => hf)).2.2 j.1
    rwa [if_neg hj] at this
  unfold elemOf block? at he ⊢
  rw [hfiles]
  exact he

theorem keeps_openFile (f : Int) (existFlag : ExistFlag) (path : Str) (blocks : List (Nat × Nat)) :
    Keeps j n (n.openFile f existFlag path blocks) := by
  intro e he
  obtain ⟨b, hb, -⟩ := Option.bind_eq_some_iff.mp he
  obtain ⟨file, hfile, -⟩ := block?_some_iff.mp hb
  unfold openFile
  split
  · exact ⟨he, rfl⟩
  · rename_i hnone
    refine ⟨?_, rfl⟩
    have hne : j.1 ≠ f := by
      rintro rfl
      rw [hfile] at hnone
      exact hnone rfl
    unfold elemOf block? at he ⊢
    dsimp only
    rw [OrdMap.find?_put_ne _ _ hne]
    exact he

theorem keeps_removeFile (f : Int) : Keeps j n (n.removeFile f) := by
  intro e he
  unfold removeFile
  cases hfile : n.files.find? f with
  | none => exact ⟨he, rfl⟩
  | some file =>
      dsimp only
      split
      · exact ⟨he, rfl⟩
      · refine ⟨?_, rfl⟩
        unfold elemOf block? at he ⊢
        dsimp only
        by_cases hj : j.1 = f
        · rw [hj, hfile] at he
          rw [hj, OrdMap.find?_put_self]
          show ((file.blocks.mapValues _).find? j.2).bind Block.elem = some e
          rw [OrdMap.find?_mapValues]
          obtain ⟨b, hb, helem⟩ := Option.bind_eq_some_iff.mp he
          have hb' : file.blocks.find? j.2 = some b := hb
          rw [hb']
          exact helem
        · rw [OrdMap.find?_put_ne _ _ hj]
          exact he

end IOnode

/-! ## The invariant -/

/-- The loop variables of the handler while there is something left to do, for a file that is there. -/
def HandlerJob.Ok (n : IOnode) (ref : Ref) : HandlerJob → Prop
  | .idle => True
  | .receiving fileNo startPoint offset receiveSize remaining data =>
      remaining ≠ 0 → n.Live fileNo ∧ getBlockStartPoint startPoint = startPoint ∧ offset < BLOCK_SIZE ∧
        receiveSize = min remaining (BLOCK_SIZE - offset) ∧ data.length = remaining
  | .sending fileNo startPoint offset IOsize remaining addressed _ =>
      remaining ≠ 0 → n.Live fileNo ∧ getBlockStartPoint startPoint = startPoint ∧ offset < BLOCK_SIZE ∧
        IOsize = min remaining (BLOCK_SIZE - offset) ∧ addressed = startPoint + offset ∧
        ∀ i < remaining, (ref fileNo (addressed + i)).isSome

/-- What was transmitted for a position of a file is a value it had in the meantime. -/
def SentByte.Sound (x : SentByte) : Prop := ∃ r ∈ x.seen, r x.fileNo x.pos = some x.value

namespace SendingNode

variable {s : SendingNode} {cap : Nat}

structure Inv (cap : Nat) (s : SendingNode) : Prop where
  node : IOnode.Inv cap [] s.node s.ref
  good : ∀ p ∈ s.pieces, p.Good s.node s.ref
  job : s.job.Ok s.node s.ref
  sent : ∀ x ∈ s.sent, x.Sound

theorem refAfter_known {n : IOnode} {ref : Ref} {r : Request} {f : Int} {existFlag : ExistFlag} {path : Str} {blocks : List (Nat × Nat)}
    {p : ReplyPiece} (h : p.Good n.intervalProcess ref) (hr : r = .openFile f existFlag path blocks) :
    ∀ i < p.buffer.size, (Tracked.refAfter ⟨n, ref⟩ r p.key.1 (p.addressed + i)).isSome := by
  intro i hi
  subst hr
  unfold Tracked.refAfter
  dsimp only
  split
  · exact h.known i hi
  · rename_i hnone
    -- the file of a piece is open, so its number is not given to another
    have hne : p.key.1 ≠ f := by
      rintro rfl
      obtain ⟨b, hb, -⟩ := Option.bind_eq_some_iff.mp h.owns
      obtain ⟨file, hfile, -⟩ := block?_some_iff.mp hb
      rw [hfile] at hnone
      exact hnone rfl
    rw [Function.update_of_ne hne]
    exact h.known i hi

/-- **A request** that removes no file a reply points into. -/
theorem Inv.accept (h : Inv cap s) (hcap : 0 < cap) (hidle : s.job.isIdle = true) {r : Request}
    (hr : Tracked.Permitted ⟨s.node, s.ref⟩ r) (hlist : ∀ p ∈ s.pieces, p.key.1 ∉ s.node.removeFileList) :
    Inv cap (s.accept r) := by
  have hjob : s.job = .idle := by
    cases hj : s.job with
    | idle => rfl
    | receiving => rw [hj] at hidle; cases hidle
    | sending => rw [hj] at hidle; cases hidle
  have hpieces : s.pieces = s.output := by
    unfold pieces
    rw [hjob]
    exact List.append_nil _
  rw [hpieces] at hlist
  have hgood : ∀ p ∈ s.output, p.Good s.node.intervalProcess s.ref := by
    intro p hp
    exact (h.good p (hpieces ▸ hp)).kept (h.node.interval_keeps (hlist p hp))
  obtain ⟨hm, -⟩ := h.node.intervalProcess
  obtain ⟨t, ht, hinv⟩ := h.node.handle hcap hr
  cases r with
  | openFile f existFlag path blocks =>
      cases ht
      refine ⟨hinv, ?_, ?_, h.sent⟩
      · intro p hp
        have hp' : p ∈ s.output.map (ReplyPiece.note (Tracked.refAfter ⟨s.node, s.ref⟩ (.openFile f existFlag path blocks))) := by
          simpa [pieces, SendingNode.accept, observe, hjob, HandlerJob.pieces] using hp
        obtain ⟨q, hq, rfl⟩ := List.mem_map.mp hp'
        exact ((hgood q hq).note (refAfter_known (hgood q hq) rfl)).kept (keeps_openFile f existFlag path blocks)
      · show s.job.Ok _ _
        rw [hjob]
        trivial
  | unlink f =>
      cases ht
      refine ⟨hinv, ?_, ?_, h.sent⟩
      · intro p hp
        have hp' : p ∈ s.output := by
          simpa [pieces, SendingNode.accept, hjob, HandlerJob.pieces] using hp
        exact (hgood p hp').kept (keeps_removeFile f)
      · show s.job.Ok _ _
        rw [hjob]
        trivial
  | writeFile f startPoint offset size data =>
      obtain ⟨haligned, hoffset, hdata⟩ := hr
      unfold SendingNode.accept
      dsimp only
      cases hf : s.node.intervalProcess.files.find? f with
      | none =>
          refine ⟨hm, ?_, ?_, h.sent⟩
          · intro p hp
            exact hgood p (hpieces ▸ hp)
          · show s.job.Ok _ _
            rw [hjob]
            trivial
      | some file =>
          refine ⟨hm, ?_, fun _ => ⟨h.node.live_of_interval hf, haligned, hoffset, firstSize offset size, hdata⟩, h.sent⟩
          intro p hp
          have hp' : p ∈ s.output := by simpa [pieces, HandlerJob.pieces] using hp
          exact hgood p hp'
  | readFile f startPoint offset size =>
      obtain ⟨haligned, hoffset, hbytes⟩ := hr
      unfold SendingNode.accept
      dsimp only
      cases hf : s.node.intervalProcess.files.find? f with
      | none =>
          refine ⟨hm, ?_, ?_, h.sent⟩
          · intro p hp
            exact hgood p (hpieces ▸ hp)
          · show s.job.Ok _ _
            rw [hjob]
            trivial
      | some file =>
          refine ⟨hm, ?_, fun _ => ⟨h.node.live_of_interval hf, haligned, hoffset, firstSize offset size, rfl, hbytes⟩, h.sent⟩
          intro p hp
          have hp' : p ∈ s.output := by simpa [pieces, HandlerJob.pieces] using hp
          exact hgood p hp'

/-- **One turn of a write.** A reply that points into the block has its old bytes or the new ones. -/
theorem Inv.receive {fileNo : Int} {startPoint offset receiveSize remaining : Nat} {data : List Byte} (h : Inv cap s) (hcap : 0 < cap)
    (hjob : s.job = .receiving fileNo startPoint offset receiveSize remaining data) (hzero : remaining ≠ 0)
    (hvictim : ∀ p ∈ s.pieces, s.node.victim (fileNo, startPoint) ≠ some p.key) :
    ∃ s', s.turn = some s' ∧ Inv cap s' := by
  have hok := h.job
  rw [hjob] at hok
  obtain ⟨hlive, haligned, hoffset, rfl, hdata⟩ := hok hzero
  obtain ⟨node, hstep, hnode, hsame⟩ := h.node.updateBlockData (k := (fileNo, startPoint)) hcap hlive haligned hoffset
    (show offset + min remaining (BLOCK_SIZE - offset) ≤ BLOCK_SIZE by omega)
    (show min remaining (BLOCK_SIZE - offset) ≤ data.length by omega)
  have hspares := h.node.updateBlockData_spares (k := (fileNo, startPoint)) hcap hlive haligned
    (show min remaining (BLOCK_SIZE - offset) ≤ BLOCK_SIZE by omega) hstep
  have hlive' := hsame.live hlive
  refine ⟨_, turn_receiving hjob hzero hstep, hnode, ?_, ?_, h.sent⟩
  · intro p hp
    have hp' : p ∈ s.output.map (ReplyPiece.note
        (refWrite s.ref fileNo (startPoint + offset) (data.take (min remaining (BLOCK_SIZE - offset))))) := by
      simpa [pieces, observe, HandlerJob.pieces] using hp
    obtain ⟨q, hq, rfl⟩ := List.mem_map.mp hp'
    have hqs : q ∈ s.pieces := List.mem_append_left _ hq
    have hgood := h.good q hqs
    apply (hgood.note (fun i hi => refWrite_known (hgood.known i hi))).spared hnode hlive' hspares (hvictim q hqs)
  · intro hrest
    have hfull : min remaining (BLOCK_SIZE - offset) = BLOCK_SIZE - offset := by omega
    rw [hfull]
    refine ⟨hlive', ?_, by decide, by omega, by rw [List.length_drop, hdata]⟩
    rw [Nat.sub_add_cancel (Nat.le_of_lt hoffset)]
    exact getBlockStartPoint_next haligned

/-- **One turn of a read.** The new piece points into a block that has its memory. -/
theorem Inv.send {fileNo : Int} {startPoint offset IOsize remaining addressed : Nat} {made : List ReplyPiece} (h : Inv cap s)
    (hcap : 0 < cap) (hjob : s.job = .sending fileNo startPoint offset IOsize remaining addressed made) (hzero : remaining ≠ 0)
    (hvictim : ∀ p ∈ s.pieces, s.node.victim (fileNo, startPoint) ≠ some p.key) :
    ∃ s', s.turn = some s' ∧ Inv cap s' := by
  have hok := h.job
  rw [hjob] at hok
  obtain ⟨hlive, haligned, hoffset, rfl, rfl, hknown⟩ := hok hzero
  have hpieces : s.pieces = s.output ++ made := by
    unfold pieces
    rw [hjob]
    rfl
  -- the first byte of the request says that the block is there
  obtain ⟨v, hv⟩ := Option.isSome_iff_exists.mp (hknown 0 (by omega))
  obtain ⟨file, hfile, hdel⟩ := hlive
  have hpos : getBlockStartPoint (startPoint + offset + 0) = startPoint := by
    rw [Nat.add_zero, getBlockStartPoint_add haligned, getBlockStartPoint_of_lt hoffset, Nat.add_zero]
  obtain ⟨b, hb, -⟩ := h.node.bytes fileNo file _ v hfile hdel hv
  rw [hpos] at hb
  have hblock : s.node.block? (fileNo, startPoint) = some b := block?_some_iff.mpr ⟨file, hfile, hb⟩
  obtain ⟨piece, node, hsend, hnode, hsame⟩ := h.node.sendBlock offset (min remaining (BLOCK_SIZE - offset))
    (k := (fileNo, startPoint)) hcap hfile hdel hblock hpos hv
  obtain ⟨hspares, e, rfl, he⟩ := h.node.sendBlock_spares hcap hblock hsend
  have hlive' := hsame.live ⟨file, hfile, hdel⟩
  refine ⟨_, turn_sending hjob hzero hblock hsend, hnode, ?_, ?_, h.sent⟩
  · intro p hp
    have hp' : p ∈ (s.output ++ made) ++ [⟨(fileNo, startPoint), ⟨e, offset, min remaining (BLOCK_SIZE - offset)⟩,
        startPoint + offset, [s.ref]⟩] := by
      rw [List.append_assoc]
      exact hp
    rcases List.mem_append.mp hp' with hold | hnew
    · rw [← hpieces] at hold
      exact (h.good p hold).spared hnode hlive' hspares (hvictim p hold)
    · obtain rfl := List.mem_singleton.mp hnew
      refine ReplyPiece.good_of_inv hnode hlive' he ?_ haligned rfl ?_ (List.mem_singleton_self _)
      · show offset + min remaining (BLOCK_SIZE - offset) ≤ BLOCK_SIZE
        omega
      · intro i hi
        have hi' : i < min remaining (BLOCK_SIZE - offset) := hi
        exact hknown i (by omega)
  · intro hrest
    have hfull : min remaining (BLOCK_SIZE - offset) = BLOCK_SIZE - offset := by omega
    rw [hfull]
    refine ⟨hlive', getBlockStartPoint_next haligned, by decide, by omega, by omega, ?_⟩
    intro i hi
    have := hknown (BLOCK_SIZE - offset + i) (by omega)
    rwa [← Nat.add_assoc] at this

/-- The reply is complete. -/
theorem Inv.enqueue (h : Inv cap s) : Inv cap (s.enqueue s.job.pieces) := by
  refine ⟨h.node, ?_, trivial, h.sent⟩
  intro p hp
  apply h.good p
  have hp' : p ∈ (s.output ++ s.job.pieces) ++ [] := hp
  rwa [List.append_nil] at hp'

/-- **One turn of either loop.** -/
theorem Inv.turn (h : Inv cap s) (hcap : 0 < cap) (hvictim : ∀ k ∈ s.job.block, ∀ p ∈ s.pieces, s.node.victim k ≠ some p.key) :
    ∃ s', s.turn = some s' ∧ Inv cap s' := by
  cases hjob : s.job with
  | idle => exact ⟨s, by simp only [SendingNode.turn, hjob], h⟩
  | receiving fileNo startPoint offset receiveSize remaining data =>
      by_cases hzero : remaining = 0
      · refine ⟨{ s with job := .idle }, by simp only [SendingNode.turn, hjob, if_pos hzero], h.node, ?_, trivial, h.sent⟩
        intro p hp
        exact h.good p (List.mem_append_left _ (by simpa [pieces, HandlerJob.pieces] using hp))
      · exact h.receive hcap hjob hzero (hvictim _ (by rw [hjob, HandlerJob.block, if_neg hzero]; rfl))
  | sending fileNo startPoint offset IOsize remaining addressed made =>
      by_cases hzero : remaining = 0
      · have hdone := h.enqueue
        rw [hjob] at hdone
        exact ⟨s.enqueue made, by simp only [SendingNode.turn, hjob, if_pos hzero], hdone⟩
      · exact h.send hcap hjob hzero (hvictim _ (by rw [hjob, HandlerJob.block, if_neg hzero]; rfl))

/-- **One byte leaves.** -/
theorem Inv.transmit (h : Inv cap s) : Inv cap s.transmit := by
  unfold SendingNode.transmit
  cases hout : s.output with
  | nil => exact h
  | cons p rest =>
      have hrest : ∀ q ∈ rest ++ s.job.pieces, q.Good s.node s.ref := by
        intro q hq
        apply h.good
        unfold pieces
        rw [hout]
        exact List.mem_cons_of_mem p hq
      have hgood : p.Good s.node s.ref := by
        apply h.good
        unfold pieces
        rw [hout]
        exact List.mem_cons_self
      dsimp only
      by_cases hzero : p.buffer.size = 0
      · rw [if_pos hzero]
        exact ⟨h.node, hrest, h.job, h.sent⟩
      · rw [if_neg hzero]
        refine ⟨h.node, ?_, h.job, ?_⟩
        · intro q hq
          rcases List.mem_cons.mp hq with rfl | hq'
          · -- what is left of the piece starts one byte later
            have hplace := hgood.place
            have hfits := hgood.fits
            refine ⟨hgood.owns, ?_, hgood.aligned, ?_, ?_, hgood.current, ?_⟩
            · show p.buffer.offset + 1 + (p.buffer.size - 1) ≤ BLOCK_SIZE
              omega
            · show p.addressed + 1 = p.key.2 + (p.buffer.offset + 1)
              omega
            · intro i hi
              have hi' : i < p.buffer.size - 1 := hi
              have := hgood.known (i + 1) (by omega)
              rwa [← Nat.add_assoc, Nat.add_right_comm] at this
            · intro i hi
              have hi' : i < p.buffer.size - 1 := hi
              have := hgood.bytes (i + 1) (by omega)
              rwa [← Nat.add_assoc, Nat.add_right_comm, ← Nat.add_assoc p.buffer.offset, Nat.add_right_comm p.buffer.offset] at this
          · exact hrest q hq'
        · intro x hx
          rcases List.mem_append.mp hx with hold | hnew
          · exact h.sent x hold
          · obtain rfl := List.mem_singleton.mp hnew
            exact hgood.bytes 0 (by omega)

theorem Inv.step (h : Inv cap s) (hcap : 0 < cap) {e : SendEvent} (hp : s.Permitted e) (hu : s.Undisturbed e) :
    ∃ s', s.step e = some s' ∧ Inv cap s' := by
  cases e with
  | request r =>
      show ∃ s', (if s.job.isIdle = true then some (s.accept r) else some s) = some s' ∧ Inv cap s'
      by_cases hidle : s.job.isIdle = true
      · rw [if_pos hidle]
        exact ⟨_, rfl, h.accept hcap hidle (hp hidle) (hu hidle)⟩
      · rw [if_neg hidle]
        exact ⟨s, rfl, h⟩
  | turn => exact h.turn hcap hu
  | transmit => exact ⟨_, rfl, h.transmit⟩

theorem start_inv (hcap : 0 < cap) (memory : Nat → Nat → Byte) (storage : Str → Option (ByteFile Byte)) :
    Inv cap (start cap memory storage) := by
  refine ⟨IOnode.start_inv hcap memory storage _, ?_, trivial, ?_⟩
  · intro p hp
    cases hp
  · intro x hx
    cases hx

/-- **A reply to a read carries the bytes that were asked for**, as long as no memory it points into is taken away: every byte that
    is transmitted for a position of a file is one the file had there since the request was handled, and every pointer that has not
    been transmitted points into the memory of the block it was taken from. -/
theorem reply_carries_requested_bytes (hcap : 0 < cap) (memory : Nat → Nat → Byte) (storage : Str → Option (ByteFile Byte))
    (events : List SendEvent) (hpermitted : Run.Guarded step Permitted (start cap memory storage) events)
    (hundisturbed : Run.Guarded step Undisturbed (start cap memory storage) events) :
    ∃ s, Run.run step (start cap memory storage) events = some s ∧ (∀ x ∈ s.sent, x.Sound) ∧
      ∀ p ∈ s.pieces, s.node.elemOf p.key = some p.buffer.elem := by
  have hstep : ∀ (s : SendingNode) e, Inv cap s → s.Permitted e ∧ s.Undisturbed e → ∃ s', s.step e = some s' ∧ Inv cap s' :=
    fun s e h he => h.step hcap he.1 he.2
  obtain ⟨s, hrun, hinv⟩ := Run.run_progress hstep (start_inv hcap memory storage) (hpermitted.and hundisturbed)
  exact ⟨s, hrun, hinv.sent, fun p hp => (hinv.good p hp).owns⟩

/-- Two files of three bytes. -/
def threeBytesEach : Str → Option (ByteFile Byte) :=
  fun path =>
    if path = [97] then some (ByteFile.empty.write 0 [1, 2, 3])
    else if path = [98] then some (ByteFile.empty.write 0 [5, 6, 7])
    else none

/-- Both are read, and the first reply leaves after the second read was handled. -/
def lateReply : List SendEvent :=
  [.request (.openFile 0 .existing [97] [(0, 3)]), .request (.openFile 1 .existing [98] [(0, 3)]), .request (.readFile 0 0 0 3), .turn,
    .turn, .request (.readFile 1 0 0 3), .turn, .turn, .transmit]

/-- With memory for two blocks both replies are right. -/
theorem reply_carries_requested_bytes_late :
    (0 < 2 ∧ Run.Guarded step Permitted (start 2 (fun _ _ => 0) threeBytesEach) lateReply ∧
      Run.Guarded step Undisturbed (start 2 (fun _ _ => 0) threeBytesEach) lateReply) ∧
    ∃ s, Run.run step (start 2 (fun _ _ => 0) threeBytesEach) lateReply = some s ∧ (∀ x ∈ s.sent, x.Sound) ∧
      ∀ p ∈ s.pieces, s.node.elemOf p.key = some p.buffer.elem := by
  have hpermitted : Run.Guarded step Permitted (start 2 (fun _ _ => 0) threeBytesEach) lateReply := by decide +kernel
  have hundisturbed : Run.Guarded step Undisturbed (start 2 (fun _ _ => 0) threeBytesEach) lateReply := by decide +kernel
  exact ⟨⟨by decide, hpermitted, hundisturbed⟩,
    reply_carries_requested_bytes (by decide) _ _ lateReply hpermitted hundisturbed⟩

/-- With memory for one, the second read takes the block of the first: a byte of the other file leaves, and it is none the file ever had. -/
theorem reply_carries_other_file :
    Run.Guarded step Permitted (start 1 (fun _ _ => 0) threeBytesEach) lateReply ∧
    ∃ s, Run.run step (start 1 (fun _ _ => 0) threeBytesEach) lateReply = some s ∧
      ∃ x ∈ s.sent, (x.fileNo = 0 ∧ x.pos = 0 ∧ x.value = 5 ∧ ∀ r ∈ x.seen, r 0 0 = some 1) ∧ ¬ x.Sound := by
  refine ⟨by decide +kernel, ?_⟩
  have hrun : (Run.run step (start 1 (fun _ _ => 0) threeBytesEach) lateReply).any (fun s => s.sent.any (fun x =>
      decide (x.fileNo = 0 ∧ x.pos = 0 ∧ x.value = 5 ∧ ∀ r ∈ x.seen, r 0 0 = some 1))) = true := by decide +kernel
  obtain ⟨s, hs, hany⟩ := (Option.any_eq_true _ _).mp hrun
  obtain ⟨x, hx, hdec⟩ := List.any_eq_true.mp hany
  obtain ⟨hfile, hpos, hvalue, hseen⟩ := of_decide_eq_true hdec
  refine ⟨s, hs, x, hx, ⟨hfile, hpos, hvalue, hseen⟩, ?_⟩
  rintro ⟨r, hr, hv⟩
  rw [hfile, hpos, hvalue, hseen r hr] at hv
  revert hv
  decide

end SendingNode

end HuronFS
