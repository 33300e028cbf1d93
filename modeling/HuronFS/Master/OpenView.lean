import HuronFS.Master.HandlerSpec

/-!
# `Master.OpenView` — one open file, as its reads and writes see it

A read, a write and a metadata update of an open file touch its block list and its size, and name its primary node.
`OpenView` is these three, with what each of the handlers does to them; `Views` ties a view to the tables of the
Master, and the results below say that the handlers act on the tables as the functions of this file act on the view.
-/

namespace HuronFS

/-- What the Master holds of an open file for its data requests. -/
structure OpenView where
  blocks : BlockList
  size : Nat
  primary : Int

namespace OpenView

/-- What a reply to a data request says: the size of the file, the primary node, the blocks. -/
structure BlockInfo where
  fileSize : Nat
  node : Int
  blocks : BlockList

/-- A file of `size` bytes that has just been opened (`_create_block_list`). -/
def opened (size : Nat) (primary : Int) : OpenView :=
  ⟨Master.createBlockList size BLOCK_SIZE OrdMap.empty, size, primary⟩

/-- `_parse_read_file`. -/
def readFile (v : OpenView) (startPoint size : Nat) : Option BlockInfo :=
  (Master.selectNodeBlockSet v.blocks startPoint size).map (fun bl => ⟨v.size, v.primary, bl⟩)

/-- `_parse_meta_update`. -/
def updateMeta (v : OpenView) (stSize : Nat) : OpenView := { v with size := max v.size stSize }

/-- The view a write leaves. -/
def written (v : OpenView) (stSize startPoint size : Nat) : OpenView :=
  { v.updateMeta stSize with blocks := Master.allocateNewBlocksForWriting v.blocks startPoint size }

/-- `_parse_write_file`. -/
def writeFile (v : OpenView) (stSize startPoint size : Nat) : Option (OpenView × BlockInfo) :=
  ((v.written stSize startPoint size).readFile startPoint size).map (fun info => (v.written stSize startPoint size, info))

end OpenView

namespace Master

/-- `v` is what the tables hold for `fileNo`, and `n` is its primary node. -/
structure Views (m : Master) (fileNo : Int) (n : NodeInfo) (v : OpenView) : Prop where
  objects : ∃ r f st, FileObjects m fileNo r f st ∧ f.primaryReplicaNode.bind m.nodes = some n ∧
    v = ⟨f.blockList, st.status.stSize, n.nodeId⟩

/-- The message that carries a `BlockInfo`. -/
def blockInfoFields (uri : Str) (info : OpenView.BlockInfo) : List Field :=
  [.int SUCCESS, .size info.fileSize, .int 1, .long info.node, .str uri, .int info.blocks.size] ++ blockFields info.blocks

theorem sendBlockInfo_eq {m : Master} {primary : Option NodeRef} {n : NodeInfo} (hn : primary.bind m.nodes = some n)
    (fileSize : Nat) (bl : BlockList) :
    m.sendBlockInfo fileSize primary bl = some (blockInfoFields n.uri ⟨fileSize, n.nodeId, bl⟩) := by
  simp only [sendBlockInfo, hn]
  rfl

/-- **A read** is answered with the blocks the view gives, and changes nothing. -/
theorem Views.readFile {m : Master} {fileNo : Int} {n : NodeInfo} {v : OpenView} (h : Views m fileNo n v) {o : Origin}
    {startPoint size : Nat} {info : OpenView.BlockInfo} (hread : v.readFile startPoint size = some info) :
    m.parseReadFile o fileNo startPoint size = some (m.reply o (blockInfoFields n.uri info) SUCCESS) := by
  obtain ⟨r, f, st, hobj, hn, rfl⟩ := h.objects
  obtain ⟨bl, hbl, rfl⟩ := Option.map_eq_some_iff.mp hread
  have hsel : selectNodeBlockSet f.blockList startPoint size = some bl := hbl
  simp only [parseReadFile, hobj.buffered, hobj.object, hsel, hobj.entry, sendBlockInfo_eq hn, Option.map_some]

/-- **A write** is answered with the blocks the view gives, and leaves the view it gives. -/
theorem Views.writeFile {m : Master} {fileNo : Int} {n : NodeInfo} {v v' : OpenView} (h : Views m fileNo n v) {o : Origin}
    {attr : Stat} {startPoint size : Nat} {info : OpenView.BlockInfo}
    (hwrite : v.writeFile attr.stSize startPoint size = some (v', info)) :
    ∃ m', m.parseWriteFile o fileNo attr startPoint size = some (m'.reply o (blockInfoFields n.uri info) SUCCESS) ∧
      Views m' fileNo n v' := by
  obtain ⟨r, f, st, hobj, hn, rfl⟩ := h.objects
  obtain ⟨info', hread, heq⟩ := Option.map_eq_some_iff.mp hwrite
  cases heq
  obtain ⟨bl, hbl, rfl⟩ := Option.map_eq_some_iff.mp hread
  have hsel : selectNodeBlockSet (allocateNewBlocksForWriting f.blockList startPoint size) startPoint size = some bl := hbl
  have hn' : f.primaryReplicaNode.bind (m.writtenFile r f st attr startPoint size).nodes = some n := hn
  refine ⟨m.writtenFile r f st attr startPoint size, ?_,
    ⟨r, _, st.setStatus (receiveAttr st.status attr), ⟨hobj.buffered, Function.update_self .., ?_⟩, hn', rfl⟩⟩
  · have hmsg := sendBlockInfo_eq hn' (max st.status.stSize attr.stSize) bl
    simp only [parseWriteFile, hobj.buffered, hobj.object, hobj.entry, hsel]
    exact congrArg (Option.map _) hmsg
  · exact OrdMap.find?_put_self ..

/-- **A metadata update** leaves the view with the larger size. -/
theorem Views.updateMeta {m : Master} {fileNo : Int} {n : NodeInfo} {v : OpenView} (h : Views m fileNo n v) (attr : Stat) :
    ∃ out, m.parseMetaUpdate fileNo attr = some out ∧ Views out.master fileNo n (v.updateMeta attr.stSize) := by
  obtain ⟨r, f, st, hobj, hn, rfl⟩ := h.objects
  have hupdate : m.parseMetaUpdate fileNo attr =
      some ⟨m.setStat f.fileStatus (st.setStatus (receiveAttr st.status attr)), [], [], SUCCESS⟩ := by
    simp only [parseMetaUpdate, hobj.buffered, hobj.object, hobj.entry]
  exact ⟨_, hupdate, r, f, st.setStatus (receiveAttr st.status attr),
    ⟨hobj.buffered, hobj.object, OrdMap.find?_put_self ..⟩, hn, rfl⟩

end Master

end HuronFS
