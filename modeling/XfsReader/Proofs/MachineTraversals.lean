import XfsReader.Proofs.DataBlockOrder
import XfsReader.Proofs.MachineRuns
import XfsReader.Proofs.ReadSites

-- Every traversal on a machine. None of them stops the machine, whatever is on the device: each
-- reads, warns and ends as the traversal on plain numbers does.
namespace XfsReader
open Machine

theorem located_bind (offset : Nat) (first : Except DecodeError α) (next : α → Except DecodeError β) :
    located offset (first >>= next) = located offset first >>= fun value => located offset (next value) := by
  cases first <;> rfl

namespace InodeFork

variable {opened : InodeFork} {device : Device} {block : Bytes}

def machineSeal (opened : InodeFork) (role : BlockRole) (offset : Nat) (block : Bytes) : Machine VolumeError Unit :=
  if opened.options.verifyChecksums ∧ opened.version = .v5 then (role.machineVerify block).located offset
  else return ()

theorem machineSeal_computes (opened : InodeFork) (role : BlockRole) (offset : Nat) (block : Bytes) :
    (opened.machineSeal role offset block).Computes (opened.checkSeal role offset block) := by
  unfold machineSeal checkSeal
  split
  · exact (role.machineVerify_computes block).located offset
  · exact .pure _

def machineRunOffset (opened : InodeFork) (start : UInt64) (index blame : Nat) : Machine VolumeError Nat :=
  (opened.ag.machineRunByteOffset start index).located blame

theorem machineRunOffset_computes (opened : InodeFork) (start : UInt64) (index blame : Nat) :
    (opened.machineRunOffset start index blame).Computes (opened.runOffset start index blame) :=
  (opened.ag.machineRunByteOffset_computes start index).located blame

-- The block lies in the extent that was found for it.
def machineLogicalOffset (opened : InodeFork) (extents : List Extent) (block : Nat) :
    Machine VolumeError (Option Nat) := do
  match ← find (fun extent => extent.machineContains block) extents with
  | none => return none
  | some extent =>
    let index ← sub block extent.startOffset.toNat
    let offset ← opened.machineRunOffset extent.startBlock index 0
    return some offset

theorem machineLogicalOffset_computes (opened : InodeFork) (extents : List Extent) (block : Nat) :
    (opened.machineLogicalOffset extents block).Computes (opened.logicalOffset extents block) := by
  unfold logicalOffset
  refine .step (find_computes (fun extent => extent.machineContains_computes block) extents) ?_
  rw [← Extent.findBlock?]
  cases found : Extent.findBlock? extents block with
  | none => exact .pure _
  | some extent =>
    have inside : extent.containsBlock block := by simpa using List.find?_some found
    exact .step (sub_computes (Extent.containsBlock_iff.mp inside).1) (.map (opened.machineRunOffset_computes _ _ 0))

section Walk

variable {pair : MagicPair}

def machineKeyOrder (header : MapHeader) (offset : Nat) (block : Bytes) : Machine VolumeError Unit := do
  let keys ← (header.machineKeys block).located offset
  match ← machineDescent keys with
  | none => return ()
  | some (key,previous) => throw (.corruption offset (.mapKeyOrder key previous))

theorem machineKeyOrder_computes (header : MapHeader) (offset : Nat) (block : Bytes) :
    (machineKeyOrder header offset block).Computes (checkMapKeys header offset block) := by
  unfold checkMapKeys
  refine .examined (header.machineKeys_computes block) (fun error failed => by rw [failed]) fun keys read => ?_
  rw [read]
  refine .step (machineDescent_computes keys) ?_
  dsimp only
  cases firstDescent? keys with
  | none => exact .pure _
  | some found => exact .throw _

-- What the contents of a block are bound to is looked at again here.
def machineMapContents (header : MapHeader) (level offset : Nat) (block : Bytes) :
    Machine VolumeError (MapContents level) :=
  if leaf : level = 0 then do
    let found ← (header.machineLeafExtents block).located offset
    return .extents found
  else do
    let pointers ← (header.machineChildPointers block).located offset
    machineKeyOrder header offset block
    if few : pointers.length < 65536 then return .children pointers few (Nat.pos_of_ne_zero leaf)
    else stopped

theorem machineMapContents_computes {header : MapHeader} {level offset : Nat} (small : block.size < 0x100000000) :
    (machineMapContents header level offset block).Computes (mapContents header level offset block) := by
  unfold machineMapContents
  split
  · rename_i leaf
    rw [mapContents,dif_pos leaf]
    exact .map ((header.machineLeafExtents_computes block).located offset)
  · rename_i inner
    have interior := Nat.pos_of_ne_zero inner
    refine .examined (MapHeader.machineChildPointers_computes small)
      (fun error failed => mapContents_undecoded interior offset failed) fun pointers read => ?_
    obtain ⟨few,contents⟩ := mapContents_interior interior offset read
    rw [dif_pos few,contents]
    exact .map (machineKeyOrder_computes header offset block)

-- Magic, version, checksum, level, owner, and only then the records.
def machineMapBlock (opened : InodeFork) (pair : MagicPair) (level offset : Nat) (block : Bytes) :
    Machine VolumeError (MapContents level) := do
  let header ← ((MapHeader.decode pair).onMachine block).located offset
  lift (opened.checkMapVersion header offset)
  opened.machineSeal .mapBlock offset block
  if header.level.toNat = level then
    lift (opened.checkOwner .mapOwner offset header.owner)
    machineMapContents header level offset block
  else throw (.corruption offset (.mapLevel header.level.toNat level))

theorem machineMapBlock_computes {level offset : Nat} (small : block.size < 0x100000000) :
    (opened.machineMapBlock pair level offset block).Computes (opened.examineMapBlock pair level offset block) := by
  refine .bind ((Decoder.onMachine_computes _ block).located offset) fun header _ => .bind (.lift _) fun _ _ => ?_
  refine .bind (opened.machineSeal_computes .mapBlock offset block) fun _ _ => ?_
  split
  · exact .bind (.lift _) fun _ _ => machineMapContents_computes small
  · exact .throw _

-- A level that did not sink would never come to an end: this too stops the machine.
def machineVisitPending (opened : InodeFork) (pair : MagicPair) (visited : List UInt64) (extents : List Extent) :
    PendingBlocks → MachineRun (List Extent × List UInt64)
  | [] => return (extents,visited)
  | (pointer,level) :: rest =>
    if pointer ∈ visited then .fail (.corruption opened.position (.mapBlockTwice pointer))
    else do
      let offset ← .compute ((opened.ag.machineByteOffset pointer).located opened.position)
      let block ← .read (some .mapBlock) offset opened.blockSize.bytes
      match ← .compute (opened.machineMapBlock pair level offset block) with
      | .extents found => machineVisitPending opened pair (pointer :: visited) (extents ++ found) rest
      | .children pointers _ _ =>
        let below ← .compute (sub level 1)
        if _ : below < level then
          machineVisitPending opened pair (pointer :: visited) extents
            (pushReversed (pointers.map fun child => (child,below)) rest)
        else .compute stopped
termination_by pending => PendingBlocks.weight pending
decreasing_by
  · exact PendingBlocks.weight_rest _ _
  · exact PendingBlocks.weight_below _ _ ‹_› ‹_›

theorem block_small {opened : InodeFork} {block : Bytes} (long : block.size = opened.blockSize.bytes) :
    block.size < 0x100000000 := by
  have bound := opened.blockSize.bytes_le
  omega

theorem machineVisitPending_runs (visited : List UInt64) (extents : List Extent) (pending : PendingBlocks) :
    (opened.machineVisitPending pair visited extents pending).Runs device
      (opened.visitPending pair visited extents pending) := by
  fun_induction opened.visitPending pair visited extents pending with
  | case1 visited extents =>
    rw [machineVisitPending]
    exact .pure _
  | case2 visited extents pointer level rest member =>
    rw [machineVisitPending,if_pos member]
    exact .fail _
  | case3 visited extents pointer level rest new error untranslated =>
    rw [machineVisitPending,if_neg new]
    exact .refuse (((opened.ag.machineByteOffset_computes pointer).ended untranslated).located opened.position)
  | case4 visited extents pointer level rest new offset translated ihLeaf ihNode =>
    rw [machineVisitPending,if_neg new]
    have known := (opened.ag.machineByteOffset_computes pointer).ended translated
    refine .step (known.located opened.position) (.reading fun block long => ?_)
    refine .matched (machineMapBlock_computes (block_small long)) (fun error failed => by rw [failed]) fun contents found => ?_
    rw [found]
    cases contents with
    | extents leaf => exact ihLeaf leaf
    | children pointers few interior =>
      refine .step (sub_computes interior) ?_
      rw [dif_pos (Nat.sub_lt interior Nat.one_pos)]
      exact ihNode pointers few interior

def machineTree (opened : InodeFork) (pair : MagicPair) (literal : Bytes) : MachineRun ExtentMap := do
  let root ← .compute (((MapHeader.decode pair).onMachine literal).located opened.position)
  .compute (lift (opened.checkMapVersion root opened.position))
  if opened.options.maxDepth < root.level then
    .fail (.unsupportedLayout (.mapRootTooDeep root.level opened.options.maxDepth))
  else
    match ← .compute (machineMapContents root root.level.toNat opened.position literal) with
    | .extents found => return ⟨found,.direct,0⟩
    | .children pointers _ _ =>
      let below ← .compute (sub root.level.toNat 1)
      let (extents,visited) ← opened.machineVisitPending pair [] []
        (pushReversed (pointers.map fun child => (child,below)) [])
      return ⟨extents,.tree root.level,visited.length⟩

theorem machineTree_runs {literal : Bytes} (small : literal.size < 0x100000000) :
    (opened.machineTree pair literal).Runs device (opened.walkTree pair literal) := by
  refine .bind (.compute ((Decoder.onMachine_computes _ literal).located _)) fun root _ => ?_
  refine .bind (.compute (.lift _)) fun _ _ => ?_
  split
  · exact .fail _
  · refine .bind (.compute (machineMapContents_computes small)) fun contents _ => ?_
    cases contents with
    | extents found => exact .pure _
    | children pointers few interior =>
      exact .step (sub_computes interior) (.bind (machineVisitPending_runs _ _ _) fun found _ => .pure _)

def machineInline (opened : InodeFork) (count : Nat) (literal : Bytes) : Machine VolumeError (List Extent) :=
  if literal.size < count * Extent.recordSize then
    throw (.corruption opened.position (.recordsExceedFork count opened.fork.size.toNat))
  else (Extent.machineList 0 count literal).located opened.position

theorem machineInline_computes (opened : InodeFork) (count : Nat) (literal : Bytes) :
    (opened.machineInline count literal).Computes (opened.inlineExtents count literal) := by
  unfold machineInline inlineExtents
  split
  · exact .throw _
  · exact (Extent.machineList_computes 0 count literal).located _

def machineOrder (opened : InodeFork) (extents : List Extent) : Machine VolumeError Unit := do
  match ← Extent.machineDisorder extents with
  | none => return ()
  | some extent => throw (.corruption opened.position (.extentOrder extent.startOffset))

theorem machineOrder_computes (opened : InodeFork) (extents : List Extent) :
    (opened.machineOrder extents).Computes (opened.checkOrdered extents) := by
  unfold checkOrdered
  refine .step (Extent.machineDisorder_computes extents) ?_
  cases firstDisorder? extents with
  | none => exact .pure _
  | some extent => exact .throw _

def machineMap (opened : InodeFork) (tree : BtreeKind) (literal : Bytes) : MachineRun ExtentMap :=
  match opened.fork.layout with
  | .shortform => .fail (.unsupportedLayout (.shortformMap opened.inode))
  | .extents count => do
    let extents ← .compute (opened.machineInline count.toNat literal)
    return ⟨extents,.inline,0⟩
  | .btree => opened.machineTree (opened.volume.geometry.magics.pair tree) literal

def machineWalk (opened : InodeFork) (tree : BtreeKind) : MachineRun ExtentMap := do
  let literal ← .read none opened.position opened.fork.size.toNat
  let map ← opened.machineMap tree literal
  .compute (opened.machineOrder map.extents)
  return map

theorem machineWalk_runs (tree : BtreeKind) : (opened.machineWalk tree).Runs device (opened.walk tree) := by
  refine .reading fun literal long => .bind ?_ fun map _ => .bind (.compute (machineOrder_computes _ _)) fun _ _ => .pure _
  unfold machineMap readMap
  cases opened.fork.layout with
  | shortform => exact .fail _
  | extents count => exact .bind (.compute (opened.machineInline_computes _ literal)) fun extents _ => .pure _
  | btree =>
    have short := opened.fork.size.toNat_lt
    exact machineTree_runs (by omega)

end Walk
section Directory

def machineShortform (opened : InodeFork) : MachineRun (List DirectoryEntry) := do
  let literal ← .read none opened.position opened.fork.size.toNat
  let shortform ← .compute ((Shortform.machineDecode opened.typed literal).located opened.position)
  let fileType := if opened.typed then some FileType.directory else none
  let _ ← .compute (add shortform.entries.length 2)
  return ⟨DirectoryEntry.dot,opened.inode,0,0,fileType⟩ ::
    ⟨DirectoryEntry.dotDot,shortform.parent,0,0,fileType⟩ :: shortform.entries

theorem machineShortform_runs : opened.machineShortform.Runs device opened.shortformEntries := by
  refine .reading fun literal _ => .bind (.compute ((Shortform.machineDecode_computes _ literal).located _)) fun shortform got => ?_
  rw [Traversal.eval_ofExcept] at got
  have few := (Shortform.decode_yields opened.typed).run (located_eq_ok.mp got)
  exact .step (add_computes (by omega)) (.pure _)

def machineLeafContents (opened : InodeFork) (offset : Nat) (block : Bytes) : Machine VolumeError LeafContents := do
  let header ← ((DaHeader.decode opened.version).onMachine block).located offset
  opened.machineSeal .leafBlock offset block
  lift (opened.checkOwner .blockOwner offset header.owner)
  match header.kind with
  | .dirLeaf1 | .dirLeafN =>
    let leaf ← (LeafBlock.machineDecode opened.version block).located offset
    return .leaf leaf
  | .node =>
    let _ ← (DaNode.machineDecode opened.version block).located offset
    return .node
  | .attrLeaf => throw (.unsupportedLayout (.attrLeafInDirectory offset opened.inode))

theorem machineLeafContents_computes (offset : Nat) :
    (opened.machineLeafContents offset block).Computes (opened.examineLeafBlock offset block) := by
  refine .bind ((Decoder.onMachine_computes _ block).located offset) fun header _ => ?_
  refine .bind (opened.machineSeal_computes .leafBlock offset block) fun _ _ => .bind (.lift _) fun _ _ => ?_
  cases header.kind with
  | dirLeaf1 => exact .bind ((LeafBlock.machineDecode_computes _ block).located offset) fun leaf _ => .pure _
  | dirLeafN => exact .bind ((LeafBlock.machineDecode_computes _ block).located offset) fun leaf _ => .pure _
  | node => exact .bind ((DaNode.machineDecode_computes _ block).located offset) fun node _ => .pure _
  | attrLeaf => exact .throw _

def machineKeepLeaf (offset : Nat) (contents : LeafContents) : MachineRun (List LeafBlock) :=
  match contents with
  | .node => return []
  | .leaf leaf =>
    if leaf.staleSlots = leaf.stale.toNat then return [leaf]
    else do
      .warn ⟨offset,leaf.stale.toNat,leaf.staleSlots⟩
      return [leaf]

def machineLeafBlock (opened : InodeFork) (extent : Extent) (index : Nat) : MachineRun (List LeafBlock) := do
  let offset ← .compute (opened.machineRunOffset extent.startBlock index opened.position)
  let block ← .read (some .leafBlock) offset opened.blockSize.bytes
  let contents ← .compute (opened.machineLeafContents offset block)
  machineKeepLeaf offset contents

theorem machineLeafBlock_runs (extent : Extent) (index : Nat) :
    (opened.machineLeafBlock extent index).Runs device (opened.leafBlock extent index) := by
  refine .bind (.compute (opened.machineRunOffset_computes _ index _)) fun offset _ => .reading fun block _ => ?_
  refine .bind (.compute (machineLeafContents_computes offset)) fun contents _ => ?_
  unfold machineKeepLeaf keepLeaf
  cases contents with
  | node => exact .pure _
  | leaf leaf =>
    dsimp only
    split
    · exact .pure _
    · rfl

def machineDataHeader (opened : InodeFork) (offset : Nat) (block : Bytes) : Machine VolumeError DataHeader := do
  let header ← (DataHeader.machineDecode opened.version block).located offset
  opened.machineSeal .dataBlock offset block
  lift (opened.checkOwner .blockOwner offset header.owner)
  return header

theorem machineDataHeader_computes (offset : Nat) :
    (opened.machineDataHeader offset block).Computes (opened.examineDataHeader offset block) := by
  refine .bind ((DataHeader.machineDecode_computes _ block).located offset) fun header _ => ?_
  exact .bind (opened.machineSeal_computes .dataBlock offset block) fun _ _ => .bind (.lift _) fun _ _ => .pure _

def machineDataContents (opened : InodeFork) (offset : Nat) (block : Bytes) :
    Machine VolumeError (List PlacedEntry) := do
  let header ← opened.machineDataHeader offset block
  (header.machineScan block opened.typed).located offset

theorem machineDataContents_computes (offset : Nat) :
    (opened.machineDataContents offset block).Computes (opened.examineDataBlock offset block) := by
  refine .bind (machineDataHeader_computes offset) fun header _ => ?_
  have scanned := (header.machineScan_computes block opened.typed).located offset
  rw [located_bind] at scanned
  exact scanned

def machineDataBlock (opened : InodeFork) (extent : Extent) (index : Nat) : MachineRun (List DirectoryEntry) := do
  let offset ← .compute (opened.machineRunOffset extent.startBlock index opened.position)
  let block ← .read (some .dataBlock) offset opened.blockSize.bytes
  let found ← .compute (opened.machineDataContents offset block)
  return found.map (·.entry)

-- Positions go from block to block, and entries are counted as they come in.
def machineScanFrom (opened : InodeFork) (index : OffsetIndex) (counted position : Nat) :
    MachineRun (List DirectoryEntry) :=
  if position < index.mappedLength then do
    match index.lookup position with
    | none => .fail (.corruption opened.position (.unmappedByte position))
    | some window =>
      let block ← .compute (opened.blockSize.machineBlockOf (window.delta position))
      let first ← opened.machineDataBlock window.extent block
      let _ ← .compute (sub (counted + first.length) counted)
      let next ← .compute (add position opened.blockSize.bytes)
      if _ : position < next then
        let rest ← opened.machineScanFrom index (counted + first.length) next
        return first ++ rest
      else .compute stopped
  else return []
termination_by index.mappedLength - position

theorem machineDataBlock_runs (extent : Extent) (index : Nat) :
    (opened.machineDataBlock extent index).Runs device (listed (opened.dataBlock extent index)) := by
  unfold listed dataBlock
  simp only [bind_assoc,pure_bind,List.map_map]
  refine .bind (.compute (opened.machineRunOffset_computes _ index _)) fun offset _ => .reading fun block _ => ?_
  exact .bind (.compute (machineDataContents_computes offset)) fun found _ => .pure _

-- One more block always fits, since mapped bytes come in whole blocks.
theorem machineScanFrom_runs {index : OffsetIndex} (whole : opened.blockSize.bytes ∣ index.mappedLength)
    (small : index.mappedLength < 0x10000000000000000) (counted position : Nat)
    (reached : opened.blockSize.bytes ∣ position) :
    (opened.machineScanFrom index counted position).Runs device (listed (opened.scanFrom index position)) := by
  fun_induction opened.scanFrom index position generalizing counted with
  | case1 position inside missing =>
    rw [machineScanFrom,if_pos inside,missing]
    exact .fail _
  | case2 position inside window found ih =>
    rw [machineScanFrom,if_pos inside,found,listed_append]
    have room := BlockSize.next_block reached whole inside
    refine .step (opened.blockSize.machineBlockOf_computes _) (.bind (machineDataBlock_runs _ _) fun first _ => ?_)
    refine .step (sub_computes (Nat.le_add_right _ _)) (.step (add_computes (by omega)) ?_)
    rw [dif_pos (Nat.lt_add_of_pos_right opened.blockSize.bytes_pos)]
    exact .bind (ih _ (Nat.dvd_add reached (Nat.dvd_refl _))) fun rest _ => .pure _
  | case3 position outside =>
    rw [machineScanFrom,if_neg outside]
    exact .pure _

def machineDataEntries (opened : InodeFork) (extents : List Extent) : MachineRun (List DirectoryEntry) := do
  let index ← .compute ((OffsetIndex.machineBuild opened.blockSize extents).located opened.position)
  opened.machineScanFrom index 0 0

theorem machineDataEntries_runs (extents : List Extent) :
    (opened.machineDataEntries extents).Runs device (opened.dataEntries extents) := by
  rw [dataEntries,dataPlaces,bind_assoc]
  refine .bind (.compute ((OffsetIndex.machineBuild_computes _ extents).located _)) fun index built => ?_
  rw [Traversal.eval_ofExcept] at built
  obtain ⟨whole,small⟩ := OffsetIndex.mappedLength_whole (located_eq_ok.mp built)
  exact machineScanFrom_runs whole small 0 0 (Nat.dvd_zero _)

def machineLeafBlocks (opened : InodeFork) (extents : List Extent) : MachineRun (List LeafBlock) :=
  MachineRun.forExtents opened.machineLeafBlock extents

theorem machineLeafBlocks_runs (extents : List Extent) :
    (opened.machineLeafBlocks extents).Runs device (opened.leafBlocks extents) :=
  .forExtents (fun extent index => machineLeafBlock_runs extent index) extents

def machineList (opened : InodeFork) : MachineRun (List DirectoryEntry) :=
  match opened.fork.layout with
  | .shortform => opened.machineShortform
  | .extents _ | .btree => do
    let map ← opened.machineWalk .directory
    let segments ← .compute (Segments.machineSplit opened.blockSize map.extents)
    let _ ← opened.machineLeafBlocks segments.leaf
    opened.machineDataEntries segments.data

theorem machineList_runs : opened.machineList.Runs device opened.listDirectory := by
  have mapped : (opened.machineWalk .directory >>= fun map =>
      .compute (Segments.machineSplit opened.blockSize map.extents) >>= fun segments =>
        opened.machineLeafBlocks segments.leaf >>= fun _ => opened.machineDataEntries segments.data).Runs device
      (opened.walk .directory >>= fun map =>
        opened.leafBlocks (Segments.split opened.blockSize map.extents).leaf >>= fun _ =>
          opened.dataEntries (Segments.split opened.blockSize map.extents).data) :=
    .bind (machineWalk_runs .directory) fun map _ => .step (Segments.machineSplit_computes _ _)
      (.bind (machineLeafBlocks_runs _) fun _ _ => machineDataEntries_runs _)
  unfold machineList listDirectory
  cases opened.fork.layout with
  | shortform => exact machineShortform_runs
  | extents count => exact mapped
  | btree => exact mapped

end Directory

section Lookup

def machineExamineCandidate (opened : InodeFork) (address : UInt32) (within offset : Nat) (block : Bytes) :
    Machine VolumeError (Option DirectoryEntry) := do
  let header ← opened.machineDataHeader offset block
  let start ← DataHeader.machineEntriesOffset header.version
  if within < start then throw (.corruption offset (.addressInHeader address))
  else
    let tag ← ((Decoder.be16 within).onMachine block).located offset
    if tag = freeTag then throw (.corruption offset (.addressUnused address))
    else (DirectoryEntry.machineDecode opened.typed within block).located offset

theorem machineExamineCandidate_computes (address : UInt32) (within offset : Nat) :
    (opened.machineExamineCandidate address within offset block).Computes
      (opened.examineCandidate address within offset block) := by
  refine .bind (machineDataHeader_computes offset) fun header _ => ?_
  refine .step (DataHeader.machineEntriesOffset_computes header.version) ?_
  rw [← DataHeader.entriesOffset]
  split
  · exact .throw _
  · refine .bind ((Decoder.onMachine_computes _ block).located offset) fun tag _ => ?_
    split
    · exact .throw _
    · exact (DirectoryEntry.machineDecode_computes _ within block).located offset

def machineCandidate (opened : InodeFork) (data : List Extent) (slot : LeafSlot) :
    MachineRun (Option DirectoryEntry) := do
  let logical ← .compute (mul slot.address.toNat 8)
  let block ← .compute (opened.blockSize.machineBlockOf logical)
  let within ← .compute (opened.blockSize.machineWithin logical block)
  match ← .compute (opened.machineLogicalOffset data block) with
  | none => .fail (.corruption opened.position (.unmappedAddress slot.address block))
  | some offset =>
    let bytes ← .read (some .dataBlock) offset opened.blockSize.bytes
    .compute (opened.machineExamineCandidate slot.address within offset bytes)

theorem machineCandidate_runs (data : List Extent) (slot : LeafSlot) :
    (opened.machineCandidate data slot).Runs device (opened.candidate data slot) := by
  have address := slot.address.toNat_lt
  have small : slot.byteOffset < 0x10000000000000000 := by
    unfold LeafSlot.byteOffset
    omega
  refine .step (mul_computes small) (.step (opened.blockSize.machineBlockOf_computes slot.byteOffset) ?_)
  refine .step (BlockSize.machineWithin_computes small) ?_
  refine .bind (.compute (opened.machineLogicalOffset_computes data _)) fun found _ => ?_
  cases found with
  | none => exact .fail _
  | some offset => exact .reading fun bytes _ => .compute (machineExamineCandidate_computes _ _ offset)

def machineProbe (opened : InodeFork) (data : List Extent) (name : Name) :
    List LeafSlot → MachineRun (Option DirectoryEntry)
  | [] => return none
  | slot :: slots => do
    let found ← opened.machineCandidate data slot
    match found.filter fun entry => entry.name = name with
    | some entry => return some entry
    | none => opened.machineProbe data name slots

theorem machineProbe_runs (data : List Extent) (name : Name) (slots : List LeafSlot) :
    (opened.machineProbe data name slots).Runs device (opened.probe data name slots) := by
  induction slots with
  | nil => exact .pure _
  | cons slot slots ih =>
    refine .bind (machineCandidate_runs data slot) fun found _ => ?_
    cases found.filter fun entry => entry.name = name with
    | none => exact ih
    | some entry => exact .pure _

def machineLookup (opened : InodeFork) (name : Name) : MachineRun (Option DirectoryEntry) :=
  match opened.fork.layout with
  | .shortform => do
    let entries ← opened.machineShortform
    return entries.find? fun entry => entry.name = name
  | .extents _ | .btree => do
    let map ← opened.machineWalk .directory
    let segments ← .compute (Segments.machineSplit opened.blockSize map.extents)
    let leaves ← opened.machineLeafBlocks segments.leaf
    if leaves.isEmpty then
      let entries ← opened.machineDataEntries segments.data
      return entries.find? fun entry => entry.name = name
    else opened.machineProbe segments.data name (slotsOf leaves (nameHash name))

theorem machineLookup_runs (name : Name) : (opened.machineLookup name).Runs device (opened.lookup name) := by
  have mapped : (opened.machineWalk .directory >>= fun map =>
      .compute (Segments.machineSplit opened.blockSize map.extents) >>= fun segments =>
        opened.machineLeafBlocks segments.leaf >>= fun leaves =>
          if leaves.isEmpty then opened.machineDataEntries segments.data >>= fun entries =>
            return entries.find? fun entry => entry.name = name
          else opened.machineProbe segments.data name (slotsOf leaves (nameHash name))).Runs device
      (opened.walk .directory >>= fun map =>
        opened.leafBlocks (Segments.split opened.blockSize map.extents).leaf >>= fun leaves =>
          if leaves.isEmpty then
            opened.dataEntries (Segments.split opened.blockSize map.extents).data >>= fun entries =>
              return entries.find? fun entry => entry.name = name
          else opened.probe (Segments.split opened.blockSize map.extents).data name (slotsOf leaves (nameHash name))) := by
    refine .bind (machineWalk_runs .directory) fun map _ => .step (Segments.machineSplit_computes _ _) ?_
    refine .bind (machineLeafBlocks_runs _) fun leaves _ => ?_
    split
    · exact .bind (machineDataEntries_runs _) fun entries _ => .pure _
    · exact machineProbe_runs _ name _
  unfold machineLookup lookup
  cases opened.fork.layout with
  | shortform => exact .bind machineShortform_runs fun entries _ => .pure _
  | extents count => exact mapped
  | btree => exact mapped

end Lookup

section Attributes

variable {expected : Option Nat}

def machineAttrNode (opened : InodeFork) (expected : Option Nat) (offset : Nat) (block : Bytes) :
    Machine VolumeError (AttrContents expected) := do
  let node ← (DaNode.machineDecode opened.version block).located offset
  if node.level ≠ 0 ∧ meets expected node.level.toNat then
    if opened.options.maxDepth < node.level then
      throw (.unsupportedLayout (.attrTooDeep node.level opened.options.maxDepth))
    else
      let level ← sub node.level.toNat 1
      if bound : (node.entries.map (·.before)).length < 65536 ∧ level < PendingAttrs.rank expected then
        return .children (node.entries.map (·.before)) level bound.1 bound.2
      else stopped
  else throw (.corruption offset (.attrNodeLevel node.level))

theorem machineAttrNode_computes (offset : Nat) :
    (opened.machineAttrNode expected offset block).Computes (opened.attrNodeContents expected offset block) := by
  refine .examined (DaNode.machineDecode_computes _ block)
    (fun error failed => opened.attrNodeContents_undecoded expected offset failed) fun node read => ?_
  obtain ⟨few,below,contents⟩ := opened.attrNodeContents_node expected offset read
  rw [contents]
  split
  · rename_i accepted
    have positive : node.level.toNat ≠ 0 := fun zero => accepted.1 (UInt16.toNat_inj.mp zero)
    split
    · exact .throw _
    · refine .step (sub_computes (Nat.pos_of_ne_zero positive)) ?_
      rw [dif_pos ⟨few,below accepted⟩]
      exact .pure _
  · exact .throw _

def machineAttribute (opened : InodeFork) (name : AttrName) : Machine ε DirectoryEntry := do
  let length ← name.machineRecordLength
  return ⟨name.fullName,opened.inode,name.nameIndex,length,none⟩

def machineAttrLeaf (opened : InodeFork) (expected : Option Nat) (offset : Nat) (block : Bytes) :
    Machine VolumeError (AttrContents expected) :=
  if meets expected 0 then do
    let leaf ← (AttrLeaf.machineDecode opened.version block).located offset
    let names ← (leaf.machineNames block).located offset
    let entries ← names.mapM opened.machineAttribute
    return .entries entries
  else throw (.corruption offset .attrLeafLevel)

theorem machineAttrLeaf_computes {offset : Nat} (small : block.size < 0x100000000) :
    (opened.machineAttrLeaf expected offset block).Computes (opened.attrLeafContents expected offset block) := by
  unfold machineAttrLeaf attrLeafContents
  split
  · refine .bind ((AttrLeaf.machineDecode_computes _ block).located offset) fun leaf _ => ?_
    refine .bind ((leaf.machineNames_computes block).located offset) fun names read => ?_
    have entries : (names.mapM opened.machineAttribute : Machine VolumeError _).Computes
        (.ok (names.map opened.attributeEntry)) := by
      refine mapM_pure_computes fun name member => ?_
      have short := AttrLeaf.names_inside (located_eq_ok.mp read) member
      exact .step (AttrName.machineRecordLength_computes (by omega)) (.pure _)
    exact .step entries (.pure _)
  · exact .throw _

def machineAttrBlock (opened : InodeFork) (expected : Option Nat) (offset : Nat) (block : Bytes) :
    Machine VolumeError (AttrContents expected) := do
  let header ← ((DaHeader.decode opened.version).onMachine block).located offset
  opened.machineSeal .attrBlock offset block
  lift (opened.checkOwner .blockOwner offset header.owner)
  match header.kind with
  | .node => opened.machineAttrNode expected offset block
  | .attrLeaf => opened.machineAttrLeaf expected offset block
  | .dirLeaf1 | .dirLeafN => throw (.signatureMismatch offset (.attrMagic (.ofWord16 header.magic)))

theorem machineAttrBlock_computes {offset : Nat} (small : block.size < 0x100000000) :
    (opened.machineAttrBlock expected offset block).Computes (opened.examineAttrBlock expected offset block) := by
  refine .bind ((Decoder.onMachine_computes _ block).located offset) fun header _ => ?_
  refine .bind (opened.machineSeal_computes .attrBlock offset block) fun _ _ => .bind (.lift _) fun _ _ => ?_
  cases header.kind with
  | node => exact machineAttrNode_computes offset
  | attrLeaf => exact machineAttrLeaf_computes small
  | dirLeaf1 => exact .throw _
  | dirLeafN => exact .throw _

def machineAttrBlockOffset (opened : InodeFork) (extents : List Extent) (block : Nat) : Machine VolumeError Nat := do
  match ← opened.machineLogicalOffset extents block with
  | none => throw (.corruption opened.position (.attrBlockUnmapped block))
  | some offset => return offset

theorem machineAttrBlockOffset_computes (opened : InodeFork) (extents : List Extent) (block : Nat) :
    (opened.machineAttrBlockOffset extents block).Computes (opened.attrBlockOffset extents block) := by
  unfold attrBlockOffset
  refine .matched (opened.machineLogicalOffset_computes extents block) (fun error failed => by rw [failed]) fun found placed => ?_
  rw [placed]
  cases found with
  | none => exact .throw _
  | some offset => exact .pure _

def machineVisitAttributes (opened : InodeFork) (extents : List Extent) (visited : List Nat)
    (entries : List DirectoryEntry) : PendingAttrs → MachineRun (List DirectoryEntry × List Nat)
  | [] => return (entries,visited)
  | (block,expected) :: rest =>
    if block ∈ visited then .fail (.corruption opened.position (.attrBlockTwice block))
    else do
      let offset ← .compute (opened.machineAttrBlockOffset extents block)
      let bytes ← .read (some .attrBlock) offset opened.blockSize.bytes
      match ← .compute (opened.machineAttrBlock expected offset bytes) with
      | .entries found => machineVisitAttributes opened extents (block :: visited) (entries ++ found) rest
      | .children blocks level _ _ =>
        machineVisitAttributes opened extents (block :: visited) entries
          (pushReversed (blocks.map fun child => (child.toNat,some level)) rest)
termination_by pending => PendingAttrs.weight pending
decreasing_by
  · exact PendingAttrs.weight_rest _ _
  · exact PendingAttrs.weight_children _ _ ‹_› ‹_›

theorem machineVisitAttributes_runs (extents : List Extent) (visited : List Nat) (entries : List DirectoryEntry)
    (pending : PendingAttrs) :
    (opened.machineVisitAttributes extents visited entries pending).Runs device
      (opened.visitAttributes extents visited entries pending) := by
  fun_induction opened.visitAttributes extents visited entries pending with
  | case1 visited entries =>
    rw [machineVisitAttributes]
    exact .pure _
  | case2 visited entries block expected rest member =>
    rw [machineVisitAttributes,if_pos member]
    exact .fail _
  | case3 visited entries block expected rest new error unplaced =>
    rw [machineVisitAttributes,if_neg new]
    exact .refuse ((opened.machineAttrBlockOffset_computes extents block).ended unplaced)
  | case4 visited entries block expected rest new offset placed ihLeaf ihNode =>
    rw [machineVisitAttributes,if_neg new]
    refine .step ((opened.machineAttrBlockOffset_computes extents block).ended placed) (.reading fun bytes long => ?_)
    refine .matched (machineAttrBlock_computes (block_small long)) (fun error failed => by rw [failed]) fun contents found => ?_
    rw [found]
    cases contents with
    | entries leaf => exact ihLeaf leaf
    | children blocks level few below => exact ihNode blocks level few below

def machineListAttributes (opened : InodeFork) : MachineRun (List DirectoryEntry) :=
  match opened.fork.layout with
  | .shortform => .fail (.unsupportedLayout (.shortformAttributes opened.inode))
  | .extents _ | .btree => do
    let map ← opened.machineWalk .directory
    if map.extents.isEmpty then return []
    else
      let (entries,_) ← opened.machineVisitAttributes map.extents [] [] [(0,none)]
      return entries

theorem machineListAttributes_runs : opened.machineListAttributes.Runs device opened.listAttributes := by
  have mapped : (opened.machineWalk .directory >>= fun map =>
      if map.extents.isEmpty then return []
      else opened.machineVisitAttributes map.extents [] [] [(0,none)] >>= fun found => return found.1).Runs device
      (opened.walk .directory >>= fun map =>
        if map.extents.isEmpty then return []
        else opened.visitAttributes map.extents [] [] [(0,none)] >>= fun found => return found.1) := by
    refine .bind (machineWalk_runs .directory) fun map _ => ?_
    split
    · exact .pure _
    · exact .bind (machineVisitAttributes_runs _ _ _ _) fun found _ => .pure _
  unfold machineListAttributes listAttributes
  cases opened.fork.layout with
  | shortform => exact .fail _
  | extents count => exact mapped
  | btree => exact mapped

end Attributes
end InodeFork
end XfsReader
