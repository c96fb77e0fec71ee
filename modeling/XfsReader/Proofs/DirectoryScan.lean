import XfsReader.Proofs.DataWindows
import XfsReader.Proofs.EntryScan
import XfsReader.Proofs.ExtentOrder
import XfsReader.Volume.Lookup

-- What listing a directory looks at, and what a candidate of lookup finds in one of the same data
-- blocks.
namespace XfsReader

section Blocks

variable {device : Device} {extents : List Extent} {found : List α}

theorem forBlocks_ok {visit : Nat → Traversal (List α)} {first count : Nat}
    (ran : (forBlocks visit first count).eval device = .ok found) :
    (∀ index, first ≤ index → index < first + count →
      ∃ here, (visit index).eval device = .ok here ∧ ∀ item ∈ here, item ∈ found) ∧
    ∀ item ∈ found, ∃ index here,
      first ≤ index ∧ index < first + count ∧ (visit index).eval device = .ok here ∧ item ∈ here := by
  induction count generalizing first found with
  | zero =>
    cases ran
    exact ⟨fun index low high => absurd high (Nat.not_lt_of_le low),fun item member => (nomatch member)⟩
  | succ count ih =>
    obtain ⟨here,visited,ran⟩ := Traversal.eval_bind_eq_ok.mp ran
    obtain ⟨rest,later,ran⟩ := Traversal.eval_bind_eq_ok.mp ran
    cases ran
    obtain ⟨covers,sources⟩ := ih later
    refine ⟨?_,?_⟩
    · intro index low high
      rcases Nat.eq_or_lt_of_le low with rfl | after
      · exact ⟨here,visited,fun item member => List.mem_append_left rest member⟩
      · obtain ⟨there,ran,kept⟩ := covers index after (by omega)
        exact ⟨there,ran,fun item member => List.mem_append_right here (kept item member)⟩
    · intro item member
      rcases List.mem_append.mp member with now | next
      · exact ⟨first,here,Nat.le_refl _,by omega,visited,now⟩
      · obtain ⟨index,there,low,high,ran,among⟩ := sources item next
        exact ⟨index,there,by omega,by omega,ran,among⟩

theorem forExtents_ok {visit : Extent → Nat → Traversal (List α)}
    (ran : (forExtents visit extents).eval device = .ok found) :
    (∀ extent ∈ extents, ∀ index < extent.blockCount.toNat,
      ∃ here, (visit extent index).eval device = .ok here ∧ ∀ item ∈ here, item ∈ found) ∧
    ∀ item ∈ found, ∃ extent ∈ extents, ∃ index < extent.blockCount.toNat,
      ∃ here, (visit extent index).eval device = .ok here ∧ item ∈ here := by
  induction extents generalizing found with
  | nil =>
    cases ran
    exact ⟨fun extent member => (nomatch member),fun item member => (nomatch member)⟩
  | cons first extents ih =>
    obtain ⟨here,visited,ran⟩ := Traversal.eval_bind_eq_ok.mp ran
    obtain ⟨rest,later,ran⟩ := Traversal.eval_bind_eq_ok.mp ran
    cases ran
    obtain ⟨covers,sources⟩ := ih later
    obtain ⟨within,origins⟩ := forBlocks_ok visited
    refine ⟨?_,?_⟩
    · intro extent member index inside
      rcases List.mem_cons.mp member with rfl | farther
      · obtain ⟨there,ran,kept⟩ := within index (Nat.zero_le _) (by omega)
        exact ⟨there,ran,fun item among => List.mem_append_left rest (kept item among)⟩
      · obtain ⟨there,ran,kept⟩ := covers extent farther index inside
        exact ⟨there,ran,fun item among => List.mem_append_right here (kept item among)⟩
    · intro item member
      rcases List.mem_append.mp member with now | next
      · obtain ⟨index,there,_,inside,ran,among⟩ := origins item now
        exact ⟨first,List.mem_cons_self,index,by omega,there,ran,among⟩
      · obtain ⟨extent,listed,index,inside,there,ran,among⟩ := sources item next
        exact ⟨extent,List.mem_cons_of_mem first listed,index,inside,there,ran,among⟩

theorem forBlocks_eval {visit : Nat → Traversal (List α)} {first count : Nat}
    (ran : (forBlocks visit first count).eval device = .ok found) :
    found = (List.range' first count).flatMap fun index => ((visit index).eval device).toOption.getD [] := by
  induction count generalizing first found with
  | zero =>
    cases ran
    rfl
  | succ count ih =>
    obtain ⟨here,visited,ran⟩ := Traversal.eval_bind_eq_ok.mp ran
    obtain ⟨rest,later,ran⟩ := Traversal.eval_bind_eq_ok.mp ran
    cases ran
    rw [List.range'_succ,List.flatMap_cons,← ih later,visited]
    rfl

-- A visit that comes to its end gives what it found in the order of the blocks.
theorem forExtents_eval {visit : Extent → Nat → Traversal (List α)}
    (ran : (forExtents visit extents).eval device = .ok found) :
    found = extents.flatMap fun extent => (List.range extent.blockCount.toNat).flatMap fun index =>
      ((visit extent index).eval device).toOption.getD [] := by
  induction extents generalizing found with
  | nil =>
    cases ran
    rfl
  | cons extent extents ih =>
    obtain ⟨here,visited,ran⟩ := Traversal.eval_bind_eq_ok.mp ran
    obtain ⟨rest,later,ran⟩ := Traversal.eval_bind_eq_ok.mp ran
    cases ran
    rw [List.flatMap_cons,← ih later,List.range_eq_range',← forBlocks_eval visited]

end Blocks

-- A directory kept in blocks: the extents of its data, its leaf blocks, and all its entries with
-- their places in directory space.
structure DirectoryScan where
  data : List Extent
  leaves : List LeafBlock
  places : List PlacedEntry
deriving DecidableEq

def DirectoryScan.entries (scan : DirectoryScan) : List DirectoryEntry := scan.places.map (·.entry)

def InodeFork.scanDirectory (opened : InodeFork) : Traversal DirectoryScan := do
  let map ← opened.walk .directory
  let segments := Segments.split opened.blockSize map.extents
  let leaves ← opened.leafBlocks segments.leaf
  let places ← opened.dataPlaces segments.data
  return ⟨segments.data,leaves,places⟩

-- One data block as it was scanned: where it was read, where its entries end, and all that the scan
-- stood at.
structure BlockScan where
  offset : Nat
  block : Bytes
  header : DataHeader
  stop : Nat
  items : List (Nat × RegionItem)

namespace BlockScan

def region (scan : BlockScan) : Bytes := (scan.block.toList.take scan.stop).toArray

def places (scan : BlockScan) : List PlacedEntry := scan.items.filterMap RegionItem.place?

structure Of (opened : InodeFork) (device : Device) (extent : Extent) (index : Nat) (scan : BlockScan) : Prop where
  translated : opened.ag.runByteOffset extent.startBlock index = .ok scan.offset
  read : device.read scan.offset opened.blockSize.bytes = .ok scan.block
  examined : opened.examineDataHeader scan.offset scan.block = .ok scan.header
  ended : scan.header.dataEnd scan.block = .ok scan.stop
  traced : RegionTrace scan.region opened.typed scan.header.entriesOffset scan.items

-- Bytes that decode to an entry where the scan did not stand, neither in the header of the block nor
-- at the start of unused space.
structure Ghost (typed : Bool) (within : Nat) (entry : DirectoryEntry) (scan : BlockScan) : Prop where
  past : scan.header.entriesOffset ≤ within
  used : ∃ tag, (Decoder.be16 within).run scan.block = .ok tag ∧ tag ≠ freeTag
  decoded : (DirectoryEntry.decode typed within).run scan.block = .ok (some entry)
  away : ∀ item, (within,item) ∉ scan.items
  passed : PassedOver scan.region scan.items within

theorem Of.within_lt {opened : InodeFork} {device : Device} {extent : Extent} {index : Nat} {scan : BlockScan}
    (scanned : scan.Of opened device extent index) {row : Nat × RegionItem} (stood : row ∈ scan.items) :
    row.1 < opened.blockSize.bytes := by
  obtain ⟨_,inside,_⟩ := scanned.traced.member stood
  obtain ⟨_,_,same⟩ := Device.read_eq_ok.mp scanned.read
  have whole : scan.block.size = opened.blockSize.bytes := by rw [← same,Device.size_region]
  rw [region,List.size_toArray,List.length_take,Array.length_toList,whole] at inside
  omega

end BlockScan

namespace InodeFork

variable {opened : InodeFork} {device : Device}

def blockStart (opened : InodeFork) (extent : Extent) (index : Nat) : Nat :=
  (extent.startOffset.toNat + index) * opened.blockSize.bytes

theorem listDirectory_scans (mapped : opened.fork.layout ≠ .shortform) :
    opened.listDirectory = opened.scanDirectory >>= fun scan => return scan.entries := by
  rw [opened.listDirectory_mapped mapped]
  simp only [scanDirectory,dataEntries,bind_assoc,pure_bind]
  rfl

theorem dataBlock_scan {extent : Extent} {index : Nat} {found : List PlacedEntry}
    (ran : (opened.dataBlock extent index).eval device = .ok found) :
    ∃ scan : BlockScan, scan.Of opened device extent index ∧
      found = scan.places.map fun placed => ⟨opened.blockStart extent index + placed.offset,placed.entry⟩ := by
  obtain ⟨offset,translated,ran⟩ := Traversal.eval_bind_eq_ok.mp ran
  obtain ⟨block,read,ran⟩ := Traversal.eval_bind_eq_ok.mp ran
  obtain ⟨places,examined,ran⟩ := Traversal.eval_bind_eq_ok.mp ran
  rw [Traversal.eval_ofExcept] at translated examined
  rw [readBlock,Traversal.eval_request] at read
  cases ran
  obtain ⟨header,judged,examined⟩ := bind_eq_ok.mp examined
  obtain ⟨scanner,opens,examined⟩ := bind_eq_ok.mp examined
  rw [located_eq_ok] at opens examined
  rw [DataHeader.scan] at opens
  cases ended : header.dataEnd block with
  | error error => simp [ended] at opens
  | ok stop =>
    simp only [ended,EntryScanner.ofBlock] at opens
    split at opens
    · cases opens
    · cases opens
      obtain ⟨items,trace,same⟩ := EntryScanner.entries_trace rfl examined
      exact ⟨⟨offset,block,header,stop,items⟩,⟨located_eq_ok.mp translated,read,judged,ended,trace⟩,by rw [same]; rfl⟩

theorem examineCandidate_stood {scan : BlockScan} {extent : Extent} {index within : Nat} {item : RegionItem}
    (scanned : scan.Of opened device extent index) (stood : (within,item) ∈ scan.items) (address : UInt32) :
    opened.examineCandidate address within scan.offset scan.block =
      match item with
      | .unused _ => .error (.corruption scan.offset (.addressUnused address))
      | .entry found => .ok (some found)
      | .sentinel => .ok none := by
  obtain ⟨past,_,read⟩ := scanned.traced.member stood
  obtain ⟨tag,first,kind⟩ := RegionItem.decode_eq_ok read
  rw [examineCandidate,scanned.examined]
  change (if within < scan.header.entriesOffset then _ else _) = _
  rw [if_neg (Nat.not_lt_of_le past),Decoder.run_take first]
  change (if tag = freeTag then _ else _) = _
  rcases kind with ⟨free,length,gap,small,rfl⟩ | ⟨used,found,decoded,rfl⟩
  · rw [if_pos free]
  · rw [if_neg used,Decoder.run_take decoded]
    cases found <;> rfl

-- The block of a slot is read where the scan read it, for one extent alone can hold it.
theorem candidate_eval {data : List Extent} (ordered : Ordered data) {extent : Extent} {index : Nat}
    {slot : LeafSlot} {scan : BlockScan} (member : extent ∈ data) (inside : index < extent.blockCount.toNat)
    (block : opened.blockSize.blockOf slot.byteOffset = extent.startOffset.toNat + index)
    (scanned : scan.Of opened device extent index) :
    (opened.candidate data slot).eval device =
      opened.examineCandidate slot.address (opened.blockSize.within slot.byteOffset) scan.offset scan.block := by
  have contains : extent.containsBlock (extent.startOffset.toNat + index) := by
    simp [Extent.containsBlock,Extent.endOffset,inside]
  rw [candidate]
  simp only [block,logicalOffset,ordered.findBlock?_eq member contains,Nat.add_sub_cancel_left,runOffset,
    scanned.translated,located_ok,Traversal.eval_bind,Traversal.eval_ofExcept,Except.map,Except.bind,readBlock,
    Traversal.eval_request,scanned.read]

theorem candidate_mapped {data : List Extent} {slot : LeafSlot} {found : Option DirectoryEntry}
    (ran : (opened.candidate data slot).eval device = .ok found) :
    ∃ extent ∈ data, ∃ index < extent.blockCount.toNat,
      opened.blockSize.blockOf slot.byteOffset = extent.startOffset.toNat + index := by
  obtain ⟨place,translated,finished⟩ := Traversal.eval_bind_eq_ok.mp ran
  rw [Traversal.eval_ofExcept,logicalOffset] at translated
  cases sought : Extent.findBlock? data (opened.blockSize.blockOf slot.byteOffset) with
  | none =>
    rw [sought] at translated
    cases translated
    cases finished
  | some extent =>
    have contains : extent.containsBlock (opened.blockSize.blockOf slot.byteOffset) := by
      simpa using List.find?_some sought
    rw [Extent.containsBlock_iff,Extent.endOffset] at contains
    refine ⟨extent,List.mem_of_find?_eq_some sought,
      opened.blockSize.blockOf slot.byteOffset - extent.startOffset.toNat,?_,?_⟩
    · omega
    · omega

end InodeFork

-- What a scan that came to its end knows of the data segment: its extents are in order, each block
-- was scanned, and its places are what the blocks' scans stood at.
structure DirectoryScan.Of (opened : InodeFork) (device : Device) (scan : DirectoryScan) : Prop where
  ordered : Ordered scan.data
  covers : ∀ extent ∈ scan.data, ∀ index < extent.blockCount.toNat,
    ∃ block : BlockScan, block.Of opened device extent index ∧
      ∀ within found, (within,RegionItem.entry found) ∈ block.items →
        ⟨opened.blockStart extent index + within,found⟩ ∈ scan.places
  sources : ∀ placed ∈ scan.places, ∃ extent ∈ scan.data, ∃ index < extent.blockCount.toNat,
    ∃ block : BlockScan, block.Of opened device extent index ∧
      ∃ within, (within,RegionItem.entry placed.entry) ∈ block.items ∧
        placed.offset = opened.blockStart extent index + within

namespace InodeFork

variable {opened : InodeFork} {device : Device} {scan : DirectoryScan}

theorem scanDirectory_of (ran : opened.scanDirectory.eval device = .ok scan) : scan.Of opened device := by
  obtain ⟨map,walked,ran⟩ := Traversal.eval_bind_eq_ok.mp ran
  obtain ⟨leaves,_,ran⟩ := Traversal.eval_bind_eq_ok.mp ran
  obtain ⟨places,scanned,ran⟩ := Traversal.eval_bind_eq_ok.mp ran
  cases ran
  rw [dataPlaces_byExtent] at scanned
  obtain ⟨_,_,scanned⟩ := Traversal.eval_bind_eq_ok.mp scanned
  obtain ⟨covers,sources⟩ := forExtents_ok scanned
  refine ⟨((opened.walk_ordered .directory).eval walked).filter _,?_,?_⟩
  · intro extent member index inside
    obtain ⟨here,ran,kept⟩ := covers extent member index inside
    obtain ⟨block,of,rfl⟩ := dataBlock_scan ran
    refine ⟨block,of,?_⟩
    intro within found stood
    apply kept
    exact List.mem_map.mpr ⟨⟨within,found⟩,List.mem_filterMap.mpr ⟨_,stood,rfl⟩,rfl⟩
  · intro placed member
    obtain ⟨extent,listed,index,inside,here,ran,among⟩ := sources placed member
    obtain ⟨block,of,rfl⟩ := dataBlock_scan ran
    obtain ⟨inner,kept,rfl⟩ := List.mem_map.mp among
    obtain ⟨row,stood,placedAt⟩ := List.mem_filterMap.mp kept
    rw [RegionItem.place?_eq_some] at placedAt
    subst placedAt
    exact ⟨extent,listed,index,inside,block,of,inner.offset,stood,rfl⟩

theorem candidate_placed (scanned : scan.Of opened device) {placed : PlacedEntry} {slot : LeafSlot}
    (member : placed ∈ scan.places) (leads : slot.byteOffset = placed.offset) :
    (opened.candidate scan.data slot).eval device = .ok (some placed.entry) := by
  obtain ⟨extent,listed,index,inside,block,of,within,stood,offset⟩ := scanned.sources placed member
  have short := of.within_lt stood
  have position : slot.byteOffset = within + opened.blockSize.bytes * (extent.startOffset.toNat + index) := by
    rw [leads,offset,blockStart,Nat.mul_comm,Nat.add_comm]
  have blockAt : opened.blockSize.blockOf slot.byteOffset = extent.startOffset.toNat + index := by
    rw [BlockSize.blockOf,position,Nat.add_mul_div_left _ _ opened.blockSize.bytes_pos,Nat.div_eq_of_lt short,
      Nat.zero_add]
  have withinAt : opened.blockSize.within slot.byteOffset = within := by
    rw [BlockSize.within,position,Nat.add_mul_mod_self_left,Nat.mod_eq_of_lt short]
  rw [candidate_eval scanned.ordered listed inside blockAt of,withinAt]
  exact examineCandidate_stood of stood slot.address

def StraySlot (opened : InodeFork) (device : Device) (data : List Extent) (slot : LeafSlot)
    (entry : DirectoryEntry) : Prop :=
  ∃ extent ∈ data, ∃ index < extent.blockCount.toNat, ∃ block : BlockScan, block.Of opened device extent index ∧
    ∃ within < opened.blockSize.bytes,
      slot.byteOffset = opened.blockStart extent index + within ∧ block.Ghost opened.typed within entry

theorem examineCandidate_ok {address : UInt32} {within offset : Nat} {block : Bytes} {header : DataHeader}
    {entry : DirectoryEntry} (examined : opened.examineDataHeader offset block = .ok header)
    (found : opened.examineCandidate address within offset block = .ok (some entry)) :
    header.entriesOffset ≤ within ∧ (∃ tag, (Decoder.be16 within).run block = .ok tag ∧ tag ≠ freeTag) ∧
      (DirectoryEntry.decode opened.typed within).run block = .ok (some entry) := by
  rw [examineCandidate,examined] at found
  change (if within < header.entriesOffset then _ else _) = _ at found
  split at found
  · cases found
  · rename_i past
    obtain ⟨tag,first,found⟩ := bind_eq_ok.mp found
    split at found
    · cases found
    · rename_i used
      exact ⟨Nat.le_of_not_lt past,⟨tag,located_eq_ok.mp first,used⟩,located_eq_ok.mp found⟩

theorem candidate_found (scanned : scan.Of opened device) {slot : LeafSlot} {entry : DirectoryEntry}
    (ran : (opened.candidate scan.data slot).eval device = .ok (some entry)) :
    ⟨slot.byteOffset,entry⟩ ∈ scan.places ∨ opened.StraySlot device scan.data slot entry := by
  obtain ⟨extent,listed,index,inside,blockAt⟩ := candidate_mapped ran
  obtain ⟨block,of,kept⟩ := scanned.covers extent listed index inside
  rw [candidate_eval scanned.ordered listed inside blockAt of] at ran
  have short : opened.blockSize.within slot.byteOffset < opened.blockSize.bytes :=
    Nat.mod_lt _ opened.blockSize.bytes_pos
  have position : slot.byteOffset = opened.blockStart extent index + opened.blockSize.within slot.byteOffset := by
    rw [blockStart,← blockAt,BlockSize.blockOf,BlockSize.within,Nat.div_add_mod']
  obtain ⟨past,tag,decoded⟩ := examineCandidate_ok of.examined ran
  by_cases stands : ∃ item, (opened.blockSize.within slot.byteOffset,item) ∈ block.items
  · obtain ⟨item,stood⟩ := stands
    have found := examineCandidate_stood of stood slot.address
    rw [ran] at found
    cases item with
    | unused length => cases found
    | sentinel => cases found
    | entry other =>
      cases found
      rw [position]
      exact .inl (kept _ entry stood)
  · have passed := (of.traced.stands_or_passes past).resolve_left stands
    have away : ∀ item, (opened.blockSize.within slot.byteOffset,item) ∉ block.items :=
      fun item stood => stands ⟨item,stood⟩
    exact .inr ⟨extent,listed,index,inside,block,of,_,short,position,past,tag,decoded,away,passed⟩

end InodeFork
end XfsReader
