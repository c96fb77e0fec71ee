import XfsReader.Proofs.IndexPartition
import XfsReader.Proofs.Translation

-- Stepping over the mapped bytes block by block is going through the extents in order, and through
-- the blocks of each in order. Every position on the way starts a block of some extent.
namespace XfsReader

section Blocks

variable {visit : Extent → Nat → Traversal (List α)}

def Extent.hasBlocks (extent : Extent) : Bool := extent.blockCount ≠ 0

theorem Extent.not_hasBlocks {extent : Extent} (empty : ¬ extent.hasBlocks) : extent.blockCount = 0 := by
  simpa [hasBlocks] using empty

theorem forExtents_hasBlocks (visit : Extent → Nat → Traversal (List α)) (extents : List Extent) :
    forExtents visit (extents.filter Extent.hasBlocks) = forExtents visit extents := by
  induction extents with
  | nil => rfl
  | cons extent extents ih =>
    by_cases filled : extent.hasBlocks
    · rw [List.filter_cons_of_pos filled,forExtents,ih,forExtents]
    · rw [List.filter_cons_of_neg filled,ih,forExtents,Extent.not_hasBlocks filled]
      simp [forBlocks]

theorem mappedBytes_hasBlocks (size : BlockSize) (extents : List Extent) :
    mappedBytes size (extents.filter Extent.hasBlocks) = mappedBytes size extents := by
  induction extents with
  | nil => rfl
  | cons extent extents ih =>
    by_cases filled : extent.hasBlocks
    · rw [List.filter_cons_of_pos filled,mappedBytes,ih,mappedBytes]
    · rw [List.filter_cons_of_neg filled,ih,mappedBytes,Extent.byteLength,Extent.not_hasBlocks filled]
      simp

theorem mappedBytes_append (size : BlockSize) (front back : List Extent) :
    mappedBytes size (front ++ back) = mappedBytes size front + mappedBytes size back := by
  induction front with
  | nil => simp [mappedBytes]
  | cons extent front ih => simp [mappedBytes,ih,Nat.add_assoc]

theorem mappedBytes_replicate (size : BlockSize) (count : Nat) (extent : Extent) :
    mappedBytes size (List.replicate count extent) = count * extent.byteLength size := by
  induction count with
  | zero => simp [mappedBytes]
  | succ count ih => rw [List.replicate_succ,mappedBytes,ih,Nat.succ_mul,Nat.add_comm]

end Blocks

namespace Laid

variable {size : BlockSize} {stop offset : Nat} {windows : List IndexWindow} {window : IndexWindow}

theorem start_dvd (laid : Laid size 0 windows stop) (member : window ∈ windows) : size.bytes ∣ window.start := by
  obtain ⟨front,back,rfl⟩ := List.append_of_mem member
  obtain ⟨middle,before,after⟩ := laid.split
  cases after with
  | cons _ long later =>
    rw [before.stop_eq,Nat.zero_add]
    exact mappedBytes_dvd size _

theorem long (laid : Laid size 0 windows stop) (member : window ∈ windows) :
    window.stop = window.start + window.extent.byteLength size := by
  obtain ⟨front,back,rfl⟩ := List.append_of_mem member
  obtain ⟨middle,before,after⟩ := laid.split
  cases after with
  | cons _ long later => exact long

-- A multiple of the block size within a window is where one of its extent's blocks starts.
theorem block_start (laid : Laid size 0 windows stop) (member : window ∈ windows)
    (inside : window.contains offset) (whole : size.bytes ∣ offset) :
    ∃ block, block < window.extent.blockCount.toNat ∧ offset = window.start + block * size.bytes := by
  simp only [IndexWindow.contains,Bool.and_eq_true,decide_eq_true_eq] at inside
  obtain ⟨block,distance⟩ := Nat.dvd_sub whole (laid.start_dvd member)
  have placed : offset = window.start + block * size.bytes := by
    rw [Nat.mul_comm,← distance]
    omega
  refine ⟨block,?_,placed⟩
  have ends := laid.long member
  rw [Extent.byteLength] at ends
  apply Nat.lt_of_mul_lt_mul_right (a := size.bytes)
  omega

end Laid

namespace OffsetIndex

variable {size : BlockSize} {extents : List Extent} {index : OffsetIndex} {position : Nat}

-- Positions that a scan in steps of a block comes to, as long as nothing stops it.
inductive ScanPosition (size : BlockSize) (index : OffsetIndex) : Nat → Prop
  | first : ScanPosition size index 0
  | next {reached} (before : ScanPosition size index reached) (mapped : reached < index.mappedLength) :
      ScanPosition size index (reached + size.bytes)

theorem ScanPosition.whole (reached : ScanPosition size index position) : size.bytes ∣ position := by
  induction reached with
  | first => exact Nat.dvd_zero _
  | next before mapped ih => exact Nat.dvd_add ih (Nat.dvd_refl _)

theorem ScanPosition.le (built : build size extents = .ok index) (reached : ScanPosition size index position) :
    position ≤ index.mappedLength := by
  induction reached with
  | first => exact Nat.zero_le _
  | next before mapped ih =>
    exact BlockSize.next_block before.whole (mappedLength_whole built).1 mapped

end OffsetIndex

namespace InodeFork

variable {opened : InodeFork} {extents : List Extent} {index : OffsetIndex}

-- Where an entry stands in directory space is nothing that a listing works out.
def listed (places : Traversal (List PlacedEntry)) : Traversal (List DirectoryEntry) := do
  let found ← places
  return found.map (·.entry)

theorem listed_append (first rest : Traversal (List PlacedEntry)) :
    listed (first >>= fun front => rest >>= fun back => return front ++ back) =
      listed first >>= fun front => listed rest >>= fun back => return front ++ back := by
  simp only [listed,bind_assoc,pure_bind,List.map_append]

theorem listed_forBlocks (visit : Nat → Traversal (List PlacedEntry)) (block count : Nat) :
    listed (forBlocks visit block count) = forBlocks (fun block => listed (visit block)) block count := by
  induction count generalizing block with
  | zero => rfl
  | succ count ih => rw [forBlocks,listed_append,ih,forBlocks]

theorem listed_forExtents (visit : Extent → Nat → Traversal (List PlacedEntry)) (extents : List Extent) :
    listed (forExtents visit extents) = forExtents (fun extent block => listed (visit extent block)) extents := by
  induction extents with
  | nil => rfl
  | cons extent extents ih => rw [forExtents,listed_append,ih,listed_forBlocks,forExtents]

-- One block of an extent: translated, read, checked, and scanned.
def blockEntries (opened : InodeFork) (extent : Extent) (block : Nat) : Traversal (List DirectoryEntry) := do
  let offset ← .ofExcept (opened.runOffset extent.startBlock block opened.position)
  let bytes ← opened.readBlock .dataBlock offset
  let found ← .ofExcept (opened.examineDataBlock offset bytes)
  return found.map (·.entry)

def dataEntriesByExtent (opened : InodeFork) (extents : List Extent) : Traversal (List DirectoryEntry) :=
  forExtents opened.blockEntries extents

theorem listed_dataBlock (opened : InodeFork) (extent : Extent) (block : Nat) :
    listed (opened.dataBlock extent block) = opened.blockEntries extent block := by
  simp [listed,dataBlock,blockEntries,Function.comp_def]

theorem dataEntries_byExtent (built : OffsetIndex.build opened.blockSize extents = .ok index) :
    opened.dataEntries extents = opened.dataEntriesByExtent extents := by
  have places : opened.dataPlaces extents = opened.dataPlacesByExtent extents := by
    rw [opened.dataPlaces_byExtent,built]
    rfl
  calc opened.dataEntries extents = listed (opened.dataPlacesByExtent extents) := by rw [← places]; rfl
    _ = forExtents (fun extent block => listed (opened.dataBlock extent block)) extents := listed_forExtents _ _
    _ = opened.dataEntriesByExtent extents := by simp only [listed_dataBlock]; rfl

theorem dataEntries_hasBlocks (built : OffsetIndex.build opened.blockSize extents = .ok index) :
    opened.dataEntries (extents.filter Extent.hasBlocks) = opened.dataEntries extents := by
  have fits := OffsetIndex.build_small built
  rw [← mappedBytes_hasBlocks] at fits
  obtain ⟨fewer,again⟩ := OffsetIndex.build_fits fits
  rw [dataEntries_byExtent again,dataEntries_byExtent built]
  exact forExtents_hasBlocks _ _

-- One turn of the scan: an extent is found for the position, the position starts one of its blocks,
-- that block is scanned, and there is room for the position after it.
structure ScanTurn (opened : InodeFork) (index : OffsetIndex) (position : Nat) (window : IndexWindow)
    (block : Nat) : Prop where
  found : index.lookup position = some window
  inside : block < window.extent.blockCount.toNat
  placed : position = window.start + block * opened.blockSize.bytes
  room : position + opened.blockSize.bytes < 0x10000000000000000
  scanned : opened.scanFrom index position = do
    let first ← opened.dataBlock window.extent block
    let rest ← opened.scanFrom index (position + opened.blockSize.bytes)
    return first ++ rest

-- What is mapped is a number of whole blocks below 2^64, so before its end there is always one more.
theorem scanTurn {position : Nat} (built : OffsetIndex.build opened.blockSize extents = .ok index)
    (reached : OffsetIndex.ScanPosition opened.blockSize index position) (mapped : position < index.mappedLength) :
    ∃ window block, opened.ScanTurn index position window block := by
  have parted := OffsetIndex.build_partitions built
  obtain ⟨window,found⟩ := Option.isSome_iff_exists.mp ((parted.found position).mpr mapped)
  obtain ⟨member,inside⟩ := OffsetIndex.lookup_member found
  obtain ⟨block,below,placed⟩ := parted.laid.block_start member inside reached.whole
  have after := (reached.next mapped).le built
  have small := (OffsetIndex.mappedLength_whole built).2
  have delta : opened.blockSize.blockOf (window.delta position) = block := by
    rw [placed,IndexWindow.delta,Nat.add_sub_cancel_left,BlockSize.blockOf]
    exact Nat.mul_div_cancel block opened.blockSize.bytes_pos
  refine ⟨window,block,found,below,placed,Nat.lt_of_le_of_lt after small,?_⟩
  rw [scanFrom,if_pos mapped,found]
  simp only [delta]

theorem data_blocks_scanned_in_extent_order (opened : InodeFork) {extents : List Extent} {index : OffsetIndex}
    (built : OffsetIndex.build opened.blockSize extents = .ok index) :
    opened.dataEntries extents = opened.dataEntriesByExtent extents ∧
      (∀ position, OffsetIndex.ScanPosition opened.blockSize index position →
        (position = index.mappedLength ∧ opened.scanFrom index position = return []) ∨
          ∃ window block, opened.ScanTurn index position window block) ∧
      opened.dataEntries (extents.filter Extent.hasBlocks) = opened.dataEntries extents := by
  refine ⟨dataEntries_byExtent built,?_,dataEntries_hasBlocks built⟩
  intro position reached
  rcases Nat.eq_or_lt_of_le (reached.le built) with ended | mapped
  · left
    refine ⟨ended,?_⟩
    rw [scanFrom,if_neg (Nat.not_lt_of_le (Nat.le_of_eq ended.symm))]
  · right
    exact scanTurn built reached mapped

-- All but the last block of what 64 bits can count, with an empty extent before the last one.
def fullExtents : List Extent :=
  List.replicate 65536 ⟨0,0,0xFFFFFFFF,.normal⟩ ++ [⟨0,0,0,.normal⟩,⟨0,0,0xFFFF,.normal⟩]

def fullFork : InodeFork where
  volume := ⟨.ofSizes 65536 100 10,⟨⟨16,by decide,by decide⟩,100,10⟩,.empty,.standard⟩
  inode := 7
  fork := ⟨0,32,.extents 2,.v4⟩

theorem mappedBytes_full : mappedBytes fullFork.blockSize fullExtents = 0xFFFFFFFFFFFF0000 := by
  rw [fullExtents,mappedBytes_append,mappedBytes_replicate]
  rfl

theorem data_blocks_scanned_in_extent_order_full :
    ∃ index, OffsetIndex.build fullFork.blockSize fullExtents = .ok index ∧
      index.mappedLength = 0xFFFFFFFFFFFF0000 ∧
      fullFork.dataEntries fullExtents = fullFork.dataEntriesByExtent fullExtents := by
  have fits : mappedBytes fullFork.blockSize fullExtents < 0x10000000000000000 := by
    rw [mappedBytes_full]
    decide
  obtain ⟨index,built⟩ := OffsetIndex.build_fits fits
  refine ⟨index,built,?_,(data_blocks_scanned_in_extent_order fullFork built).1⟩
  rw [OffsetIndex.build_mappedLength built,mappedBytes_full]

end InodeFork
end XfsReader
