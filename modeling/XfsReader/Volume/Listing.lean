import XfsReader.Directory.Scanner
import XfsReader.Directory.Segments
import XfsReader.Directory.Shortform
import XfsReader.Extent.Index
import XfsReader.Volume.Mapping

-- Listing a directory: every leaf block is checked, then every data block is scanned in extent
-- order.
namespace XfsReader

-- What a block of the leaf segment turns out to be. Interior nodes are checked and not kept.
inductive LeafContents where
  | leaf (block : LeafBlock)
  | node
deriving DecidableEq

def forBlocks (visit : Nat → Traversal (List α)) : (index count : Nat) → Traversal (List α)
  | _, 0 => return []
  | index, count+1 => do
    let first ← visit index
    let rest ← forBlocks visit (index + 1) count
    return first ++ rest

def forExtents (visit : Extent → Nat → Traversal (List α)) : List Extent → Traversal (List α)
  | [] => return []
  | extent :: extents => do
    let first ← forBlocks (visit extent) 0 extent.blockCount.toNat
    let rest ← forExtents visit extents
    return first ++ rest

namespace InodeFork

-- The directory in the literal area, led by the entries for itself and its parent.
def shortformEntries (opened : InodeFork) : Traversal (List DirectoryEntry) := do
  let literal ← opened.readLiteral
  let shortform ← .ofExcept (located opened.position ((Shortform.decode opened.typed).run literal))
  let fileType := if opened.typed then some FileType.directory else none
  return ⟨DirectoryEntry.dot,opened.inode,0,0,fileType⟩ ::
    ⟨DirectoryEntry.dotDot,shortform.parent,0,0,fileType⟩ :: shortform.entries

-- Magic, checksum, owner, and only then the contents by kind.
def examineLeafBlock (opened : InodeFork) (offset : Nat) (block : Bytes) : Except VolumeError LeafContents := do
  let header ← located offset ((DaHeader.decode opened.version).run block)
  opened.checkSeal .leafBlock offset block
  opened.checkOwner .blockOwner offset header.owner
  match header.kind with
  | .dirLeaf1 | .dirLeafN =>
    let leaf ← located offset ((LeafBlock.decode opened.version).run block)
    return .leaf leaf
  | .node =>
    let _ ← located offset ((DaNode.decode opened.version).run block)
    return .node
  | .attrLeaf => .error (.unsupportedLayout (.attrLeafInDirectory offset opened.inode))

-- A leaf whose stale count is wrong is kept, with a warning.
def keepLeaf (offset : Nat) (contents : LeafContents) : Traversal (List LeafBlock) :=
  match contents with
  | .node => .done []
  | .leaf leaf =>
    if leaf.staleSlots = leaf.stale.toNat then .done [leaf]
    else .warn ⟨offset,leaf.stale.toNat,leaf.staleSlots⟩ (.done [leaf])

def leafBlock (opened : InodeFork) (extent : Extent) (index : Nat) : Traversal (List LeafBlock) := do
  let offset ← .ofExcept (opened.runOffset extent.startBlock index opened.position)
  let block ← opened.readBlock .leafBlock offset
  let contents ← .ofExcept (opened.examineLeafBlock offset block)
  keepLeaf offset contents

def leafBlocks (opened : InodeFork) (extents : List Extent) : Traversal (List LeafBlock) :=
  forExtents opened.leafBlock extents

def examineDataHeader (opened : InodeFork) (offset : Nat) (block : Bytes) : Except VolumeError DataHeader := do
  let header ← located offset ((DataHeader.decode opened.version).run block)
  opened.checkSeal .dataBlock offset block
  opened.checkOwner .blockOwner offset header.owner
  return header

def examineDataBlock (opened : InodeFork) (offset : Nat) (block : Bytes) :
    Except VolumeError (List PlacedEntry) := do
  let header ← opened.examineDataHeader offset block
  let scanner ← located offset (header.scan block opened.typed)
  located offset scanner.entries

-- The entries of one data block, placed in directory space. The block is the one of that index in
-- its extent.
def dataBlock (opened : InodeFork) (extent : Extent) (index : Nat) : Traversal (List PlacedEntry) := do
  let offset ← .ofExcept (opened.runOffset extent.startBlock index opened.position)
  let block ← opened.readBlock .dataBlock offset
  let found ← .ofExcept (opened.examineDataBlock offset block)
  let start := (extent.startOffset.toNat + index) * opened.blockSize.bytes
  return found.map fun placed => ⟨start + placed.offset,placed.entry⟩

def scanFrom (opened : InodeFork) (index : OffsetIndex) (position : Nat) : Traversal (List PlacedEntry) :=
  if position < index.mappedLength then
    match index.lookup position with
    | none => .fail (.corruption opened.position (.unmappedByte position))
    | some window => do
      let first ← opened.dataBlock window.extent (opened.blockSize.blockOf (window.delta position))
      let rest ← opened.scanFrom index (position + opened.blockSize.bytes)
      return first ++ rest
  else return []
termination_by index.mappedLength - position
decreasing_by
  have step := opened.blockSize.bytes_pos
  omega

def dataPlaces (opened : InodeFork) (extents : List Extent) : Traversal (List PlacedEntry) := do
  let index ← .ofExcept (located opened.position (OffsetIndex.build opened.blockSize extents))
  opened.scanFrom index 0

def dataEntries (opened : InodeFork) (extents : List Extent) : Traversal (List DirectoryEntry) := do
  let places ← opened.dataPlaces extents
  return places.map (·.entry)

def listDirectory (opened : InodeFork) : Traversal (List DirectoryEntry) :=
  match opened.fork.layout with
  | .shortform => opened.shortformEntries
  | .extents _ | .btree => do
    let map ← opened.walk .directory
    let segments := Segments.split opened.blockSize map.extents
    let _ ← opened.leafBlocks segments.leaf
    opened.dataEntries segments.data

theorem listDirectory_unmapped (opened : InodeFork) (layout : opened.fork.layout = .shortform) :
    opened.listDirectory = opened.shortformEntries := by
  rw [listDirectory,layout]

theorem listDirectory_mapped (opened : InodeFork) (mapped : opened.fork.layout ≠ .shortform) :
    opened.listDirectory = opened.walk .directory >>= fun map =>
      opened.leafBlocks (Segments.split opened.blockSize map.extents).leaf >>= fun _ =>
        opened.dataEntries (Segments.split opened.blockSize map.extents).data := by
  unfold listDirectory
  split
  · exact absurd ‹_› mapped
  · rfl
  · rfl

end InodeFork

def Volume.listDirectory (volume : Volume) (inode : UInt64) : Traversal (List DirectoryEntry) := do
  let opened ← .ofExcept (volume.openFork inode .data)
  opened.listDirectory

end XfsReader
