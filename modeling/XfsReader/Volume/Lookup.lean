import XfsReader.Volume.Listing

-- Finding one entry by name. Leaf slots with the name's hash lead to candidates in the data
-- segment; a directory without leaves is searched entry by entry.
namespace XfsReader
namespace InodeFork

-- The entry at an address of directory space, if the slot may point there. The sentinel is no
-- entry.
def examineCandidate (opened : InodeFork) (address : UInt32) (within offset : Nat) (block : Bytes) :
    Except VolumeError (Option DirectoryEntry) := do
  let header ← opened.examineDataHeader offset block
  if within < header.entriesOffset then .error (.corruption offset (.addressInHeader address))
  else
    let tag ← located offset ((Decoder.be16 within).run block)
    if tag = freeTag then .error (.corruption offset (.addressUnused address))
    else located offset ((DirectoryEntry.decode opened.typed within).run block)

def candidate (opened : InodeFork) (data : List Extent) (slot : LeafSlot) :
    Traversal (Option DirectoryEntry) := do
  let block := opened.blockSize.blockOf slot.byteOffset
  match ← .ofExcept (opened.logicalOffset data block) with
  | none => .fail (.corruption opened.position (.unmappedAddress slot.address block))
  | some offset =>
    let bytes ← opened.readBlock .dataBlock offset
    .ofExcept (opened.examineCandidate slot.address (opened.blockSize.within slot.byteOffset) offset bytes)

def probe (opened : InodeFork) (data : List Extent) (name : Name) :
    List LeafSlot → Traversal (Option DirectoryEntry)
  | [] => return none
  | slot :: slots => do
    let found ← opened.candidate data slot
    match found.filter fun entry => entry.name = name with
    | some entry => return some entry
    | none => opened.probe data name slots

def slotsOf (leaves : List LeafBlock) (hash : UInt32) : List LeafSlot :=
  (leaves.flatMap LeafBlock.liveSlots).filter fun slot => slot.hash = hash

def lookup (opened : InodeFork) (name : Name) : Traversal (Option DirectoryEntry) :=
  match opened.fork.layout with
  | .shortform => do
    let entries ← opened.shortformEntries
    return entries.find? fun entry => entry.name = name
  | .extents _ | .btree => do
    let map ← opened.walk .directory
    let segments := Segments.split opened.blockSize map.extents
    let leaves ← opened.leafBlocks segments.leaf
    if leaves.isEmpty then
      let entries ← opened.dataEntries segments.data
      return entries.find? fun entry => entry.name = name
    else opened.probe segments.data name (slotsOf leaves (nameHash name))

theorem lookup_unmapped (opened : InodeFork) (layout : opened.fork.layout = .shortform) (name : Name) :
    opened.lookup name = opened.shortformEntries >>= fun entries =>
      return entries.find? fun entry => entry.name = name := by
  rw [lookup,layout]

theorem lookup_mapped (opened : InodeFork) (mapped : opened.fork.layout ≠ .shortform) (name : Name) :
    opened.lookup name = opened.walk .directory >>= fun map =>
      opened.leafBlocks (Segments.split opened.blockSize map.extents).leaf >>= fun leaves =>
        if leaves.isEmpty then
          opened.dataEntries (Segments.split opened.blockSize map.extents).data >>= fun entries =>
            return entries.find? fun entry => entry.name = name
        else opened.probe (Segments.split opened.blockSize map.extents).data name (slotsOf leaves (nameHash name)) := by
  unfold lookup
  split
  · exact absurd ‹_› mapped
  · rfl
  · rfl

end InodeFork

def Volume.lookup (volume : Volume) (inode : UInt64) (name : Name) : Traversal (Option DirectoryEntry) := do
  let opened ← .ofExcept (volume.openFork inode .data)
  opened.lookup name

end XfsReader
