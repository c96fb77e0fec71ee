import XfsReader.Extent.Index
import XfsReader.Volume.Mapping

-- Where on the device a byte of a fork is. Mapped offsets count only bytes that extents map; file
-- offsets count holes too.
namespace XfsReader

def resolveOffset (size : BlockSize) (extents : List Extent) (offset : Nat) :
    Except VolumeError (Option Extent) :=
  match OffsetIndex.build size extents with
  | .error error => .error (.ofDecode 0 error)
  | .ok index => .ok ((index.lookup offset).map (·.extent))

structure MappedOffset where
  extent : Extent
  deviceOffset : Nat
deriving DecidableEq

def mapOffset (ag : AgGeometry) (extents : List Extent) (offset : Nat) :
    Except VolumeError (Option MappedOffset) :=
  match extents.find? fun extent => extent.covers offset ag.blockSize with
  | none => .ok none
  | some extent =>
    match ag.runByteOffset extent.startBlock (ag.blockSize.blockOf offset - extent.startOffset.toNat) with
    | .error error => .error (.ofDecode 0 error)
    | .ok block =>
      match fit64? (block + ag.blockSize.within offset) with
      | none => .error (.format .deviceOffsetOverflow)
      | some position => .ok (some ⟨extent,position⟩)

def Volume.resolveFileOffset (volume : Volume) (inode : UInt64) (offset : Nat) :
    Traversal (Option MappedOffset) := do
  let extents ← volume.fileExtents inode
  .ofExcept (mapOffset volume.ag extents offset)

end XfsReader
