import XfsReader.Address
import XfsReader.BlockMap
import XfsReader.VolumeError

-- What the caller says of a volume, and how far a traversal may go.
namespace XfsReader

structure Geometry where
  blockSize : UInt32
  agBlocks : UInt32
  agBlockLog : UInt8
  -- Directory entries carry a file type; version 5 entries always do.
  dirFileType : Bool
  magics : BtreeMagics
deriving DecidableEq

namespace Geometry

def ofSizes (blockSize agBlocks : UInt32) (agBlockLog : UInt8) : Geometry :=
  ⟨blockSize,agBlocks,agBlockLog,false,.standard⟩

def validate (geometry : Geometry) : Except VolumeError AgGeometry :=
  match BlockSize.ofBytes? geometry.blockSize with
  | none => .error (.format (.badBlockSize geometry.blockSize))
  | some size =>
    if geometry.agBlocks = 0 then .error (.format .noGroupBlocks)
    else if geometry.agBlockLog < 1 ∨ 31 < geometry.agBlockLog then
      .error (.format (.badGroupLog geometry.agBlockLog))
    else .ok ⟨size,geometry.agBlocks,geometry.agBlockLog⟩

end Geometry

structure WalkOptions where
  maxDepth : UInt16
  verifyOwner : Bool
  verifyChecksums : Bool
deriving DecidableEq

def WalkOptions.standard : WalkOptions := ⟨8,true,true⟩

end XfsReader
