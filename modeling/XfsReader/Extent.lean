import XfsReader.BlockSize
import XfsReader.Decoder

-- An extent maps a run of logical blocks of a fork to a run of device blocks. On disk it is packed
-- into 16 bytes.
namespace XfsReader

inductive ExtentState where
  | normal
  | unwritten
deriving DecidableEq

structure Extent where
  startOffset : UInt64
  startBlock : UInt64
  blockCount : UInt32
  state : ExtentState
deriving DecidableEq

namespace Extent

def recordSize : Nat := 16

def blockCountMask : UInt64 := 0x1FFFFF
def startOffsetMask : UInt64 := 0x3FFFFFFFFFFFFF
def upperBlockMask : UInt64 := 0x1FF

-- upper: state in bit 63, start offset in bits 62..9, block bits in 8..0
-- lower: block bits in 63..21, block count in 20..0
-- The nine block bits of the upper word are joined to the start block unshifted. Every pair of
-- words is some extent.
def ofWords (upper lower : UInt64) : Extent where
  startOffset := (upper >>> 9) &&& startOffsetMask
  startBlock := (lower >>> 21) ||| (upper &&& upperBlockMask)
  blockCount := (lower &&& blockCountMask).toUInt32
  state := if upper >>> 63 = 1 then .unwritten else .normal

def stateBit : ExtentState → UInt64
  | .normal => 0
  | .unwritten => 0x8000000000000000

def upperWord (extent : Extent) : UInt64 :=
  stateBit extent.state ||| ((extent.startOffset &&& startOffsetMask) <<< 9)

def lowerWord (extent : Extent) : UInt64 :=
  (extent.startBlock <<< 21) ||| (extent.blockCount.toUInt64 &&& blockCountMask)

-- The start block is written into the lower word alone.
def encode (extent : Extent) : List UInt8 :=
  word64 extent.upperWord ++ word64 extent.lowerWord

def ofRecord (raw : Bytes) : Extent := ofWords (Bytes.be64 raw 0) (Bytes.be64 raw 8)

def decode (offset : Nat) : Decoder Extent := do
  Decoder.require offset recordSize
  let upper ← Decoder.be64 offset
  let lower ← Decoder.be64 (offset + 8)
  return ofWords upper lower

def decodeList (offset count : Nat) : Decoder (List Extent) :=
  match fit64? (count * recordSize) with
  | none => .fail (.invalidField "extent_count" "overflow")
  | some length => .slice offset length fun area =>
    .done ((Bytes.chunks area recordSize count).map ofRecord)

def isUnwritten (extent : Extent) : Bool := extent.state = .unwritten

def endOffset (extent : Extent) : Nat := extent.startOffset.toNat + extent.blockCount.toNat

def byteLength (extent : Extent) (size : BlockSize) : Nat := extent.blockCount.toNat * size.bytes

def covers (extent : Extent) (offset : Nat) (size : BlockSize) : Bool :=
  extent.startOffset.toNat * size.bytes ≤ offset && offset < extent.endOffset * size.bytes

def containsBlock (extent : Extent) (block : Nat) : Bool :=
  extent.startOffset.toNat ≤ block && block < extent.endOffset

def findBlock? (extents : List Extent) (block : Nat) : Option Extent :=
  extents.find? fun extent => extent.containsBlock block

theorem length_encode (extent : Extent) : extent.encode.length = recordSize := by
  simp [encode,word64,recordSize]

end Extent
end XfsReader
