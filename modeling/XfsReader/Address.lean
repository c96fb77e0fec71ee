import XfsReader.BlockSize

-- Block numbers carry their allocation group above a fixed bit and the block within the group below
-- it. The device holds the groups one after another.
namespace XfsReader

structure AgGeometry where
  blockSize : BlockSize
  agBlocks : UInt32
  agBlockLog : UInt8
deriving DecidableEq

namespace AgGeometry

-- Group and relative block. From 64 bits on the whole number is relative.
def parts (ag : AgGeometry) (block : UInt64) : UInt64 × UInt64 :=
  if ag.agBlockLog < 64 then
    let log := ag.agBlockLog.toUInt64
    (block >>> log,block &&& ((1 <<< log) - 1))
  else (0,block)

-- The group number as 32 bits can show it; a wider one shows as the largest.
def groupNumber (ag : AgGeometry) (block : UInt64) : Nat := min (ag.parts block).1.toNat 0xFFFFFFFF

def relativeBlock (ag : AgGeometry) (block : UInt64) : Nat := (ag.parts block).2.toNat

def absoluteBlock (ag : AgGeometry) (block : UInt64) : Except DecodeError Nat :=
  let (group,relative) := ag.parts block
  match (fit64? (group.toNat * ag.agBlocks.toNat)).bind fun base => fit64? (base + relative.toNat) with
  | some absolute => .ok absolute
  | none => .error (.integerConversion "absolute_block")

def byteOffset (ag : AgGeometry) (block : UInt64) : Except DecodeError Nat :=
  match ag.absoluteBlock block with
  | .error error => .error error
  | .ok absolute =>
    match ag.blockSize.blocksToBytes? absolute with
    | some offset => .ok offset
    | none => .error (.integerConversion "block_byte_offset")

def runByteOffset (ag : AgGeometry) (start : UInt64) (index : Nat) : Except DecodeError Nat :=
  match ag.byteOffset start with
  | .error error => .error error
  | .ok base =>
    match (ag.blockSize.blocksToBytes? index).bind fun delta => fit64? (base + delta) with
    | some offset => .ok offset
    | none => .error (.integerConversion "run_byte_offset")

end AgGeometry
end XfsReader
