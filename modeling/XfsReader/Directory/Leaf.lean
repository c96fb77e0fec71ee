import XfsReader.Dabtree

-- Leaf blocks of a directory: slots that lead from a name's hash to the entry's address. An address
-- counts eight-byte units of directory space, and zero marks a slot that is no longer used.
namespace XfsReader

structure LeafSlot where
  hash : UInt32
  address : UInt32
deriving DecidableEq

namespace LeafSlot

def size : Nat := 8

def isStale (slot : LeafSlot) : Bool := slot.address = 0

def byteOffset (slot : LeafSlot) : Nat := slot.address.toNat * 8

def ofRecord (raw : Bytes) : LeafSlot := ⟨Bytes.be32 raw 0,Bytes.be32 raw 4⟩

theorem ofRecord_part (bytes : Bytes) (offset : Nat) :
    ofRecord (Bytes.part bytes offset size) = ⟨Bytes.be32 bytes offset,Bytes.be32 bytes (offset + 4)⟩ := by
  simp (disch := decide) only [ofRecord,Bytes.be32,size,Bytes.part_part,Nat.add_zero]

def encode (slot : LeafSlot) : List UInt8 := word32 slot.hash ++ word32 slot.address

def decodeList (offset count : Nat) : Decoder (List LeafSlot) :=
  match fit64? (count * size) with
  | none => .fail (.integerConversion "leaf_count")
  | some length => .slice offset length fun area => .done ((Bytes.chunks area size count).map ofRecord)

end LeafSlot

structure LeafBlock where
  header : DaHeader
  stale : UInt16
  slots : List LeafSlot
deriving DecidableEq

namespace LeafBlock

def kinds : List DaKind := [.dirLeaf1,.dirLeafN]

def headerSize : FormatVersion → Nat
  | .v4 => 16
  | .v5 => 64

def decode (version : FormatVersion) : Decoder LeafBlock := do
  let header ← DaHeader.decodeKinds "dir leaf" kinds version
  let count ← Decoder.be16 header.size
  let stale ← Decoder.be16 (header.size + 2)
  Decoder.require 0 (headerSize version)
  let slots ← LeafSlot.decodeList (headerSize version) count.toNat
  return ⟨header,stale,slots⟩

def encode (leaf : LeafBlock) : List UInt8 :=
  leaf.header.encode ++ word16 (UInt16.ofNat leaf.slots.length) ++ word16 leaf.stale ++
    DaNode.padding leaf.header.version ++ leaf.slots.flatMap LeafSlot.encode

def liveSlots (leaf : LeafBlock) : List LeafSlot := leaf.slots.filter fun slot => !slot.isStale

def staleSlots (leaf : LeafBlock) : Nat := leaf.slots.countP fun slot => slot.isStale

end LeafBlock
end XfsReader
