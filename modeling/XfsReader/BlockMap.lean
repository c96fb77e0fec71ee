import XfsReader.Extent
import XfsReader.SelfDescription

-- Blocks of the B+tree that maps a fork: headers, and the record area after them. A leaf packs
-- extent records; an interior node has as many keys as the area could hold, then the child
-- pointers.
namespace XfsReader

inductive BtreeKind where
  | dataExtents
  | directory
deriving DecidableEq

structure MagicPair where
  v4 : UInt32
  v5 : UInt32
deriving DecidableEq

namespace MagicPair

-- BMAP and BMA3
def standard : MagicPair := ⟨0x424D4150,0x424D4133⟩

def accepted (pair : MagicPair) : MagicSet := MagicSet.ofWords32 [pair.v4,pair.v5]

-- A magic shared by both versions counts as version 5.
def versionOf (pair : MagicPair) (magic : UInt32) : Option FormatVersion :=
  if magic = pair.v5 then some .v5 else if magic = pair.v4 then some .v4 else none

end MagicPair

structure BtreeMagics where
  dataExtents : MagicPair
  directory : MagicPair
deriving DecidableEq

namespace BtreeMagics

def standard : BtreeMagics := ⟨.standard,.standard⟩

def pair (magics : BtreeMagics) : BtreeKind → MagicPair
  | .dataExtents => magics.dataExtents
  | .directory => magics.directory

end BtreeMagics

structure MapHeader where
  magic : UInt32
  level : UInt16
  recordCount : UInt16
  leftSibling : UInt64
  rightSibling : UInt64
  description : Option SelfDescription
deriving DecidableEq

namespace MapHeader

def sizeOf : FormatVersion → Nat
  | .v4 => 24
  | .v5 => 72

def decodeDescription : FormatVersion → Decoder (Option SelfDescription)
  | .v4 => return none
  | .v5 => do
    Decoder.require 0 (sizeOf .v5)
    let blockNumber ← Decoder.be64 24
    let lsn ← Decoder.be64 32
    let uuid ← Decoder.fixed16 40
    let owner ← Decoder.be64 56
    let crc ← Decoder.le32 64
    return some ⟨crc,blockNumber,lsn,uuid,owner⟩

-- What is left to decode once the magic is read.
def decodeAfter (pair : MagicPair) (magic : UInt32) : Decoder MapHeader := do
  Decoder.ofExcept (pair.accepted.check32 "bmbt block" magic)
  match pair.versionOf magic with
  | none => .fail (.invalidField "bb_magic" "magic matched no version")
  | some version =>
    Decoder.require 0 (sizeOf .v4)
    let level ← Decoder.be16 4
    let recordCount ← Decoder.be16 6
    let leftSibling ← Decoder.be64 8
    let rightSibling ← Decoder.be64 16
    let description ← decodeDescription version
    return ⟨magic,level,recordCount,leftSibling,rightSibling,description⟩

-- The magic is judged before anything else is read, and it alone decides the version.
def decode (pair : MagicPair) : Decoder MapHeader := do
  let magic ← Decoder.be32 0
  decodeAfter pair magic

def version (header : MapHeader) : FormatVersion := .ofDescription header.description

def size (header : MapHeader) : Nat := sizeOf header.version

theorem size_le (header : MapHeader) : header.size ≤ 72 := by
  rw [size]
  cases header.version <;> decide

def isLeaf (header : MapHeader) : Bool := header.level = 0

def encodeDescription : Option SelfDescription → List UInt8
  | none => []
  | some description =>
    word64 description.blockNumber ++ word64 description.lsn ++ description.uuid.toList ++
      word64 description.owner ++ littleWord32 description.crc ++ [0,0,0,0]

def encode (header : MapHeader) : List UInt8 :=
  word32 header.magic ++ word16 header.level ++ word16 header.recordCount ++
    word64 header.leftSibling ++ word64 header.rightSibling ++ encodeDescription header.description

theorem length_encode (header : MapHeader) : header.encode.length = header.size := by
  cases present : header.description <;>
    simp [encode,encodeDescription,size,sizeOf,version,FormatVersion.ofDescription,present,word16,word32,
      word64,littleWord32]

def owner (header : MapHeader) : Option UInt64 := header.description.map (·.owner)

-- Records that fit after the header. A key and its pointer take as much room as an extent.
def capacity (header : MapHeader) (block : Bytes) : Nat := (block.size - header.size) / 16

def checkCapacity (header : MapHeader) (block : Bytes) : Except DecodeError Unit :=
  if header.capacity block < header.recordCount.toNat then
    .error (.invalidField "bb_numrecs" "record count exceeds block capacity")
  else .ok ()

def leafExtents (header : MapHeader) (block : Bytes) : Except DecodeError (List Extent) :=
  if !header.isLeaf then
    .error (.invalidField "bb_level" "extent records requested from an interior node")
  else
    match header.checkCapacity block with
    | .error error => .error error
    | .ok () => (Extent.decodeList header.size header.recordCount.toNat).run block

def pointerOffset (header : MapHeader) (block : Bytes) (index : Nat) : Nat :=
  header.size + header.capacity block * 8 + 8 * index

-- Children of an interior node.
def childPointers (header : MapHeader) (block : Bytes) : Except DecodeError (List UInt64) :=
  if header.isLeaf then
    .error (.invalidField "bb_level" "child pointers requested from a leaf")
  else
    match header.checkCapacity block with
    | .error error => .error error
    | .ok () =>
      (Decoder.table (header.pointerOffset block 0) 8 header.recordCount.toNat Decoder.be64).run block

def keys (header : MapHeader) (block : Bytes) : Except DecodeError (List UInt64) :=
  (Decoder.table header.size 8 header.recordCount.toNat Decoder.be64).run block

-- Capacity puts every pointer inside the block.
theorem capacity_inside {header : MapHeader} {block : Bytes} {index : Nat}
    (room : header.recordCount.toNat ≤ header.capacity block) (below : index < header.recordCount.toNat) :
    header.pointerOffset block index + 8 ≤ block.size := by
  rw [pointerOffset]
  rw [capacity] at room ⊢
  omega

theorem length_childPointers {header : MapHeader} {block : Bytes} {pointers : List UInt64}
    (read : header.childPointers block = .ok pointers) :
    pointers.length = header.recordCount.toNat := by
  unfold childPointers at read
  split at read
  · cases read
  · split at read
    · cases read
    · exact (Decoder.table_yields _ _ _ _).run read

end MapHeader
end XfsReader
