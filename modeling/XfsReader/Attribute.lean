import XfsReader.Dabtree
import XfsReader.Directory.DataBlock

-- Leaf blocks of an attribute fork: a table of entries, each of which points at a name record
-- elsewhere in the block.
namespace XfsReader

inductive AttrNamespace where
  | user
  | trusted
  | secure
deriving DecidableEq

namespace AttrNamespace

-- The secure flag is judged before the trusted one.
def ofFlags (flags : UInt8) : AttrNamespace :=
  if flags &&& 0x04 ≠ 0 then .secure else if flags &&& 0x02 ≠ 0 then .trusted else .user

def labelChars : AttrNamespace → List Char
  | .user => ['u','s','e','r','.']
  | .trusted => ['t','r','u','s','t','e','d','.']
  | .secure => ['s','e','c','u','r','e','.']

def label (space : AttrNamespace) : Name := space.labelChars.map Char.toUInt8

end AttrNamespace

structure AttrEntry where
  hash : UInt32
  nameIndex : UInt16
  flags : UInt8
deriving DecidableEq

namespace AttrEntry

def size : Nat := 8

def isLocal (entry : AttrEntry) : Bool := entry.flags &&& 0x01 ≠ 0

def isIncomplete (entry : AttrEntry) : Bool := entry.flags &&& 0x80 ≠ 0

def space (entry : AttrEntry) : AttrNamespace := .ofFlags entry.flags

def ofRecord (raw : Bytes) : AttrEntry := ⟨Bytes.be32 raw 0,Bytes.be16 raw 4,Bytes.byteAt raw 6⟩

theorem ofRecord_part (bytes : Bytes) (offset : Nat) :
    ofRecord (Bytes.part bytes offset size) =
      ⟨Bytes.be32 bytes offset,Bytes.be16 bytes (offset + 4),Bytes.byteAt bytes (offset + 6)⟩ := by
  simp (disch := decide) only [ofRecord,Bytes.be32,Bytes.be16,Bytes.byteAt,size,Bytes.part_part,Nat.add_zero]

def encode (entry : AttrEntry) : List UInt8 :=
  word32 entry.hash ++ word16 entry.nameIndex ++ [entry.flags,0]

end AttrEntry

-- A value is kept beside its name or in blocks of its own.
inductive AttrValue where
  | inBlock (value : List UInt8)
  | remote (block length : UInt32)
deriving DecidableEq

structure AttrName where
  space : AttrNamespace
  name : Name
  hash : UInt32
  nameIndex : UInt16
  value : AttrValue
deriving DecidableEq

namespace AttrName

def fullName (name : AttrName) : Name := name.space.label ++ name.name

def recordLength (name : AttrName) : Nat :=
  match name.value with
  | .inBlock value => roundUp (3 + name.name.length + value.length) 4
  | .remote _ _ => roundUp (9 + name.name.length) 4

def decodeLocal (offset : Nat) : Decoder (Name × AttrValue) := do
  let valueLength ← Decoder.be16 offset
  let nameLength ← Decoder.u8 (offset + 2)
  let name ← Decoder.bytes (offset + 3) nameLength.toNat
  let value ← Decoder.bytes (offset + 3 + nameLength.toNat) valueLength.toNat
  return (name,.inBlock value)

def decodeRemote (offset : Nat) : Decoder (Name × AttrValue) := do
  let block ← Decoder.be32 offset
  let length ← Decoder.be32 (offset + 4)
  let nameLength ← Decoder.u8 (offset + 8)
  let name ← Decoder.bytes (offset + 9) nameLength.toNat
  return (name,.remote block length)

def decode (entry : AttrEntry) : Decoder AttrName := do
  let (name,value) ←
    if entry.isLocal then decodeLocal entry.nameIndex.toNat else decodeRemote entry.nameIndex.toNat
  return ⟨entry.space,name,entry.hash,entry.nameIndex,value⟩

-- The name record without its rounding.
def encode (name : AttrName) : List UInt8 :=
  match name.value with
  | .inBlock value =>
    word16 (UInt16.ofNat value.length) ++ [UInt8.ofNat name.name.length] ++ name.name ++ value
  | .remote block length =>
    word32 block ++ word32 length ++ [UInt8.ofNat name.name.length] ++ name.name

end AttrName

structure AttrLeaf where
  header : DaHeader
  usedBytes : UInt16
  firstUsed : UInt16
  holes : UInt8
  freeMap : FreeRun × FreeRun × FreeRun
  entries : List AttrEntry
deriving DecidableEq

namespace AttrLeaf

def headerSize : FormatVersion → Nat
  | .v4 => 32
  | .v5 => 80

def decode (version : FormatVersion) : Decoder AttrLeaf := do
  let header ← DaHeader.decodeKinds "attr leaf" [.attrLeaf] version
  let count ← Decoder.be16 header.size
  let usedBytes ← Decoder.be16 (header.size + 2)
  let firstUsed ← Decoder.be16 (header.size + 4)
  let holes ← Decoder.u8 (header.size + 6)
  let freeMap ← FreeRun.decodeThree (header.size + 8)
  .slice (headerSize version) (count.toNat * AttrEntry.size) fun area =>
    .done ⟨header,usedBytes,firstUsed,holes,freeMap,
      (Bytes.chunks area AttrEntry.size count.toNat).map AttrEntry.ofRecord⟩

-- Header and entry table; the name records stand where the entries say.
def encode (leaf : AttrLeaf) : List UInt8 :=
  leaf.header.encode ++ word16 (UInt16.ofNat leaf.entries.length) ++ word16 leaf.usedBytes ++
    word16 leaf.firstUsed ++ [leaf.holes,0] ++ FreeRun.encodeThree leaf.freeMap ++
    DaNode.padding leaf.header.version ++ leaf.entries.flatMap AttrEntry.encode

def names (leaf : AttrLeaf) : Decoder (List AttrName) :=
  (leaf.entries.filter fun entry => !entry.isIncomplete).mapM AttrName.decode

end AttrLeaf
end XfsReader
