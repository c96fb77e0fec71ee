import XfsReader.Decoder

-- What a version 5 block says of itself.
namespace XfsReader

abbrev Uuid := Vector UInt8 16

structure SelfDescription where
  crc : UInt32
  blockNumber : UInt64
  lsn : UInt64
  uuid : Uuid
  owner : UInt64
deriving DecidableEq

namespace SelfDescription

-- The order of directory and attribute blocks. Blocks of the map keep the same fields with the
-- checksum last.
def decode (offset : Nat) : Decoder SelfDescription := do
  let crc ← Decoder.le32 offset
  let blockNumber ← Decoder.be64 (offset + 4)
  let lsn ← Decoder.be64 (offset + 12)
  let uuid ← Decoder.fixed16 (offset + 20)
  let owner ← Decoder.be64 (offset + 36)
  return ⟨crc,blockNumber,lsn,uuid,owner⟩

def encode (description : SelfDescription) : List UInt8 :=
  littleWord32 description.crc ++ word64 description.blockNumber ++ word64 description.lsn ++
    description.uuid.toList ++ word64 description.owner

def decodeFor (offset : Nat) : FormatVersion → Decoder (Option SelfDescription)
  | .v4 => return none
  | .v5 => do
    let description ← decode offset
    return some description

def encodeFor : Option SelfDescription → List UInt8
  | none => []
  | some description => description.encode

theorem length_encode (description : SelfDescription) : description.encode.length = 44 := by
  simp [encode,littleWord32,word64]

end SelfDescription

def FormatVersion.ofDescription : Option SelfDescription → FormatVersion
  | none => .v4
  | some _ => .v5

end XfsReader
