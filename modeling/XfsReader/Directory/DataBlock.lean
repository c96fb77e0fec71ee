import XfsReader.Directory.Leaf
import XfsReader.Directory.Entry

-- Data blocks of a directory: a header, then a region of entries and unused stretches. A directory
-- of one block keeps its leaf slots at the end of that block, with a tail that counts them.
namespace XfsReader

inductive DataForm where
  | multi
  | single
deriving DecidableEq

namespace DataForm

def magic : DataForm → FormatVersion → UInt32
  | .multi, .v4 => 0x58443244
  | .single, .v4 => 0x58443242
  | .multi, .v5 => 0x58444433
  | .single, .v5 => 0x58444233

def all : List DataForm := [.multi,.single]

def ofMagic? (version : FormatVersion) (magic : UInt32) : Option DataForm :=
  all.find? fun form => form.magic version = magic

def accepted (version : FormatVersion) : MagicSet :=
  MagicSet.ofWords32 (all.map fun form => form.magic version)

end DataForm

structure FreeRun where
  start : UInt16
  length : UInt16
deriving DecidableEq

namespace FreeRun

def decode (offset : Nat) : Decoder FreeRun := do
  let start ← Decoder.be16 offset
  let length ← Decoder.be16 (offset + 2)
  return ⟨start,length⟩

def decodeThree (offset : Nat) : Decoder (FreeRun × FreeRun × FreeRun) := do
  let first ← decode offset
  let second ← decode (offset + 4)
  let third ← decode (offset + 8)
  return (first,second,third)

def encode (run : FreeRun) : List UInt8 := word16 run.start ++ word16 run.length

def encodeThree (runs : FreeRun × FreeRun × FreeRun) : List UInt8 :=
  runs.1.encode ++ runs.2.1.encode ++ runs.2.2.encode

end FreeRun

structure BlockTail where
  count : UInt32
  stale : UInt32
deriving DecidableEq

namespace BlockTail

def size : Nat := 8

def decode (block : Bytes) : Except DecodeError BlockTail :=
  match minus? block.size size with
  | none => .error (.insufficientData size 0 block.size)
  | some start =>
    let decoder : Decoder BlockTail := do
      let count ← Decoder.be32 start
      let stale ← Decoder.be32 (start + 4)
      return ⟨count,stale⟩
    decoder.run block

-- The bytes that the slots take up, as far as they can be counted.
def slotBytes? (tail : BlockTail) : Option Nat :=
  (fit64? tail.count.toNat).bind fun count => fit64? (count * LeafSlot.size)

-- Where the slots begin, which must not be before the entries do. The count is taken from the block as it
-- is: each step back from the end may lead out of the block.
def dataEnd (tail : BlockTail) (blockLength entriesStart : Nat) : Except DecodeError Nat :=
  match tail.slotBytes? with
  | none => .error (.integerConversion "block_tail_count")
  | some slotBytes =>
    match ((minus? blockLength size).bind fun stop => minus? stop slotBytes).filter (entriesStart ≤ ·) with
    | none => .error (.invalidField "block_tail_count" "leaf entries overlap the block header")
    | some stop => .ok stop

def slots (tail : BlockTail) (block : Bytes) (entriesStart : Nat) : Except DecodeError (List LeafSlot) :=
  match tail.dataEnd block.size entriesStart with
  | .error error => .error error
  | .ok start =>
    match fit64? tail.count.toNat with
    | none => .error (.integerConversion "block_tail_count")
    | some count => (LeafSlot.decodeList start count).run block

end BlockTail

structure DataHeader where
  form : DataForm
  bestFree : FreeRun × FreeRun × FreeRun
  description : Option SelfDescription
deriving DecidableEq

namespace DataHeader

def prefaceSize : FormatVersion → Nat
  | .v4 => 4
  | .v5 => 48

def entriesOffsetOf (version : FormatVersion) : Nat := roundUp (prefaceSize version + 12) 8

def decodeAfter (version : FormatVersion) (magic : UInt32) : Decoder DataHeader :=
  match DataForm.ofMagic? version magic with
  | none => .fail (.signatureMismatch "dir data block" (DataForm.accepted version) (.ofWord32 magic))
  | some form => do
    let description ← SelfDescription.decodeFor 4 version
    let bestFree ← FreeRun.decodeThree (prefaceSize version)
    Decoder.require 0 (entriesOffsetOf version)
    return ⟨form,bestFree,description⟩

def decode (version : FormatVersion) : Decoder DataHeader := do
  let magic ← Decoder.be32 0
  decodeAfter version magic

def version (header : DataHeader) : FormatVersion := .ofDescription header.description

def magic (header : DataHeader) : UInt32 := header.form.magic header.version

def padding : FormatVersion → List UInt8
  | .v4 => []
  | .v5 => [0,0,0,0]

def encode (header : DataHeader) : List UInt8 :=
  word32 header.magic ++ SelfDescription.encodeFor header.description ++
    FreeRun.encodeThree header.bestFree ++ padding header.version

def entriesOffset (header : DataHeader) : Nat := entriesOffsetOf header.version

def owner (header : DataHeader) : Option UInt64 := header.description.map (·.owner)

def dataEnd (header : DataHeader) (block : Bytes) : Except DecodeError Nat :=
  match header.form with
  | .multi => .ok block.size
  | .single =>
    match BlockTail.decode block with
    | .error error => .error error
    | .ok tail => tail.dataEnd block.size header.entriesOffset

end DataHeader
end XfsReader
