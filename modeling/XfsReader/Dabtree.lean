import XfsReader.SelfDescription

-- Blocks indexed by name hash: the header they share, and interior nodes.
namespace XfsReader

inductive DaKind where
  | dirLeaf1
  | dirLeafN
  | attrLeaf
  | node
deriving DecidableEq

namespace DaKind

def magic : DaKind → FormatVersion → UInt16
  | .dirLeaf1, .v4 => 0xD2F1
  | .dirLeaf1, .v5 => 0x3DF1
  | .dirLeafN, .v4 => 0xD2FF
  | .dirLeafN, .v5 => 0x3DFF
  | .attrLeaf, .v4 => 0xFBEE
  | .attrLeaf, .v5 => 0x3BEE
  | .node, .v4 => 0xFEBE
  | .node, .v5 => 0x3EBE

def all : List DaKind := [.dirLeaf1,.dirLeafN,.attrLeaf,.node]

def ofMagic? (version : FormatVersion) (magic : UInt16) : Option DaKind :=
  all.find? fun kind => kind.magic version = magic

def classify (magic : UInt16) : Option (DaKind × FormatVersion) :=
  match ofMagic? .v4 magic with
  | some kind => some (kind,.v4)
  | none => (ofMagic? .v5 magic).map fun kind => (kind,.v5)

def magics (kinds : List DaKind) (version : FormatVersion) : MagicSet :=
  MagicSet.ofWords16 (kinds.map fun kind => kind.magic version)

theorem ofMagic?_magic (kind : DaKind) (version : FormatVersion) :
    ofMagic? version (kind.magic version) = some kind := by
  cases kind <;> cases version <;> decide

theorem magic_of_ofMagic? {version : FormatVersion} {magic : UInt16} {kind : DaKind}
    (found : ofMagic? version magic = some kind) : kind.magic version = magic := by
  simpa using List.find?_some found

end DaKind

structure DaHeader where
  forward : UInt32
  backward : UInt32
  kind : DaKind
  description : Option SelfDescription
deriving DecidableEq

namespace DaHeader

def version (header : DaHeader) : FormatVersion := .ofDescription header.description

def magic (header : DaHeader) : UInt16 := header.kind.magic header.version

def sizeOf : FormatVersion → Nat
  | .v4 => 12
  | .v5 => 56

def size (header : DaHeader) : Nat := sizeOf header.version

def owner (header : DaHeader) : Option UInt64 := header.description.map (·.owner)

def peekMagic : Decoder UInt16 := Decoder.be16 8

def peekIsAttrLeaf : Decoder Bool := do
  let magic ← peekMagic
  return magic = DaKind.attrLeaf.magic .v4 || magic = DaKind.attrLeaf.magic .v5

def decodeAfter (version : FormatVersion) (magic : UInt16) : Decoder DaHeader :=
  match DaKind.ofMagic? version magic with
  | none => .fail (.signatureMismatch "da block" (DaKind.magics DaKind.all version) (.ofWord16 magic))
  | some kind => do
    Decoder.require 0 (sizeOf version)
    let forward ← Decoder.be32 0
    let backward ← Decoder.be32 4
    let description ← SelfDescription.decodeFor 12 version
    return ⟨forward,backward,kind,description⟩

def decode (version : FormatVersion) : Decoder DaHeader := do
  let magic ← peekMagic
  decodeAfter version magic

def encode (header : DaHeader) : List UInt8 :=
  word32 header.forward ++ word32 header.backward ++ word16 header.magic ++ [0,0] ++
    SelfDescription.encodeFor header.description

def decodeKinds (subject : String) (kinds : List DaKind) (version : FormatVersion) : Decoder DaHeader := do
  let header ← decode version
  if kinds.contains header.kind then return header
  else .fail (.signatureMismatch subject (DaKind.magics kinds version) (.ofWord16 header.magic))

end DaHeader

structure DaEntry where
  hash : UInt32
  before : UInt32
deriving DecidableEq

structure DaNode where
  header : DaHeader
  level : UInt16
  entries : List DaEntry
deriving DecidableEq

namespace DaNode

def entriesOffset : FormatVersion → Nat
  | .v4 => 16
  | .v5 => 64

def decodeEntry (offset : Nat) : Decoder DaEntry := do
  let hash ← Decoder.be32 offset
  let before ← Decoder.be32 (offset + 4)
  return ⟨hash,before⟩

def decode (version : FormatVersion) : Decoder DaNode := do
  let header ← DaHeader.decodeKinds "da node" [.node] version
  let count ← Decoder.be16 header.size
  let level ← Decoder.be16 (header.size + 2)
  let entries ← Decoder.table (entriesOffset version) 8 count.toNat decodeEntry
  return ⟨header,level,entries⟩

def padding : FormatVersion → List UInt8
  | .v4 => []
  | .v5 => [0,0,0,0]

def encodeEntry (entry : DaEntry) : List UInt8 := word32 entry.hash ++ word32 entry.before

def encode (node : DaNode) : List UInt8 :=
  node.header.encode ++ word16 (UInt16.ofNat node.entries.length) ++ word16 node.level ++
    padding node.header.version ++ node.entries.flatMap encodeEntry

theorem decode_yields (version : FormatVersion) :
    (decode version).Yields fun node => node.entries.length < 65536 := by
  refine .bind (.any _) fun header _ => .bind (.any _) fun count _ => .bind (.any _) fun level _ =>
    .bind (Decoder.table_yields _ _ _ _) fun entries same => ?_
  change entries.length < 65536
  rw [same]
  exact count.toNat_lt

end DaNode
end XfsReader
