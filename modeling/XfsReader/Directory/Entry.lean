import XfsReader.Decoder
import XfsReader.Directory.NameHash
import XfsReader.Word64

-- A directory entry and its form inside a data block: inode, name length, name, file type where the
-- format has one, padding, and a closing tag.
namespace XfsReader

inductive FileType where
  | unknown
  | regular
  | directory
  | characterDevice
  | blockDevice
  | fifo
  | socket
  | symlink
  | whiteout
deriving DecidableEq

def FileType.ofByte (byte : UInt8) : FileType :=
  match byte.toNat with
  | 1 => .regular
  | 2 => .directory
  | 3 => .characterDevice
  | 4 => .blockDevice
  | 5 => .fifo
  | 6 => .socket
  | 7 => .symlink
  | 8 => .whiteout
  | _ => .unknown

def FileType.toByte : FileType → UInt8
  | .unknown => 0
  | .regular => 1
  | .directory => 2
  | .characterDevice => 3
  | .blockDevice => 4
  | .fifo => 5
  | .socket => 6
  | .symlink => 7
  | .whiteout => 8

theorem FileType.ofByte_toByte (fileType : FileType) : ofByte fileType.toByte = fileType := by
  cases fileType <;> rfl

-- The tag is the entry's offset as recorded on disk, the length what the entry takes up there.
structure DirectoryEntry where
  name : Name
  inode : UInt64
  tag : UInt16
  length : Nat
  fileType : Option FileType
deriving DecidableEq

namespace DirectoryEntry

def dot : Name := [0x2E]
def dotDot : Name := [0x2E,0x2E]

def isDot (entry : DirectoryEntry) : Bool := entry.name = dot
def isDotDot (entry : DirectoryEntry) : Bool := entry.name = dotDot

-- Bytes that an entry takes up: inode, length byte and tag besides the name.
def span (nameLength : Nat) (typed : Bool) : Nat :=
  roundUp (11 + nameLength + (if typed then 1 else 0)) 8

def decodeType (typed : Bool) (offset : Nat) : Decoder (Option FileType) :=
  if typed then do
    let byte ← Decoder.u8 offset
    return some (FileType.ofByte byte)
  else return none

def encodeType : Option FileType → List UInt8
  | none => []
  | some fileType => [fileType.toByte]

-- An empty name is no entry: it closes the entries of a block.
def decode (typed : Bool) (offset : Nat) : Decoder (Option DirectoryEntry) := do
  let inode ← Decoder.be64 offset
  let nameLength ← Decoder.u8 (offset + 8)
  if nameLength = 0 then return none
  else
    let length := span nameLength.toNat typed
    Decoder.require offset length
    let name ← Decoder.bytes (offset + 9) nameLength.toNat
    let fileType ← decodeType typed (offset + 9 + nameLength.toNat)
    let tag ← Decoder.be16 (offset + length - 2)
    return some ⟨name,inode,tag,length,fileType⟩

theorem le_span (nameLength : Nat) (typed : Bool) :
    11 + nameLength + (if typed then 1 else 0) ≤ span nameLength typed := by
  simp only [span,roundUp]
  omega

theorem span_pos (nameLength : Nat) (typed : Bool) : 8 ≤ span nameLength typed := by
  have fits := le_span nameLength typed
  omega

end DirectoryEntry
end XfsReader
