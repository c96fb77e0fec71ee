import XfsReader.Directory.Entry

-- A directory small enough to be kept in the inode itself: two counts, the parent, then entries one
-- after another. A non-zero second count says that inode numbers take eight bytes instead of four.
namespace XfsReader

structure Shortform where
  parent : UInt64
  entries : List DirectoryEntry
deriving DecidableEq

namespace Shortform

def inodeWidth (wide : Bool) : Nat := if wide then 8 else 4

def decodeInode (wide : Bool) (offset : Nat) : Decoder UInt64 :=
  if wide then Decoder.be64 offset
  else do
    let inode ← Decoder.be32 offset
    return inode.toUInt64

-- Name length, tag, name, file type where the format has one, inode.
def decodeEntry (typed wide : Bool) (offset : Nat) : Decoder DirectoryEntry := do
  let nameLength ← Decoder.u8 offset
  let tag ← Decoder.be16 (offset + 1)
  let name ← Decoder.bytes (offset + 3) nameLength.toNat
  let afterName := offset + 3 + nameLength.toNat
  let fileType ← DirectoryEntry.decodeType typed afterName
  let inodeOffset := if typed then afterName + 1 else afterName
  let inode ← decodeInode wide inodeOffset
  return ⟨name,inode,tag,inodeOffset + inodeWidth wide - offset,fileType⟩

def decodeEntries (typed wide : Bool) : (offset count : Nat) → Decoder (List DirectoryEntry)
  | _, 0 => return []
  | offset, count+1 => do
    let entry ← decodeEntry typed wide offset
    let rest ← decodeEntries typed wide (offset + entry.length) count
    return entry :: rest

theorem decodeEntries_yields (typed wide : Bool) (offset count : Nat) :
    (decodeEntries typed wide offset count).Yields fun found => found.length = count := by
  induction count generalizing offset with
  | zero => exact rfl
  | succ count ih => exact .bind (.any _) fun entry _ => .bind (ih _) fun rest same => congrArg (· + 1) same

def decode (typed : Bool) : Decoder Shortform := do
  let count ← Decoder.u8 0
  let wideCount ← Decoder.u8 1
  let wide := wideCount != 0
  let parent ← decodeInode wide 2
  let entries ← decodeEntries typed wide (2 + inodeWidth wide) count.toNat
  return ⟨parent,entries⟩

def encodeInode (wide : Bool) (inode : UInt64) : List UInt8 :=
  toBigEndian (inodeWidth wide) inode.toNat

def encodeEntry (wide : Bool) (entry : DirectoryEntry) : List UInt8 :=
  UInt8.ofNat entry.name.length :: word16 entry.tag ++ entry.name ++
    DirectoryEntry.encodeType entry.fileType ++ encodeInode wide entry.inode

def encode (wideCount : UInt8) (shortform : Shortform) : List UInt8 :=
  let wide := wideCount != 0
  UInt8.ofNat shortform.entries.length :: wideCount :: encodeInode wide shortform.parent ++
    shortform.entries.flatMap (encodeEntry wide)

end Shortform
end XfsReader
