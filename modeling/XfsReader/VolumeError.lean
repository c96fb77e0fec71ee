import XfsReader.DecodeError
import XfsReader.Fork

-- What can go wrong while a volume is read. The class of an error says whose fault it is, its cause
-- what happened.
namespace XfsReader

inductive Cause where
  | text (words : String)
  | decode (error : DecodeError)
  | noSuchFile
  | readRangeOverflow
  | deviceOffsetOverflow
  | badBlockSize (value : UInt32)
  | noGroupBlocks
  | badGroupLog (value : UInt8)
  | missingFork (kind : ForkKind) (inode : UInt64)
  | shortformMap (inode : UInt64)
  | shortformAttributes (inode : UInt64)
  | recordsExceedFork (count size : Nat)
  | extentOrder (start : UInt64)
  | mapRootTooDeep (level depth : UInt16)
  | mapVersion (magic : UInt32) (found expected : FormatVersion)
  | mapLevel (found expected : Nat)
  | mapOwner (owner inode : UInt64)
  | mapKeyOrder (key previous : UInt64)
  | mapBlockTwice (pointer : UInt64)
  | blockOwner (owner inode : UInt64)
  | attrLeafInDirectory (offset : Nat) (inode : UInt64)
  | unmappedByte (position : Nat)
  | unmappedAddress (address : UInt32) (block : Nat)
  | addressInHeader (address : UInt32)
  | addressUnused (address : UInt32)
  | attrBlockTwice (block : Nat)
  | attrBlockUnmapped (block : Nat)
  | attrNodeLevel (level : UInt16)
  | attrTooDeep (level depth : UInt16)
  | attrLeafLevel
  | attrMagic (magic : Magic)
deriving DecidableEq

namespace Cause

def message : Cause → String
  | .text words => words
  | .decode error => error.message
  | .noSuchFile => "No such file or directory (os error 2)"
  | .readRangeOverflow => "read range overflows u64"
  | .deviceOffsetOverflow => "device offset overflows u64"
  | .badBlockSize value => s!"block_size {value} is not a power of two in 512..=65536"
  | .noGroupBlocks => "ag_blocks must be non-zero"
  | .badGroupLog value => s!"ag_block_log {value} outside 1..=31"
  | .missingFork kind inode => s!"{kind.text} fork of inode {inode}"
  | .shortformMap inode => s!"local fork of inode {inode} has no block map"
  | .shortformAttributes inode => s!"shortform attribute fork of inode {inode}"
  | .recordsExceedFork count size => s!"{count} extent records exceed fork size {size}"
  | .extentOrder start => s!"extent at logical block {start} overlaps or precedes the one before it"
  | .mapRootTooDeep level depth => s!"bmbt root level {level} exceeds supported depth {depth}"
  | .mapVersion magic found expected =>
    s!"bmbt block magic {(Magic.ofWord32 magic).text} is {found.text} but the fork is {expected.text}"
  | .mapLevel found expected => s!"bmbt block at level {found} where {expected} expected"
  | .mapOwner owner inode => s!"bmbt block owned by inode {owner}, not {inode}"
  | .mapKeyOrder key previous => s!"bmbt key {key} follows key {previous}"
  | .mapBlockTwice pointer => s!"bmbt block {pointer} reached twice"
  | .blockOwner owner inode => s!"block owned by inode {owner}, not {inode}"
  | .attrLeafInDirectory offset inode =>
    s!"attribute leaf block at offset {offset} in directory inode {inode}"
  | .unmappedByte position => s!"mapped directory byte {position} has no extent"
  | .unmappedAddress address block => s!"leaf address {address} points at unmapped directory block {block}"
  | .addressInHeader address => s!"leaf address {address} points into the block header"
  | .addressUnused address => s!"leaf address {address} points at unused space"
  | .attrBlockTwice block => s!"attribute block {block} reached twice"
  | .attrBlockUnmapped block => s!"attribute block {block} is not mapped"
  | .attrNodeLevel level => s!"dabtree node at unexpected level {level}"
  | .attrTooDeep level depth => s!"dabtree level {level} exceeds supported depth {depth}"
  | .attrLeafLevel => "attribute leaf where a dabtree node was expected"
  | .attrMagic magic => s!"attribute fork block magic {magic.text} is neither a leaf nor a node"

end Cause

inductive VolumeError where
  | io (cause : Cause)
  | truncatedRead (offset needed actual : Nat)
  | signatureMismatch (offset : Nat) (cause : Cause)
  | unsupportedLayout (cause : Cause)
  | corruption (offset : Nat) (cause : Cause)
  | checksumMismatch (offset : Nat) (cause : Cause)
  | format (cause : Cause)
  | notFound (cause : Cause)
deriving DecidableEq

namespace VolumeError

def message : VolumeError → String
  | .io cause => s!"I/O error: {cause.message}"
  | .truncatedRead offset needed actual =>
    s!"truncated read at offset {offset}: needed {needed} bytes, got {actual}"
  | .signatureMismatch offset cause => s!"signature mismatch at offset {offset}: {cause.message}"
  | .unsupportedLayout cause => s!"unsupported layout: {cause.message}"
  | .corruption offset cause => s!"corrupt metadata at offset {offset}: {cause.message}"
  | .checksumMismatch offset cause => s!"checksum mismatch at offset {offset}: {cause.message}"
  | .format cause => s!"invalid format: {cause.message}"
  | .notFound cause => s!"not found: {cause.message}"

-- The data on the device is damaged or foreign.
def isCorruption : VolumeError → Bool
  | .signatureMismatch .. | .checksumMismatch .. | .corruption .. | .truncatedRead .. => true
  | _ => false

-- The data is sound but of a kind that is not read.
def isUnsupported : VolumeError → Bool
  | .unsupportedLayout .. => true
  | _ => false

def ofDecode (offset : Nat) (error : DecodeError) : VolumeError :=
  match error with
  | .signatureMismatch .. => .signatureMismatch offset (.decode error)
  | .checksumMismatch .. => .checksumMismatch offset (.decode error)
  | .unsupported .. => .unsupportedLayout (.decode error)
  | .insufficientData .. | .invalidField .. | .integerConversion .. => .corruption offset (.decode error)

theorem ofDecode_classified (offset : Nat) (error : DecodeError) :
    (ofDecode offset error).isCorruption || (ofDecode offset error).isUnsupported := by
  cases error <;> rfl

end VolumeError

def located (offset : Nat) (result : Except DecodeError α) : Except VolumeError α :=
  result.mapError (VolumeError.ofDecode offset)

@[simp] theorem located_ok (offset : Nat) (value : α) : located offset (.ok value) = .ok value := rfl

@[simp] theorem located_error (offset : Nat) (error : DecodeError) :
    (located offset (.error error) : Except VolumeError α) = .error (.ofDecode offset error) := rfl

end XfsReader
