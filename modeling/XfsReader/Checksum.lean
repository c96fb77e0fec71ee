import XfsReader.Decoder

-- CRC-32C, and the checksum that seals a block. The checksum of a block is taken with its own four
-- bytes as zero and stored least significant first.
namespace XfsReader

def crcPolynomial : UInt32 := 0x82F63B78

def crcShift (register : UInt32) : UInt32 :=
  if register &&& 1 = 1 then (register >>> 1) ^^^ crcPolynomial else register >>> 1

def crcByte (register : UInt32) (byte : UInt8) : UInt32 :=
  crcShift <| crcShift <| crcShift <| crcShift <| crcShift <| crcShift <| crcShift <| crcShift <|
    register ^^^ byte.toUInt32

-- Carries a finished checksum on over further bytes.
def crc32cAppend (crc : UInt32) (bytes : List UInt8) : UInt32 := ~~~(bytes.foldl crcByte (~~~crc))

def crc32c (bytes : List UInt8) : UInt32 := crc32cAppend 0 bytes

theorem crc32cAppend_nil (crc : UInt32) : crc32cAppend crc [] = crc := by
  simp [crc32cAppend]

theorem crc32cAppend_append (crc : UInt32) (front back : List UInt8) :
    crc32cAppend crc (front ++ back) = crc32cAppend (crc32cAppend crc front) back := by
  simp [crc32cAppend,List.foldl_append]

namespace Checksum

def width : Nat := 4

def ofBlock (block : Bytes) (offset : Nat) : Except DecodeError UInt32 :=
  match sliceOf block offset width with
  | .error error => .error error
  | .ok _ =>
    let bytes := block.toList
    let front := crc32c (bytes.take offset)
    let field := crc32cAppend front [0,0,0,0]
    .ok (crc32cAppend field (bytes.drop (offset + width)))

def verify (subject : String) (block : Bytes) (offset : Nat) : Except DecodeError Unit :=
  match (Decoder.le32 offset).run block with
  | .error error => .error error
  | .ok stored =>
    match ofBlock block offset with
    | .error error => .error error
    | .ok computed =>
      if stored = computed then .ok () else .error (.checksumMismatch subject stored computed)

-- Whether the checksum was written, and the block as it is left.
def sealInPlace (block : Bytes) (offset : Nat) : Except DecodeError Unit × Bytes :=
  match ofBlock block offset with
  | .error error => (.error error,block)
  | .ok crc => (.ok (),block.overwritten offset (littleWord32 crc))

def sealBlock (block : Bytes) (offset : Nat) : Except DecodeError Bytes :=
  match sealInPlace block offset with
  | (.error error,_) => .error error
  | (.ok (),written) => .ok written

end Checksum
end XfsReader
