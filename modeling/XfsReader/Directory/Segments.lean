import XfsReader.Extent

-- Directory space is split by logical byte offset: data below 32 GiB, leaves and nodes below 64
-- GiB, the free index from there on.
namespace XfsReader

def gibibyte : Nat := 0x40000000
def leafSegmentStart : Nat := 32 * gibibyte
def freeSegmentStart : Nat := 64 * gibibyte

inductive Segment where
  | data
  | leaf
  | free
deriving DecidableEq

def Segment.ofByte (offset : Nat) : Segment :=
  if offset < leafSegmentStart then .data
  else if offset < freeSegmentStart then .leaf
  else .free

-- An extent belongs to the segment that it starts in.
def Extent.segment (extent : Extent) (size : BlockSize) : Segment :=
  Segment.ofByte (extent.startOffset.toNat * size.bytes)

structure Segments where
  data : List Extent
  leaf : List Extent
  free : List Extent
deriving DecidableEq

def Segments.split (size : BlockSize) (extents : List Extent) : Segments where
  data := extents.filter fun extent => extent.segment size = .data
  leaf := extents.filter fun extent => extent.segment size = .leaf
  free := extents.filter fun extent => extent.segment size = .free

end XfsReader
