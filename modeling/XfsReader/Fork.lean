import XfsReader.Magic

-- A fork is one of the byte streams of an inode. Its literal area, inside the inode, holds the
-- contents, the extents, or the root of a B+tree of extents.
namespace XfsReader

inductive ForkKind where
  | data
  | attr
deriving DecidableEq

def ForkKind.text : ForkKind → String
  | .data => "Data"
  | .attr => "Attr"

inductive ForkLayout where
  | shortform
  | extents (count : UInt32)
  | btree
deriving DecidableEq

structure Fork where
  offset : UInt64
  size : UInt32
  layout : ForkLayout
  version : FormatVersion
deriving DecidableEq

namespace Fork

def position (fork : Fork) : Nat := fork.offset.toNat

end Fork
end XfsReader
