-- The hash by which a directory's leaf blocks index names.
namespace XfsReader

abbrev Name := List UInt8

def rotate7 (hash : UInt32) : UInt32 := (hash <<< 7) ||| (hash >>> 25)

def nameHash (name : Name) : UInt32 :=
  name.foldl (fun hash byte => rotate7 hash ^^^ byte.toUInt32) 0

end XfsReader
