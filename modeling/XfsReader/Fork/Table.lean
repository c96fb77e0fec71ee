import XfsReader.VolumeError

-- The forks that are known of a volume, newest first: a later fork of the same inode and kind
-- stands in for the earlier.
namespace XfsReader

structure ForkTable where
  entries : List ((UInt64 × ForkKind) × Fork)
deriving DecidableEq

namespace ForkTable

def empty : ForkTable := ⟨[]⟩

def insert (table : ForkTable) (inode : UInt64) (kind : ForkKind) (fork : Fork) : ForkTable :=
  ⟨((inode,kind),fork) :: table.entries⟩

def find (table : ForkTable) (inode : UInt64) (kind : ForkKind) : Except VolumeError Fork :=
  match table.entries.lookup (inode,kind) with
  | some fork => .ok fork
  | none => .error (.notFound (.missingFork kind inode))

theorem find_insert (table : ForkTable) (inode : UInt64) (kind : ForkKind) (fork : Fork) :
    (table.insert inode kind fork).find inode kind = .ok fork := by
  simp [find,insert]

theorem find_insert_ne {table : ForkTable} {inode other : UInt64} {kind otherKind : ForkKind} (fork : Fork)
    (different : (other,otherKind) ≠ (inode,kind)) :
    (table.insert inode kind fork).find other otherKind = table.find other otherKind := by
  have unequal : ((other,otherKind) == (inode,kind)) = false := by simpa using different
  simp only [find,insert,List.lookup_cons,unequal]

end ForkTable
end XfsReader
