import XfsReader.Fork.Table
import XfsReader.Geometry
import XfsReader.Traversal

-- A volume: its geometry, its forks, and the checks asked for. It is read through traversals, so
-- the device is no part of it.
namespace XfsReader

structure Volume where
  geometry : Geometry
  ag : AgGeometry
  forks : ForkTable
  options : WalkOptions
deriving DecidableEq

namespace Volume

def ofGeometry (geometry : Geometry) (forks : ForkTable) : Except VolumeError Volume :=
  match geometry.validate with
  | .error error => .error error
  | .ok ag => .ok ⟨geometry,ag,forks,.standard⟩

def withOptions (volume : Volume) (options : WalkOptions) : Volume := {volume with options := options}

def blockSize (volume : Volume) : BlockSize := volume.ag.blockSize

end Volume

structure InodeFork where
  volume : Volume
  inode : UInt64
  fork : Fork
deriving DecidableEq

def Volume.openFork (volume : Volume) (inode : UInt64) (kind : ForkKind) : Except VolumeError InodeFork :=
  match volume.forks.find inode kind with
  | .error error => .error error
  | .ok fork => .ok ⟨volume,inode,fork⟩

theorem Volume.openFork_volume {volume : Volume} {inode : UInt64} {kind : ForkKind} {opened : InodeFork}
    (known : volume.openFork inode kind = .ok opened) : opened.volume = volume := by
  unfold openFork at known
  split at known
  · cases known
  · cases known
    rfl

namespace InodeFork

def ag (opened : InodeFork) : AgGeometry := opened.volume.ag

def options (opened : InodeFork) : WalkOptions := opened.volume.options

def version (opened : InodeFork) : FormatVersion := opened.fork.version

def position (opened : InodeFork) : Nat := opened.fork.position

def blockSize (opened : InodeFork) : BlockSize := opened.volume.blockSize

def typed (opened : InodeFork) : Bool :=
  opened.version = .v5 || opened.volume.geometry.dirFileType

def readLiteral (opened : InodeFork) : Traversal Bytes :=
  .request none opened.position opened.fork.size.toNat

def readBlock (opened : InodeFork) (role : BlockRole) (offset : Nat) : Traversal Bytes :=
  .request (some role) offset opened.blockSize.bytes

def checkSeal (opened : InodeFork) (role : BlockRole) (offset : Nat) (block : Bytes) :
    Except VolumeError Unit :=
  if opened.options.verifyChecksums ∧ opened.version = .v5 then located offset (role.verify block)
  else .ok ()

def checkOwner (opened : InodeFork) (cause : UInt64 → UInt64 → Cause) (offset : Nat)
    (owner : Option UInt64) : Except VolumeError Unit :=
  match owner with
  | none => .ok ()
  | some owner =>
    if opened.options.verifyOwner ∧ owner ≠ opened.inode then
      .error (.corruption offset (cause owner opened.inode))
    else .ok ()

section Checks

variable {opened : InodeFork} {role : BlockRole} {cause : UInt64 → UInt64 → Cause} {offset : Nat} {block : Bytes}
  {owner : Option UInt64} {error : VolumeError}

theorem checkSeal_eq_ok : opened.checkSeal role offset block = .ok () ↔
    (opened.options.verifyChecksums = true → opened.version = .v5 → role.verify block = .ok ()) := by
  unfold checkSeal
  split
  · rename_i asked
    cases role.verify block <;> simp [asked]
  · rename_i free
    simp only [true_iff]
    exact fun checks version => absurd ⟨checks,version⟩ free

theorem checkSeal_eq_error : opened.checkSeal role offset block = .error error ↔
    opened.options.verifyChecksums = true ∧ opened.version = .v5 ∧
      ∃ broken, role.verify block = .error broken ∧ .ofDecode offset broken = error := by
  unfold checkSeal
  split
  · rename_i asked
    cases role.verify block <;> simp [asked]
  · rename_i free
    simp only [reduceCtorEq,false_iff]
    exact fun refused => free ⟨refused.1,refused.2.1⟩

theorem checkOwner_eq_ok : opened.checkOwner cause offset owner = .ok () ↔
    (opened.options.verifyOwner = true → ∀ known, owner = some known → known = opened.inode) := by
  unfold checkOwner
  cases owner with
  | none => simp
  | some known =>
    dsimp only
    split
    · rename_i foreign
      simp [foreign]
    · rename_i home
      simpa using home

theorem checkOwner_eq_error : opened.checkOwner cause offset owner = .error error ↔
    opened.options.verifyOwner = true ∧ ∃ known, owner = some known ∧ known ≠ opened.inode ∧
      .corruption offset (cause known opened.inode) = error := by
  unfold checkOwner
  cases owner with
  | none => simp
  | some known =>
    dsimp only
    split
    · rename_i foreign
      simp [foreign]
    · rename_i home
      simp only [reduceCtorEq,false_iff]
      rintro ⟨asked,_,same,other,_⟩
      cases same
      exact home ⟨asked,other⟩

end Checks

def runOffset (opened : InodeFork) (start : UInt64) (index : Nat) (blame : Nat) : Except VolumeError Nat :=
  located blame (opened.ag.runByteOffset start index)

def logicalOffset (opened : InodeFork) (extents : List Extent) (block : Nat) :
    Except VolumeError (Option Nat) :=
  match Extent.findBlock? extents block with
  | none => .ok none
  | some extent =>
    (opened.runOffset extent.startBlock (block - extent.startOffset.toNat) 0).map some

end InodeFork
end XfsReader
