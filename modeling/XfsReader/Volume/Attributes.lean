import XfsReader.Attribute
import XfsReader.Volume.Mapping

-- Listing the attributes of an inode. Logical block zero of the fork is an attribute leaf or the
-- root of a tree of them, which is walked with a list of blocks still to visit, leftmost first.
namespace XfsReader

-- Blocks still to visit, each with the level that it must be at; none for the root, whose level is
-- its own affair.
abbrev PendingAttrs := List (Nat × Option Nat)

namespace PendingAttrs

-- A root stands above every level that a node can state.
def rank : Option Nat → Nat
  | none => 65536
  | some level => level

def weight (pending : PendingAttrs) : Nat :=
  pending.foldr (fun item total => levelWeight (rank item.2) + total) 0

theorem weight_cons (item : Nat × Option Nat) (rest : PendingAttrs) :
    weight (item :: rest) = levelWeight (rank item.2) + weight rest := rfl

theorem weight_rest (item : Nat × Option Nat) (rest : PendingAttrs) : weight rest < weight (item :: rest) := by
  rw [weight_cons]
  exact Nat.lt_add_of_pos_left (levelWeight_pos _)

theorem weight_level (blocks : List UInt32) (level : Nat) (rest : PendingAttrs) :
    weight (blocks.map (fun block => (block.toNat,some level)) ++ rest) =
      blocks.length * levelWeight level + weight rest := by
  induction blocks with
  | nil => simp
  | cons block blocks ih =>
    simp only [List.map_cons,List.cons_append,weight_cons,rank,ih,List.length_cons,Nat.succ_mul]
    omega

theorem weight_children {blocks : List UInt32} {level : Nat} {expected : Option Nat} (block : Nat)
    (rest : PendingAttrs) (few : blocks.length < 65536) (below : level < rank expected) :
    weight (pushReversed (blocks.map fun child => (child.toNat,some level)) rest) <
      weight ((block,expected) :: rest) := by
  rw [pushReversed_eq,weight_level]
  change _ < levelWeight (rank expected) + weight rest
  have fits := Nat.mul_lt_mul_of_pos_right few (levelWeight_pos level)
  have scale := levelWeight_succ level
  have raised : levelWeight (level + 1) ≤ levelWeight (rank expected) := levelWeight_mono below
  omega

end PendingAttrs

-- What an attribute block holds. A node's children are all at one level, below what was expected of
-- the node.
inductive AttrContents (expected : Option Nat) where
  | entries (found : List DirectoryEntry)
  | children (blocks : List UInt32) (level : Nat) (few : blocks.length < 65536)
      (below : level < PendingAttrs.rank expected)

namespace InodeFork

def meets (expected : Option Nat) (level : Nat) : Bool :=
  match expected with
  | none => true
  | some expected => expected = level

theorem meets_rank {expected : Option Nat} {level : Nat} (met : meets expected level)
    (small : level < 65536) : level ≤ PendingAttrs.rank expected := by
  cases expected with
  | none => exact Nat.le_of_lt small
  | some expected => simp only [meets,decide_eq_true_eq] at met; exact Nat.le_of_eq met.symm

def attributeEntry (opened : InodeFork) (name : AttrName) : DirectoryEntry :=
  ⟨name.fullName,opened.inode,name.nameIndex,name.recordLength,none⟩

def attrNodeContents (opened : InodeFork) (expected : Option Nat) (offset : Nat) (block : Bytes) :
    Except VolumeError (AttrContents expected) :=
  match read : (DaNode.decode opened.version).run block with
  | .error error => .error (.ofDecode offset error)
  | .ok node =>
    if accepted : node.level ≠ 0 ∧ meets expected node.level.toNat then
      if opened.options.maxDepth < node.level then
        .error (.unsupportedLayout (.attrTooDeep node.level opened.options.maxDepth))
      else
        .ok (.children (node.entries.map (·.before)) (node.level.toNat - 1)
          (by rw [List.length_map]; exact (DaNode.decode_yields _).run read)
          (by
            have positive : node.level.toNat ≠ 0 := fun zero => accepted.1 (UInt16.toNat_inj.mp zero)
            have bound := meets_rank accepted.2 node.level.toNat_lt
            omega))
    else .error (.corruption offset (.attrNodeLevel node.level))

theorem attrNodeContents_undecoded {block : Bytes} {error : DecodeError} (opened : InodeFork)
    (expected : Option Nat) (offset : Nat)
    (read : (DaNode.decode opened.version).run block = .error error) :
    opened.attrNodeContents expected offset block = .error (.ofDecode offset error) := by
  unfold attrNodeContents
  split
  · rename_i other again
    cases read.symm.trans again
    rfl
  · cases read.symm.trans ‹_›

-- A node's contents carry two proofs, which are whatever they are.
theorem attrNodeContents_node {block : Bytes} {node : DaNode} (opened : InodeFork) (expected : Option Nat)
    (offset : Nat) (read : (DaNode.decode opened.version).run block = .ok node) :
    ∃ (few : (node.entries.map (·.before)).length < 65536)
      (below : node.level ≠ 0 ∧ meets expected node.level.toNat → node.level.toNat - 1 < PendingAttrs.rank expected),
      opened.attrNodeContents expected offset block =
        if accepted : node.level ≠ 0 ∧ meets expected node.level.toNat then
          if opened.options.maxDepth < node.level then
            .error (.unsupportedLayout (.attrTooDeep node.level opened.options.maxDepth))
          else .ok (.children (node.entries.map (·.before)) (node.level.toNat - 1) few (below accepted))
        else .error (.corruption offset (.attrNodeLevel node.level)) := by
  unfold attrNodeContents
  split
  · cases read.symm.trans ‹_›
  · rename_i other again
    obtain rfl : node = other := Except.ok.inj (read.symm.trans again)
    refine ⟨?few,?below,rfl⟩
    case few => rw [List.length_map]; exact (DaNode.decode_yields _).run read
    case below =>
      rintro ⟨inner,met⟩
      have bound := meets_rank met node.level.toNat_lt
      have positive : node.level.toNat ≠ 0 := fun zero => inner (UInt16.toNat_inj.mp zero)
      omega

def attrLeafContents (opened : InodeFork) (expected : Option Nat) (offset : Nat) (block : Bytes) :
    Except VolumeError (AttrContents expected) :=
  if meets expected 0 then do
    let leaf ← located offset ((AttrLeaf.decode opened.version).run block)
    let names ← located offset (leaf.names.run block)
    return .entries (names.map opened.attributeEntry)
  else .error (.corruption offset .attrLeafLevel)

-- Magic, checksum, owner, and only then the contents by kind.
def examineAttrBlock (opened : InodeFork) (expected : Option Nat) (offset : Nat) (block : Bytes) :
    Except VolumeError (AttrContents expected) := do
  let header ← located offset ((DaHeader.decode opened.version).run block)
  opened.checkSeal .attrBlock offset block
  opened.checkOwner .blockOwner offset header.owner
  match header.kind with
  | .node => opened.attrNodeContents expected offset block
  | .attrLeaf => opened.attrLeafContents expected offset block
  | .dirLeaf1 | .dirLeafN => .error (.signatureMismatch offset (.attrMagic (.ofWord16 header.magic)))

def attrBlockOffset (opened : InodeFork) (extents : List Extent) (block : Nat) : Except VolumeError Nat :=
  match opened.logicalOffset extents block with
  | .error error => .error error
  | .ok none => .error (.corruption opened.position (.attrBlockUnmapped block))
  | .ok (some offset) => .ok offset

def visitAttributes (opened : InodeFork) (extents : List Extent) (visited : List Nat)
    (entries : List DirectoryEntry) : PendingAttrs → Traversal (List DirectoryEntry × List Nat)
  | [] => .done (entries,visited)
  | (block,expected) :: rest =>
    if block ∈ visited then .fail (.corruption opened.position (.attrBlockTwice block))
    else
      match opened.attrBlockOffset extents block with
      | .error error => .fail error
      | .ok offset =>
        .read ⟨some .attrBlock,offset,opened.blockSize.bytes⟩ fun bytes =>
          match opened.examineAttrBlock expected offset bytes with
          | .error error => .fail error
          | .ok (.entries found) =>
            visitAttributes opened extents (block :: visited) (entries ++ found) rest
          | .ok (.children blocks level _ _) =>
            visitAttributes opened extents (block :: visited) entries
              (pushReversed (blocks.map fun child => (child.toNat,some level)) rest)
termination_by pending => PendingAttrs.weight pending
decreasing_by
  · exact PendingAttrs.weight_rest _ _
  · exact PendingAttrs.weight_children _ _ ‹_› ‹_›

def listAttributes (opened : InodeFork) : Traversal (List DirectoryEntry) :=
  match opened.fork.layout with
  | .shortform => .fail (.unsupportedLayout (.shortformAttributes opened.inode))
  | .extents _ | .btree => do
    let map ← opened.walk .directory
    if map.extents.isEmpty then return []
    else
      let (entries,_) ← opened.visitAttributes map.extents [] [] [(0,none)]
      return entries

theorem listAttributes_unmapped (opened : InodeFork) (layout : opened.fork.layout = .shortform) :
    opened.listAttributes = .fail (.unsupportedLayout (.shortformAttributes opened.inode)) := by
  rw [listAttributes,layout]

theorem listAttributes_mapped (opened : InodeFork) (mapped : opened.fork.layout ≠ .shortform) :
    opened.listAttributes = opened.walk .directory >>= fun map =>
      if map.extents.isEmpty then return []
      else opened.visitAttributes map.extents [] [] [(0,none)] >>= fun found => return found.1 := by
  unfold listAttributes
  split
  · exact absurd ‹_› mapped
  · rfl
  · rfl

end InodeFork

def Volume.listAttributes (volume : Volume) (inode : UInt64) : Traversal (List DirectoryEntry) := do
  let opened ← .ofExcept (volume.openFork inode .attr)
  opened.listAttributes

end XfsReader
