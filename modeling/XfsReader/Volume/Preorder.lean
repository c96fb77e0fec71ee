import XfsReader.Volume.Attributes
import XfsReader.Volume.Listing

-- The traversals said again by recursion on the tree: a block is visited, then its children from
-- left to right, each with all that it leads to. The blocks visited so far are handed from one to
-- the next; of a map the tree itself is kept, and what is asked of it is read off at the end. What is
-- required of a block is said again as well, check by check: the first one that fails ends the visit.
namespace XfsReader

def visitEach (visit : α → List κ → Traversal (List β × List κ)) :
    List α → List κ → Traversal (List β × List κ)
  | [], visited => return ([],visited)
  | item :: rest, visited => do
    let (first,visited) ← visit item visited
    let (others,visited) ← visitEach visit rest visited
    return (first ++ others,visited)

-- The blocks of a map below one block, each with the records or the blocks that it leads to.
inductive MapTree where
  | leaf (pointer : UInt64) (extents : List Extent)
  | node (pointer : UInt64) (children : List MapTree)

namespace MapTree

mutual

def extents : MapTree → List Extent
  | .leaf _ found => found
  | .node _ children => extentsOf children

def extentsOf : List MapTree → List Extent
  | [] => []
  | tree :: rest => tree.extents ++ extentsOf rest

end

-- The blocks of the tree, each before those below it.
mutual

def pointers : MapTree → List UInt64
  | .leaf pointer _ => [pointer]
  | .node pointer children => pointer :: pointersOf children

def pointersOf : List MapTree → List UInt64
  | [] => []
  | tree :: rest => tree.pointers ++ pointersOf rest

end

theorem extentsOf_append (front back : List MapTree) :
    extentsOf (front ++ back) = extentsOf front ++ extentsOf back := by
  induction front with
  | nil => rfl
  | cons tree front ih => simp [extentsOf,ih]

theorem pointersOf_append (front back : List MapTree) :
    pointersOf (front ++ back) = pointersOf front ++ pointersOf back := by
  induction front with
  | nil => rfl
  | cons tree front ih => simp [pointersOf,ih]

end MapTree

namespace InodeFork

-- A checksum that does not match, where version 5 has one and the options ask for it.
def brokenSeal? (opened : InodeFork) (role : BlockRole) (block : Bytes) : Option DecodeError :=
  if opened.version = .v5 ∧ opened.options.verifyChecksums then
    match role.verify block with
    | .error error => some error
    | .ok () => none
  else none

-- An owner that is not the inode, where the block names one and the options ask for it.
def foreignOwner? (opened : InodeFork) (owner : Option UInt64) : Option UInt64 :=
  if opened.options.verifyOwner then owner.filter (· ≠ opened.inode) else none

-- The magic comes first, then the version that goes with it.
def mapHeaderAt (opened : InodeFork) (pair : MagicPair) (offset : Nat) (block : Bytes) :
    Except VolumeError MapHeader :=
  match (MapHeader.decode pair).run block with
  | .error error => .error (.ofDecode offset error)
  | .ok header =>
    if header.version = opened.version then .ok header
    else .error (.signatureMismatch offset (.mapVersion header.magic header.version opened.version))

-- The extents of a leaf, or the children of a node, of which the keys must ascend.
def mapItemsAt (header : MapHeader) (offset : Nat) (block : Bytes) :
    Except VolumeError (List Extent ⊕ List UInt64) :=
  if header.level = 0 then
    match header.leafExtents block with
    | .error error => .error (.ofDecode offset error)
    | .ok extents => .ok (.inl extents)
  else
    match header.childPointers block with
    | .error error => .error (.ofDecode offset error)
    | .ok pointers =>
      match header.keys block with
      | .error error => .error (.ofDecode offset error)
      | .ok keys =>
        match (keys.zip keys.tail).find? fun (previous,key) => key ≤ previous with
        | some (previous,key) => .error (.corruption offset (.mapKeyOrder key previous))
        | none => .ok (.inr pointers)

def mapBlockItems (opened : InodeFork) (pair : MagicPair) (level offset : Nat) (block : Bytes) :
    Except VolumeError (List Extent ⊕ List UInt64) :=
  match opened.mapHeaderAt pair offset block with
  | .error error => .error error
  | .ok header =>
    match opened.brokenSeal? .mapBlock block with
    | some error => .error (.ofDecode offset error)
    | none =>
      if header.level.toNat ≠ level then .error (.corruption offset (.mapLevel header.level.toNat level))
      else
        match opened.foreignOwner? header.owner with
        | some owner => .error (.corruption offset (.mapOwner owner opened.inode))
        | none => mapItemsAt header offset block

def visitMapBlock (opened : InodeFork) (pair : MagicPair) (level : Nat)
    (descend : List UInt64 → List UInt64 → Traversal (List MapTree × List UInt64))
    (pointer : UInt64) (visited : List UInt64) : Traversal (List MapTree × List UInt64) :=
  if pointer ∈ visited then .fail (.corruption opened.position (.mapBlockTwice pointer))
  else
    match opened.ag.byteOffset pointer with
    | .error error => .fail (.ofDecode opened.position error)
    | .ok offset =>
      .read ⟨some .mapBlock,offset,opened.blockSize.bytes⟩ fun block =>
        match opened.mapBlockItems pair level offset block with
        | .error error => .fail error
        | .ok (.inl extents) => .done ([.leaf pointer extents],pointer :: visited)
        | .ok (.inr pointers) => do
          let (children,visited) ← descend pointers (pointer :: visited)
          return ([.node pointer children],visited)

-- A block of the map and all below it. Nothing is below level zero.
def mapSubtree (opened : InodeFork) (pair : MagicPair) :
    Nat → UInt64 → List UInt64 → Traversal (List MapTree × List UInt64)
  | 0 => opened.visitMapBlock pair 0 fun _ visited => return ([],visited)
  | level+1 => opened.visitMapBlock pair (level + 1) (visitEach (opened.mapSubtree pair level))

-- The root has no checksum and no owner, and it may be at any level that the options allow.
def walkTreePreorder (opened : InodeFork) (pair : MagicPair) (literal : Bytes) : Traversal ExtentMap :=
  match opened.mapHeaderAt pair opened.position literal with
  | .error error => .fail error
  | .ok root =>
    if opened.options.maxDepth < root.level then
      .fail (.unsupportedLayout (.mapRootTooDeep root.level opened.options.maxDepth))
    else
      match mapItemsAt root opened.position literal with
      | .error error => .fail error
      | .ok (.inl extents) => return ⟨extents,.direct,0⟩
      | .ok (.inr pointers) => do
        let (trees,_) ← visitEach (opened.mapSubtree pair (root.level.toNat - 1)) pointers []
        return ⟨MapTree.extentsOf trees,.tree root.level,(MapTree.pointersOf trees).length⟩

-- A node of the hash tree, with the level of its children.
def attrNodeAt (opened : InodeFork) (expected : Option Nat) (offset : Nat) (block : Bytes) :
    Except VolumeError (List DirectoryEntry ⊕ Nat × List UInt32) :=
  match (DaNode.decode opened.version).run block with
  | .error error => .error (.ofDecode offset error)
  | .ok node =>
    if node.level = 0 ∨ expected.any (· ≠ node.level.toNat) then
      .error (.corruption offset (.attrNodeLevel node.level))
    else if opened.options.maxDepth < node.level then
      .error (.unsupportedLayout (.attrTooDeep node.level opened.options.maxDepth))
    else .ok (.inr (node.level.toNat - 1,node.entries.map (·.before)))

-- A leaf stands at level zero, or is the root. Its names are listed under the inode, each with the place
-- of its record.
def attrLeafAt (opened : InodeFork) (expected : Option Nat) (offset : Nat) (block : Bytes) :
    Except VolumeError (List DirectoryEntry ⊕ Nat × List UInt32) :=
  if expected.any (· ≠ 0) then .error (.corruption offset .attrLeafLevel)
  else
    match (AttrLeaf.decode opened.version).run block with
    | .error error => .error (.ofDecode offset error)
    | .ok leaf =>
      match leaf.names.run block with
      | .error error => .error (.ofDecode offset error)
      | .ok names =>
        .ok (.inl (names.map fun name => ⟨name.fullName,opened.inode,name.nameIndex,name.recordLength,none⟩))

def attrBlockItems (opened : InodeFork) (expected : Option Nat) (offset : Nat) (block : Bytes) :
    Except VolumeError (List DirectoryEntry ⊕ Nat × List UInt32) :=
  match (DaHeader.decode opened.version).run block with
  | .error error => .error (.ofDecode offset error)
  | .ok header =>
    match opened.brokenSeal? .attrBlock block with
    | some error => .error (.ofDecode offset error)
    | none =>
      match opened.foreignOwner? header.owner with
      | some owner => .error (.corruption offset (.blockOwner owner opened.inode))
      | none =>
        match header.kind with
        | .node => opened.attrNodeAt expected offset block
        | .attrLeaf => opened.attrLeafAt expected offset block
        | _ => .error (.signatureMismatch offset (.attrMagic (.ofWord16 header.magic)))

-- Where a block of the fork is. Some extent must contain it.
def attrBlockPlace (opened : InodeFork) (extents : List Extent) (block : Nat) : Except VolumeError Nat :=
  match extents.find? fun extent => extent.containsBlock block with
  | none => .error (.corruption opened.position (.attrBlockUnmapped block))
  | some extent =>
    match opened.ag.runByteOffset extent.startBlock (block - extent.startOffset.toNat) with
    | .error error => .error (.ofDecode 0 error)
    | .ok offset => .ok offset

def visitAttrBlock (opened : InodeFork) (extents : List Extent) (expected : Option Nat)
    (descend : Nat → List UInt32 → List Nat → Traversal (List DirectoryEntry × List Nat))
    (block : Nat) (visited : List Nat) : Traversal (List DirectoryEntry × List Nat) :=
  if block ∈ visited then .fail (.corruption opened.position (.attrBlockTwice block))
  else
    match opened.attrBlockPlace extents block with
    | .error error => .fail error
    | .ok offset =>
      .read ⟨some .attrBlock,offset,opened.blockSize.bytes⟩ fun bytes =>
        match opened.attrBlockItems expected offset bytes with
        | .error error => .fail error
        | .ok (.inl found) => .done (found,block :: visited)
        | .ok (.inr (level,blocks)) => descend level blocks (block :: visited)

def attrSubtree (opened : InodeFork) (extents : List Extent) :
    Nat → UInt32 → List Nat → Traversal (List DirectoryEntry × List Nat)
  | 0, block => opened.visitAttrBlock extents (some 0) (fun _ _ visited => return ([],visited)) block.toNat
  | level+1, block =>
    opened.visitAttrBlock extents (some (level + 1))
      (fun _ => visitEach (opened.attrSubtree extents level)) block.toNat

-- The root may be at any level that the options allow.
def attributesPreorder (opened : InodeFork) (extents : List Extent) :
    Traversal (List DirectoryEntry × List Nat) :=
  opened.visitAttrBlock extents none (fun level => visitEach (opened.attrSubtree extents level)) 0 []

def listAttributesPreorder (opened : InodeFork) : Traversal (List DirectoryEntry) :=
  match opened.fork.layout with
  | .shortform => .fail (.unsupportedLayout (.shortformAttributes opened.inode))
  | .extents _ | .btree => do
    let map ← opened.walk .directory
    if map.extents.isEmpty then return []
    else
      let (entries,_) ← opened.attributesPreorder map.extents
      return entries

def dataPlacesByExtent (opened : InodeFork) (extents : List Extent) : Traversal (List PlacedEntry) :=
  forExtents opened.dataBlock extents

end InodeFork
end XfsReader
