import XfsReader.Volume

-- The extents of a fork. They stand in the literal area, or in the leaves of a B+tree whose root
-- does. The tree is walked with a list of blocks still to visit, leftmost first, and no block is
-- visited twice.
namespace XfsReader

inductive WalkMode where
  | inline
  | direct
  | tree (depth : UInt16)
deriving DecidableEq

structure ExtentMap where
  extents : List Extent
  mode : WalkMode
  blocksVisited : Nat
deriving DecidableEq

-- The first extent that starts before its predecessor ends.
def firstDisorder? : List Extent → Option Extent
  | first :: second :: rest =>
    if second.startOffset.toNat < first.endOffset then some second
    else firstDisorder? (second :: rest)
  | _ => none

-- The first key that does not exceed its predecessor, and that predecessor.
def firstDescent? : List UInt64 → Option (UInt64 × UInt64)
  | first :: second :: rest =>
    if second ≤ first then some (second,first) else firstDescent? (second :: rest)
  | _ => none

-- A block of one level outweighs any 65535 blocks of the level below.
def levelWeight (level : Nat) : Nat := Nat.pow 65536 (level + 1)

theorem levelWeight_pos (level : Nat) : 0 < levelWeight level := Nat.pow_pos (by decide)

theorem levelWeight_succ (level : Nat) : levelWeight (level + 1) = 65536 * levelWeight level :=
  Nat.mul_comm _ _

theorem levelWeight_mono {low high : Nat} (order : low ≤ high) : levelWeight low ≤ levelWeight high :=
  Nat.pow_le_pow_right (by decide) (Nat.succ_le_succ order)

-- What a block of the tree holds. Only a block above level zero has children.
inductive MapContents (level : Nat) where
  | extents (found : List Extent)
  | children (pointers : List UInt64) (few : pointers.length < 65536) (interior : 0 < level)

-- Puts items on a stack one by one, the last one first, so that the first one comes off first.
def pushReversed (items stack : List α) : List α :=
  items.reverse.foldl (fun stack item => item :: stack) stack

theorem pushReversed_eq (items stack : List α) : pushReversed items stack = items ++ stack := by
  simp [pushReversed]

abbrev PendingBlocks := List (UInt64 × Nat)

namespace PendingBlocks

def weight (pending : PendingBlocks) : Nat :=
  pending.foldr (fun item total => levelWeight item.2 + total) 0

theorem weight_cons (item : UInt64 × Nat) (rest : PendingBlocks) :
    weight (item :: rest) = levelWeight item.2 + weight rest := rfl

theorem weight_rest (item : UInt64 × Nat) (rest : PendingBlocks) : weight rest < weight (item :: rest) := by
  rw [weight_cons]
  exact Nat.lt_add_of_pos_left (levelWeight_pos _)

theorem weight_level (pointers : List UInt64) (level : Nat) (rest : PendingBlocks) :
    weight (pointers.map (fun pointer => (pointer,level)) ++ rest) =
      pointers.length * levelWeight level + weight rest := by
  induction pointers with
  | nil => simp
  | cons pointer pointers ih =>
    simp only [List.map_cons,List.cons_append,weight_cons,ih,List.length_cons,Nat.succ_mul]
    omega

theorem weight_below {pointers : List UInt64} {below level : Nat} (pointer : UInt64) (rest : PendingBlocks)
    (few : pointers.length < 65536) (lower : below < level) :
    weight (pushReversed (pointers.map fun child => (child,below)) rest) < weight ((pointer,level) :: rest) := by
  rw [pushReversed_eq,weight_level,weight_cons]
  have fits := Nat.mul_lt_mul_of_pos_right few (levelWeight_pos below)
  have scale := levelWeight_succ below
  have raised : levelWeight (below + 1) ≤ levelWeight level := levelWeight_mono lower
  dsimp only
  omega

theorem weight_children {pointers : List UInt64} {level : Nat} (pointer : UInt64) (rest : PendingBlocks)
    (few : pointers.length < 65536) (interior : 0 < level) :
    weight (pushReversed (pointers.map fun child => (child,level - 1)) rest) <
      weight ((pointer,level) :: rest) := weight_below pointer rest few (Nat.sub_lt interior Nat.one_pos)

end PendingBlocks

namespace InodeFork

def checkOrdered (opened : InodeFork) (extents : List Extent) : Except VolumeError Unit :=
  match firstDisorder? extents with
  | none => .ok ()
  | some extent => .error (.corruption opened.position (.extentOrder extent.startOffset))

def inlineExtents (opened : InodeFork) (count : Nat) (literal : Bytes) : Except VolumeError (List Extent) :=
  if literal.size < count * Extent.recordSize then
    .error (.corruption opened.position (.recordsExceedFork count opened.fork.size.toNat))
  else located opened.position ((Extent.decodeList 0 count).run literal)

def checkMapVersion (opened : InodeFork) (header : MapHeader) (offset : Nat) : Except VolumeError Unit :=
  if header.version = opened.version then .ok ()
  else .error (.signatureMismatch offset (.mapVersion header.magic header.version opened.version))

def checkMapKeys (header : MapHeader) (offset : Nat) (block : Bytes) : Except VolumeError Unit :=
  match header.keys block with
  | .error error => .error (.ofDecode offset error)
  | .ok keys =>
    match firstDescent? keys with
    | none => .ok ()
    | some (key,previous) => .error (.corruption offset (.mapKeyOrder key previous))

def mapContents (header : MapHeader) (level offset : Nat) (block : Bytes) :
    Except VolumeError (MapContents level) :=
  if leaf : level = 0 then (located offset (header.leafExtents block)).map .extents
  else
    match read : header.childPointers block with
    | .error error => .error (.ofDecode offset error)
    | .ok pointers =>
      match checkMapKeys header offset block with
      | .error error => .error error
      | .ok () =>
        .ok (.children pointers
          (by rw [MapHeader.length_childPointers read]; exact header.recordCount.toNat_lt)
          (Nat.pos_of_ne_zero leaf))

section Interior

variable {header : MapHeader} {level : Nat} {block : Bytes}

theorem mapContents_undecoded {error : DecodeError} (interior : 0 < level) (offset : Nat)
    (read : header.childPointers block = .error error) :
    mapContents header level offset block = .error (.ofDecode offset error) := by
  rw [mapContents,dif_neg (Nat.ne_of_gt interior)]
  split
  · cases read.symm.trans ‹_›
    rfl
  · cases read.symm.trans ‹_›

theorem mapContents_interior {pointers : List UInt64} (interior : 0 < level) (offset : Nat)
    (read : header.childPointers block = .ok pointers) :
    ∃ few : pointers.length < 65536, mapContents header level offset block =
      (checkMapKeys header offset block).map fun _ => .children pointers few interior := by
  rw [mapContents,dif_neg (Nat.ne_of_gt interior)]
  split
  · cases read.symm.trans ‹_›
  · cases read.symm.trans ‹_›
    refine ⟨?few,?_⟩
    case few => rw [MapHeader.length_childPointers read]; exact header.recordCount.toNat_lt
    cases checkMapKeys header offset block <;> rfl

end Interior

-- Magic, version, checksum, level, owner, and only then the records.
def examineMapBlock (opened : InodeFork) (pair : MagicPair) (level offset : Nat) (block : Bytes) :
    Except VolumeError (MapContents level) := do
  let header ← located offset ((MapHeader.decode pair).run block)
  opened.checkMapVersion header offset
  opened.checkSeal .mapBlock offset block
  if header.level.toNat = level then
    opened.checkOwner .mapOwner offset header.owner
    mapContents header level offset block
  else .error (.corruption offset (.mapLevel header.level.toNat level))

def visitPending (opened : InodeFork) (pair : MagicPair) (visited : List UInt64) (extents : List Extent) :
    PendingBlocks → Traversal (List Extent × List UInt64)
  | [] => .done (extents,visited)
  | (pointer,level) :: rest =>
    if pointer ∈ visited then .fail (.corruption opened.position (.mapBlockTwice pointer))
    else
      match opened.ag.byteOffset pointer with
      | .error error => .fail (.ofDecode opened.position error)
      | .ok offset =>
        .read ⟨some .mapBlock,offset,opened.blockSize.bytes⟩ fun block =>
          match opened.examineMapBlock pair level offset block with
          | .error error => .fail error
          | .ok (.extents found) => visitPending opened pair (pointer :: visited) (extents ++ found) rest
          | .ok (.children pointers _ _) =>
            visitPending opened pair (pointer :: visited) extents
              (pushReversed (pointers.map fun child => (child,level - 1)) rest)
termination_by pending => PendingBlocks.weight pending
decreasing_by
  · exact PendingBlocks.weight_rest _ _
  · exact PendingBlocks.weight_children _ _ ‹_› ‹_›

-- The root stands in the literal area and has no checksum or owner to check.
def walkTree (opened : InodeFork) (pair : MagicPair) (literal : Bytes) : Traversal ExtentMap := do
  let root ← .ofExcept (located opened.position ((MapHeader.decode pair).run literal))
  .ofExcept (opened.checkMapVersion root opened.position)
  if opened.options.maxDepth < root.level then
    .fail (.unsupportedLayout (.mapRootTooDeep root.level opened.options.maxDepth))
  else
    match ← .ofExcept (mapContents root root.level.toNat opened.position literal) with
    | .extents found => return ⟨found,.direct,0⟩
    | .children pointers _ _ =>
      let (extents,visited) ← opened.visitPending pair [] []
        (pushReversed (pointers.map fun child => (child,root.level.toNat - 1)) [])
      return ⟨extents,.tree root.level,visited.length⟩

def readMap (opened : InodeFork) (tree : BtreeKind) (literal : Bytes) : Traversal ExtentMap :=
  match opened.fork.layout with
  | .shortform => .fail (.unsupportedLayout (.shortformMap opened.inode))
  | .extents count => do
    let extents ← .ofExcept (opened.inlineExtents count.toNat literal)
    return ⟨extents,.inline,0⟩
  | .btree => opened.walkTree (opened.volume.geometry.magics.pair tree) literal

def walk (opened : InodeFork) (tree : BtreeKind) : Traversal ExtentMap := do
  let literal ← opened.readLiteral
  let map ← opened.readMap tree literal
  .ofExcept (opened.checkOrdered map.extents)
  return map

end InodeFork

namespace Volume

def walkFork (volume : Volume) (inode : UInt64) (kind : ForkKind) (tree : BtreeKind) :
    Traversal ExtentMap := do
  let opened ← .ofExcept (volume.openFork inode kind)
  opened.walk tree

def fileExtents (volume : Volume) (inode : UInt64) : Traversal (List Extent) := do
  let map ← volume.walkFork inode .data .dataExtents
  return map.extents

end Volume
end XfsReader
