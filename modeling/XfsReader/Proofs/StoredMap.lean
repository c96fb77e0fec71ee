import Mathlib.Data.List.Nodup
import XfsReader.Proofs.ChecksumNumber
import XfsReader.Proofs.ExtentOrder
import XfsReader.Proofs.MapBlocks
import XfsReader.Proofs.Preorder

-- A map that a device holds in good order is walked to its end, and what comes back is the map.
namespace XfsReader

def MapTree.top : MapTree → UInt64
  | .leaf pointer _ => pointer
  | .node pointer _ => pointer

-- A header of the fork's own version at the start of a block.
structure MapHeader.Opens (header : MapHeader) (pair : MagicPair) (version : FormatVersion) (block : Bytes) : Prop where
  magic : header.magic = pair.ofVersion version
  version : header.version = version
  held : block.Holds 0 header.encode

theorem MapHeader.Opens.decoded {header : MapHeader} {pair : MagicPair} {version : FormatVersion} {block : Bytes}
    (opens : header.Opens pair version block) (different : pair.v4 ≠ pair.v5)
    (small : block.size < 0x10000000000000000) : (decode pair).run block = .ok header := by
  refine (heldBy_of_holds opens.held).decode_run different ?_ small
  rw [opens.version]
  exact opens.magic

theorem MapTree.mem_extentsOf {children : List MapTree} {child : MapTree} {extent : Extent} (member : child ∈ children)
    (inside : extent ∈ child.extents) : extent ∈ extentsOf children := by
  induction children with
  | nil => cases member
  | cons other children ih =>
    rw [extentsOf,List.mem_append]
    rcases List.mem_cons.mp member with rfl | later
    · exact .inl inside
    · exact .inr (ih later)

namespace InodeFork

-- A block of the map on the device, where the pointer to it leads.
structure Places (opened : InodeFork) (pair : MagicPair) (device : Device) (level : Nat) (pointer : UInt64)
    (offset : Nat) (header : MapHeader) : Prop where
  translated : opened.ag.byteOffset pointer = .ok offset
  inside : offset + opened.blockSize.bytes ≤ device.size
  opens : header.Opens pair opened.version (device.region offset opened.blockSize.bytes)
  level : header.level.toNat = level
  owned : ∀ description, header.description = some description → description.owner = opened.inode
  intact : opened.version = .v5 →
    BlockRole.mapBlock.verify (device.region offset opened.blockSize.bytes) = .ok ()

-- The device holds the tree below and with its top block, which stands at a level.
inductive StoresTree (opened : InodeFork) (pair : MagicPair) (device : Device) : Nat → MapTree → Prop
  | leaf {pointer offset header extents} (placed : opened.Places pair device 0 pointer offset header)
      (records : header.HoldsExtents (device.region offset opened.blockSize.bytes) extents) :
      StoresTree opened pair device 0 (.leaf pointer extents)
  | node {level pointer offset header keys children}
      (placed : opened.Places pair device (level + 1) pointer offset header)
      (records : header.HoldsChildren (device.region offset opened.blockSize.bytes) keys (children.map MapTree.top))
      (below : ∀ child ∈ children, StoresTree opened pair device level child) :
      StoresTree opened pair device (level + 1) (.node pointer children)

def literal (opened : InodeFork) (device : Device) : Bytes :=
  device.region opened.position opened.fork.size.toNat

-- The three ways in which a fork has its map. The root of a tree is in the literal area, and so are
-- the records where there is no tree.
inductive StoresMap (opened : InodeFork) (pair : MagicPair) (device : Device) : ExtentMap → Prop
  | inline {extents} {count : UInt32} (layout : opened.fork.layout = .extents count)
      (counted : count.toNat = extents.length)
      (records : (opened.literal device).Holds 0 (extents.flatMap Extent.encode)) :
      StoresMap opened pair device ⟨extents,.inline,0⟩
  | direct {root extents} (layout : opened.fork.layout = .btree)
      (opens : MapHeader.Opens root pair opened.version (opened.literal device))
      (records : root.HoldsExtents (opened.literal device) extents) :
      StoresMap opened pair device ⟨extents,.direct,0⟩
  | tree {root keys children} (layout : opened.fork.layout = .btree)
      (opens : MapHeader.Opens root pair opened.version (opened.literal device))
      (shallow : root.level ≤ opened.options.maxDepth)
      (records : root.HoldsChildren (opened.literal device) keys (children.map MapTree.top))
      (below : ∀ child ∈ children, opened.StoresTree pair device (root.level.toNat - 1) child)
      (apart : (MapTree.pointersOf children).Nodup) :
      StoresMap opened pair device
        ⟨MapTree.extentsOf children,.tree root.level,(MapTree.pointersOf children).length⟩

open Traversal MapTree

variable {opened : InodeFork} {pair : MagicPair} {device : Device}

theorem Places.region_small {level offset : Nat} {pointer : UInt64} {header : MapHeader}
    (_ : opened.Places pair device level pointer offset header) :
    (device.region offset opened.blockSize.bytes).size < 0x10000000000000000 := by
  rw [Device.size_region]
  exact Nat.lt_of_le_of_lt opened.blockSize.bytes_le (by decide)

theorem Places.examined {level offset : Nat} {pointer : UInt64} {header : MapHeader}
    (placed : opened.Places pair device level pointer offset header) (different : pair.v4 ≠ pair.v5)
    {contents : MapContents level}
    (records : mapContents header level offset (device.region offset opened.blockSize.bytes) = .ok contents) :
    opened.examineMapBlock pair level offset (device.region offset opened.blockSize.bytes) = .ok contents := by
  have agrees : opened.checkMapVersion header offset = .ok () := if_pos placed.opens.version
  have intact : opened.checkSeal .mapBlock offset (device.region offset opened.blockSize.bytes) = .ok () :=
    checkSeal_eq_ok.mpr fun _ version => placed.intact version
  have owned : opened.checkOwner .mapOwner offset header.owner = .ok () := by
    refine checkOwner_eq_ok.mpr fun _ owner known => ?_
    obtain ⟨description,present,rfl⟩ := Option.map_eq_some_iff.mp known
    exact placed.owned description present
  rw [examineMapBlock,placed.opens.decoded different placed.region_small]
  change (opened.checkMapVersion header offset >>= _) = _
  rw [agrees]
  change (opened.checkSeal .mapBlock offset _ >>= _) = _
  rw [intact]
  change (if header.level.toNat = level then _ else _) = _
  rw [if_pos placed.level,owned]
  exact records

section Visit

variable {level offset : Nat} {pointer : UInt64} {header : MapHeader} {visited : List UInt64}
  {descend : List UInt64 → List UInt64 → Traversal (List MapTree × List UInt64)}

theorem Places.visitMapBlock_reads (placed : opened.Places pair device level pointer offset header)
    (small : device.size < 0x10000000000000000) (new : pointer ∉ visited) :
    (opened.visitMapBlock pair level descend pointer visited).eval device =
      Traversal.eval device
        (match opened.mapBlockItems pair level offset (device.region offset opened.blockSize.bytes) with
        | .error error => .fail error
        | .ok (.inl found) => .done ([.leaf pointer found],pointer :: visited)
        | .ok (.inr pointers) => do
          let (children,visited) ← descend pointers (pointer :: visited)
          return ([.node pointer children],visited)) := by
  have answered : device.answer ⟨some .mapBlock,offset,opened.blockSize.bytes⟩ =
      .ok (device.region offset opened.blockSize.bytes) := Device.read_region placed.inside small
  rw [visitMapBlock,if_neg new,placed.translated]
  dsimp only
  rw [eval_read,answered]
  rfl

theorem Places.visitMapBlock_leaf {found : List Extent}
    (placed : opened.Places pair device level pointer offset header) (small : device.size < 0x10000000000000000)
    (new : pointer ∉ visited)
    (examined : opened.examineMapBlock pair level offset (device.region offset opened.blockSize.bytes) =
      .ok (.extents found)) :
    (opened.visitMapBlock pair level descend pointer visited).eval device =
      .ok ([.leaf pointer found],pointer :: visited) := by
  rw [placed.visitMapBlock_reads small new,mapBlockItems_eq,examined]
  rfl

theorem Places.visitMapBlock_node {pointers later : List UInt64} {few : pointers.length < 65536}
    {interior : 0 < level} {children : List MapTree}
    (placed : opened.Places pair device level pointer offset header) (small : device.size < 0x10000000000000000)
    (new : pointer ∉ visited)
    (examined : opened.examineMapBlock pair level offset (device.region offset opened.blockSize.bytes) =
      .ok (.children pointers few interior))
    (descended : (descend pointers (pointer :: visited)).eval device = .ok (children,later)) :
    (opened.visitMapBlock pair level descend pointer visited).eval device =
      .ok ([.node pointer children],later) := by
  rw [placed.visitMapBlock_reads small new,mapBlockItems_eq,examined]
  dsimp only [Except.map,MapContents.items]
  rw [eval_bind,descended]
  rfl

end Visit

theorem visitEach_stored {visit : UInt64 → List UInt64 → Traversal (List MapTree × List UInt64)}
    {children : List MapTree}
    (each : ∀ child ∈ children, ∀ visited, (child.pointers.reverse ++ visited).Nodup →
      (visit child.top visited).eval device = .ok ([child],child.pointers.reverse ++ visited))
    {visited : List UInt64} (apart : ((pointersOf children).reverse ++ visited).Nodup) :
    (visitEach visit (children.map MapTree.top) visited).eval device =
      .ok (children,(pointersOf children).reverse ++ visited) := by
  induction children generalizing visited with
  | nil => rfl
  | cons child children ih =>
    rw [pointersOf,List.reverse_append,List.append_assoc] at apart
    have first := each child List.mem_cons_self visited (apart.sublist (List.sublist_append_right _ _))
    have rest := ih (fun other member => each other (List.mem_cons_of_mem child member)) apart
    rw [List.map_cons,visitEach,eval_bind,first]
    change Traversal.eval device (visitEach visit _ (child.pointers.reverse ++ visited) >>= _) = _
    rw [eval_bind,rest,pointersOf,List.reverse_append,List.append_assoc]
    rfl

theorem StoresTree.visited {level : Nat} {tree : MapTree} (stored : opened.StoresTree pair device level tree)
    (different : pair.v4 ≠ pair.v5) (small : device.size < 0x10000000000000000)
    (packed : ∀ extent ∈ tree.extents, extent.Packed) (visited : List UInt64)
    (apart : (tree.pointers.reverse ++ visited).Nodup) :
    (opened.mapSubtree pair level tree.top visited).eval device = .ok ([tree],tree.pointers.reverse ++ visited) := by
  induction stored generalizing visited with
  | leaf placed records =>
    have new := (List.nodup_cons.mp apart).1
    have contents := mapContents_extents records packed placed.region_small rfl
    exact placed.visitMapBlock_leaf small new (placed.examined different (contents _))
  | @node level pointer offset header keys children placed records below ih =>
    rw [MapTree.pointers,List.reverse_cons,List.append_assoc] at apart ⊢
    have new : pointer ∉ visited := (List.nodup_cons.mp (apart.sublist (List.sublist_append_right _ _))).1
    obtain ⟨few,interior,contents⟩ :=
      mapContents_children records placed.region_small (Nat.succ_pos level) offset
    refine placed.visitMapBlock_node small new (placed.examined different contents) ?_
    refine visitEach_stored ?_ apart
    intro child member visited distinct
    refine ih child member ?_ visited distinct
    intro extent inside
    exact packed extent (mem_extentsOf member inside)

section Root

variable {root : MapHeader}

theorem literal_small : (opened.literal device).size < 0x10000000000000000 := by
  rw [literal,Device.size_region]
  exact Nat.lt_trans opened.fork.size.toNat_lt (by decide)

-- The root is taken as it stands, and what is done with its records is all that is left.
theorem walkTree_opened (opens : root.Opens pair opened.version (opened.literal device)) (different : pair.v4 ≠ pair.v5)
    (shallow : root.level ≤ opened.options.maxDepth) :
    opened.walkTree pair (opened.literal device) = do
      match ← ofExcept (mapContents root root.level.toNat opened.position (opened.literal device)) with
      | .extents found => return ⟨found,.direct,0⟩
      | .children pointers _ _ =>
        let (extents,visited) ← opened.visitPending pair [] []
          (pushReversed (pointers.map fun child => (child,root.level.toNat - 1)) [])
        return ⟨extents,.tree root.level,visited.length⟩ := by
  have agrees : opened.checkMapVersion root opened.position = .ok () := if_pos opens.version
  rw [walkTree,opens.decoded different literal_small]
  change (ofExcept (opened.checkMapVersion root opened.position) >>= _) = _
  rw [agrees]
  exact if_neg (UInt16.not_lt.mpr shallow)

theorem inlineExtents_held {extents : List Extent} {literal : Bytes}
    (records : literal.Holds 0 (extents.flatMap Extent.encode)) (packed : ∀ extent ∈ extents, extent.Packed)
    (small : literal.size < 0x10000000000000000) : opened.inlineExtents extents.length literal = .ok extents := by
  have inside := records.inside
  rw [Bytes.length_items Extent.length_encode,Nat.zero_add] at inside
  rw [inlineExtents,if_neg (Nat.not_lt.mpr inside),Extent.decodeList_run records packed small]
  rfl

theorem StoresMap.eval_readMap {map : ExtentMap} {tree : BtreeKind}
    (stored : opened.StoresMap (opened.volume.geometry.magics.pair tree) device map)
    (different : (opened.volume.geometry.magics.pair tree).v4 ≠ (opened.volume.geometry.magics.pair tree).v5)
    (small : device.size < 0x10000000000000000) (packed : ∀ extent ∈ map.extents, extent.Packed) :
    (opened.readMap tree (opened.literal device)).eval device = .ok map := by
  cases stored with
  | inline layout counted records =>
    rw [readMap,layout]
    dsimp only
    rw [counted,inlineExtents_held records packed literal_small]
    rfl
  | @direct root extents layout opens records =>
    have shallow : root.level ≤ opened.options.maxDepth := by
      rw [records.leaf,UInt16.le_iff_toNat_le]
      exact Nat.zero_le _
    have ground : root.level.toNat = 0 := congrArg UInt16.toNat records.leaf
    rw [readMap,layout]
    dsimp only
    rw [walkTree_opened opens different shallow,mapContents_extents records packed literal_small ground]
    rfl
  | @tree root keys children layout opens shallow records below apart =>
    have positive : 0 < root.level.toNat :=
      Nat.pos_of_ne_zero fun zero => records.interior (UInt16.toNat_inj.mp zero)
    obtain ⟨few,interior,contents⟩ := mapContents_children records literal_small positive opened.position
    have visited : (visitEach (opened.mapSubtree (opened.volume.geometry.magics.pair tree) (root.level.toNat - 1))
        (children.map MapTree.top) []).eval device = .ok (children,(pointersOf children).reverse ++ []) := by
      refine visitEach_stored ?_ ?_
      · intro child member visited distinct
        refine (below child member).visited different small ?_ visited distinct
        intro extent held
        exact packed extent (mem_extentsOf member held)
      · rw [List.append_nil]
        exact List.nodup_reverse.mpr apart
    rw [readMap,layout]
    dsimp only
    rw [walkTree_opened opens different shallow,contents]
    change Traversal.eval device ((opened.visitPending _ [] [] _).bind fun found =>
      Traversal.done (ExtentMap.mk found.1 (.tree root.level) found.2.length)) = _
    rw [visitPending_tree _ _ fun extents blocks => Traversal.done (ExtentMap.mk extents (.tree root.level) blocks)]
    exact eval_bind_eq_ok.mpr ⟨_,visited,rfl⟩

end Root

-- Whatever its shape, a map in good order comes back with all its extents and in their order.
theorem walk_stored {map : ExtentMap} {tree : BtreeKind}
    (different : (opened.volume.geometry.magics.pair tree).v4 ≠ (opened.volume.geometry.magics.pair tree).v5)
    (small : device.size < 0x10000000000000000)
    (inside : opened.position + opened.fork.size.toNat ≤ device.size)
    (stored : opened.StoresMap (opened.volume.geometry.magics.pair tree) device map)
    (packed : ∀ extent ∈ map.extents, extent.Packed) (ordered : Ordered map.extents) :
    (opened.walk tree).eval device = .ok map := by
  have literal : opened.readLiteral.eval device = .ok (opened.literal device) := by
    rw [readLiteral,eval_request]
    exact Device.read_region inside small
  have checked : opened.checkOrdered map.extents = .ok () := by
    rw [checkOrdered,firstDisorder?_ordered ordered]
  refine eval_bind_eq_ok.mpr ⟨_,literal,?_⟩
  refine eval_bind_eq_ok.mpr ⟨_,stored.eval_readMap different small packed,?_⟩
  exact eval_bind_eq_ok.mpr ⟨(),by rw [eval_ofExcept,checked],rfl⟩

end InodeFork

-- A tree of three blocks below its root: a node and its two leaves.
def grownHeader (level recordCount : UInt16) (crc : UInt32) : MapHeader where
  magic := 0x424D4133
  level := level
  recordCount := recordCount
  leftSibling := 0xFFFFFFFFFFFFFFFF
  rightSibling := 0xFFFFFFFFFFFFFFFF
  description := some ⟨crc,0,0,.replicate 16 0,5⟩

def grownLeaf (crc : UInt32) (extent : Extent) : List UInt8 :=
  (grownHeader 0 1 crc).encode ++ [extent].flatMap Extent.encode ++ List.replicate 424 0

def grownNode : List UInt8 :=
  (grownHeader 1 2 2481615388).encode ++ [0,4].flatMap word64 ++ List.replicate 200 0 ++
    [2,3].flatMap word64 ++ List.replicate 208 0

def grownRoot : List UInt8 := (grownHeader 2 1 0).encode ++ [0].flatMap word64 ++ [1].flatMap word64

def firstExtent : Extent := ⟨0,4,4,.normal⟩

def secondExtent : Extent := ⟨4,16,2,.unwritten⟩

def firstLeaf : List UInt8 := grownLeaf 1123222341 firstExtent

def secondLeaf : List UInt8 := grownLeaf 2302579136 secondExtent

def grownImage : List UInt8 :=
  grownRoot ++ (List.replicate 424 0 ++ (grownNode ++ (firstLeaf ++ secondLeaf)))

def grownDevice : Device := .ofBytes grownImage.toArray

def grownFork : InodeFork where
  volume :=
    { geometry := .ofSizes 512 100 10
      ag := ⟨.smallest,100,10⟩
      forks := ForkTable.empty.insert 5 .data ⟨0,88,.btree,.v5⟩
      options := .standard }
  inode := 5
  fork := ⟨0,88,.btree,.v5⟩

def grownMap : ExtentMap := ⟨[firstExtent,secondExtent],.tree 2,3⟩

theorem verify_grown :
    BlockRole.mapBlock.verify grownNode.toArray = .ok () ∧ BlockRole.mapBlock.verify firstLeaf.toArray = .ok () ∧
      BlockRole.mapBlock.verify secondLeaf.toArray = .ok () := by
  simp only [BlockRole.verify,Checksum.verify,Checksum.ofBlock,crc32c,crc32cAppend_number]
  exact ⟨eq_ok_of_toOption (by decide +kernel),eq_ok_of_toOption (by decide +kernel),
    eq_ok_of_toOption (by decide +kernel)⟩

theorem places_grown {level recordCount : UInt16} {crc : UInt32} {pointer : UInt64} {offset : Nat} {block : List UInt8}
    (translated : grownFork.ag.byteOffset pointer = .ok offset) (inside : offset + 512 ≤ grownDevice.size)
    (region : grownDevice.region offset 512 = block.toArray)
    (held : Bytes.Holds block.toArray 0 (grownHeader level recordCount crc).encode)
    (intact : BlockRole.mapBlock.verify block.toArray = .ok ()) :
    grownFork.Places .standard grownDevice level.toNat pointer offset (grownHeader level recordCount crc) := by
  refine ⟨translated,inside,⟨rfl,rfl,?_⟩,rfl,?_,fun _ => ?_⟩
  · exact region ▸ held
  · rintro description ⟨⟩
    rfl
  · exact region ▸ intact

theorem storesTree_grownLeaf {crc : UInt32} {extent : Extent} {pointer : UInt64} {offset : Nat}
    (translated : grownFork.ag.byteOffset pointer = .ok offset) (inside : offset + 512 ≤ grownDevice.size)
    (region : grownDevice.region offset 512 = (grownLeaf crc extent).toArray)
    (intact : BlockRole.mapBlock.verify (grownLeaf crc extent).toArray = .ok ()) :
    grownFork.StoresTree .standard grownDevice 0 (.leaf pointer [extent]) := by
  obtain ⟨held,_⟩ := Bytes.holds_append.mp (Bytes.holds_toArray (grownLeaf crc extent))
  obtain ⟨header,records⟩ := Bytes.holds_append.mp held
  exact .leaf (places_grown translated inside region header intact) ⟨rfl,rfl,region ▸ records⟩

theorem storesTree_grownNode : grownFork.StoresTree .standard grownDevice 1
    (.node 1 [.leaf 2 [firstExtent],.leaf 3 [secondExtent]]) := by
  obtain ⟨sealedNode,sealedFirst,sealedSecond⟩ := verify_grown
  obtain ⟨_,image⟩ := Bytes.holds_append.mp (Bytes.holds_toArray grownImage)
  obtain ⟨_,image⟩ := Bytes.holds_append.mp image
  obtain ⟨node,leaves⟩ := Bytes.holds_append.mp image
  obtain ⟨first,second⟩ := Bytes.holds_append.mp leaves
  replace node : grownDevice.region 512 512 = grownNode.toArray := node.region (by decide +kernel) (by decide +kernel)
  replace first : grownDevice.region 1024 512 = firstLeaf.toArray := first.region (by decide +kernel) (by decide +kernel)
  replace second : grownDevice.region 1536 512 = secondLeaf.toArray :=
    second.region (by decide +kernel) (by decide +kernel)
  have wide : 2048 ≤ grownDevice.size := by decide +kernel
  have below : ∀ child ∈ [MapTree.leaf 2 [firstExtent],.leaf 3 [secondExtent]],
      grownFork.StoresTree .standard grownDevice 0 child := by
    intro child member
    rcases List.mem_pair.mp member with rfl | rfl
    · exact storesTree_grownLeaf (eq_ok_of_toOption (by decide)) (by omega) first sealedFirst
    · exact storesTree_grownLeaf (eq_ok_of_toOption (by decide)) (by omega) second sealedSecond
  obtain ⟨parts,_⟩ := Bytes.holds_append.mp (Bytes.holds_toArray grownNode)
  obtain ⟨parts,pointers⟩ := Bytes.holds_append.mp parts
  obtain ⟨parts,_⟩ := Bytes.holds_append.mp parts
  obtain ⟨header,keys⟩ := Bytes.holds_append.mp parts
  have records : (grownHeader 1 2 2481615388).HoldsChildren grownNode.toArray [0,4] [2,3] :=
    ⟨by decide,rfl,rfl,by decide +kernel,keys.moved (by decide +kernel),pointers.moved (by decide +kernel),
      by decide⟩
  rw [← node] at records
  exact .node (places_grown (eq_ok_of_toOption (by decide)) (by omega) node header sealedNode) records below

-- Root, node and leaves come back as the two extents, in four reads.
theorem walk_stored_grown :
    let pair := grownFork.volume.geometry.magics.pair .dataExtents
    pair.v4 ≠ pair.v5 ∧ grownDevice.size < 0x10000000000000000 ∧
      grownFork.position + grownFork.fork.size.toNat ≤ grownDevice.size ∧
      grownFork.StoresMap pair grownDevice grownMap ∧ (∀ extent ∈ grownMap.extents, extent.Packed) ∧
      Ordered grownMap.extents ∧ (grownFork.walk .dataExtents).eval grownDevice = .ok grownMap := by
  intro pair
  have different : pair.v4 ≠ pair.v5 := by decide
  have small : grownDevice.size < 0x10000000000000000 := by decide +kernel
  have inside : grownFork.position + grownFork.fork.size.toNat ≤ grownDevice.size := by decide +kernel
  have stored : grownFork.StoresMap pair grownDevice grownMap := by
    obtain ⟨root,_⟩ := Bytes.holds_append.mp (Bytes.holds_toArray grownImage)
    replace root : grownFork.literal grownDevice = grownRoot.toArray := root.region rfl (by decide +kernel)
    obtain ⟨parts,pointers⟩ := Bytes.holds_append.mp (Bytes.holds_toArray grownRoot)
    obtain ⟨header,keys⟩ := Bytes.holds_append.mp parts
    have records : (grownHeader 2 1 0).HoldsChildren grownRoot.toArray [0] [1] :=
      ⟨by decide,rfl,rfl,by decide +kernel,keys.moved (by decide +kernel),pointers.moved (by decide +kernel),
        by decide⟩
    rw [← root] at header records
    have below : ∀ child ∈ [MapTree.node 1 [.leaf 2 [firstExtent],.leaf 3 [secondExtent]]],
        grownFork.StoresTree .standard grownDevice 1 child := by
      intro child member
      rw [List.mem_singleton.mp member]
      exact storesTree_grownNode
    exact .tree rfl ⟨rfl,rfl,header⟩ (by decide) records below (by decide)
  have packed : ∀ extent ∈ grownMap.extents, extent.Packed := by
    intro extent member
    rcases List.mem_pair.mp member with rfl | rfl <;> exact ⟨by decide,by decide,by decide⟩
  have ordered : Ordered grownMap.extents := List.pairwise_pair.mpr (by decide)
  have walked := InodeFork.walk_stored different small inside stored packed ordered
  exact ⟨different,small,inside,stored,packed,ordered,walked⟩

end XfsReader
