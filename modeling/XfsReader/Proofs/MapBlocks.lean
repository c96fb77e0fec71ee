import XfsReader.Proofs.Encoding
import XfsReader.Proofs.ExtentRecord
import XfsReader.Volume.Mapping

-- Blocks of the map read back as they were written. A block is what its header, its records and the
-- places of these make it; the bytes in between can be anything.
namespace XfsReader

namespace MagicPair

def ofVersion (pair : MagicPair) : FormatVersion → UInt32
  | .v4 => pair.v4
  | .v5 => pair.v5

theorem accepted_ofVersion (pair : MagicPair) (version : FormatVersion) :
    pair.accepted.check32 "bmbt block" (pair.ofVersion version) = .ok () := by
  have listed : pair.accepted.contains (pair.ofVersion version) = true := by
    cases version <;> simp [accepted,MagicSet.contains,MagicSet.ofWords32,ofVersion]
  rw [MagicSet.check32,if_pos listed]

theorem versionOf_ofVersion {pair : MagicPair} (different : pair.v4 ≠ pair.v5) (version : FormatVersion) :
    pair.versionOf (pair.ofVersion version) = some version := by
  cases version <;> simp [versionOf,ofVersion,different]

end MagicPair

namespace MapHeader

variable {pair : MagicPair} {header : MapHeader} {block : Bytes}

-- The fields of a header at their places. The last four bytes of version 5 say nothing.
structure HeldBy (header : MapHeader) (block : Bytes) : Prop where
  magic : block.Holds 0 (word32 header.magic)
  level : block.Holds 4 (word16 header.level)
  recordCount : block.Holds 6 (word16 header.recordCount)
  leftSibling : block.Holds 8 (word64 header.leftSibling)
  rightSibling : block.Holds 16 (word64 header.rightSibling)
  description : block.Holds 24 ((encodeDescription header.description).take 44)
  whole : header.size ≤ block.size

theorem heldBy_of_holds (held : block.Holds 0 header.encode) : header.HeldBy block := by
  have whole := held.inside
  rw [length_encode,Nat.zero_add] at whole
  obtain ⟨held,description⟩ := Bytes.holds_append.mp held
  obtain ⟨held,right⟩ := Bytes.holds_append.mp held
  obtain ⟨held,left⟩ := Bytes.holds_append.mp held
  obtain ⟨held,count⟩ := Bytes.holds_append.mp held
  obtain ⟨magic,level⟩ := Bytes.holds_append.mp held
  replace description : block.Holds 24 (encodeDescription header.description) := description
  exact ⟨magic,level,count,left,right,description.take 44,whole⟩

theorem decodeDescription_run {description : Option SelfDescription}
    (held : block.Holds 24 ((encodeDescription description).take 44))
    (whole : sizeOf (.ofDescription description) ≤ block.size) (small : block.size < 0x10000000000000000) :
    (decodeDescription (.ofDescription description)).run block = .ok description := by
  cases description with
  | none => rfl
  | some description =>
    have fields : (encodeDescription (some description)).take 44 =
        word64 description.blockNumber ++ word64 description.lsn ++ description.uuid.toList ++
          word64 description.owner ++ littleWord32 description.crc := by
      rw [encodeDescription,List.take_left' (by simp [word64,littleWord32])]
    rw [fields] at held
    simp only [Bytes.holds_append] at held
    obtain ⟨⟨⟨⟨blockNumber,lsn⟩,uuid⟩,owner⟩,crc⟩ := held
    simp only [List.length_append,Vector.length_toList,show ∀ word, (word64 word).length = 8 from fun _ => rfl]
      at lsn uuid owner crc
    have long : 0 + sizeOf .v5 ≤ block.size := by rwa [Nat.zero_add]
    change (Decoder.require 0 (sizeOf .v5) >>= _).run block = _
    simp only [Decoder.run_bind,Decoder.require_run long small,Decoder.be64_run blockNumber small,
      Decoder.be64_run lsn small,Decoder.fixed16_run uuid small,Decoder.be64_run owner small,
      Decoder.le32_run crc small]
    rfl

theorem HeldBy.decode_run (held : header.HeldBy block) (different : pair.v4 ≠ pair.v5)
    (magic : header.magic = pair.ofVersion header.version) (small : block.size < 0x10000000000000000) :
    (decode pair).run block = .ok header := by
  have whole := held.whole
  have long : 0 + sizeOf .v4 ≤ block.size := by
    have least : sizeOf .v4 ≤ header.size := by
      rw [size]
      cases header.version <;> decide
    omega
  have described : (decodeDescription header.version).run block = .ok header.description :=
    decodeDescription_run held.description whole small
  change (Decoder.be32 0 >>= decodeAfter pair).run block = _
  rw [Decoder.run_bind,Decoder.be32_run held.magic small]
  change (decodeAfter pair header.magic).run block = _
  rw [decodeAfter,magic,pair.accepted_ofVersion,MagicPair.versionOf_ofVersion different,← magic]
  change (Decoder.require 0 (sizeOf .v4) >>= _).run block = _
  simp only [Decoder.run_bind,Decoder.require_run long small,Decoder.be16_run held.level small,
    Decoder.be16_run held.recordCount small,Decoder.be64_run held.leftSibling small,
    Decoder.be64_run held.rightSibling small,described]
  rfl

structure HoldsExtents (header : MapHeader) (block : Bytes) (extents : List Extent) : Prop where
  leaf : header.level = 0
  count : header.recordCount.toNat = extents.length
  records : block.Holds header.size (extents.flatMap Extent.encode)

-- The pointers stand where the area would be full of keys.
structure HoldsRecords (header : MapHeader) (block : Bytes) (keys pointers : List UInt64) : Prop where
  interior : header.level ≠ 0
  keyCount : header.recordCount.toNat = keys.length
  pointerCount : header.recordCount.toNat = pointers.length
  room : header.recordCount.toNat ≤ header.capacity block
  keyArea : block.Holds header.size (keys.flatMap word64)
  pointerArea : block.Holds (header.pointerOffset block 0) (pointers.flatMap word64)

-- The same of a node in good order, whose keys ascend.
structure HoldsChildren (header : MapHeader) (block : Bytes) (keys pointers : List UInt64) : Prop where
  interior : header.level ≠ 0
  keyCount : header.recordCount.toNat = keys.length
  pointerCount : header.recordCount.toNat = pointers.length
  room : header.recordCount.toNat ≤ (block.size - header.size) / 16
  keyArea : block.Holds header.size (keys.flatMap word64)
  pointerArea : block.Holds (header.size + (block.size - header.size) / 16 * 8) (pointers.flatMap word64)
  ascending : keys.Pairwise (· < ·)

theorem HoldsChildren.records {keys pointers : List UInt64} (held : header.HoldsChildren block keys pointers) :
    header.HoldsRecords block keys pointers :=
  ⟨held.interior,held.keyCount,held.pointerCount,held.room,held.keyArea,held.pointerArea⟩

theorem checkCapacity_room (room : header.recordCount.toNat ≤ header.capacity block) :
    header.checkCapacity block = .ok () :=
  if_neg (Nat.not_lt.mpr room)

theorem HoldsExtents.leafExtents {extents : List Extent} (held : header.HoldsExtents block extents)
    (packed : ∀ extent ∈ extents, extent.Packed) (small : block.size < 0x10000000000000000) :
    header.leafExtents block = .ok extents := by
  have inside := held.records.inside
  rw [Bytes.length_items Extent.length_encode,Extent.recordSize] at inside
  have room : header.recordCount.toNat ≤ header.capacity block := by
    rw [held.count,capacity]
    omega
  have leaf : header.isLeaf = true := by simp [isLeaf,held.leaf]
  rw [MapHeader.leafExtents,checkCapacity_room room,held.count]
  simp only [leaf,Bool.not_true,Bool.false_eq_true,if_false]
  exact Extent.decodeList_run held.records packed small

theorem HoldsRecords.childPointers {keys pointers : List UInt64} (held : header.HoldsRecords block keys pointers)
    (small : block.size < 0x10000000000000000) : header.childPointers block = .ok pointers := by
  have interior : header.isLeaf = false := by simp [isLeaf,held.interior]
  rw [MapHeader.childPointers,checkCapacity_room held.room,held.pointerCount]
  simp only [interior,Bool.false_eq_true,if_false]
  exact Decoder.be64_table_run held.pointerArea small

theorem HoldsRecords.readKeys {keys pointers : List UInt64} (held : header.HoldsRecords block keys pointers)
    (small : block.size < 0x10000000000000000) : header.keys block = .ok keys := by
  rw [MapHeader.keys,held.keyCount]
  exact Decoder.be64_table_run held.keyArea small

end MapHeader

theorem firstDescent?_ascending {keys : List UInt64} (ascending : keys.Pairwise (· < ·)) :
    firstDescent? keys = none := by
  fun_induction firstDescent? keys with
  | case1 first second rest descends =>
    have above := List.rel_of_pairwise_cons ascending (List.mem_cons_self : second ∈ second :: rest)
    exact absurd descends (UInt64.not_le.mpr above)
  | case2 first second rest ascends ih => exact ih (List.Pairwise.of_cons ascending)
  | case3 keys short => rfl

namespace InodeFork

variable {header : MapHeader} {block : Bytes}

theorem mapContents_extents {extents : List Extent} (held : header.HoldsExtents block extents)
    (packed : ∀ extent ∈ extents, extent.Packed) (small : block.size < 0x10000000000000000) {level : Nat}
    (ground : level = 0) (offset : Nat) : mapContents header level offset block = .ok (.extents extents) := by
  rw [mapContents,dif_pos ground,held.leafExtents packed small]
  rfl

theorem mapContents_children {keys pointers : List UInt64} (held : header.HoldsChildren block keys pointers)
    (small : block.size < 0x10000000000000000) {level : Nat} (positive : 0 < level) (offset : Nat) :
    ∃ few interior, mapContents header level offset block = .ok (.children pointers few interior) := by
  have ascending : checkMapKeys header offset block = .ok () := by
    rw [checkMapKeys,held.records.readKeys small]
    dsimp only
    rw [firstDescent?_ascending held.ascending]
  obtain ⟨few,contents⟩ := mapContents_interior positive offset (held.records.childPointers small)
  exact ⟨few,positive,by rw [contents,ascending]; rfl⟩

end InodeFork
end XfsReader
