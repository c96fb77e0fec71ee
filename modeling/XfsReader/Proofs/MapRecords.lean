import XfsReader.Proofs.DecoderReach
import XfsReader.Proofs.MapBlocks

-- A block of the map, read back field by field and record by record. Room for the records is judged by
-- the length of the block alone, and what passes that judgement never runs out of bytes.
namespace XfsReader
namespace MapHeader

variable {pair : MagicPair} {header : MapHeader} {block : Bytes}

def overfull : DecodeError := .invalidField "bb_numrecs" "record count exceeds block capacity"

def noExtents : DecodeError := .invalidField "bb_level" "extent records requested from an interior node"

def noPointers : DecodeError := .invalidField "bb_level" "child pointers requested from a leaf"

theorem size_le_block (decoded : (decode pair).run block = .ok header) : header.size ≤ block.size := by
  obtain ⟨_,reached⟩ := (decode_ends pair).reach decoded
  rw [Nat.zero_max] at reached
  exact reached ▸ Decoder.reach_le decoded

-- Where the keys could end and where the pointers begin, however much is left over of the block.
theorem areas_apart (whole : header.size ≤ block.size) {count : Nat} (room : count ≤ header.capacity block) :
    header.size + 8 * count ≤ header.pointerOffset block 0 ∧ header.pointerOffset block count ≤ block.size := by
  simp only [pointerOffset]
  rw [capacity] at room ⊢
  omega

theorem checkCapacity_full (full : header.capacity block < header.recordCount.toNat) :
    header.checkCapacity block = .error overfull :=
  if_pos full

theorem leafExtents_interior (interior : header.isLeaf = false) : header.leafExtents block = .error noExtents := by
  rw [leafExtents,interior]
  rfl

theorem childPointers_leaf (leaf : header.isLeaf = true) : header.childPointers block = .error noPointers := by
  rw [childPointers,leaf]
  rfl

theorem leafExtents_full (leaf : header.isLeaf = true) (full : header.capacity block < header.recordCount.toNat) :
    header.leafExtents block = .error overfull := by
  rw [leafExtents,leaf,checkCapacity_full full]
  rfl

theorem childPointers_full (interior : header.isLeaf = false) (full : header.capacity block < header.recordCount.toNat) :
    header.childPointers block = .error overfull := by
  rw [childPointers,interior,checkCapacity_full full]
  rfl

-- Records that have room have it inside the block.
theorem leafExtents_room (leaf : header.isLeaf = true) (room : header.recordCount.toNat ≤ header.capacity block)
    (whole : header.size ≤ block.size) : ∃ extents, header.leafExtents block = .ok extents := by
  have least := header.size_le
  have few : header.recordCount.toNat < 65536 := header.recordCount.toNat_lt
  have fits : fit64? (header.recordCount.toNat * Extent.recordSize) = some (header.recordCount.toNat * Extent.recordSize) :=
    fit64?_eq_some.mpr ⟨by rw [Extent.recordSize]; omega,rfl⟩
  have inside : header.size + header.recordCount.toNat * Extent.recordSize ≤ block.size := by
    rw [capacity] at room
    rw [Extent.recordSize]
    omega
  rw [leafExtents,leaf,checkCapacity_room room]
  simp only [Bool.not_true,Bool.false_eq_true,if_false,Extent.decodeList,fits]
  rw [Decoder.run_slice_inside (by rw [Extent.recordSize]; omega) inside]
  exact ⟨_,rfl⟩

theorem childPointers_room (interior : header.isLeaf = false) (room : header.recordCount.toNat ≤ header.capacity block)
    (small : block.size < 0x10000000000000000) : ∃ pointers, header.childPointers block = .ok pointers := by
  have least := header.size_le
  have fits : header.pointerOffset block 0 + 8 * header.recordCount.toNat < 0x10000000000000000 := by
    rw [pointerOffset]
    rw [capacity] at room ⊢
    omega
  have inside : ∀ index < header.recordCount.toNat, header.pointerOffset block 0 + 8 * index + 8 ≤ block.size :=
    fun index below => capacity_inside room below
  obtain ⟨pointers,read,_⟩ := Decoder.be64_table_inside inside fits
  rw [childPointers,interior,checkCapacity_room room]
  exact ⟨pointers,read⟩

theorem keys_room (room : header.recordCount.toNat ≤ header.capacity block) :
    ∃ keys, header.keys block = .ok keys ∧ keys.length = header.recordCount.toNat := by
  have least := header.size_le
  have few : header.recordCount.toNat < 65536 := header.recordCount.toNat_lt
  apply Decoder.be64_table_inside
  · intro index below
    rw [capacity] at room
    omega
  · omega

theorem leafExtents_eq_error (whole : header.size ≤ block.size) {error : DecodeError} :
    header.leafExtents block = .error error ↔
      header.isLeaf = false ∧ error = noExtents ∨
        header.isLeaf = true ∧ header.capacity block < header.recordCount.toNat ∧ error = overfull := by
  cases kind : header.isLeaf with
  | false => simp [leafExtents_interior kind,eq_comm]
  | true =>
    rcases Nat.lt_or_ge (header.capacity block) header.recordCount.toNat with full | room
    · simp [leafExtents_full kind full,full,eq_comm]
    · obtain ⟨extents,read⟩ := leafExtents_room kind room whole
      simp [read,Nat.not_lt.mpr room]

theorem childPointers_eq_error (small : block.size < 0x10000000000000000) {error : DecodeError} :
    header.childPointers block = .error error ↔
      header.isLeaf = true ∧ error = noPointers ∨
        header.isLeaf = false ∧ header.capacity block < header.recordCount.toNat ∧ error = overfull := by
  cases kind : header.isLeaf with
  | true => simp [childPointers_leaf kind,eq_comm]
  | false =>
    rcases Nat.lt_or_ge (header.capacity block) header.recordCount.toNat with full | room
    · simp [childPointers_full kind full,full,eq_comm]
    · obtain ⟨pointers,read⟩ := childPointers_room kind room small
      simp [read,Nat.not_lt.mpr room]

theorem childPointers_fit {pointers : List UInt64} (read : header.childPointers block = .ok pointers) :
    header.recordCount.toNat ≤ header.capacity block := by
  apply Nat.le_of_not_lt
  intro full
  cases kind : header.isLeaf with
  | true => simp [childPointers_leaf kind] at read
  | false => simp [childPointers_full kind full] at read

-- Of a header and its records every field comes back, in a block of whatever length and with whatever
-- bytes between and behind them. Without room for the records there are none; a header out of the block
-- itself meets no other obstacle but its level, and pointers never come without as many keys.
theorem map_block_read_back (header : MapHeader) (block : Bytes) :
    (∀ pair : MagicPair, pair.v4 ≠ pair.v5 → header.magic = pair.ofVersion header.version →
      block.size < 0x10000000000000000 → header.HeldBy block →
        (decode pair).run block = .ok header ∧
          (∀ extents, header.HoldsExtents block extents → (∀ extent ∈ extents, extent.Packed) →
            header.leafExtents block = .ok extents) ∧
          (∀ keys pointers, header.HoldsRecords block keys pointers →
            header.keys block = .ok keys ∧ header.childPointers block = .ok pointers) ∧
          ∀ count ≤ header.capacity block,
            header.size + 8 * count ≤ header.pointerOffset block 0 ∧ header.pointerOffset block count ≤ block.size) ∧
      (header.capacity block < header.recordCount.toNat →
        header.leafExtents block = .error (if header.isLeaf then overfull else noExtents) ∧
          header.childPointers block = .error (if header.isLeaf then noPointers else overfull)) ∧
      (∀ pair : MagicPair, (decode pair).run block = .ok header → ∀ error,
        (header.leafExtents block = .error error ↔ header.isLeaf = false ∧ error = noExtents ∨
          header.isLeaf = true ∧ header.capacity block < header.recordCount.toNat ∧ error = overfull) ∧
        (block.size < 0x10000000000000000 →
          (header.childPointers block = .error error ↔ header.isLeaf = true ∧ error = noPointers ∨
            header.isLeaf = false ∧ header.capacity block < header.recordCount.toNat ∧ error = overfull))) ∧
      ∀ pointers, header.childPointers block = .ok pointers →
        ∃ keys, header.keys block = .ok keys ∧ keys.length = pointers.length := by
  refine ⟨?stored,?full,?parsed,?paired⟩
  case stored =>
    intro pair different magic small held
    refine ⟨held.decode_run different magic small,?_,?_,?_⟩
    · exact fun extents records packed => records.leafExtents packed small
    · exact fun keys pointers records => ⟨records.readKeys small,records.childPointers small⟩
    · exact fun count room => areas_apart held.whole room
  case full =>
    intro full
    cases kind : header.isLeaf with
    | true => exact ⟨leafExtents_full kind full,childPointers_leaf kind⟩
    | false => exact ⟨leafExtents_interior kind,childPointers_full kind full⟩
  case parsed =>
    intro pair decoded error
    exact ⟨leafExtents_eq_error (size_le_block decoded),fun small => childPointers_eq_error small⟩
  case paired =>
    intro pointers read
    obtain ⟨keys,found,long⟩ := keys_room (childPointers_fit read)
    exact ⟨keys,found,by rw [long,length_childPointers read]⟩

-- A node of version 5 with room for three records and two in use. The third key, the third pointer, five
-- bytes behind it and four in the header are filled with something else.
def slackHeader : MapHeader where
  magic := 0x424D4133
  level := 1
  recordCount := 2
  leftSibling := 7
  rightSibling := 0xFFFFFFFFFFFFFFFF
  description := some ⟨0x01020304,80,6,.replicate 16 0xAB,131⟩

def slackFiller : List UInt8 := List.replicate 8 0xEE

def slackBlock : Bytes :=
  (slackHeader.encode.take 68 ++ List.replicate 4 0xEE ++ [5,9].flatMap word64 ++ slackFiller ++
    [40,41].flatMap word64 ++ slackFiller ++ List.replicate 5 0xEE).toArray

theorem map_block_read_back_slack :
    slackBlock.size = 125 ∧ slackHeader.HeldBy slackBlock ∧ slackHeader.HoldsRecords slackBlock [5,9] [40,41] ∧
      (decode .standard).run slackBlock = .ok slackHeader ∧ slackHeader.keys slackBlock = .ok [5,9] ∧
      slackHeader.childPointers slackBlock = .ok [40,41] := by
  have held : slackHeader.HeldBy slackBlock := by
    constructor <;> decide +kernel
  have records : slackHeader.HoldsRecords slackBlock [5,9] [40,41] := by
    constructor <;> decide +kernel
  obtain ⟨stored,_⟩ := map_block_read_back slackHeader slackBlock
  obtain ⟨decoded,_,nodes,_⟩ := stored .standard (by decide) rfl (by decide +kernel) held
  exact ⟨by decide +kernel,held,records,decoded,nodes _ _ records⟩

end MapHeader
end XfsReader
