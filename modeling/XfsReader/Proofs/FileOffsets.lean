import XfsReader.Proofs.ExtentOrder
import XfsReader.Proofs.Translation
import XfsReader.Volume.FileOffset

-- A byte of a file is in a hole, or one extent alone holds it. That extent puts it at one byte of
-- the device, unless its block lies behind the last one that a 64-bit offset can name.
namespace XfsReader

namespace Extent

variable {extent : Extent} {offset : Nat} {size : BlockSize}

theorem covers_iff : extent.covers offset size ↔
    extent.startOffset.toNat * size.bytes ≤ offset ∧ offset < extent.endOffset * size.bytes := by
  simp [covers]

theorem end_bytes (extent : Extent) (size : BlockSize) :
    extent.endOffset * size.bytes = extent.startOffset.toNat * size.bytes + extent.byteLength size :=
  Nat.add_mul _ _ _

-- To cover a byte is to hold its block.
theorem covers_eq_containsBlock (extent : Extent) (offset : Nat) (size : BlockSize) :
    extent.covers offset size = extent.containsBlock (size.blockOf offset) := by
  rw [Bool.eq_iff_iff,covers_iff,containsBlock_iff,BlockSize.blockOf,Nat.le_div_iff_mul_le size.bytes_pos,
    Nat.div_lt_iff_lt_mul size.bytes_pos]

end Extent

-- An ordered list has at most one extent for a block, and a search finds it.
theorem Ordered.filter_containsBlock {extents : List Extent} (ordered : Ordered extents) (block : Nat) :
    (extents.filter fun extent => extent.containsBlock block) = (Extent.findBlock? extents block).toList := by
  rw [Extent.findBlock?,← List.head?_filter]
  have apart := ordered.filter fun extent => extent.containsBlock block
  have holds : ∀ extent ∈ extents.filter (fun extent => extent.containsBlock block), extent.containsBlock block :=
    fun extent member => (List.mem_filter.mp member).2
  cases held : extents.filter (fun extent => extent.containsBlock block) with
  | nil => rfl
  | cons first rest =>
    cases rest with
    | nil => rfl
    | cons second rest =>
      rw [held] at apart holds
      have early := Extent.containsBlock_iff.mp (holds first (by simp))
      have late := Extent.containsBlock_iff.mp (holds second (by simp))
      have gap : first.endOffset ≤ second.startOffset.toNat := List.rel_of_pairwise_cons apart (by simp)
      omega

section Mapping

variable {ag : AgGeometry} {extents : List Extent} {extent : Extent} {offset : Nat}

theorem find?_covers (size : BlockSize) (extents : List Extent) (offset : Nat) :
    (extents.find? fun extent => extent.covers offset size) = Extent.findBlock? extents (size.blockOf offset) := by
  simp only [Extent.covers_eq_containsBlock,Extent.findBlock?]

-- Bytes into an extent are its blocks passed over and the bytes into the block.
theorem Extent.bytes_into {size : BlockSize} (inside : extent.containsBlock (size.blockOf offset)) :
    (size.blockOf offset - extent.startOffset.toNat) * size.bytes + size.within offset =
      offset - extent.startOffset.toNat * size.bytes := by
  have started := Nat.mul_le_mul_right size.bytes (containsBlock_iff.mp inside).1
  have whole : size.blockOf offset * size.bytes + size.within offset = offset := Nat.div_add_mod' offset size.bytes
  rw [Nat.sub_mul]
  omega

theorem mapOffset_hole (missing : Extent.findBlock? extents (ag.blockSize.blockOf offset) = none) :
    mapOffset ag extents offset = .ok none := by
  rw [mapOffset,find?_covers,missing]

theorem mapOffset_mapped (found : Extent.findBlock? extents (ag.blockSize.blockOf offset) = some extent)
    (fits : (ag.place extent.startBlock + (ag.blockSize.blockOf offset - extent.startOffset.toNat)) *
      ag.blockSize.bytes < 0x10000000000000000) :
    mapOffset ag extents offset = .ok (some ⟨extent,ag.place extent.startBlock * ag.blockSize.bytes +
      (offset - extent.startOffset.toNat * ag.blockSize.bytes)⟩) := by
  have translated := AgGeometry.runByteOffset_eq_ok.mpr ⟨fits,rfl⟩
  have inside : extent.containsBlock (ag.blockSize.blockOf offset) := by simpa using List.find?_some found
  have last := BlockSize.last_block (AgGeometry.runByteOffset_dvd translated) fits
  have within : ag.blockSize.within offset < ag.blockSize.bytes := Nat.mod_lt offset ag.blockSize.bytes_pos
  rw [mapOffset,find?_covers,found]
  dsimp only
  rw [translated]
  dsimp only
  rw [fit64?_eq_some.mpr ⟨by omega,rfl⟩,← Extent.bytes_into inside,Nat.add_mul,Nat.add_assoc]

theorem mapOffset_beyond (found : Extent.findBlock? extents (ag.blockSize.blockOf offset) = some extent)
    (large : 0x10000000000000000 ≤ (ag.place extent.startBlock +
      (ag.blockSize.blockOf offset - extent.startOffset.toNat)) * ag.blockSize.bytes) :
    ∃ cause, mapOffset ag extents offset = .error (.corruption 0 cause) := by
  rw [mapOffset,find?_covers,found]
  dsimp only
  cases translated : ag.runByteOffset extent.startBlock
      (ag.blockSize.blockOf offset - extent.startOffset.toNat) with
  | ok block => exact absurd (AgGeometry.runByteOffset_eq_ok.mp translated).1 (Nat.not_lt.mpr large)
  | error error =>
    obtain ⟨field,rfl⟩ := AgGeometry.runByteOffset_error translated
    exact ⟨_,rfl⟩

theorem mapOffset_eq_none :
    mapOffset ag extents offset = .ok none ↔ Extent.findBlock? extents (ag.blockSize.blockOf offset) = none := by
  refine ⟨fun unmapped => ?_,mapOffset_hole⟩
  cases found : Extent.findBlock? extents (ag.blockSize.blockOf offset) with
  | none => rfl
  | some extent =>
    rcases Nat.lt_or_ge ((ag.place extent.startBlock + (ag.blockSize.blockOf offset - extent.startOffset.toNat)) *
      ag.blockSize.bytes) 0x10000000000000000 with fits | large
    · rw [mapOffset_mapped found fits] at unmapped
      cases unmapped
    · obtain ⟨cause,refused⟩ := mapOffset_beyond found large
      rw [refused] at unmapped
      cases unmapped

-- What is mapped names the extent that the search by cover finds.
theorem mapOffset_extent {found : Option MappedOffset} (mapped : mapOffset ag extents offset = .ok found) :
    found.map (·.extent) = extents.find? fun extent => extent.covers offset ag.blockSize := by
  unfold mapOffset at mapped
  split at mapped
  · rename_i missing
    cases mapped
    exact missing.symm
  · rename_i extent held
    split at mapped
    · cases mapped
    · split at mapped
      · cases mapped
      · cases mapped
        exact held.symm

-- Directories find a block of theirs where files do.
theorem InodeFork.logicalOffset_eq_mapOffset (opened : InodeFork) (extents : List Extent) (offset : Nat) :
    opened.logicalOffset extents (opened.ag.blockSize.blockOf offset) =
      (mapOffset opened.ag extents offset).map
        (Option.map fun mapped => opened.ag.blockSize.blockOf mapped.deviceOffset * opened.ag.blockSize.bytes) := by
  rw [mapOffset,find?_covers,logicalOffset]
  cases found : Extent.findBlock? extents (opened.ag.blockSize.blockOf offset) with
  | none => rfl
  | some extent =>
    dsimp only [runOffset]
    cases translated : opened.ag.runByteOffset extent.startBlock
        (opened.ag.blockSize.blockOf offset - extent.startOffset.toNat) with
    | error error => rfl
    | ok block =>
      obtain ⟨row,rfl⟩ := AgGeometry.runByteOffset_dvd translated
      have last := BlockSize.last_block (AgGeometry.runByteOffset_dvd translated) (AgGeometry.runByteOffset_lt translated)
      have within : opened.ag.blockSize.within offset < opened.ag.blockSize.bytes :=
        Nat.mod_lt offset opened.ag.blockSize.bytes_pos
      dsimp only
      rw [fit64?_eq_some.mpr ⟨by omega,rfl⟩]
      simp only [located_ok,Except.map,Option.map,BlockSize.blockOf]
      rw [Nat.mul_add_div opened.ag.blockSize.bytes_pos,Nat.div_eq_of_lt within,Nat.add_zero,Nat.mul_comm]

end Mapping

theorem Volume.fileExtents_ordered {volume : Volume} {inode : UInt64} {device : Device} {extents : List Extent}
    (walked : (volume.fileExtents inode).eval device = .ok extents) : Ordered extents := by
  obtain ⟨map,found,returned⟩ := Traversal.eval_bind_eq_ok.mp walked
  obtain ⟨opened,_,mapped⟩ := Traversal.eval_bind_eq_ok.mp found
  cases returned
  exact (opened.walk_ordered .dataExtents).eval mapped

-- Where a byte of a file is: nowhere, or at one place that no other extent and no rounding disputes.
-- A directory looking for the same block is led to the start of the same device block.
theorem resolveFileOffset_exact {volume : Volume} {inode : UInt64} {device : Device} {extents : List Extent}
    (walked : (volume.fileExtents inode).eval device = .ok extents) (offset : Nat) :
    let size := volume.ag.blockSize
    let covering := extents.filter fun extent =>
      extent.startOffset.toNat * size.bytes ≤ offset ∧
        offset < (extent.startOffset.toNat + extent.blockCount.toNat) * size.bytes
    let resolved := (volume.resolveFileOffset inode offset).eval device
    (resolved = .ok none ↔ covering = []) ∧
    (covering ≠ [] → ∃ extent, covering = [extent] ∧ 0 < extent.blockCount.toNat ∧
      let block := volume.ag.place extent.startBlock + (offset / size.bytes - extent.startOffset.toNat)
      (block * size.bytes < 2 ^ 64 → ∃ first, volume.ag.absoluteBlock extent.startBlock = .ok first ∧
        resolved = .ok (some ⟨extent,first * size.bytes + (offset - extent.startOffset.toNat * size.bytes)⟩)) ∧
      (2 ^ 64 ≤ block * size.bytes → ∃ cause, resolved = .error (.corruption 0 cause))) ∧
    ∀ fork, (InodeFork.mk volume inode fork).logicalOffset extents (offset / size.bytes) =
      resolved.map (Option.map fun mapped => mapped.deviceOffset / size.bytes * size.bytes) := by
  intro size covering resolved
  have ordered := Volume.fileExtents_ordered walked
  have mapped : resolved = mapOffset volume.ag extents offset := by
    change (volume.fileExtents inode >>= fun extents =>
      Traversal.ofExcept (mapOffset volume.ag extents offset)).eval device = _
    rw [Traversal.eval_bind,walked]
    exact Traversal.eval_ofExcept device _
  have held : covering = (Extent.findBlock? extents (size.blockOf offset)).toList := by
    rw [← ordered.filter_containsBlock]
    refine List.filter_congr fun extent _ => ?_
    rw [← Extent.covers_eq_containsBlock,Bool.eq_iff_iff,Extent.covers_iff,decide_eq_true_eq]
    rfl
  refine ⟨?_,?_,?_⟩
  · rw [mapped,mapOffset_eq_none,held]
    exact Option.toList_eq_nil_iff.symm
  · intro some
    cases found : Extent.findBlock? extents (size.blockOf offset) with
    | none => rw [held,found] at some; exact absurd rfl some
    | some extent =>
      have inside : extent.containsBlock (size.blockOf offset) := by simpa using List.find?_some found
      have bounds := Extent.containsBlock_iff.mp inside
      refine ⟨extent,by rw [held,found]; rfl,?_,?_,?_⟩
      · unfold Extent.endOffset at bounds
        omega
      · intro fits
        have scaled : volume.ag.place extent.startBlock ≤
            (volume.ag.place extent.startBlock + (offset / size.bytes - extent.startOffset.toNat)) * size.bytes :=
          Nat.le_trans (Nat.le_add_right _ _) (Nat.le_mul_of_pos_right _ size.bytes_pos)
        refine ⟨_,AgGeometry.absoluteBlock_eq_ok.mpr ⟨Nat.lt_of_le_of_lt scaled fits,rfl⟩,?_⟩
        rw [mapped]
        exact mapOffset_mapped found fits
      · intro large
        rw [mapped]
        exact mapOffset_beyond found large
  · intro fork
    rw [mapped]
    exact InodeFork.logicalOffset_eq_mapOffset ⟨volume,inode,fork⟩ extents offset

-- A file with a hole, whose second extent starts in the second group.
def sparseDevice : Device :=
  .ofStretches 32 [(0,Extent.encode ⟨0,1,2,.normal⟩),(16,Extent.encode ⟨5,1027,2,.unwritten⟩)]

def sparseVolume : Volume where
  geometry := .ofSizes 512 100 10
  ag := ⟨.smallest,100,10⟩
  forks := ForkTable.empty.insert 7 .data ⟨0,32,.extents 2,.v4⟩
  options := .standard

theorem resolveFileOffset_exact_sparse :
    (sparseVolume.fileExtents 7).eval sparseDevice = .ok [⟨0,1,2,.normal⟩,⟨5,1027,2,.unwritten⟩] ∧
      (sparseVolume.resolveFileOffset 7 2000).eval sparseDevice = .ok none ∧
      (sparseVolume.resolveFileOffset 7 3160).eval sparseDevice = .ok (some ⟨⟨5,1027,2,.unwritten⟩,53336⟩) := by
  have walked : (sparseVolume.fileExtents 7).eval sparseDevice = .ok [⟨0,1,2,.normal⟩,⟨5,1027,2,.unwritten⟩] :=
    eq_ok_of_toOption (by decide +kernel)
  refine ⟨walked,(resolveFileOffset_exact walked 2000).1.mpr (by decide),?_⟩
  obtain ⟨extent,alone,_,fits,_⟩ := (resolveFileOffset_exact walked 3160).2.1 (by decide)
  obtain rfl : ⟨5,1027,2,.unwritten⟩ = extent := by simpa using (show [_] = [extent] from alone)
  obtain ⟨first,absolute,resolved⟩ := fits (by decide)
  obtain rfl : 103 = first := by
    have known : sparseVolume.ag.absoluteBlock 1027 = .ok 103 := eq_ok_of_toOption (by decide)
    exact Except.ok.inj (known.symm.trans absolute)
  exact resolved

end XfsReader
