import XfsReader.Attribute
import XfsReader.Proofs.BlockFields

-- Hash leaves, hash nodes and data block headers, read back as they were written. A block is read as what
-- it is and by the decoder of its own version alone.
namespace XfsReader

variable {block : Bytes} {offset : Nat}

namespace LeafSlot

theorem length_encode (slot : LeafSlot) : slot.encode.length = size := rfl

theorem ofRecord_encode (slot : LeafSlot) : ofRecord slot.encode.toArray = slot := by
  obtain ⟨hash,address⟩ := Bytes.holds_append.mp (Bytes.holds_toArray slot.encode)
  have second : Bytes.be32 slot.encode.toArray 4 = slot.address := address.be32
  rw [ofRecord,hash.be32,second]

theorem decodeList_run {slots : List LeafSlot} (held : block.Holds offset (slots.flatMap encode))
    (small : block.size < 0x10000000000000000) : (decodeList offset slots.length).run block = .ok slots := by
  obtain ⟨fits,read⟩ := held.records length_encode (fun slot _ => slot.ofRecord_encode) small
  rw [decodeList,fits]
  exact read

end LeafSlot

namespace LeafBlock

-- Between the two counts and the slots version 5 leaves four bytes unused.
structure HeldBy (leaf : LeafBlock) (block : Bytes) : Prop where
  header : leaf.header.HeldBy block
  count : block.Holds leaf.header.size (word16 (UInt16.ofNat leaf.slots.length))
  stale : block.Holds (leaf.header.size + 2) (word16 leaf.stale)
  slots : block.Holds (headerSize leaf.header.version) (leaf.slots.flatMap LeafSlot.encode)

variable {leaf : LeafBlock}

theorem heldBy_of_holds (held : block.Holds 0 leaf.encode) : leaf.HeldBy block := by
  obtain ⟨held,slots⟩ := Bytes.holds_append.mp held
  obtain ⟨held,_⟩ := Bytes.holds_append.mp held
  obtain ⟨held,stale⟩ := Bytes.holds_append.mp held
  obtain ⟨header,count⟩ := Bytes.holds_append.mp held
  simp only [List.length_append,DaHeader.length_encode,length_word16,Nat.zero_add] at count stale slots
  refine ⟨DaHeader.heldBy_of_holds header,count,stale,slots.moved ?_⟩
  rw [DaHeader.size]
  cases leaf.header.version <;> rfl

theorem HeldBy.decode_run (held : leaf.HeldBy block) (kinded : leaf.header.kind ∈ kinds)
    (few : leaf.slots.length ≤ 65535) (small : block.size < 0x10000000000000000) :
    (decode leaf.header.version).run block = .ok leaf := by
  have counted : (UInt16.ofNat leaf.slots.length).toNat = leaf.slots.length :=
    UInt16.toNat_ofNat_of_lt' (Nat.lt_succ_of_le few)
  have whole : 0 + headerSize leaf.header.version ≤ block.size := by
    have inside := held.slots.inside
    omega
  refine Decoder.run_bind_eq_ok.mpr ⟨_,held.header.decodeKinds_run kinded small,?_⟩
  refine Decoder.run_bind_eq_ok.mpr ⟨_,Decoder.be16_run held.count small,?_⟩
  refine Decoder.run_bind_eq_ok.mpr ⟨_,Decoder.be16_run held.stale small,?_⟩
  refine Decoder.run_bind_eq_ok.mpr ⟨(),Decoder.require_run whole small,?_⟩
  rw [counted]
  exact Decoder.run_bind_eq_ok.mpr ⟨_,LeafSlot.decodeList_run held.slots small,rfl⟩

end LeafBlock

namespace DaNode

structure HeldBy (node : DaNode) (block : Bytes) : Prop where
  header : node.header.HeldBy block
  count : block.Holds node.header.size (word16 (UInt16.ofNat node.entries.length))
  level : block.Holds (node.header.size + 2) (word16 node.level)
  entries : block.Holds (entriesOffset node.header.version) (node.entries.flatMap encodeEntry)

variable {node : DaNode}

theorem heldBy_of_holds (held : block.Holds 0 node.encode) : node.HeldBy block := by
  obtain ⟨held,entries⟩ := Bytes.holds_append.mp held
  obtain ⟨held,_⟩ := Bytes.holds_append.mp held
  obtain ⟨held,level⟩ := Bytes.holds_append.mp held
  obtain ⟨header,count⟩ := Bytes.holds_append.mp held
  simp only [List.length_append,DaHeader.length_encode,length_word16,Nat.zero_add] at count level entries
  refine ⟨DaHeader.heldBy_of_holds header,count,level,entries.moved ?_⟩
  rw [DaHeader.size]
  cases node.header.version <;> rfl

theorem decodeEntry_run {entry : DaEntry} (held : block.Holds offset (encodeEntry entry))
    (small : block.size < 0x10000000000000000) : (decodeEntry offset).run block = .ok entry := by
  obtain ⟨hash,before⟩ := Bytes.holds_append.mp held
  refine Decoder.run_bind_eq_ok.mpr ⟨_,Decoder.be32_run hash small,?_⟩
  exact Decoder.run_bind_eq_ok.mpr ⟨_,Decoder.be32_run before small,rfl⟩

theorem HeldBy.decode_run (held : node.HeldBy block) (kinded : node.header.kind = .node)
    (few : node.entries.length ≤ 65535) (small : block.size < 0x10000000000000000) :
    (decode node.header.version).run block = .ok node := by
  have counted : (UInt16.ofNat node.entries.length).toNat = node.entries.length :=
    UInt16.toNat_ofNat_of_lt' (Nat.lt_succ_of_le few)
  have table : (Decoder.table (entriesOffset node.header.version) 8 node.entries.length decodeEntry).run block =
      .ok node.entries :=
    Decoder.table_run held.entries (fun _ => rfl) fun _ _ entry => decodeEntry_run entry small
  refine Decoder.run_bind_eq_ok.mpr ⟨_,held.header.decodeKinds_run (List.mem_singleton.mpr kinded) small,?_⟩
  refine Decoder.run_bind_eq_ok.mpr ⟨_,Decoder.be16_run held.count small,?_⟩
  refine Decoder.run_bind_eq_ok.mpr ⟨_,Decoder.be16_run held.level small,?_⟩
  rw [counted]
  exact Decoder.run_bind_eq_ok.mpr ⟨_,table,rfl⟩

end DaNode

-- The three decoders that begin with such a header, one version of them, each refuse what is none of theirs.
structure DaHeader.Refused (header : DaHeader) (version : FormatVersion) (block : Bytes) : Prop where
  leafBlock : version ≠ header.version ∨ header.kind ∉ LeafBlock.kinds →
    (LeafBlock.decode version).run block = .error (header.refusal "dir leaf" LeafBlock.kinds version)
  daNode : version ≠ header.version ∨ header.kind ∉ [.node] →
    (DaNode.decode version).run block = .error (header.refusal "da node" [.node] version)
  attrLeaf : version ≠ header.version ∨ header.kind ∉ [.attrLeaf] →
    (AttrLeaf.decode version).run block = .error (header.refusal "attr leaf" [.attrLeaf] version)

theorem DaHeader.HeldBy.refused {header : DaHeader} (held : header.HeldBy block)
    (small : block.size < 0x10000000000000000) (version : FormatVersion) : header.Refused version block := by
  refine ⟨fun foreign => ?_,fun foreign => ?_,fun foreign => ?_⟩
  · rw [LeafBlock.decode,Decoder.run_bind,held.decodeKinds_refused foreign small]
    rfl
  · rw [DaNode.decode,Decoder.run_bind,held.decodeKinds_refused foreign small]
    rfl
  · rw [AttrLeaf.decode,Decoder.run_bind,held.decodeKinds_refused foreign small]
    rfl

theorem DataForm.ofMagic?_magic (form : DataForm) (version : FormatVersion) :
    ofMagic? version (form.magic version) = some form := by
  cases form <;> cases version <;> decide

theorem DataForm.ofMagic?_other {version other : FormatVersion} (different : other ≠ version) (form : DataForm) :
    ofMagic? other (form.magic version) = none := by
  revert different
  cases version <;> cases other <;> cases form <;> decide

namespace DataHeader

structure HeldBy (header : DataHeader) (block : Bytes) : Prop where
  magic : block.Holds 0 (word32 header.magic)
  description : block.Holds 4 (SelfDescription.encodeFor header.description)
  bestFree : block.Holds (prefaceSize header.version) (FreeRun.encodeThree header.bestFree)
  whole : header.entriesOffset ≤ block.size

variable {header : DataHeader} {version : FormatVersion}

theorem prefaceSize_eq (header : DataHeader) :
    prefaceSize header.version = 4 + (SelfDescription.encodeFor header.description).length := by
  cases present : header.description with
  | none => simp [prefaceSize,DataHeader.version,FormatVersion.ofDescription,present,SelfDescription.encodeFor]
  | some description =>
    simp [prefaceSize,DataHeader.version,FormatVersion.ofDescription,present,SelfDescription.encodeFor,
      SelfDescription.length_encode]

theorem entriesOffset_eq (header : DataHeader) :
    header.entriesOffset = prefaceSize header.version + 12 + (padding header.version).length := by
  rw [entriesOffset]
  cases header.version <;> rfl

theorem heldBy_of_holds (held : block.Holds 0 header.encode) : header.HeldBy block := by
  have whole := held.inside
  obtain ⟨held,_⟩ := Bytes.holds_append.mp held
  obtain ⟨held,bestFree⟩ := Bytes.holds_append.mp held
  obtain ⟨magic,description⟩ := Bytes.holds_append.mp held
  simp only [encode,List.length_append,length_word32,FreeRun.length_encodeThree,Nat.zero_add] at whole bestFree
  rw [← prefaceSize_eq] at whole bestFree
  rw [← entriesOffset_eq] at whole
  exact ⟨magic,description,bestFree,whole⟩

theorem HeldBy.decode_run (held : header.HeldBy block) (small : block.size < 0x10000000000000000) :
    (decode header.version).run block = .ok header := by
  have whole : 0 + entriesOffsetOf header.version ≤ block.size := by
    rw [Nat.zero_add]
    exact held.whole
  have described := SelfDescription.decodeFor_run held.description small
  refine Decoder.run_bind_eq_ok.mpr ⟨header.magic,Decoder.be32_run held.magic small,?_⟩
  rw [decodeAfter,DataHeader.magic,DataForm.ofMagic?_magic]
  refine Decoder.run_bind_eq_ok.mpr ⟨_,described,?_⟩
  refine Decoder.run_bind_eq_ok.mpr ⟨_,FreeRun.decodeThree_run held.bestFree small,?_⟩
  exact Decoder.run_bind_eq_ok.mpr ⟨(),Decoder.require_run whole small,rfl⟩

theorem HeldBy.decode_other (held : header.HeldBy block) (different : version ≠ header.version)
    (small : block.size < 0x10000000000000000) :
    (decode version).run block =
      .error (.signatureMismatch "dir data block" (DataForm.accepted version) (.ofWord32 header.magic)) := by
  rw [decode,Decoder.run_bind,Decoder.be32_run held.magic small]
  change (decodeAfter version header.magic).run block = _
  rw [decodeAfter,DataHeader.magic,DataForm.ofMagic?_other different]
  rfl

end DataHeader

-- Each block comes back with every field, its slots or pairs in order, whatever stands in the gaps of its
-- header and behind it. The decoders of the other version refuse it for its magic, and so do those of
-- the other kinds.
theorem directory_blocks_read_back (small : block.size < 0x10000000000000000) :
    (∀ leaf : LeafBlock, leaf.header.kind ∈ LeafBlock.kinds → leaf.slots.length ≤ 65535 → leaf.HeldBy block →
      (LeafBlock.decode leaf.header.version).run block = .ok leaf) ∧
    (∀ node : DaNode, node.header.kind = .node → node.entries.length ≤ 65535 → node.HeldBy block →
      (DaNode.decode node.header.version).run block = .ok node) ∧
    (∀ header : DataHeader, header.HeldBy block →
      (DataHeader.decode header.version).run block = .ok header ∧
        ∀ version, version ≠ header.version → (DataHeader.decode version).run block =
          .error (.signatureMismatch "dir data block" (DataForm.accepted version) (.ofWord32 header.magic))) ∧
    (∀ header : DaHeader, header.HeldBy block → ∀ version, header.Refused version block) ∧
    ∀ rest : List UInt8,
      (∀ leaf : LeafBlock, leaf.HeldBy (leaf.encode ++ rest).toArray) ∧
        (∀ node : DaNode, node.HeldBy (node.encode ++ rest).toArray) ∧
        ∀ header : DataHeader, header.HeldBy (header.encode ++ rest).toArray := by
  refine ⟨?leaves,?nodes,?dataBlocks,?others,?written⟩
  case leaves => exact fun leaf kinded few held => held.decode_run kinded few small
  case nodes => exact fun node kinded few held => held.decode_run kinded few small
  case dataBlocks =>
    exact fun header held => ⟨held.decode_run small,fun version different => held.decode_other different small⟩
  case others => exact fun header held version => held.refused small version
  case written =>
    intro rest
    exact ⟨fun _ => LeafBlock.heldBy_of_holds (Bytes.holds_front _ rest),
      fun _ => DaNode.heldBy_of_holds (Bytes.holds_front _ rest),
      fun _ => DataHeader.heldBy_of_holds (Bytes.holds_front _ rest)⟩

-- A leaf of version 5 with a stale slot between two live ones.
def staleLeaf : LeafBlock where
  header := ⟨3,1,.dirLeafN,some ⟨0xCAFE,88,6,.replicate 16 0xAB,131⟩⟩
  stale := 1
  slots := [⟨0x61,2⟩,⟨0x62,0⟩,⟨0x63,4⟩]

def staleBytes : Bytes := (staleLeaf.encode ++ [0xFF,0xFF]).toArray

theorem directory_blocks_read_back_stale :
    staleBytes.size = 90 ∧ staleLeaf.HeldBy staleBytes ∧ (LeafBlock.decode .v5).run staleBytes = .ok staleLeaf ∧
      (LeafBlock.decode .v4).run staleBytes =
        .error (.signatureMismatch "da block" (DaKind.magics DaKind.all .v4) (.ofWord16 0x3DFF)) ∧
      (DaNode.decode .v5).run staleBytes =
        .error (.signatureMismatch "da node" (DaKind.magics [.node] .v5) (.ofWord16 0x3DFF)) := by
  obtain ⟨leaves,_,_,others,written⟩ := @directory_blocks_read_back staleBytes (by decide +kernel)
  have held : staleLeaf.HeldBy staleBytes := (written [0xFF,0xFF]).1 staleLeaf
  have decoded := leaves staleLeaf (by decide) (by decide) held
  have older := (others staleLeaf.header held.header .v4).leafBlock (.inl (by decide))
  have node := (others staleLeaf.header held.header .v5).daNode (.inr (by decide))
  exact ⟨by decide +kernel,held,decoded,older,node⟩

end XfsReader
