import XfsReader.Proofs.BlockFields
import XfsReader.Proofs.DecoderReach
import XfsReader.Proofs.Seals

-- Attribute leaves read back as they were written. The entries of the table say where the name records
-- stand, and each record is read from its own bytes alone, so that records which keep apart do not
-- disturb each other or the table.
namespace XfsReader

variable {block : Bytes} {offset : Nat}

namespace AttrEntry

-- The last byte of an entry says nothing.
def fields (entry : AttrEntry) : List UInt8 := word32 entry.hash ++ word16 entry.nameIndex ++ [entry.flags]

theorem ofRecord_held {entry : AttrEntry} (held : block.Holds offset entry.fields) :
    ofRecord (Bytes.part block offset size) = entry := by
  obtain ⟨held,flags⟩ := Bytes.holds_append.mp held
  obtain ⟨hash,index⟩ := Bytes.holds_append.mp held
  have indexed : Bytes.be16 block (offset + 4) = entry.nameIndex := index.be16
  have flagged : Bytes.byteAt block (offset + 6) = entry.flags := flags.byteAt
  rw [ofRecord_part,hash.be32,indexed,flagged]

-- The bits that the flags are read by.
theorem flags_bits (entry : AttrEntry) :
    entry.isLocal = entry.flags.toNat.testBit 0 ∧ entry.isIncomplete = entry.flags.toNat.testBit 7 ∧
      entry.space = if entry.flags.toNat.testBit 2 then .secure else if entry.flags.toNat.testBit 1 then .trusted
        else .user := by
  have each : ∀ number < 256,
      decide (UInt8.ofNat number &&& 0x01 ≠ 0) = number.testBit 0 ∧
        decide (UInt8.ofNat number &&& 0x80 ≠ 0) = number.testBit 7 ∧
        AttrNamespace.ofFlags (UInt8.ofNat number) =
          if number.testBit 2 then .secure else if number.testBit 1 then .trusted else .user := by
    decide +kernel
  have flags := each entry.flags.toNat entry.flags.toNat_lt
  rwa [UInt8.ofNat_toNat] at flags

end AttrEntry

namespace AttrLeaf

structure HeldBy (leaf : AttrLeaf) (block : Bytes) : Prop where
  header : leaf.header.HeldBy block
  count : block.Holds leaf.header.size (word16 (UInt16.ofNat leaf.entries.length))
  usedBytes : block.Holds (leaf.header.size + 2) (word16 leaf.usedBytes)
  firstUsed : block.Holds (leaf.header.size + 4) (word16 leaf.firstUsed)
  holes : block.Holds (leaf.header.size + 6) [leaf.holes]
  freeMap : block.Holds (leaf.header.size + 8) (FreeRun.encodeThree leaf.freeMap)
  whole : headerSize leaf.header.version + 8 * leaf.entries.length ≤ block.size
  table : ∀ (index : Nat) entry, leaf.entries[index]? = some entry →
    block.Holds (headerSize leaf.header.version + 8 * index) entry.fields

variable {leaf : AttrLeaf}

theorem heldBy_of_holds (held : block.Holds 0 leaf.encode) : leaf.HeldBy block := by
  obtain ⟨held,entries⟩ := Bytes.holds_append.mp held
  obtain ⟨held,_⟩ := Bytes.holds_append.mp held
  obtain ⟨held,freeMap⟩ := Bytes.holds_append.mp held
  obtain ⟨held,holes⟩ := Bytes.holds_append.mp held
  obtain ⟨held,firstUsed⟩ := Bytes.holds_append.mp held
  obtain ⟨held,usedBytes⟩ := Bytes.holds_append.mp held
  obtain ⟨header,count⟩ := Bytes.holds_append.mp held
  simp only [List.length_append,DaHeader.length_encode,length_word16,FreeRun.length_encodeThree,Nat.zero_add]
    at count usedBytes firstUsed holes freeMap entries
  replace entries : block.Holds (headerSize leaf.header.version) (leaf.entries.flatMap AttrEntry.encode) := by
    refine entries.moved ?_
    rw [DaHeader.size]
    cases leaf.header.version <;> rfl
  have wide : ∀ entry : AttrEntry, entry.encode.length = 8 := fun _ => rfl
  have whole := entries.inside
  rw [Bytes.length_items wide,Nat.mul_comm] at whole
  refine ⟨DaHeader.heldBy_of_holds header,count,usedBytes,firstUsed,holes.take 1,freeMap,whole,?_⟩
  intro index entry listed
  obtain ⟨below,rfl⟩ := List.getElem?_eq_some_iff.mp listed
  exact (entries.item wide below).take 7

theorem HeldBy.entries (held : leaf.HeldBy block) :
    (Bytes.chunks (Bytes.part block (headerSize leaf.header.version) (leaf.entries.length * AttrEntry.size))
      AttrEntry.size leaf.entries.length).map AttrEntry.ofRecord = leaf.entries := by
  refine List.ext_getElem (by simp [Bytes.chunks]) fun index _ below => ?_
  have fields := held.table index _ (List.getElem?_eq_getElem below)
  have inside : 8 * index + 8 ≤ leaf.entries.length * 8 := by omega
  simp only [Bytes.chunks,List.getElem_map,List.getElem_range,AttrEntry.size]
  rw [Bytes.part_part inside]
  exact AttrEntry.ofRecord_held fields

theorem HeldBy.decode_run (held : leaf.HeldBy block) (kinded : leaf.header.kind = .attrLeaf)
    (few : leaf.entries.length ≤ 65535) (small : block.size < 0x10000000000000000) :
    (decode leaf.header.version).run block = .ok leaf := by
  have counted : (UInt16.ofNat leaf.entries.length).toNat = leaf.entries.length :=
    UInt16.toNat_ofNat_of_lt' (Nat.lt_succ_of_le few)
  have inside : headerSize leaf.header.version + leaf.entries.length * AttrEntry.size ≤ block.size := by
    rw [AttrEntry.size,Nat.mul_comm]
    exact held.whole
  refine Decoder.run_bind_eq_ok.mpr ⟨_,held.header.decodeKinds_run (List.mem_singleton.mpr kinded) small,?_⟩
  refine Decoder.run_bind_eq_ok.mpr ⟨_,Decoder.be16_run held.count small,?_⟩
  refine Decoder.run_bind_eq_ok.mpr ⟨_,Decoder.be16_run held.usedBytes small,?_⟩
  refine Decoder.run_bind_eq_ok.mpr ⟨_,Decoder.be16_run held.firstUsed small,?_⟩
  refine Decoder.run_bind_eq_ok.mpr ⟨_,Decoder.u8_run held.holes small,?_⟩
  refine Decoder.run_bind_eq_ok.mpr ⟨_,FreeRun.decodeThree_run held.freeMap small,?_⟩
  rw [counted,Decoder.run_slice_inside (by omega) inside,Decoder.run_done,held.entries]

end AttrLeaf

-- An entry with the record that it points at, in the form that its local flag says.
structure StoredName where
  entry : AttrEntry
  name : Name
  value : AttrValue
  short : name.length ≤ 255
  near : ∀ content, value = .inBlock content → entry.isLocal = true ∧ content.length ≤ 65535
  far : ∀ start length, value = .remote start length → entry.isLocal = false

namespace StoredName

variable {record : StoredName}

def attrName (record : StoredName) : AttrName where
  space := record.entry.space
  name := record.name
  hash := record.entry.hash
  nameIndex := record.entry.nameIndex
  value := record.value

def place (record : StoredName) : Nat := record.entry.nameIndex.toNat

def bytes (record : StoredName) : List UInt8 := record.attrName.encode

def complete (record : StoredName) : Bool := !record.entry.isIncomplete

def Apart (one other : StoredName) : Prop :=
  one.place + one.bytes.length ≤ other.place ∨ other.place + other.bytes.length ≤ one.place

theorem recordLength_eq (record : StoredName) : record.attrName.recordLength = roundUp record.bytes.length 4 := by
  cases form : record.value with
  | inBlock content =>
    simp only [bytes,AttrName.recordLength,AttrName.encode,attrName,form,List.length_append,length_word16,
      List.length_singleton]
  | remote start length =>
    simp only [bytes,AttrName.recordLength,AttrName.encode,attrName,form,List.length_append,length_word32,
      List.length_singleton]

theorem decode_run (held : block.Holds record.place record.bytes) (small : block.size < 0x10000000000000000) :
    (AttrName.decode record.entry).run block = .ok record.attrName := by
  have counted : (UInt8.ofNat record.name.length).toNat = record.name.length :=
    UInt8.toNat_ofNat_of_lt' (Nat.lt_succ_of_le record.short)
  cases form : record.value with
  | inBlock content =>
    obtain ⟨nearby,fits⟩ := record.near content form
    have measured : (UInt16.ofNat content.length).toNat = content.length :=
      UInt16.toNat_ofNat_of_lt' (Nat.lt_succ_of_le fits)
    simp only [bytes,AttrName.encode,attrName,form] at held
    obtain ⟨held,value⟩ := Bytes.holds_append.mp held
    obtain ⟨held,name⟩ := Bytes.holds_append.mp held
    obtain ⟨valueLength,nameLength⟩ := Bytes.holds_append.mp held
    replace name : block.Holds (record.place + 3) record.name := name
    replace value : block.Holds (record.place + 3 + record.name.length) content := by
      refine value.moved ?_
      simp only [List.length_append,length_word16,List.length_singleton]
      omega
    have read : (AttrName.decodeLocal record.place).run block = .ok (record.name,.inBlock content) := by
      refine Decoder.run_bind_eq_ok.mpr ⟨_,Decoder.be16_run valueLength small,?_⟩
      refine Decoder.run_bind_eq_ok.mpr ⟨_,Decoder.u8_run nameLength small,?_⟩
      rw [counted,measured]
      refine Decoder.run_bind_eq_ok.mpr ⟨_,Decoder.bytes_run name small rfl,?_⟩
      exact Decoder.run_bind_eq_ok.mpr ⟨_,Decoder.bytes_run value small rfl,rfl⟩
    rw [AttrName.decode,if_pos nearby]
    refine Decoder.run_bind_eq_ok.mpr ⟨_,read,?_⟩
    rw [attrName,form]
    rfl
  | remote start length =>
    have away : ¬ record.entry.isLocal = true := by simp [record.far start length form]
    simp only [bytes,AttrName.encode,attrName,form] at held
    obtain ⟨held,name⟩ := Bytes.holds_append.mp held
    obtain ⟨held,nameLength⟩ := Bytes.holds_append.mp held
    obtain ⟨first,second⟩ := Bytes.holds_append.mp held
    replace name : block.Holds (record.place + 9) record.name := name
    have read : (AttrName.decodeRemote record.place).run block = .ok (record.name,.remote start length) := by
      refine Decoder.run_bind_eq_ok.mpr ⟨_,Decoder.be32_run first small,?_⟩
      refine Decoder.run_bind_eq_ok.mpr ⟨_,Decoder.be32_run second small,?_⟩
      refine Decoder.run_bind_eq_ok.mpr ⟨_,Decoder.u8_run nameLength small,?_⟩
      rw [counted]
      exact Decoder.run_bind_eq_ok.mpr ⟨_,Decoder.bytes_run name small rfl,rfl⟩
    rw [AttrName.decode,if_neg away]
    refine Decoder.run_bind_eq_ok.mpr ⟨_,read,?_⟩
    rw [attrName,form]
    rfl

end StoredName

-- Entries that are not complete are passed over, wherever they point.
theorem AttrLeaf.names_run {leaf : AttrLeaf} {records : List StoredName}
    (listed : leaf.entries = records.map (·.entry))
    (held : ∀ record ∈ records.filter StoredName.complete, block.Holds record.place record.bytes)
    (small : block.size < 0x10000000000000000) :
    leaf.names.run block = .ok ((records.filter StoredName.complete).map StoredName.attrName) := by
  have kept : (leaf.entries.filter fun entry => !entry.isIncomplete) =
      (records.filter StoredName.complete).map (·.entry) := by
    rw [listed,List.filter_map]
    rfl
  rw [names,kept]
  refine Decoder.mapM_run_each (by simp) fun index entry name pointed found => ?_
  rw [List.getElem?_map] at pointed found
  obtain ⟨record,present,rfl⟩ := Option.map_eq_some_iff.mp found
  rw [present] at pointed
  cases pointed
  exact StoredName.decode_run (held record (List.mem_of_getElem? present)) small

-- Where a record ends that begins where an entry says, by the lengths that it states of itself.
def AttrEntry.recordStop (entry : AttrEntry) (block : Bytes) : Nat :=
  let place := entry.nameIndex.toNat
  if entry.isLocal then place + 3 + (Bytes.byteAt block (place + 2)).toNat + (Bytes.be16 block place).toNat
  else place + 9 + (Bytes.byteAt block (place + 8)).toNat

namespace AttrName

theorem decode_inside {entry : AttrEntry} {name : AttrName} (read : (decode entry).run block = .ok name) :
    entry.recordStop block ≤ block.size := by
  rw [decode] at read
  rw [AttrEntry.recordStop]
  split at read
  · rename_i nearby
    obtain ⟨fields,read,_⟩ := Decoder.run_bind_eq_ok.mp read
    obtain ⟨_,_,read⟩ := Decoder.slice_eq_ok read
    obtain ⟨_,_,read⟩ := Decoder.slice_eq_ok read
    obtain ⟨_,_,read⟩ := Decoder.slice_eq_ok read
    obtain ⟨_,inside,_⟩ := Decoder.slice_eq_ok read
    rw [Bytes.byteAt_part,Bytes.be16_part] at inside
    rwa [if_pos nearby]
  · rename_i away
    obtain ⟨fields,read,_⟩ := Decoder.run_bind_eq_ok.mp read
    obtain ⟨_,_,read⟩ := Decoder.slice_eq_ok read
    obtain ⟨_,_,read⟩ := Decoder.slice_eq_ok read
    obtain ⟨_,_,read⟩ := Decoder.slice_eq_ok read
    obtain ⟨_,inside,_⟩ := Decoder.slice_eq_ok read
    rw [Bytes.byteAt_part] at inside
    rwa [if_neg away]

-- Only a lack of bytes stops the decoder of a name, and it never looks further than this.
theorem decode_finishes (entry : AttrEntry) : (decode entry).Finishes 0x20200 fun _ => True := by
  have place := entry.nameIndex.toNat_lt
  have near : (decodeLocal entry.nameIndex.toNat).Finishes 0x20200 fun _ => True := by
    refine .bind (Decoder.be16_finishes (by omega)) fun valueLength _ =>
      .bind (Decoder.u8_finishes (by omega)) fun nameLength _ => ?_
    have value := valueLength.toNat_lt
    have name := nameLength.toNat_lt
    exact .bind (Decoder.bytes_finishes (by omega)) fun _ _ =>
      .bind (Decoder.bytes_finishes (by omega)) fun _ _ => trivial
  have far : (decodeRemote entry.nameIndex.toNat).Finishes 0x20200 fun _ => True := by
    refine .bind (Decoder.be32_finishes (by omega)) fun start _ =>
      .bind (Decoder.be32_finishes (by omega)) fun length _ => .bind (Decoder.u8_finishes (by omega)) fun nameLength _ => ?_
    have name := nameLength.toNat_lt
    exact .bind (Decoder.bytes_finishes (by omega)) fun _ _ => trivial
  unfold decode
  split
  · exact near.bind fun _ _ => trivial
  · exact far.bind fun _ _ => trivial

end AttrName

-- One complete record that runs past the block leaves no names at all.
theorem AttrLeaf.names_cut {leaf : AttrLeaf} {entry : AttrEntry} (member : entry ∈ leaf.entries)
    (complete : entry.isIncomplete = false) (past : block.size < entry.recordStop block) :
    ∃ needed offset actual, leaf.names.run block = .error (.insufficientData needed offset actual) := by
  have kept : entry ∈ leaf.entries.filter fun entry => !entry.isIncomplete :=
    List.mem_filter.mpr ⟨member,by rw [complete]; rfl⟩
  have finishes : leaf.names.Finishes 0x20200 fun _ => True := Decoder.mapM_finishes AttrName.decode_finishes
  rcases finishes.run_or_short (by decide) block with ⟨names,read⟩ | short
  · obtain ⟨name,decoded⟩ := Decoder.mapM_each read kept
    exact absurd (AttrName.decode_inside decoded) (Nat.not_le.mpr past)
  · exact short

-- Records written into a block one after another, each where its entry says.
def writeRecords (base : Bytes) (records : List StoredName) : Bytes :=
  records.foldl (fun block record => block.overwritten record.place record.bytes) base

section Writing

variable {base : Bytes} {records : List StoredName} {content : List UInt8}

theorem size_writeRecords (room : ∀ record ∈ records, record.place + record.bytes.length ≤ base.size) :
    (writeRecords base records).size = base.size := by
  induction records generalizing base with
  | nil => rfl
  | cons record records ih =>
    have same := Bytes.sameOutside_overwritten (room record List.mem_cons_self)
    have later : ∀ other ∈ records, other.place + other.bytes.length ≤ (base.overwritten record.place record.bytes).size :=
      fun other member => same.size.symm ▸ room other (List.mem_cons_of_mem record member)
    exact (ih later).trans same.size

-- What all the records keep away from is still there after the last of them.
theorem Bytes.Holds.writeRecords (held : base.Holds offset content)
    (room : ∀ record ∈ records, record.place + record.bytes.length ≤ base.size)
    (apart : ∀ record ∈ records, record.place + record.bytes.length ≤ offset ∨ offset + content.length ≤ record.place) :
    (writeRecords base records).Holds offset content := by
  induction records generalizing base with
  | nil => exact held
  | cons record records ih =>
    have first := room record List.mem_cons_self
    have same := Bytes.sameOutside_overwritten first
    refine ih (held.beside first (apart record List.mem_cons_self)) ?_ ?_
    · exact fun other member => same.size.symm ▸ room other (List.mem_cons_of_mem record member)
    · exact fun other member => apart other (List.mem_cons_of_mem record member)

theorem holds_writeRecords (room : ∀ record ∈ records, record.place + record.bytes.length ≤ base.size)
    (apart : records.Pairwise StoredName.Apart) {record : StoredName} (member : record ∈ records) :
    (writeRecords base records).Holds record.place record.bytes := by
  induction records generalizing base with
  | nil => cases member
  | cons first records ih =>
    have fits := room first List.mem_cons_self
    have same := Bytes.sameOutside_overwritten fits
    have later : ∀ other ∈ records, other.place + other.bytes.length ≤ (base.overwritten first.place first.bytes).size :=
      fun other member => same.size.symm ▸ room other (List.mem_cons_of_mem first member)
    obtain ⟨beside,rest⟩ := List.pairwise_cons.mp apart
    rcases List.mem_cons.mp member with rfl | member
    · exact (Bytes.holds_overwritten fits).writeRecords later fun other member => (beside other member).symm
    · exact ih later rest member

end Writing

namespace AttrLeaf

variable {leaf : AttrLeaf} {other : Bytes}

def tableEnd (leaf : AttrLeaf) : Nat := headerSize leaf.header.version + 8 * leaf.entries.length

-- Header and table are all that matters of the bytes before the table's end.
theorem HeldBy.carried (held : leaf.HeldBy block) (long : block.size ≤ other.size)
    (same : ∀ offset content, offset + content.length ≤ leaf.tableEnd → block.Holds offset content →
      other.Holds offset content) : leaf.HeldBy other := by
  have least : leaf.header.size + 20 ≤ leaf.tableEnd := by
    rw [DaHeader.size,tableEnd]
    cases leaf.header.version <;> simp only [DaHeader.sizeOf,headerSize] <;> omega
  have size := leaf.header.size_eq
  have moved (offset : Nat) (content : List UInt8) (near : offset + content.length ≤ leaf.header.size + 20)
      (there : block.Holds offset content) : other.Holds offset content :=
    same offset content (Nat.le_trans near least) there
  have header := held.header
  refine ⟨⟨moved _ _ ?_ header.forward,moved _ _ ?_ header.backward,moved _ _ ?_ header.magic,
    moved _ _ (by omega) header.description⟩,moved _ _ ?_ held.count,moved _ _ ?_ held.usedBytes,moved _ _ ?_ held.firstUsed,
    moved _ _ ?_ held.holes,moved _ _ ?_ held.freeMap,Nat.le_trans held.whole long,?_⟩
  case refine_9 =>
    intro index entry listed
    obtain ⟨below,_⟩ := List.getElem?_eq_some_iff.mp listed
    refine same _ _ ?_ (held.table index entry listed)
    change _ + 7 ≤ _
    rw [tableEnd]
    omega
  all_goals
    simp only [length_word32,length_word16,List.length_singleton,FreeRun.length_encodeThree]
    omega

end AttrLeaf

-- Whatever the other bytes are, the complete entries come back in their order, each with what its record
-- says. Records that keep apart from each other and from the table can be written into any block with that
-- header and table, and are then all there. Where one runs past the block there are no names.
theorem attribute_leaf_read_back {leaf : AttrLeaf} {records : List StoredName} (kinded : leaf.header.kind = .attrLeaf)
    (few : leaf.entries.length ≤ 65535) (listed : leaf.entries = records.map (·.entry)) :
    (∀ block : Bytes, block.size < 0x10000000000000000 → leaf.HeldBy block →
      (∀ record ∈ records.filter StoredName.complete, block.Holds record.place record.bytes) →
        (AttrLeaf.decode leaf.header.version).run block = .ok leaf ∧
          leaf.names.run block = .ok ((records.filter StoredName.complete).map StoredName.attrName)) ∧
    (∀ block : Bytes, leaf.HeldBy block → (records.filter StoredName.complete).Pairwise StoredName.Apart →
      (∀ record ∈ records.filter StoredName.complete,
        leaf.tableEnd ≤ record.place ∧ record.place + record.bytes.length ≤ block.size) →
        leaf.HeldBy (writeRecords block (records.filter StoredName.complete)) ∧
          ∀ record ∈ records.filter StoredName.complete,
            (writeRecords block (records.filter StoredName.complete)).Holds record.place record.bytes) ∧
    (∀ record ∈ records,
      record.attrName.space =
        (if record.entry.flags.toNat.testBit 2 then .secure else if record.entry.flags.toNat.testBit 1 then .trusted
        else .user) ∧
      record.complete = !record.entry.flags.toNat.testBit 7 ∧
      record.entry.isLocal = record.entry.flags.toNat.testBit 0 ∧
      record.attrName.recordLength = roundUp record.bytes.length 4) ∧
    ∀ block : Bytes,
      (∃ entry ∈ leaf.entries, entry.isIncomplete = false ∧ block.size < entry.recordStop block) →
        ∃ needed offset actual, leaf.names.run block = .error (.insufficientData needed offset actual) := by
  refine ⟨?read,?written,?each,?cut⟩
  case read =>
    exact fun block small held stored => ⟨held.decode_run kinded few small,AttrLeaf.names_run listed stored small⟩
  case written =>
    intro block held apart placed
    have room := fun record member => (placed record member).2
    refine ⟨held.carried (Nat.le_of_eq (size_writeRecords room).symm) ?_,fun record => holds_writeRecords room apart⟩
    intro offset content before there
    exact there.writeRecords room fun record member => .inr (Nat.le_trans before (placed record member).1)
  case each =>
    intro record _
    obtain ⟨near,incomplete,space⟩ := record.entry.flags_bits
    exact ⟨space,congrArg (! ·) incomplete,near,record.recordLength_eq⟩
  case cut =>
    rintro block ⟨entry,member,complete,past⟩
    exact AttrLeaf.names_cut member complete past

def nearRecord : StoredName where
  entry := ⟨0x11,100,0x07⟩
  name := [0x6B,0x65,0x79]
  value := .inBlock [1,2]
  short := by decide
  near := by rintro content ⟨⟩; decide
  far := by rintro start length ⟨⟩

def farRecord : StoredName where
  entry := ⟨0x22,60,0x02⟩
  name := [0x72]
  value := .remote 7 9000
  short := by decide
  near := by rintro content ⟨⟩
  far := by rintro start length ⟨⟩; decide

-- It is not complete, and points behind the block.
def halfRecord : StoredName where
  entry := ⟨0x33,60000,0x80⟩
  name := [0x68]
  value := .remote 0 0
  short := by decide
  near := by rintro content ⟨⟩
  far := by rintro start length ⟨⟩; decide

def storedRecords : List StoredName := [nearRecord,halfRecord,farRecord]

def storedLeaf : AttrLeaf where
  header := ⟨0,0,.attrLeaf,none⟩
  usedBytes := 18
  firstUsed := 60
  holes := 1
  freeMap := (⟨56,4⟩,⟨70,30⟩,⟨0,0⟩)
  entries := storedRecords.map (·.entry)

def emptyBlock : Bytes := (storedLeaf.encode ++ .replicate 72 0xEE).toArray

def storedBlock : Bytes := writeRecords emptyBlock (storedRecords.filter StoredName.complete)

theorem attribute_leaf_read_back_incomplete :
    storedBlock.size = 128 ∧ (AttrLeaf.decode .v4).run storedBlock = .ok storedLeaf ∧
      storedLeaf.names.run storedBlock =
        .ok [⟨.secure,[0x6B,0x65,0x79],0x11,100,.inBlock [1,2]⟩,⟨.trusted,[0x72],0x22,60,.remote 7 9000⟩] ∧
      ∃ needed offset actual,
        storedLeaf.names.run storedLeaf.encode.toArray = .error (.insufficientData needed offset actual) := by
  obtain ⟨read,written,_,cut⟩ := @attribute_leaf_read_back storedLeaf storedRecords rfl (by decide) rfl
  have apart : (storedRecords.filter StoredName.complete).Pairwise StoredName.Apart := by
    unfold StoredName.Apart
    decide +kernel
  obtain ⟨held,stored⟩ := written emptyBlock
    (AttrLeaf.heldBy_of_holds (Bytes.holds_front storedLeaf.encode _)) apart (by decide +kernel)
  obtain ⟨decoded,names⟩ := read storedBlock (by decide +kernel) held stored
  have short := cut storedLeaf.encode.toArray ⟨nearRecord.entry,by decide,rfl,by decide +kernel⟩
  exact ⟨by decide +kernel,decoded,names,short⟩

end XfsReader
