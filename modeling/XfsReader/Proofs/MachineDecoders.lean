import XfsReader.BlockRole
import XfsReader.Proofs.Encoding
import XfsReader.Proofs.EntryScan
import XfsReader.Proofs.MachineWords

-- Decoders on a machine. Offsets are summed up in machine words, and what was checked to be there is
-- taken without another look. Each decoder does what it does on plain numbers.
namespace XfsReader
open Machine

namespace Machine

variable {bytes : Bytes} {offset length : Nat}

theorem Computes.decode {machine : Machine DecodeError α} {decoder : Decoder α} {next : α → Machine DecodeError β}
    {rest : α → Decoder β} (first : machine.Computes (decoder.run bytes))
    (later : ∀ value, decoder.run bytes = .ok value → (next value).Computes ((rest value).run bytes)) :
    (machine >>= next).Computes ((decoder >>= rest).run bytes) := by
  rw [Decoder.run_bind]
  exact .bind first later

theorem Computes.field {decoder : Decoder α} {next : α → Machine DecodeError β} {rest : α → Decoder β}
    (later : ∀ value, decoder.run bytes = .ok value → (next value).Computes ((rest value).run bytes)) :
    (decoder.onMachine bytes >>= next).Computes ((decoder >>= rest).run bytes) :=
  .decode (decoder.onMachine_computes bytes) later

theorem checkedSlice_inside (small : offset + length < 0x10000000000000000) (inside : offset + length ≤ bytes.size) :
    (checkedSlice bytes offset length).Computes (.ok (Bytes.part bytes offset length)) := by
  rw [← Decoder.sliceOf_eq_ok.mpr ⟨small,inside,rfl⟩]
  exact checkedSlice_computes bytes offset length

theorem Computes.stretch {next : Bytes → Machine DecodeError α} {rest : Bytes → Decoder α}
    (later : offset + length < 0x10000000000000000 → offset + length ≤ bytes.size →
      (next (Bytes.part bytes offset length)).Computes ((rest (Bytes.part bytes offset length)).run bytes)) :
    (checkedSlice bytes offset length >>= next).Computes ((Decoder.slice offset length rest).run bytes) := by
  rw [Decoder.run_slice]
  refine .bind (checkedSlice_computes bytes offset length) fun found got => ?_
  obtain ⟨small,inside,rfl⟩ := Decoder.sliceOf_eq_ok.mp got
  exact later small inside

-- Records of one size, one after another.
def recordAt (offset stride : Nat) (record : Nat → Machine DecodeError α) (index : Nat) : Machine DecodeError α := do
  let skipped ← mul index stride
  let place ← add offset skipped
  record place

def records (offset stride count : Nat) (record : Nat → Machine DecodeError α) : Machine DecodeError (List α) :=
  (List.range count).mapM (recordAt offset stride record)

variable {stride count : Nat} {record : Nat → Machine DecodeError α}

theorem recordAt_computes {index : Nat} {result : Except DecodeError α}
    (fits : offset + index * stride < 0x10000000000000000) (read : (record (offset + index * stride)).Computes result) :
    (recordAt offset stride record index).Computes result :=
  .step (mul_computes (by omega)) (.step (add_computes fits) read)

theorem records_compute {read : Nat → Except DecodeError α} (fits : offset + count * stride < 0x10000000000000000)
    (each : ∀ place, place + stride ≤ offset + count * stride → (record place).Computes (read place)) :
    (records offset stride count record).Computes ((List.range count).mapM fun index => read (offset + stride * index)) := by
  refine mapM_computes fun index member => ?_
  have room := Nat.mul_le_mul_right stride (Nat.succ_le_of_lt (List.mem_range.mp member))
  rw [Nat.succ_mul] at room
  rw [Nat.mul_comm stride index]
  exact recordAt_computes (by omega) (each _ (by omega))

end Machine

section Records

variable {bytes : Bytes} {offset stride count : Nat}

theorem Decoder.run_mapM (items : List β) (read : β → Decoder α) :
    (items.mapM read).run bytes = items.mapM fun item => (read item).run bytes := by
  induction items with
  | nil => rfl
  | cons item items ih =>
    rw [List.mapM_cons,List.mapM_cons,run_bind]
    refine congrArg _ (funext fun first => ?_)
    rw [run_bind,ih]
    rfl

theorem table_computes {record : Nat → Machine DecodeError α} {read : Nat → Decoder α}
    (fits : offset + count * stride < 0x10000000000000000)
    (each : ∀ place, place + stride ≤ offset + count * stride → (record place).Computes ((read place).run bytes)) :
    (records offset stride count record).Computes ((Decoder.table offset stride count read).run bytes) := by
  rw [Decoder.table,Decoder.run_mapM]
  exact records_compute fits each

-- A stretch cut into pieces of one size holds what is read piece by piece.
theorem chunks_compute {record : Nat → Machine DecodeError α} {ofRecord : Bytes → α}
    (fits : offset + count * stride < 0x10000000000000000) (inside : offset + count * stride ≤ bytes.size)
    (each : ∀ place, place + stride < 0x10000000000000000 → place + stride ≤ bytes.size →
      (record place).Computes (.ok (ofRecord (Bytes.part bytes place stride)))) :
    (records offset stride count record).Computes
      (.ok ((Bytes.chunks (Bytes.part bytes offset (count * stride)) stride count).map ofRecord)) := by
  have listed : (List.range count).mapM (fun index =>
      (.ok (ofRecord (Bytes.part bytes (offset + stride * index) stride)) : Except DecodeError α)) =
      .ok ((Bytes.chunks (Bytes.part bytes offset (count * stride)) stride count).map ofRecord) := by
    refine List.mapM_pure.trans (congrArg Except.ok ?_)
    rw [Bytes.chunks,List.map_map]
    refine List.map_congr_left fun index member => congrArg ofRecord (Bytes.part_part ?_).symm
    have room := Nat.mul_le_mul_left stride (Nat.succ_le_of_lt (List.mem_range.mp member))
    rw [Nat.mul_succ,Nat.mul_comm stride count] at room
    exact room
  rw [← listed]
  exact records_compute fits fun place room => each place (by omega) (by omega)

end Records

-- Fields of a record are found in its piece of the buffer as they are in the buffer itself.
section Fields

variable {bytes : Bytes} {offset length : Nat}

theorem Machine.Computes.read {field : Bytes → α} {next : α → Machine DecodeError β} {result : Except DecodeError β}
    (small : offset + length < 0x10000000000000000) (inside : offset + length ≤ bytes.size)
    (later : (next (field (Bytes.part bytes offset length))).Computes result) :
    ((Decoder.slice offset length fun raw => .done (field raw)).onMachine bytes >>= next).Computes result := by
  have known := Decoder.onMachine_computes (.slice offset length fun raw => .done (field raw)) bytes
  rw [Decoder.run_slice_inside small inside] at known
  exact .step known later

end Fields

namespace Extent

def machineDecode (bytes : Bytes) (offset : Nat) : Machine DecodeError Extent := do
  let _ ← checkedSlice bytes offset recordSize
  let upper ← (Decoder.be64 offset).onMachine bytes
  let lowerAt ← add offset 8
  let lower ← (Decoder.be64 lowerAt).onMachine bytes
  return ofWords upper lower

theorem machineDecode_computes {bytes : Bytes} {offset : Nat} (small : offset + recordSize < 0x10000000000000000)
    (inside : offset + recordSize ≤ bytes.size) :
    (machineDecode bytes offset).Computes (.ok (ofRecord (Bytes.part bytes offset recordSize))) := by
  unfold recordSize at small inside
  refine .step (Machine.checkedSlice_inside small inside) ?_
  refine .read (by omega) (by omega) (.step (add_computes (by omega)) (.read (by omega) (by omega) ?_))
  simp (disch := decide) only [ofRecord,Bytes.be64,recordSize,Bytes.part_part]
  exact .pure _

def machineList (offset count : Nat) (bytes : Bytes) : Machine DecodeError (List Extent) :=
  match fit64? (count * recordSize) with
  | none => throw (.invalidField "extent_count" "overflow")
  | some length => do
    let _ ← checkedSlice bytes offset length
    records offset recordSize count (machineDecode bytes)

theorem machineList_computes (offset count : Nat) (bytes : Bytes) :
    (machineList offset count bytes).Computes ((decodeList offset count).run bytes) := by
  unfold machineList decodeList
  cases fits : fit64? (count * recordSize) with
  | none => exact .throw _
  | some length =>
    obtain ⟨_,rfl⟩ := fit64?_eq_some.mp fits
    exact .stretch fun small inside => chunks_compute small inside fun _ => machineDecode_computes

end Extent

namespace LeafSlot

def machineDecode (bytes : Bytes) (offset : Nat) : Machine DecodeError LeafSlot := do
  let hash ← (Decoder.be32 offset).onMachine bytes
  let addressAt ← add offset 4
  let address ← (Decoder.be32 addressAt).onMachine bytes
  return ⟨hash,address⟩

theorem machineDecode_computes {bytes : Bytes} {offset : Nat} (small : offset + size < 0x10000000000000000)
    (inside : offset + size ≤ bytes.size) :
    (machineDecode bytes offset).Computes (.ok (ofRecord (Bytes.part bytes offset size))) := by
  unfold size at small inside
  refine .read (by omega) (by omega) (.step (add_computes (by omega)) (.read (by omega) (by omega) ?_))
  rw [ofRecord_part,Bytes.be32_part,Bytes.be32_part]
  exact .pure _

def machineList (offset count : Nat) (bytes : Bytes) : Machine DecodeError (List LeafSlot) :=
  match fit64? (count * size) with
  | none => throw (.integerConversion "leaf_count")
  | some length => do
    let _ ← checkedSlice bytes offset length
    records offset size count (machineDecode bytes)

theorem machineList_computes (offset count : Nat) (bytes : Bytes) :
    (machineList offset count bytes).Computes ((decodeList offset count).run bytes) := by
  unfold machineList decodeList
  cases fits : fit64? (count * size) with
  | none => exact .throw _
  | some length =>
    obtain ⟨_,rfl⟩ := fit64?_eq_some.mp fits
    exact .stretch fun small inside => chunks_compute small inside fun _ => machineDecode_computes

end LeafSlot

namespace AttrEntry

def machineDecode (bytes : Bytes) (offset : Nat) : Machine DecodeError AttrEntry := do
  let hash ← (Decoder.be32 offset).onMachine bytes
  let indexAt ← add offset 4
  let nameIndex ← (Decoder.be16 indexAt).onMachine bytes
  let flagsAt ← add offset 6
  let flags ← (Decoder.u8 flagsAt).onMachine bytes
  return ⟨hash,nameIndex,flags⟩

theorem machineDecode_computes {bytes : Bytes} {offset : Nat} (small : offset + size < 0x10000000000000000)
    (inside : offset + size ≤ bytes.size) :
    (machineDecode bytes offset).Computes (.ok (ofRecord (Bytes.part bytes offset size))) := by
  unfold size at small inside
  refine .read (by omega) (by omega) (.step (add_computes (by omega)) (.read (by omega) (by omega) ?_))
  refine .step (add_computes (by omega)) (.read (by omega) (by omega) ?_)
  rw [ofRecord_part,Bytes.be32_part,Bytes.be16_part,Bytes.byteAt_part]
  exact .pure _

end AttrEntry

namespace MapHeader

variable {header : MapHeader} {block : Bytes}

def machineLeafExtents (header : MapHeader) (block : Bytes) : Machine DecodeError (List Extent) :=
  if !header.isLeaf then throw (.invalidField "bb_level" "extent records requested from an interior node")
  else do
    lift (header.checkCapacity block)
    Extent.machineList header.size header.recordCount.toNat block

theorem machineLeafExtents_computes (header : MapHeader) (block : Bytes) :
    (header.machineLeafExtents block).Computes (header.leafExtents block) := by
  unfold machineLeafExtents leafExtents
  split
  · exact .throw _
  · cases header.checkCapacity block with
    | error error => exact .throw error
    | ok _ => exact Extent.machineList_computes _ _ block

def machineChildPointers (header : MapHeader) (block : Bytes) : Machine DecodeError (List UInt64) :=
  if header.isLeaf then throw (.invalidField "bb_level" "child pointers requested from a leaf")
  else do
    lift (header.checkCapacity block)
    let keys ← mul (header.capacity block) 8
    let base ← add header.size keys
    records base 8 header.recordCount.toNat fun place => (Decoder.be64 place).onMachine block

theorem machineChildPointers_computes (small : block.size < 0x100000000) :
    (header.machineChildPointers block).Computes (header.childPointers block) := by
  unfold machineChildPointers childPointers
  split
  · exact .throw _
  · cases header.checkCapacity block with
    | error error => exact .throw error
    | ok _ =>
      have few := header.recordCount.toNat_lt
      have low := header.size_le
      have room : header.capacity block * 8 ≤ block.size := by
        unfold capacity
        omega
      refine .step (.lift _) (.step (mul_computes (by omega)) (.step (add_computes (by omega)) ?_))
      exact table_computes (by omega) fun place _ => Decoder.onMachine_computes _ block

def machineKeys (header : MapHeader) (block : Bytes) : Machine DecodeError (List UInt64) :=
  records header.size 8 header.recordCount.toNat fun place => (Decoder.be64 place).onMachine block

theorem machineKeys_computes (header : MapHeader) (block : Bytes) :
    (header.machineKeys block).Computes (header.keys block) := by
  have few := header.recordCount.toNat_lt
  have low := header.size_le
  exact table_computes (by omega) fun place _ => Decoder.onMachine_computes _ block

end MapHeader

section Headers

variable {version : FormatVersion} {header : DaHeader} {block : Bytes}

theorem DaHeader.decodeKinds_size {subject : String} {kinds : List DaKind}
    (decoded : (decodeKinds subject kinds version).run block = .ok header) : header.size = sizeOf version := by
  rw [size,((decodeKinds_ends subject kinds version).reach decoded).1]

def DaNode.machineEntry (block : Bytes) (offset : Nat) : Machine DecodeError DaEntry := do
  let hash ← (Decoder.be32 offset).onMachine block
  let beforeAt ← add offset 4
  let before ← (Decoder.be32 beforeAt).onMachine block
  return ⟨hash,before⟩

def DaNode.machineDecode (version : FormatVersion) (block : Bytes) : Machine DecodeError DaNode := do
  let header ← (DaHeader.decodeKinds "da node" [.node] version).onMachine block
  let count ← (Decoder.be16 header.size).onMachine block
  let levelAt ← add header.size 2
  let level ← (Decoder.be16 levelAt).onMachine block
  let entriesAt ← add header.size (if version = .v4 then 4 else 8)
  let entries ← records entriesAt 8 count.toNat (machineEntry block)
  return ⟨header,level,entries⟩

theorem DaNode.machineDecode_computes (version : FormatVersion) (block : Bytes) :
    (machineDecode version block).Computes ((decode version).run block) := by
  refine .field fun header decoded => ?_
  have width := DaHeader.decodeKinds_size decoded
  have entriesAt : header.size + (if version = .v4 then 4 else 8) = entriesOffset version := by
    rw [width]
    cases version <;> rfl
  have low : entriesOffset version ≤ 64 := by cases version <;> decide
  refine .field fun count _ => .step (add_computes (by omega)) (.field fun level _ => ?_)
  refine .step (add_computes (by omega)) ?_
  rw [entriesAt]
  have few := count.toNat_lt
  refine .decode (table_computes (by omega) fun place room => ?_) fun entries _ => .pure _
  exact .field fun hash _ => .step (add_computes (by omega)) (.field fun before _ => .pure _)

def LeafBlock.machineDecode (version : FormatVersion) (block : Bytes) : Machine DecodeError LeafBlock := do
  let header ← (DaHeader.decodeKinds "dir leaf" kinds version).onMachine block
  let count ← (Decoder.be16 header.size).onMachine block
  let staleAt ← add header.size 2
  let stale ← (Decoder.be16 staleAt).onMachine block
  let size ← add header.size (if version = .v4 then 4 else 8)
  let _ ← checkedSlice block 0 size
  let slots ← LeafSlot.machineList size count.toNat block
  return ⟨header,stale,slots⟩

theorem LeafBlock.machineDecode_computes (version : FormatVersion) (block : Bytes) :
    (machineDecode version block).Computes ((decode version).run block) := by
  refine .field fun header decoded => ?_
  have width := DaHeader.decodeKinds_size decoded
  have size : header.size + (if version = .v4 then 4 else 8) = headerSize version := by
    rw [width]
    cases version <;> rfl
  have low : headerSize version ≤ 64 := by cases version <;> decide
  refine .field fun count _ => .step (add_computes (by omega)) (.field fun stale _ => ?_)
  refine .step (add_computes (by omega)) ?_
  rw [size]
  refine .stretch fun _ _ => .decode (LeafSlot.machineList_computes _ _ block) fun slots _ => .pure _

def FreeRun.machineDecode (block : Bytes) (offset : Nat) : Machine DecodeError FreeRun := do
  let start ← (Decoder.be16 offset).onMachine block
  let lengthAt ← add offset 2
  let length ← (Decoder.be16 lengthAt).onMachine block
  return ⟨start,length⟩

def FreeRun.machineThree (offset : Nat) (block : Bytes) : Machine DecodeError (FreeRun × FreeRun × FreeRun) := do
  let first ← recordAt offset 4 (machineDecode block) 0
  let second ← recordAt offset 4 (machineDecode block) 1
  let third ← recordAt offset 4 (machineDecode block) 2
  return (first,second,third)

theorem FreeRun.machineThree_computes {offset : Nat} (low : offset < 0x100000000) (block : Bytes) :
    (machineThree offset block).Computes ((decodeThree offset).run block) := by
  have each (place : Nat) (near : place < 0x200000000) :
      (machineDecode block place).Computes ((decode place).run block) :=
    .field fun start _ => .step (add_computes (by omega)) (.field fun length _ => .pure _)
  refine .decode (recordAt_computes (by omega) (each _ (by omega))) fun first _ => ?_
  refine .decode (recordAt_computes (by omega) (each _ (by omega))) fun second _ => ?_
  exact .decode (recordAt_computes (by omega) (each _ (by omega))) fun third _ => .pure _

def DataHeader.machineEntriesOffset (version : FormatVersion) : Machine ε Nat := do
  let raw ← add (prefaceSize version) 12
  return XfsReader.roundUp raw 8

theorem DataHeader.machineEntriesOffset_computes (version : FormatVersion) :
    (machineEntriesOffset version : Machine ε Nat).Computes (.ok (entriesOffsetOf version)) := by
  cases version <;> exact .step (add_computes (by decide)) (.pure _)

def DataHeader.machineDecodeAfter (version : FormatVersion) (magic : UInt32) (block : Bytes) :
    Machine DecodeError DataHeader :=
  match DataForm.ofMagic? version magic with
  | none => throw (.signatureMismatch "dir data block" (DataForm.accepted version) (.ofWord32 magic))
  | some form => do
    let description ← (SelfDescription.decodeFor 4 version).onMachine block
    let bestFree ← FreeRun.machineThree (prefaceSize version) block
    let start ← machineEntriesOffset version
    let _ ← checkedSlice block 0 start
    return ⟨form,bestFree,description⟩

def DataHeader.machineDecode (version : FormatVersion) (block : Bytes) : Machine DecodeError DataHeader := do
  let magic ← (Decoder.be32 0).onMachine block
  machineDecodeAfter version magic block

theorem DataHeader.machineDecode_computes (version : FormatVersion) (block : Bytes) :
    (machineDecode version block).Computes ((decode version).run block) := by
  refine .field fun magic _ => ?_
  unfold machineDecodeAfter decodeAfter
  cases DataForm.ofMagic? version magic with
  | none => exact .throw _
  | some form =>
    have low : prefaceSize version < 0x100000000 := by cases version <;> decide
    refine .field fun description _ => .decode (FreeRun.machineThree_computes low block) fun bestFree _ => ?_
    exact .step (machineEntriesOffset_computes version) (.stretch fun _ _ => .pure _)

def BlockTail.machineDecode (block : Bytes) : Machine DecodeError BlockTail := do
  let start ← checked (minus? block.size size) (.insufficientData size 0 block.size)
  let count ← (Decoder.be32 start).onMachine block
  let staleAt ← add start 4
  let stale ← (Decoder.be32 staleAt).onMachine block
  return ⟨count,stale⟩

theorem BlockTail.machineDecode_computes (block : Bytes) : (machineDecode block).Computes (decode block) := by
  unfold machineDecode decode
  cases minus? block.size size with
  | none => exact .refuse (.throw _)
  | some start =>
    refine .step (.pure start) (.field fun count read => .step (add_computes ?_) (.field fun stale _ => .pure _))
    exact (Decoder.slice_eq_ok read).1

-- The count is multiplied and taken off with a check at each step.
def BlockTail.machineDataEnd (tail : BlockTail) (blockLength entriesStart : Nat) : Machine DecodeError Nat := do
  let slotBytes ← checked tail.slotBytes? (.integerConversion "block_tail_count")
  checked (((minus? blockLength size).bind fun stop => minus? stop slotBytes).filter (entriesStart ≤ ·))
    (.invalidField "block_tail_count" "leaf entries overlap the block header")

theorem BlockTail.machineDataEnd_computes (tail : BlockTail) (blockLength entriesStart : Nat) :
    (tail.machineDataEnd blockLength entriesStart).Computes (tail.dataEnd blockLength entriesStart) := by
  unfold machineDataEnd dataEnd
  cases tail.slotBytes? with
  | none => exact .refuse (.throw _)
  | some slotBytes =>
    refine .step (.pure slotBytes) ?_
    dsimp only
    cases ((minus? blockLength size).bind fun stop => minus? stop slotBytes).filter (entriesStart ≤ ·) with
    | none => exact .throw _
    | some stop => exact .pure _

def DataHeader.machineDataEnd (header : DataHeader) (block : Bytes) : Machine DecodeError Nat :=
  if header.form = .multi then return block.size
  else do
    let tail ← BlockTail.machineDecode block
    let start ← machineEntriesOffset header.version
    tail.machineDataEnd block.size start

theorem DataHeader.machineDataEnd_computes (header : DataHeader) (block : Bytes) :
    (header.machineDataEnd block).Computes (header.dataEnd block) := by
  unfold machineDataEnd dataEnd
  cases header.form with
  | multi => exact .pure _
  | single =>
    refine .matched (BlockTail.machineDecode_computes block) (fun error failed => by rw [failed]) fun tail decoded => ?_
    rw [decoded]
    exact .step (machineEntriesOffset_computes _) (tail.machineDataEnd_computes _ _)

def AttrLeaf.machineDecode (version : FormatVersion) (block : Bytes) : Machine DecodeError AttrLeaf := do
  let header ← (DaHeader.decodeKinds "attr leaf" [.attrLeaf] version).onMachine block
  let count ← (Decoder.be16 header.size).onMachine block
  let usedAt ← add header.size 2
  let usedBytes ← (Decoder.be16 usedAt).onMachine block
  let firstAt ← add header.size 4
  let firstUsed ← (Decoder.be16 firstAt).onMachine block
  let holesAt ← add header.size 6
  let holes ← (Decoder.u8 holesAt).onMachine block
  let mapAt ← add header.size 8
  let freeMap ← FreeRun.machineThree mapAt block
  let common ← add mapAt 12
  let start ← add common (if version = .v4 then 0 else 4)
  let length ← mul count.toNat AttrEntry.size
  let _ ← checkedSlice block start length
  let entries ← records start AttrEntry.size count.toNat (AttrEntry.machineDecode block)
  return ⟨header,usedBytes,firstUsed,holes,freeMap,entries⟩

theorem AttrLeaf.machineDecode_computes (version : FormatVersion) (block : Bytes) :
    (machineDecode version block).Computes ((decode version).run block) := by
  refine .field fun header decoded => ?_
  have width := DaHeader.decodeKinds_size decoded
  have start : header.size + 8 + 12 + (if version = .v4 then 0 else 4) = headerSize version := by
    rw [width]
    cases version <;> rfl
  have low : headerSize version ≤ 80 := by cases version <;> decide
  refine .field fun count _ => .step (add_computes (by omega)) (.field fun usedBytes _ => ?_)
  refine .step (add_computes (by omega)) (.field fun firstUsed _ => ?_)
  refine .step (add_computes (by omega)) (.field fun holes _ => ?_)
  refine .step (add_computes (by omega)) (.decode (FreeRun.machineThree_computes (by omega) block) fun freeMap _ => ?_)
  refine .step (add_computes (by omega)) (.step (add_computes (by omega)) ?_)
  have few := count.toNat_lt
  refine .step (mul_computes (by unfold AttrEntry.size; omega)) ?_
  rw [start]
  refine .stretch fun small inside => .step (chunks_compute small inside fun _ => AttrEntry.machineDecode_computes) ?_
  exact .pure _

end Headers

namespace AttrName

def machineLocal (offset : Nat) (block : Bytes) : Machine DecodeError (Name × AttrValue) := do
  let valueLength ← (Decoder.be16 offset).onMachine block
  let lengthAt ← add offset 2
  let nameLength ← (Decoder.u8 lengthAt).onMachine block
  let nameAt ← add offset 3
  let name ← checkedSlice block nameAt nameLength.toNat
  let valueAt ← add nameAt nameLength.toNat
  let value ← checkedSlice block valueAt valueLength.toNat
  return (name.toList,.inBlock value.toList)

def machineRemote (offset : Nat) (block : Bytes) : Machine DecodeError (Name × AttrValue) := do
  let start ← (Decoder.be32 offset).onMachine block
  let stretchAt ← add offset 4
  let length ← (Decoder.be32 stretchAt).onMachine block
  let lengthAt ← add offset 8
  let nameLength ← (Decoder.u8 lengthAt).onMachine block
  let nameAt ← add offset 9
  let name ← checkedSlice block nameAt nameLength.toNat
  return (name.toList,.remote start length)

def machineDecode (block : Bytes) (entry : AttrEntry) : Machine DecodeError AttrName := do
  let (name,value) ←
    if entry.isLocal then machineLocal entry.nameIndex.toNat block else machineRemote entry.nameIndex.toNat block
  return ⟨entry.space,name,entry.hash,entry.nameIndex,value⟩

theorem machineDecode_computes (block : Bytes) (entry : AttrEntry) :
    (machineDecode block entry).Computes ((decode entry).run block) := by
  have low := entry.nameIndex.toNat_lt
  unfold machineDecode decode
  split
  · refine .decode ?_ fun found _ => .pure _
    refine .field fun valueLength _ => .step (add_computes (by omega)) (.field fun nameLength _ => ?_)
    have short := nameLength.toNat_lt
    refine .step (add_computes (by omega)) (.stretch fun _ _ => ?_)
    exact .step (add_computes (by omega)) (.stretch fun _ _ => .pure _)
  · refine .decode ?_ fun found _ => .pure _
    refine .field fun start _ => .step (add_computes (by omega)) (.field fun length _ => ?_)
    refine .step (add_computes (by omega)) (.field fun nameLength _ => ?_)
    exact .step (add_computes (by omega)) (.stretch fun _ _ => .pure _)

def machineRecordLength (name : AttrName) : Machine ε Nat := do
  let raw ←
    match name.value with
    | .inBlock value => do
      let named ← add 3 name.name.length
      add named value.length
    | .remote _ _ => add 9 name.name.length
  roundTo raw 4

theorem machineRecordLength_computes {name : AttrName} (short : name.stop < 0x100000000) :
    (name.machineRecordLength : Machine ε Nat).Computes (.ok name.recordLength) := by
  unfold stop at short
  unfold machineRecordLength recordLength
  cases known : name.value with
  | inBlock value =>
    have whole : name.encode.length = 3 + name.name.length + value.length := by
      simp [encode,known,word16]
      omega
    exact .step (add_computes (by omega)) (.step (add_computes (by omega)) (roundTo_computes (by omega)))
  | remote block length =>
    have whole : name.encode.length = 9 + name.name.length := by
      simp [encode,known,word32]
      omega
    exact .step (add_computes (by omega)) (roundTo_computes (by omega))

end AttrName

def AttrLeaf.machineNames (leaf : AttrLeaf) (block : Bytes) : Machine DecodeError (List AttrName) :=
  (leaf.entries.filter fun entry => !entry.isIncomplete).mapM (AttrName.machineDecode block)

theorem AttrLeaf.machineNames_computes (leaf : AttrLeaf) (block : Bytes) :
    (leaf.machineNames block).Computes (leaf.names.run block) := by
  rw [names,Decoder.run_mapM]
  exact mapM_computes fun entry _ => AttrName.machineDecode_computes block entry

def Checksum.machineOfBlock (block : Bytes) (offset : Nat) : Machine DecodeError UInt32 := do
  let _ ← checkedSlice block offset width
  let front ← slice block 0 offset
  let after ← add offset width
  let back ← slice block after block.size
  return crc32cAppend (crc32cAppend (crc32c front.toList) [0,0,0,0]) back.toList

theorem Checksum.machineOfBlock_computes (block : Bytes) (offset : Nat) :
    (machineOfBlock block offset).Computes (ofBlock block offset) := by
  refine .matched (checkedSlice_computes block offset width) ?_ fun found got => ?_
  · intro error failed
    rw [ofBlock,failed]
  · obtain ⟨small,inside,_⟩ := Decoder.sliceOf_eq_ok.mp got
    refine .step (demand_computes _ ⟨Nat.zero_le _,by omega⟩) (.step (add_computes small) ?_)
    refine .step (demand_computes _ ⟨inside,Nat.le_refl _⟩) ?_
    rw [ofBlock,got]
    simp only [Array.toList_extract,List.extract_eq_take_drop,List.drop_zero,Nat.sub_zero]
    rw [List.take_of_length_le (l := List.drop _ _) (by simp)]
    exact .pure _

def BlockRole.machineVerify (role : BlockRole) (block : Bytes) : Machine DecodeError Unit := do
  let stored ← (Decoder.le32 role.checksumOffset).onMachine block
  let computed ← Checksum.machineOfBlock block role.checksumOffset
  if stored = computed then return ()
  else throw (.checksumMismatch role.subject stored computed)

theorem BlockRole.machineVerify_computes (role : BlockRole) (block : Bytes) :
    (role.machineVerify block).Computes (role.verify block) := by
  unfold machineVerify verify Checksum.verify
  refine .matched (Decoder.onMachine_computes _ block) (fun error failed => by rw [failed]) fun stored read => ?_
  rw [read]
  refine .matched (Checksum.machineOfBlock_computes block _) (fun error failed => by rw [failed]) fun computed found => ?_
  rw [found]
  dsimp only
  split
  · exact .pure _
  · exact .throw _

end XfsReader
