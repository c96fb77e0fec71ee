import XfsReader.Proofs.Encoding
import XfsReader.Proofs.ScanRuns

-- A region laid out item after item is read back as it was laid out. Of an item its fields are all
-- that matters: what fills unused space, pads an entry or follows the sentinel may be anything.
namespace XfsReader

theorem byteRange_add (front back : Nat) : byteRange (front + back) = byteRange back * byteRange front := by
  induction front with
  | zero => simp [byteRange]
  | succ front ih =>
    rw [Nat.succ_add,byteRange,ih,byteRange]
    exact Nat.mul_left_comm _ _ _

theorem toBigEndian_add (front back value : Nat) :
    toBigEndian (front + back) value = toBigEndian front (value / byteRange back) ++ toBigEndian back value := by
  induction front with
  | zero => simp [toBigEndian]
  | succ front ih =>
    rw [Nat.succ_add,toBigEndian,ih,toBigEndian,byteRange_add,Nat.div_div_eq_div_mul]
    rfl

-- The tag of unused space stands where an entry has the top of its inode number.
def topWord (word : UInt64) : UInt16 := (word >>> 48).toUInt16

theorem word64_topWord (word : UInt64) : word64 word = word16 (topWord word) ++ toBigEndian 6 word.toNat := by
  have top : (topWord word).toNat = word.toNat / byteRange 6 := by
    have below := word.toNat_lt
    have range : byteRange 6 = 2 ^ 48 := by decide
    have amount : (48 : UInt64).toNat % 64 = 48 := by decide
    rw [range,topWord,UInt64.toNat_toUInt16,UInt64.toNat_shiftRight,amount,Nat.shiftRight_eq_div_pow]
    omega
  rw [word64,toBigEndian_add 2 6,word16,top]

structure LaidUnused where
  length : Nat
  filler : List UInt8
  long : 8 ≤ length
  short : length ≤ 65528
  whole : length % 8 = 0
  filled : 4 + filler.length = length

def LaidUnused.bytes (gap : LaidUnused) : List UInt8 :=
  word16 freeTag ++ (word16 (UInt16.ofNat gap.length) ++ gap.filler)

-- An entry with all that its bytes say: the type is any byte, there or not as the directory has it.
structure LaidEntry (typed : Bool) where
  inode : UInt64
  name : Name
  typeByte : Option UInt8
  padding : List UInt8
  tag : UInt16
  used : topWord inode ≠ freeTag
  named : 1 ≤ name.length
  short : name.length ≤ 255
  kinded : typeByte.isSome = typed
  padded : 11 + name.length + typeByte.toList.length + padding.length = DirectoryEntry.span name.length typed

namespace LaidEntry

variable {typed : Bool}

def bytes (laid : LaidEntry typed) : List UInt8 :=
  word64 laid.inode ++ ([UInt8.ofNat laid.name.length] ++
    (laid.name ++ (laid.typeByte.toList ++ (laid.padding ++ word16 laid.tag))))

def entry (laid : LaidEntry typed) : DirectoryEntry where
  name := laid.name
  inode := laid.inode
  tag := laid.tag
  length := DirectoryEntry.span laid.name.length typed
  fileType := laid.typeByte.map FileType.ofByte

end LaidEntry

inductive LaidItem (typed : Bool) where
  | unused (gap : LaidUnused)
  | entry (laid : LaidEntry typed)

namespace LaidItem

variable {typed : Bool}

def bytes : LaidItem typed → List UInt8
  | .unused gap => gap.bytes
  | .entry laid => laid.bytes

def entry? : LaidItem typed → Option DirectoryEntry
  | .unused _ => none
  | .entry laid => some laid.entry

-- The entries among the items, where they come to stand.
def places : Nat → List (LaidItem typed) → List PlacedEntry
  | _, [] => []
  | cursor, .unused gap :: items => places (cursor + gap.length) items
  | cursor, .entry laid :: items => ⟨cursor,laid.entry⟩ :: places (cursor + laid.entry.length) items

theorem entries_places (cursor : Nat) (items : List (LaidItem typed)) :
    (places cursor items).map (·.entry) = items.filterMap entry? := by
  fun_induction places cursor items with
  | case1 => rfl
  | case2 cursor gap items ih => rw [ih,List.filterMap_cons_none rfl]
  | case3 cursor laid items ih =>
    rw [List.map_cons,ih]
    rfl

end LaidItem

-- Items either fill the region, or end at a sentinel: a word that is no tag, then an empty name.
inductive LaidEnd (block : Bytes) (stop position : Nat) : Prop
  | filled (same : position = stop)
  | closed (head : UInt64) (used : topWord head ≠ freeTag) (held : block.Holds position (word64 head ++ [0]))
      (before : position + 9 ≤ stop)

theorem LaidEnd.le {block : Bytes} {stop position : Nat} (ended : LaidEnd block stop position) : position ≤ stop := by
  cases ended with
  | filled same => exact Nat.le_of_eq same
  | closed head used held before => omega

theorem Bytes.Holds.upTo {block : Bytes} {offset stop : Nat} {content : List UInt8} (held : block.Holds offset content)
    (within : stop ≤ block.size) (before : offset + content.length ≤ stop) :
    (block.upTo stop).Holds offset content := by
  refine ⟨?_,?_⟩
  · rw [size_upTo within]
    exact before
  · have same := held.same
    rw [Bytes.upTo,List.drop_take,List.take_take,Nat.min_eq_left (by omega)]
    exact same

namespace LaidUnused

theorem length_bytes (gap : LaidUnused) : gap.bytes.length = gap.length := by
  have whole := gap.filled
  simp only [bytes,List.length_append,word16,length_toBigEndian]
  omega

theorem decode_run {gap : LaidUnused} {typed : Bool} {bytes : Bytes} {offset : Nat} (held : bytes.Holds offset gap.bytes)
    (small : bytes.size < 0x10000000000000000) :
    (RegionItem.decode typed offset).run bytes = .ok (.unused gap.length) := by
  obtain ⟨tag,rest⟩ := Bytes.holds_append.mp held
  obtain ⟨length,_⟩ := Bytes.holds_append.mp rest
  have short := gap.short
  have stated : (UInt16.ofNat gap.length).toNat = gap.length := by
    rw [UInt16.toNat_ofNat']
    omega
  have valid : ¬ (gap.length < 8 ∨ gap.length % 8 ≠ 0) := by
    have long := gap.long
    have whole := gap.whole
    omega
  have inside : offset + gap.length ≤ bytes.size := by
    rw [← gap.length_bytes]
    exact held.inside
  refine Decoder.run_bind_eq_ok.mpr ⟨freeTag,Decoder.be16_run tag small,?_⟩
  rw [if_pos rfl]
  refine Decoder.run_bind_eq_ok.mpr ⟨_,Decoder.be16_run length small,?_⟩
  rw [stated,if_neg valid]
  exact Decoder.run_bind_eq_ok.mpr ⟨(),Decoder.require_run inside small,rfl⟩

end LaidUnused

theorem DirectoryEntry.decodeType_run {typed : Bool} {typeByte : Option UInt8} {bytes : Bytes} {offset : Nat}
    (kinded : typeByte.isSome = typed) (held : bytes.Holds offset typeByte.toList)
    (small : bytes.size < 0x10000000000000000) :
    (decodeType typed offset).run bytes = .ok (typeByte.map FileType.ofByte) := by
  subst kinded
  cases typeByte with
  | none => rfl
  | some byte =>
    change (Decoder.u8 offset >>= _).run bytes = _
    rw [Decoder.run_bind,Decoder.u8_run held small]
    rfl

namespace LaidEntry

variable {typed : Bool}

theorem length_bytes (laid : LaidEntry typed) : laid.bytes.length = laid.entry.length := by
  have whole := laid.padded
  simp only [bytes,entry,List.length_append,List.length_singleton,word64,word16,length_toBigEndian]
  omega

theorem decode_run {laid : LaidEntry typed} {bytes : Bytes} {offset : Nat} (held : bytes.Holds offset laid.bytes)
    (small : bytes.size < 0x10000000000000000) :
    (DirectoryEntry.decode typed offset).run bytes = .ok (some laid.entry) := by
  have inside : offset + laid.entry.length ≤ bytes.size := by
    rw [← laid.length_bytes]
    exact held.inside
  obtain ⟨inode,held⟩ := Bytes.holds_append.mp held
  obtain ⟨count,held⟩ := Bytes.holds_append.mp held
  obtain ⟨name,held⟩ := Bytes.holds_append.mp held
  obtain ⟨typeByte,held⟩ := Bytes.holds_append.mp held
  obtain ⟨_,tag⟩ := Bytes.holds_append.mp held
  replace count : bytes.Holds (offset + 8) [UInt8.ofNat laid.name.length] := count
  replace name : bytes.Holds (offset + 9) laid.name := name
  replace typeByte : bytes.Holds (offset + 9 + laid.name.length) laid.typeByte.toList := typeByte
  have last : bytes.Holds (offset + laid.entry.length - 2) (word16 laid.tag) := by
    refine tag.moved ?_
    have padded := laid.padded
    simp only [entry,word64,length_toBigEndian,List.length_singleton]
    omega
  have named := laid.named
  have short := laid.short
  have stated : (UInt8.ofNat laid.name.length).toNat = laid.name.length := by
    rw [UInt8.toNat_ofNat']
    omega
  have nonempty : ¬ UInt8.ofNat laid.name.length = 0 := by
    intro empty
    rw [empty] at stated
    have zero : (0 : UInt8).toNat = 0 := rfl
    omega
  refine Decoder.run_bind_eq_ok.mpr ⟨laid.inode,Decoder.be64_run inode small,?_⟩
  refine Decoder.run_bind_eq_ok.mpr ⟨_,Decoder.u8_run count small,?_⟩
  rw [if_neg nonempty,stated]
  refine Decoder.run_bind_eq_ok.mpr ⟨(),Decoder.require_run inside small,?_⟩
  refine Decoder.run_bind_eq_ok.mpr ⟨laid.name,Decoder.bytes_run name small rfl,?_⟩
  refine Decoder.run_bind_eq_ok.mpr ⟨_,DirectoryEntry.decodeType_run laid.kinded typeByte small,?_⟩
  exact Decoder.run_bind_eq_ok.mpr ⟨laid.tag,Decoder.be16_run last small,rfl⟩

end LaidEntry

-- Two bytes that are not the tag send the decoder on to an entry.
theorem RegionItem.decode_used {typed : Bool} {bytes : Bytes} {offset : Nat} {word : UInt64} {found : Option DirectoryEntry}
    (used : topWord word ≠ freeTag) (held : bytes.Holds offset (word64 word))
    (small : bytes.size < 0x10000000000000000)
    (read : (DirectoryEntry.decode typed offset).run bytes = .ok found) :
    (decode typed offset).run bytes = .ok (found.elim .sentinel .entry) := by
  rw [word64_topWord] at held
  obtain ⟨top,_⟩ := Bytes.holds_append.mp held
  refine Decoder.run_bind_eq_ok.mpr ⟨topWord word,Decoder.be16_run top small,?_⟩
  rw [if_neg used]
  refine Decoder.run_bind_eq_ok.mpr ⟨found,read,?_⟩
  cases found <;> rfl

theorem RegionItem.decode_closed {typed : Bool} {bytes : Bytes} {offset : Nat} {head : UInt64}
    (used : topWord head ≠ freeTag) (held : bytes.Holds offset (word64 head ++ [0]))
    (small : bytes.size < 0x10000000000000000) : (decode typed offset).run bytes = .ok .sentinel := by
  obtain ⟨word,count⟩ := Bytes.holds_append.mp held
  have read : (DirectoryEntry.decode typed offset).run bytes = .ok none := by
    refine Decoder.run_bind_eq_ok.mpr ⟨head,Decoder.be64_run word small,?_⟩
    exact Decoder.run_bind_eq_ok.mpr ⟨0,Decoder.u8_run count small,rfl⟩
  exact decode_used used word small read

namespace LaidItem

variable {typed : Bool} {region : Bytes} {cursor : Nat}

theorem bytes_pos (item : LaidItem typed) : 0 < item.bytes.length := by
  cases item with
  | unused gap =>
    rw [bytes,gap.length_bytes]
    exact Nat.lt_of_lt_of_le (by decide) gap.long
  | entry laid =>
    rw [bytes,laid.length_bytes]
    exact Nat.lt_of_lt_of_le (by decide) (DirectoryEntry.span_pos _ _)

-- By induction on the items: one turn of the scan for each, whatever the run does after the last.
theorem scanned {items : List (LaidItem typed)} (held : region.Holds cursor (items.flatMap bytes))
    (small : region.size < 0x10000000000000000)
    (rest : ScanRun region typed (cursor + (items.flatMap bytes).length) [] none) :
    ScanRun region typed cursor (places cursor items) none := by
  induction items generalizing cursor with
  | nil => exact rest
  | cons item items ih =>
    rw [List.flatMap_cons] at held rest
    obtain ⟨here,later⟩ := Bytes.holds_append.mp held
    rw [List.length_append,← Nat.add_assoc] at rest
    have inside : cursor < region.size := by
      have positive := item.bytes_pos
      have within := here.inside
      omega
    have goesOn := ih later rest
    cases item with
    | unused gap =>
      rw [bytes,gap.length_bytes] at goesOn
      exact .unused inside (LaidUnused.decode_run here small) goesOn
    | entry laid =>
      rw [bytes,laid.length_bytes] at goesOn
      obtain ⟨word,_⟩ := Bytes.holds_append.mp here
      exact .entry inside (RegionItem.decode_used laid.used word small (LaidEntry.decode_run here small)) goesOn

end LaidItem

theorem LaidEnd.scanned {block : Bytes} {stop position : Nat} (typed : Bool) (ended : LaidEnd block stop position)
    (fits : stop < 0x10000000000000000) (within : stop ≤ block.size) :
    ScanRun (block.upTo stop) typed position [] none := by
  have size := Bytes.size_upTo within
  cases ended with
  | filled same =>
    apply ScanRun.outside
    exact Nat.le_of_eq (by rw [size,same])
  | closed head used held before =>
    have kept := held.upTo within before
    apply ScanRun.sentinel
    · rw [size]
      omega
    · exact RegionItem.decode_closed used kept (by omega)

-- Positions are numbers of 64 bits, so that every region stops below 2^64.
theorem scan_undoes_layout {typed : Bool} {block : Bytes} {start stop : Nat} (items : List (LaidItem typed))
    (fits : stop < 0x10000000000000000) (within : stop ≤ block.size)
    (held : block.Holds start (items.flatMap LaidItem.bytes))
    (ended : LaidEnd block stop (start + (items.flatMap LaidItem.bytes).length)) :
    ∃ scanner, EntryScanner.ofBlock block start stop typed = .ok scanner ∧
      scanner.drain.1 = (LaidItem.places start items).map .ok ∧
      (LaidItem.places start items).map (·.entry) = items.filterMap LaidItem.entry? ∧
      ∀ call, scanner.answer call = (LaidItem.places start items)[call]?.map .ok := by
  have before := ended.le
  have kept := held.upTo within before
  have small : (block.upTo stop).size < 0x10000000000000000 := by rwa [Bytes.size_upTo within]
  have run := LaidItem.scanned kept small (ended.scanned typed fits within)
  have drained := EntryScanner.drain_run run
  rw [Option.toList_none,List.map_nil,List.append_nil] at drained
  refine ⟨_,EntryScanner.ofBlock_upTo typed (by omega) within,drained,LaidItem.entries_places start items,?_⟩
  intro call
  rw [EntryScanner.answer_eq,drained,List.getElem?_map]

-- Two entries with unused space between them and a sentinel behind, in a region that starts after two
-- bytes of something else. What follows the sentinel is unused space of no length, which is refused
-- wherever a scan comes to it.
def sparseItems : List (LaidItem true) :=
  [.entry ⟨131,[0x61],some 1,[0,0,0],2,by decide,by decide,by decide,rfl,by decide⟩,
   .unused ⟨16,List.replicate 12 0xEE,by decide,by decide,by decide,by decide⟩,
   .entry ⟨0xFFFE000000000007,[0x62,0x63],some 9,[0xFF,0xFF],0xFFFF,by decide,by decide,by decide,rfl,by decide⟩]

def sparseBlock : Bytes :=
  ([0xAA,0xBB] ++ (sparseItems.flatMap LaidItem.bytes ++ (word64 5 ++ [0] ++ [0xFF,0xFF,0,0]))).toArray

theorem scan_undoes_layout_sparse :
    ∃ scanner, EntryScanner.ofBlock sparseBlock 2 60 true = .ok scanner ∧
      scanner.drain.1 =
        [.ok ⟨2,[0x61],131,2,16,some .regular⟩,.ok ⟨34,[0x62,0x63],0xFFFE000000000007,0xFFFF,16,some .unknown⟩] ∧
      scanner.answer 2 = none := by
  have held : sparseBlock.Holds 2 (sparseItems.flatMap LaidItem.bytes) := ⟨by decide,by decide⟩
  have closed : sparseBlock.Holds 50 (word64 5 ++ [0]) := ⟨by decide,by decide⟩
  obtain ⟨scanner,begun,drained,_,answers⟩ :=
    @scan_undoes_layout true sparseBlock 2 60 sparseItems (by decide) (by decide) held
      (.closed 5 (by decide) closed (by decide))
  exact ⟨scanner,begun,drained,answers 2⟩

end XfsReader
