import XfsReader.Device
import XfsReader.Proofs.Decoder

-- What a buffer holds at an offset, and what a decoder that looks there makes of it. Nothing is said
-- of the bytes around it.
namespace XfsReader
namespace Bytes

structure Holds (bytes : Bytes) (offset : Nat) (content : List UInt8) : Prop where
  inside : offset + content.length ≤ bytes.size
  same : (bytes.toList.drop offset).take content.length = content

variable {bytes : Bytes} {offset : Nat} {content : List UInt8}

instance : Decidable (bytes.Holds offset content) :=
  decidable_of_iff
    (offset + content.length ≤ bytes.size ∧ (bytes.toList.drop offset).take content.length = content)
    ⟨fun held => ⟨held.1,held.2⟩,fun held => ⟨held.inside,held.same⟩⟩

theorem holds_toArray (content : List UInt8) : Holds content.toArray 0 content :=
  ⟨by simp,by simp⟩

theorem Holds.part (held : bytes.Holds offset content) : part bytes offset content.length = content.toArray := by
  apply Array.ext'
  rw [Bytes.part,Array.toList_extract,List.extract_eq_take_drop,Nat.add_sub_cancel_left]
  exact held.same

theorem holds_iff_part : bytes.Holds offset content ↔
    offset + content.length ≤ bytes.size ∧ Bytes.part bytes offset content.length = content.toArray := by
  refine ⟨fun held => ⟨held.inside,held.part⟩,fun ⟨inside,same⟩ => ⟨inside,?_⟩⟩
  have listed := congrArg Array.toList same
  rwa [Bytes.part,Array.toList_extract,List.extract_eq_take_drop,Nat.add_sub_cancel_left] at listed

theorem Holds.moved (held : bytes.Holds offset content) {place : Nat} (same : offset = place) :
    bytes.Holds place content := same ▸ held

theorem Holds.region (held : bytes.Holds offset content) {place length : Nat} (same : offset = place)
    (long : content.length = length) : (Device.ofBytes bytes).region place length = content.toArray := by
  subst same long
  rw [Device.region_ofBytes held.inside,held.part]

theorem Holds.slice (held : bytes.Holds offset content) (small : bytes.size < 0x10000000000000000) :
    sliceOf bytes offset content.length = .ok content.toArray :=
  Decoder.sliceOf_eq_ok.mpr ⟨Nat.lt_of_le_of_lt held.inside small,held.inside,held.part⟩

-- Pieces one after another are each held where the one before ends.
theorem holds_append {front back : List UInt8} :
    bytes.Holds offset (front ++ back) ↔
      bytes.Holds offset front ∧ bytes.Holds (offset + front.length) back := by
  constructor
  · rintro ⟨inside,same⟩
    rw [List.length_append] at inside same
    rw [List.take_add,List.drop_drop] at same
    have long : ((bytes.toList.drop offset).take front.length).length = front.length := by
      simp only [List.length_take,List.length_drop,Array.length_toList]
      omega
    obtain ⟨first,second⟩ := List.append_inj same long
    exact ⟨⟨by omega,first⟩,⟨by omega,second⟩⟩
  · rintro ⟨first,second⟩
    refine ⟨?_,?_⟩
    · rw [List.length_append,← Nat.add_assoc]
      exact second.inside
    · rw [List.length_append,List.take_add,List.drop_drop,first.same,second.same]

theorem holds_front (content rest : List UInt8) : Holds (content ++ rest).toArray 0 content :=
  (holds_append.mp (holds_toArray (content ++ rest))).1

theorem Holds.take (held : bytes.Holds offset content) (count : Nat) : bytes.Holds offset (content.take count) := by
  rw [← List.take_append_drop count content] at held
  exact (holds_append.mp held).1

theorem Holds.be16 {value : UInt16} (held : bytes.Holds offset (word16 value)) : be16 bytes offset = value := by
  rw [Bytes.be16,show (2 : Nat) = (word16 value).length from rfl,held.part,word16,bigEndian_toBigEndian,
    Nat.mod_eq_of_lt (show value.toNat < byteRange 2 from value.toNat_lt),UInt16.ofNat_toNat]

theorem Holds.be32 {value : UInt32} (held : bytes.Holds offset (word32 value)) : be32 bytes offset = value := by
  rw [Bytes.be32,show (4 : Nat) = (word32 value).length from rfl,held.part,word32,bigEndian_toBigEndian,
    Nat.mod_eq_of_lt (show value.toNat < byteRange 4 from value.toNat_lt),UInt32.ofNat_toNat]

theorem Holds.be64 {value : UInt64} (held : bytes.Holds offset (word64 value)) : be64 bytes offset = value := by
  rw [Bytes.be64,show (8 : Nat) = (word64 value).length from rfl,held.part,word64,bigEndian_toBigEndian,
    Nat.mod_eq_of_lt (show value.toNat < byteRange 8 from value.toNat_lt),UInt64.ofNat_toNat]

theorem length_part {width : Nat} (inside : offset + width ≤ bytes.size) :
    (Bytes.part bytes offset width).toList.length = width := by
  rw [Array.length_toList,Bytes.part,Array.size_extract]
  omega

-- A buffer holds at each place the word that is read there.
theorem holds_toBigEndian {width value : Nat} (inside : offset + width ≤ bytes.size)
    (read : bigEndian (Bytes.part bytes offset width).toList = value) : bytes.Holds offset (toBigEndian width value) := by
  have spelt := toBigEndian_bigEndian (Bytes.part bytes offset width).toList
  rw [length_part inside,read] at spelt
  refine holds_iff_part.mpr ⟨by rwa [length_toBigEndian],?_⟩
  rw [length_toBigEndian,spelt,Array.toArray_toList]

theorem bigEndian_part_lt {width : Nat} (inside : offset + width ≤ bytes.size) :
    bigEndian (Bytes.part bytes offset width).toList < byteRange width := by
  have below := bigEndian_lt (Bytes.part bytes offset width).toList
  rwa [length_part inside] at below

theorem holds_be32 (inside : offset + 4 ≤ bytes.size) : bytes.Holds offset (word32 (Bytes.be32 bytes offset)) :=
  holds_toBigEndian inside (UInt32.toNat_ofNat_of_lt' (bigEndian_part_lt inside)).symm

theorem holds_be64 (inside : offset + 8 ≤ bytes.size) : bytes.Holds offset (word64 (Bytes.be64 bytes offset)) :=
  holds_toBigEndian inside (UInt64.toNat_ofNat_of_lt' (bigEndian_part_lt inside)).symm

theorem Holds.eq_toArray (held : bytes.Holds 0 content) (whole : bytes.size = content.length) :
    bytes = content.toArray := by
  have same := held.same
  rw [List.drop_zero,← whole,← Array.length_toList,List.take_length] at same
  rw [← same,Array.toArray_toList]

theorem Holds.byteAt {value : UInt8} (held : bytes.Holds offset [value]) : byteAt bytes offset = value := by
  rw [Bytes.byteAt,show (1 : Nat) = [value].length from rfl,held.part]
  simp [bigEndian]

theorem ofNat_littleWord32 (value : UInt32) : UInt32.ofNat (littleEndian (littleWord32 value)) = value := by
  rw [littleWord32,littleEndian_toLittleEndian,Nat.mod_eq_of_lt (show value.toNat < byteRange 4 from value.toNat_lt),
    UInt32.ofNat_toNat]

section Items

variable {values : List α} {encode : α → List UInt8} {width : Nat}

theorem length_items (wide : ∀ value, (encode value).length = width) (values : List α) :
    (values.flatMap encode).length = values.length * width := by
  induction values with
  | nil => simp
  | cons value values ih =>
    rw [List.flatMap_cons,List.length_append,wide,ih,List.length_cons,Nat.succ_mul,Nat.add_comm]

theorem Holds.item (held : bytes.Holds offset (values.flatMap encode))
    (wide : ∀ value, (encode value).length = width) {index : Nat} (below : index < values.length) :
    bytes.Holds (offset + width * index) (encode values[index]) := by
  induction values generalizing offset index with
  | nil => exact absurd below (Nat.not_lt_zero index)
  | cons value values ih =>
    obtain ⟨first,rest⟩ := holds_append.mp held
    cases index with
    | zero => exact first
    | succ index =>
      have later := ih rest (Nat.lt_of_succ_lt_succ below)
      rw [wide] at later
      rw [Nat.mul_succ,Nat.add_comm (width * index),← Nat.add_assoc]
      exact later

theorem holds_items (wide : ∀ value, (encode value).length = width)
    (reached : offset + width * values.length ≤ bytes.size)
    (each : ∀ (index : Nat) (below : index < values.length), bytes.Holds (offset + width * index) (encode values[index])) :
    bytes.Holds offset (values.flatMap encode) := by
  induction values generalizing offset with
  | nil => exact ⟨reached,rfl⟩
  | cons value values ih =>
    have first := each 0 (Nat.zero_lt_succ _)
    rw [List.length_cons,Nat.mul_succ] at reached
    refine holds_append.mpr ⟨first,?_⟩
    rw [wide]
    refine ih (by omega) fun index below => ?_
    have later := each (index + 1) (Nat.succ_lt_succ below)
    rw [Nat.mul_succ,Nat.add_comm (width * index),← Nat.add_assoc] at later
    exact later

theorem Holds.chunks (held : bytes.Holds 0 (values.flatMap encode))
    (wide : ∀ value, (encode value).length = width) :
    chunks bytes width values.length = values.map fun value => (encode value).toArray := by
  refine List.ext_getElem (by simp [Bytes.chunks]) fun index below _ => ?_
  have inside : index < values.length := by simpa [Bytes.chunks] using below
  have chunk := (held.item wide inside).part
  rw [wide,Nat.zero_add] at chunk
  simpa [Bytes.chunks] using chunk

-- Records of one width are read in a single stretch, whose length fits a word as the buffer's does.
theorem Holds.records (held : bytes.Holds offset (values.flatMap encode))
    (wide : ∀ value, (encode value).length = width) {ofRecord : Bytes → α}
    (back : ∀ value ∈ values, ofRecord (encode value).toArray = value) (small : bytes.size < 0x10000000000000000) :
    fit64? (values.length * width) = some (values.length * width) ∧
      (Decoder.slice offset (values.length * width) fun area =>
        .done ((Bytes.chunks area width values.length).map ofRecord)).run bytes = .ok values := by
  have inside := held.inside
  have area := held.slice small
  rw [length_items wide] at inside area
  refine ⟨fit64?_eq_some.mpr ⟨by omega,rfl⟩,?_⟩
  simp only [Decoder.run,area,Except.ok.injEq]
  rw [(holds_toArray _).chunks wide,List.map_map]
  exact (List.map_congr_left back).trans (List.map_id values)

theorem length_word64 (value : UInt64) : (word64 value).length = 8 := rfl

end Items

end Bytes

namespace Decoder

variable {bytes : Bytes} {offset : Nat} {content : List UInt8}

theorem field_run {field : Bytes → α} {length : Nat} {value : α} (held : bytes.Holds offset content)
    (small : bytes.size < 0x10000000000000000) (wide : content.length = length)
    (read : field content.toArray = value) :
    (Decoder.slice offset length fun raw => .done (field raw)).run bytes = .ok value := by
  subst wide
  simp only [run,held.slice small,read]

theorem u8_run {value : UInt8} (held : bytes.Holds offset [value])
    (small : bytes.size < 0x10000000000000000) : (u8 offset).run bytes = .ok value :=
  field_run held small rfl (Bytes.holds_toArray _).byteAt

theorem bytes_run {length : Nat} (held : bytes.Holds offset content)
    (small : bytes.size < 0x10000000000000000) (wide : content.length = length) :
    (Decoder.bytes offset length).run bytes = .ok content :=
  field_run held small wide rfl

theorem be16_run {value : UInt16} (held : bytes.Holds offset (word16 value))
    (small : bytes.size < 0x10000000000000000) : (be16 offset).run bytes = .ok value :=
  field_run held small rfl (Bytes.holds_toArray _).be16

theorem be32_run {value : UInt32} (held : bytes.Holds offset (word32 value))
    (small : bytes.size < 0x10000000000000000) : (be32 offset).run bytes = .ok value :=
  field_run held small rfl (Bytes.holds_toArray _).be32

theorem be64_run {value : UInt64} (held : bytes.Holds offset (word64 value))
    (small : bytes.size < 0x10000000000000000) : (be64 offset).run bytes = .ok value :=
  field_run held small rfl (Bytes.holds_toArray _).be64

theorem le32_run {value : UInt32} (held : bytes.Holds offset (littleWord32 value))
    (small : bytes.size < 0x10000000000000000) : (le32 offset).run bytes = .ok value :=
  field_run held small rfl (Bytes.ofNat_littleWord32 value)

theorem fixed16_run {value : Vector UInt8 16} (held : bytes.Holds offset value.toList)
    (small : bytes.size < 0x10000000000000000) : (fixed16 offset).run bytes = .ok value := by
  refine field_run held small (by simp) ?_
  apply Vector.ext
  intro index below
  have bytewise : value.toList.flatMap (fun byte => [byte]) = value.toList := by simp
  have whole := Bytes.holds_toArray value.toList
  rw [← bytewise] at whole
  have single : ∀ byte : UInt8, [byte].length = 1 := fun _ => rfl
  have byte := (whole.item single (by simpa using below)).byteAt
  simpa using byte

theorem require_run {length : Nat} (inside : offset + length ≤ bytes.size)
    (small : bytes.size < 0x10000000000000000) : (require offset length).run bytes = .ok () :=
  run_slice_inside (Nat.lt_of_le_of_lt inside small) inside

-- One record is read for each item, each to the value at its own place.
theorem mapM_run_each {items : List β} {record : β → Decoder α} {found : List α} (long : items.length = found.length)
    (each : ∀ (index : Nat) item value, items[index]? = some item → found[index]? = some value →
      (record item).run bytes = .ok value) : (items.mapM record).run bytes = .ok found := by
  induction items generalizing found with
  | nil =>
    rw [List.eq_nil_of_length_eq_zero long.symm]
    rfl
  | cons item items ih =>
    cases found with
    | nil => cases long
    | cons value found =>
      have first : (record item).run bytes = .ok value := each 0 item value rfl rfl
      have later : (items.mapM record).run bytes = .ok found :=
        ih (Nat.succ.inj long) fun index => each (index + 1)
      rw [List.mapM_cons,run_bind,first]
      change ((items.mapM record) >>= _).run bytes = _
      rw [run_bind,later]
      rfl

theorem mapM_run {items : List β} {record : β → Decoder α} {read : β → α}
    (each : ∀ item ∈ items, (record item).run bytes = .ok (read item)) :
    (items.mapM record).run bytes = .ok (items.map read) := by
  refine mapM_run_each (List.length_map _).symm fun index item value found same => ?_
  rw [List.getElem?_map,found] at same
  cases same
  exact each item (List.mem_of_getElem? found)

theorem table_run {values : List α} {encode : α → List UInt8} {width : Nat} {record : Nat → Decoder α}
    (held : bytes.Holds offset (values.flatMap encode)) (wide : ∀ value, (encode value).length = width)
    (read : ∀ place value, bytes.Holds place (encode value) → (record place).run bytes = .ok value) :
    (table offset width values.length record).run bytes = .ok values := by
  refine mapM_run_each List.length_range fun index place value listed found => ?_
  obtain ⟨below,rfl⟩ := List.getElem?_eq_some_iff.mp found
  rw [List.getElem?_range below] at listed
  cases listed
  exact read _ _ (held.item wide below)

theorem be64_table_run {words : List UInt64} (held : bytes.Holds offset (words.flatMap word64))
    (small : bytes.size < 0x10000000000000000) :
    (table offset 8 words.length be64).run bytes = .ok words :=
  table_run held Bytes.length_word64 fun _ _ word => be64_run word small

theorem be64_table_inside {count : Nat} (inside : ∀ index < count, offset + 8 * index + 8 ≤ bytes.size)
    (fits : offset + 8 * count < 0x10000000000000000) :
    ∃ words, (table offset 8 count be64).run bytes = .ok words ∧ words.length = count := by
  have each : ∀ index ∈ List.range count,
      (be64 (offset + 8 * index)).run bytes = .ok (Bytes.be64 bytes (offset + 8 * index)) := by
    intro index member
    have below := List.mem_range.mp member
    exact run_be64 (by omega) (inside index below)
  refine ⟨_,mapM_run each,?_⟩
  rw [List.length_map,List.length_range]

end Decoder
end XfsReader
