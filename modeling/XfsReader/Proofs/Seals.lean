import XfsReader.Proofs.ChecksumRemainder
import XfsReader.Proofs.Encoding

-- Sealed blocks. The checksum is taken of the block with its own field at zero, so that writing it there
-- does not change it: a block passes exactly if sealing leaves it as it is. Damage of up to four bytes in
-- a row, on either side of the field or to the field itself, makes a sealed block fail.
namespace XfsReader

theorem getElem?_toLittleEndian (value : Nat) {width index : Nat} (below : index < width) :
    (toLittleEndian width value)[index]? = some (UInt8.ofNat (value / 256 ^ index)) := by
  induction width generalizing value index with
  | zero => exact absurd below (Nat.not_lt_zero index)
  | succ width ih =>
    cases index with
    | zero => rw [toLittleEndian,List.getElem?_cons_zero,Nat.pow_zero,Nat.div_one]
    | succ index =>
      rw [toLittleEndian,List.getElem?_cons_succ,ih _ (Nat.lt_of_succ_lt_succ below),Nat.pow_succ',
        Nat.div_div_eq_div_mul]

namespace Bytes

-- Two buffers of one size with the same bytes but for one stretch.
structure SameOutside (start width : Nat) (one other : Bytes) : Prop where
  size : other.size = one.size
  bytes : ∀ index, index < start ∨ start + width ≤ index → other[index]? = one[index]?

section Stretches

variable {start width : Nat} {one other : Bytes}

theorem SameOutside.refl (start width : Nat) (bytes : Bytes) : bytes.SameOutside start width bytes :=
  ⟨rfl,fun _ _ => rfl⟩

theorem SameOutside.before (same : SameOutside start width one other) :
    other.toList.take start = one.toList.take start := by
  apply List.ext_getElem?
  intro index
  rw [List.getElem?_take,List.getElem?_take]
  by_cases inside : index < start
  · rw [if_pos inside,if_pos inside,Array.getElem?_toList,Array.getElem?_toList,same.bytes index (.inl inside)]
  · rw [if_neg inside,if_neg inside]

theorem SameOutside.after (same : SameOutside start width one other) :
    other.toList.drop (start + width) = one.toList.drop (start + width) := by
  apply List.ext_getElem?
  intro index
  rw [List.getElem?_drop,List.getElem?_drop,Array.getElem?_toList,Array.getElem?_toList,
    same.bytes _ (.inr (Nat.le_add_right _ _))]

-- All that is left open is the stretch itself.
theorem SameOutside.split (same : SameOutside start width one other) :
    other.toList =
      one.toList.take start ++ (other.toList.drop start).take width ++ one.toList.drop (start + width) := by
  rw [← same.before,← same.after,List.append_assoc,← List.drop_drop,List.take_append_drop,List.take_append_drop]

theorem SameOutside.part (same : SameOutside start width one other) {place length : Nat}
    (apart : start + width ≤ place ∨ place + length ≤ start) : part other place length = part one place length := by
  apply Array.ext_getElem?
  intro index
  simp only [Bytes.part,Array.getElem?_extract,same.size]
  split
  · exact same.bytes _ (by omega)
  · rfl

theorem SameOutside.crc32c_inj (same : SameOutside start width one other) (narrow : width ≤ 4)
    (alike : crc32c other.toList = crc32c one.toList) : other = one := by
  have whole := (SameOutside.refl start width one).split
  have long : ((other.toList.drop start).take width).length = ((one.toList.drop start).take width).length := by
    simp only [List.length_take,List.length_drop,Array.length_toList,same.size]
  have short : ((other.toList.drop start).take width).length ≤ 4 := Nat.le_trans (List.length_take_le _ _) narrow
  have pieces : crc32c (one.toList.take start ++ (other.toList.drop start).take width ++ one.toList.drop (start + width)) =
      crc32c (one.toList.take start ++ (one.toList.drop start).take width ++ one.toList.drop (start + width)) := by
    rw [← same.split,← whole]
    exact alike
  apply Array.ext'
  rw [same.split,crc32c_window long short pieces,← whole]

end Stretches

section Overwriting

variable {offset width : Nat} {bytes one other : Bytes} {content : List UInt8}

theorem getElem?_overwritten (room : offset + content.length ≤ bytes.size) (index : Nat) :
    (bytes.overwritten offset content)[index]? =
      if offset ≤ index ∧ index < offset + content.length then content[index - offset]? else bytes[index]? := by
  have front : (bytes.toList.take offset).length = offset := by
    rw [List.length_take,Array.length_toList]
    omega
  rw [overwritten,List.getElem?_toArray,List.append_assoc]
  rcases Nat.lt_or_ge index offset with before | inside
  · rw [List.getElem?_append_left (by omega),List.getElem?_take,if_pos before,if_neg (by omega),
      Array.getElem?_toList]
  · rw [List.getElem?_append_right (by omega),front]
    rcases Nat.lt_or_ge index (offset + content.length) with within | after
    · rw [List.getElem?_append_left (by omega),if_pos ⟨inside,within⟩]
    · rw [List.getElem?_append_right (by omega),if_neg (by omega),List.getElem?_drop,Array.getElem?_toList]
      congr 1
      omega

theorem sameOutside_overwritten (room : offset + content.length ≤ bytes.size) :
    bytes.SameOutside offset content.length (bytes.overwritten offset content) := by
  refine ⟨?_,fun index outside => ?_⟩
  · simp only [overwritten,List.size_toArray,List.length_append,List.length_take,List.length_drop,Array.length_toList]
    omega
  · rw [getElem?_overwritten room,if_neg (by omega)]

theorem holds_overwritten (room : offset + content.length ≤ bytes.size) :
    (bytes.overwritten offset content).Holds offset content := by
  refine ⟨(sameOutside_overwritten room).size.symm ▸ room,?_⟩
  apply List.ext_getElem?
  intro index
  rw [List.getElem?_take,List.getElem?_drop,Array.getElem?_toList,getElem?_overwritten room]
  by_cases inside : index < content.length
  · rw [if_pos inside,if_pos (by omega),Nat.add_sub_cancel_left]
  · rw [if_neg inside,List.getElem?_eq_none (Nat.le_of_not_lt inside)]

-- What is written beside a stretch leaves it as it was.
theorem Holds.beside {place : Nat} {other : List UInt8} (held : bytes.Holds offset content)
    (room : place + other.length ≤ bytes.size)
    (apart : place + other.length ≤ offset ∨ offset + content.length ≤ place) :
    (bytes.overwritten place other).Holds offset content := by
  have same := sameOutside_overwritten room
  obtain ⟨inside,part⟩ := holds_iff_part.mp held
  exact holds_iff_part.mpr ⟨same.size.symm ▸ inside,(same.part apart).trans part⟩

theorem overwritten_congr (same : SameOutside offset content.length one other) :
    other.overwritten offset content = one.overwritten offset content := by
  rw [overwritten,overwritten,same.before,same.after]

theorem Holds.getElem? (held : bytes.Holds offset content) {index : Nat} (below : index < content.length) :
    bytes[offset + index]? = content[index]? := by
  have found := congrArg (fun list : List UInt8 => list[index]?) held.same
  rwa [List.getElem?_take,if_pos below,List.getElem?_drop,Array.getElem?_toList] at found

theorem overwritten_part (inside : offset + width ≤ bytes.size) :
    bytes.overwritten offset (part bytes offset width).toList = bytes := by
  apply Array.ext'
  rw [overwritten,length_part inside,part,Array.toList_extract,List.extract_eq_take_drop,Nat.add_sub_cancel_left,
    List.append_assoc,← List.drop_drop,List.take_append_drop,List.take_append_drop]

end Overwriting

end Bytes

namespace Checksum

-- The block as its checksum is taken of it.
def blanked (block : Bytes) (offset : Nat) : Bytes :=
  block.mapIdx fun index byte => if offset ≤ index ∧ index < offset + width then 0 else byte

def stored (block : Bytes) (offset : Nat) : UInt32 :=
  UInt32.ofNat (littleEndian (Bytes.part block offset width).toList)

def computed (block : Bytes) (offset : Nat) : UInt32 := crc32c (blanked block offset).toList

section Blanking

variable {block one other : Bytes} {offset start window : Nat}

theorem getElem?_blanked (block : Bytes) (offset index : Nat) :
    (blanked block offset)[index]? =
      if offset ≤ index ∧ index < offset + width then block[index]?.map fun _ => 0 else block[index]? := by
  rw [blanked,Array.getElem?_mapIdx]
  split
  · rfl
  · exact Option.map_id'

theorem blanked_eq (room : offset + width ≤ block.size) :
    blanked block offset = block.overwritten offset (List.replicate width 0) := by
  have fits : offset + (List.replicate width (0 : UInt8)).length ≤ block.size := by
    rw [List.length_replicate]
    exact room
  apply Array.ext_getElem?
  intro index
  rw [getElem?_blanked,Bytes.getElem?_overwritten fits,List.length_replicate]
  split
  · rename_i inside
    have below : index < block.size := Nat.lt_of_lt_of_le inside.2 room
    rw [Array.getElem?_eq_getElem below,List.getElem?_replicate,if_pos (by omega)]
    rfl
  · rfl

theorem blanked_congr (same : one.SameOutside offset width other) : blanked other offset = blanked one offset := by
  apply Array.ext_getElem?
  intro index
  rw [getElem?_blanked,getElem?_blanked]
  split
  · rcases Nat.lt_or_ge index one.size with below | beyond
    · rw [Array.getElem?_eq_getElem below,Array.getElem?_eq_getElem (same.size ▸ below)]
      rfl
    · rw [Array.getElem?_eq_none beyond,Array.getElem?_eq_none (same.size ▸ beyond)]
  · exact same.bytes index (by omega)

theorem sameOutside_blanked (same : one.SameOutside start window other) (offset : Nat) :
    (blanked one offset).SameOutside start window (blanked other offset) := by
  refine ⟨?_,fun index outside => ?_⟩
  · rw [blanked,blanked,Array.size_mapIdx,Array.size_mapIdx,same.size]
  · rw [getElem?_blanked,getElem?_blanked,same.bytes index outside]

-- Blocks that differ beside the field still differ with the field at zero.
theorem blanked_inj (same : one.SameOutside start window other)
    (apart : start + window ≤ offset ∨ offset + width ≤ start) (alike : blanked other offset = blanked one offset) :
    other = one := by
  apply Array.ext_getElem?
  intro index
  by_cases field : offset ≤ index ∧ index < offset + width
  · exact same.bytes index (by omega)
  · have byte := getElem?_blanked other offset index
    rwa [alike,getElem?_blanked,if_neg field,if_neg field,eq_comm] at byte

end Blanking

section Sealing

variable {block one other : Bytes} {offset : Nat}

theorem sliceOf_field (room : offset + width ≤ block.size) (fits : offset + width < 0x10000000000000000) :
    sliceOf block offset width = .ok (Bytes.part block offset width) :=
  Decoder.sliceOf_eq_ok.mpr ⟨fits,room,rfl⟩

theorem le32_stored (room : offset + width ≤ block.size) (fits : offset + width < 0x10000000000000000) :
    (Decoder.le32 offset).run block = .ok (stored block offset) :=
  Decoder.run_slice_inside fits room

-- Carried on over the three pieces, the checksum is that of the blanked block.
theorem ofBlock_eq (room : offset + width ≤ block.size) (fits : offset + width < 0x10000000000000000) :
    ofBlock block offset = .ok (computed block offset) := by
  rw [ofBlock,sliceOf_field room fits,computed,blanked_eq room,Bytes.overwritten,crc32c,
    crc32cAppend_append,crc32cAppend_append]
  rfl

theorem verify_eq (subject : String) (room : offset + width ≤ block.size)
    (fits : offset + width < 0x10000000000000000) :
    verify subject block offset = if stored block offset = computed block offset then .ok ()
      else .error (.checksumMismatch subject (stored block offset) (computed block offset)) := by
  rw [verify,le32_stored room fits,ofBlock_eq room fits]

theorem sealInPlace_eq (room : offset + width ≤ block.size) (fits : offset + width < 0x10000000000000000) :
    sealInPlace block offset = (.ok (),block.overwritten offset (littleWord32 (computed block offset))) := by
  rw [sealInPlace,ofBlock_eq room fits]

-- Without room for the field there is one reason for all to fail, and nothing is written.
theorem seal_refused (subject : String) (short : ¬ offset + width ≤ block.size) :
    ∃ error, ofBlock block offset = .error error ∧ verify subject block offset = .error error ∧
      sealInPlace block offset = (.error error,block) := by
  cases field : sliceOf block offset width with
  | ok found => exact absurd (Decoder.sliceOf_eq_ok.mp field).2.1 short
  | error error =>
    have refused : ofBlock block offset = .error error := by rw [ofBlock,field]
    have unread : (Decoder.le32 offset).run block = .error error := by
      rw [Decoder.le32,Decoder.run,show sliceOf block offset 4 = .error error from field]
    refine ⟨error,refused,?_,?_⟩
    · rw [verify,unread]
    · rw [sealInPlace,refused]

theorem computed_congr (same : one.SameOutside offset width other) : computed other offset = computed one offset := by
  rw [computed,computed,blanked_congr same]

theorem stored_of_holds {crc : UInt32} (held : block.Holds offset (littleWord32 crc)) : stored block offset = crc := by
  rw [stored,show width = (littleWord32 crc).length from rfl,held.part]
  exact Bytes.ofNat_littleWord32 crc

theorem littleWord32_stored (room : offset + width ≤ block.size) :
    littleWord32 (stored block offset) = (Bytes.part block offset width).toList := by
  have long : (Bytes.part block offset width).toList.length = width := Bytes.length_part room
  have small : littleEndian (Bytes.part block offset width).toList < 2 ^ 32 := by
    have below := littleEndian_lt (Bytes.part block offset width).toList
    rwa [long] at below
  rw [littleWord32,stored,UInt32.toNat_ofNat_of_lt' small]
  have spelt := toLittleEndian_littleEndian (Bytes.part block offset width).toList
  rwa [long] at spelt

theorem overwritten_stored (room : offset + width ≤ block.size) :
    block.overwritten offset (littleWord32 (stored block offset)) = block := by
  rw [littleWord32_stored room,Bytes.overwritten_part room]

theorem stored_inj (room : offset + width ≤ one.size) (same : one.SameOutside offset width other)
    (alike : stored other offset = stored one offset) : other = one :=
  calc other = other.overwritten offset (littleWord32 (stored other offset)) :=
        (overwritten_stored (same.size ▸ room)).symm
    _ = one.overwritten offset (littleWord32 (stored one offset)) := by
        rw [alike]
        exact Bytes.overwritten_congr same
    _ = one := overwritten_stored room

-- Damage beside the field changes the checksum, and the field still says what it was.
theorem broken_beside {start window : Nat} (intact : stored one offset = computed one offset)
    (same : one.SameOutside start window other) (narrow : window ≤ 4)
    (apart : start + window ≤ offset ∨ offset + width ≤ start) (harmed : other ≠ one) :
    stored other offset ≠ computed other offset := by
  intro alike
  have field : stored other offset = stored one offset := by
    rw [stored,stored,same.part apart]
  have checksums : computed other offset = computed one offset := by rw [← alike,field,intact]
  exact harmed (blanked_inj same apart ((sameOutside_blanked same offset).crc32c_inj narrow checksums))

theorem broken_field (room : offset + width ≤ one.size) (intact : stored one offset = computed one offset)
    (same : one.SameOutside offset width other) (harmed : other ≠ one) :
    stored other offset ≠ computed other offset := by
  intro alike
  have field : stored other offset = stored one offset := by rw [alike,computed_congr same,intact]
  exact harmed (stored_inj room same field)

-- What sealing leaves: the block as it was around the field, and the checksum in it.
theorem exists_sealed (room : offset + width ≤ block.size) (fits : offset + width < 0x10000000000000000) :
    ∃ written, sealInPlace block offset = (.ok (),written) ∧ block.SameOutside offset width written ∧
      written.Holds offset (littleWord32 (computed block offset)) := by
  have space : offset + (littleWord32 (computed block offset)).length ≤ block.size := room
  exact ⟨_,sealInPlace_eq room fits,Bytes.sameOutside_overwritten space,Bytes.holds_overwritten space⟩

theorem stored_sealed {written : Bytes} (elsewhere : block.SameOutside offset width written)
    (held : written.Holds offset (littleWord32 (computed block offset))) :
    stored written offset = computed written offset := by
  rw [stored_of_holds held,computed_congr elsewhere]

theorem verify_iff (subject : String) (room : offset + width ≤ block.size)
    (fits : offset + width < 0x10000000000000000) :
    verify subject block offset = .ok () ↔ stored block offset = computed block offset := by
  rw [verify_eq subject room fits]
  split <;> simp [*]

theorem fixed_iff (room : offset + width ≤ block.size) (fits : offset + width < 0x10000000000000000) :
    sealInPlace block offset = (.ok (),block) ↔ stored block offset = computed block offset := by
  rw [sealInPlace_eq room fits,Prod.mk.injEq,and_iff_right rfl]
  constructor
  · intro fixed
    have space : offset + (littleWord32 (computed block offset)).length ≤ block.size := room
    have held := Bytes.holds_overwritten space
    rw [fixed] at held
    exact stored_of_holds held
  · intro intact
    rw [← intact,overwritten_stored room]

end Sealing

-- The checksum of a block is that of the block with its field at zero. Sealing writes it into the field
-- and nowhere else, passes, and has nothing to do a second time; so what passes is what sealing leaves
-- as it is. Where the field does not fit nothing is done at all.
theorem seal_and_verify_agree (subject : String) (block : Bytes) (offset : Nat)
    (small : block.size < 0x10000000000000000) :
    (offset + 4 ≤ block.size →
      let crc := crc32c (blanked block offset).toList
      ofBlock block offset = .ok crc ∧
      (∀ other, block.SameOutside offset 4 other → ofBlock other offset = .ok crc) ∧
      ∃ written, sealInPlace block offset = (.ok (),written) ∧ block.SameOutside offset 4 written ∧
        (∀ index < 4, written[offset + index]? = some (UInt8.ofNat (crc.toNat / 256 ^ index))) ∧
        (Decoder.le32 offset).run written = .ok crc ∧ verify subject written offset = .ok () ∧
        sealInPlace written offset = (.ok (),written)) ∧
    (verify subject block offset = .ok () ↔ sealInPlace block offset = (.ok (),block)) ∧
    (¬ offset + 4 ≤ block.size → ∃ error, ofBlock block offset = .error error ∧
      verify subject block offset = .error error ∧ sealInPlace block offset = (.error error,block)) := by
  refine ⟨?sealed,?fixed,fun short => seal_refused subject short⟩
  case sealed =>
    intro room crc
    have fits : offset + width < 0x10000000000000000 := Nat.lt_of_le_of_lt room small
    obtain ⟨written,stamped,elsewhere,held⟩ := exists_sealed room fits
    have roomToo : offset + width ≤ written.size := elsewhere.size ▸ room
    have intact := stored_sealed elsewhere held
    refine ⟨ofBlock_eq room fits,?same,written,stamped,elsewhere,?bytes,
      Decoder.le32_run held (elsewhere.size ▸ small),(verify_iff subject roomToo fits).mpr intact,
      (fixed_iff roomToo fits).mpr intact⟩
    case same =>
      intro other same
      rw [ofBlock_eq (same.size ▸ room) fits,computed_congr same]
      rfl
    case bytes =>
      intro index below
      rw [held.getElem? below]
      exact getElem?_toLittleEndian _ below
  case fixed =>
    by_cases room : offset + width ≤ block.size
    · have fits : offset + width < 0x10000000000000000 := Nat.lt_of_le_of_lt room small
      rw [verify_iff subject room fits,fixed_iff room fits]
    · obtain ⟨error,_,unjudged,unsealed⟩ := seal_refused subject room
      rw [unjudged,unsealed]
      simp

-- A field at the very end of its block, and one that has a byte too few.
theorem seal_and_verify_agree_end :
    let block : Bytes := #[1,2,9,9,9,9]
    let other := block.overwritten 2 [0,7,0,0]
    let crc := crc32c [1,2,0,0,0,0]
    block.size < 0x10000000000000000 ∧ 2 + 4 ≤ block.size ∧ ofBlock block 2 = .ok crc ∧
      (block.SameOutside 2 4 other ∧ ofBlock other 2 = .ok crc) ∧
      (∃ written, sealInPlace block 2 = (.ok (),written) ∧ block.SameOutside 2 4 written ∧
        (∀ index < 4, written[2 + index]? = some (UInt8.ofNat (crc.toNat / 256 ^ index))) ∧
        (Decoder.le32 2).run written = .ok crc ∧ verify "dir data block" written 2 = .ok () ∧
        sealInPlace written 2 = (.ok (),written)) ∧
      (verify "dir data block" block 2 = .ok () ↔ sealInPlace block 2 = (.ok (),block)) ∧
      ¬ 3 + 4 ≤ block.size ∧
      ∃ error, ofBlock block 3 = .error error ∧ verify "dir data block" block 3 = .error error ∧
        sealInPlace block 3 = (.error error,block) := by
  intro block other crc
  have small : block.size < 0x10000000000000000 := by decide
  have room : 2 + 4 ≤ block.size := by decide
  have short : ¬ 3 + 4 ≤ block.size := by decide
  have same : block.SameOutside 2 4 other :=
    Bytes.sameOutside_overwritten (show 2 + ([0,7,0,0] : List UInt8).length ≤ block.size by decide)
  obtain ⟨inside,fixed,_⟩ := seal_and_verify_agree "dir data block" block 2 small
  obtain ⟨_,_,outside⟩ := seal_and_verify_agree "dir data block" block 3 small
  obtain ⟨sum,alike,sealing⟩ := inside room
  exact ⟨small,room,sum,⟨same,alike other same⟩,sealing,fixed,short,outside short⟩

-- Judged to be broken, for what stands in the field and what the block comes to.
def Mismatches (subject : String) (block : Bytes) (offset : Nat) : Prop :=
  ∃ found due, (Decoder.le32 offset).run block = .ok found ∧ ofBlock block offset = .ok due ∧ found ≠ due ∧
    verify subject block offset = .error (.checksumMismatch subject found due)

-- A sealed block does not pass for sealed once its field, or at most four bytes in a row on one side of
-- the field, have been changed, whatever they are changed to and wherever they stand.
theorem local_damage_detected (subject : String) (block : Bytes) (offset : Nat) (room : offset + 4 ≤ block.size)
    (small : block.size < 0x10000000000000000) :
    ∃ written, sealBlock block offset = .ok written ∧
      ∀ damaged start window, window ≤ 4 →
        start + window ≤ offset ∨ offset + 4 ≤ start ∨ start = offset ∧ window = 4 →
        written.SameOutside start window damaged → damaged ≠ written → Mismatches subject damaged offset := by
  have fits : offset + width < 0x10000000000000000 := Nat.lt_of_le_of_lt room small
  obtain ⟨written,stamped,elsewhere,held⟩ := exists_sealed room fits
  have intact := stored_sealed elsewhere held
  refine ⟨written,by rw [sealBlock,stamped],?_⟩
  intro damaged start window narrow place same harmed
  have broken : stored damaged offset ≠ computed damaged offset := by
    rcases place with before | after | ⟨rfl,rfl⟩
    · exact broken_beside intact same narrow (.inl before) harmed
    · exact broken_beside intact same narrow (.inr after) harmed
    · exact broken_field (elsewhere.size ▸ room) intact same harmed
  have roomToo : offset + width ≤ damaged.size := (same.size.trans elsewhere.size).symm ▸ room
  refine ⟨_,_,le32_stored roomToo fits,ofBlock_eq roomToo fits,broken,?_⟩
  rw [verify_eq subject roomToo fits,if_neg broken]

def sealedZeros : Bytes := #[0,0,0,0,0xAA,0x36,0x91,0x8A] ++ Array.replicate 24 0

-- A block of 32 zeros, harmed up to its field, from its field on, and in the field.
theorem local_damage_detected_zeros :
    let zeros : Bytes := Array.replicate 32 0
    let before := sealedZeros.overwritten 0 [1,0,0,1]
    let after := sealedZeros.overwritten 8 [0,0x80]
    let field := sealedZeros.overwritten 4 [0,0,0,0]
    4 + 4 ≤ zeros.size ∧ zeros.size < 0x10000000000000000 ∧ sealBlock zeros 4 = .ok sealedZeros ∧
      (sealedZeros.SameOutside 0 4 before ∧ before ≠ sealedZeros ∧ Mismatches "dir data block" before 4) ∧
      (sealedZeros.SameOutside 8 2 after ∧ after ≠ sealedZeros ∧ Mismatches "dir data block" after 4) ∧
      (sealedZeros.SameOutside 4 4 field ∧ field ≠ sealedZeros ∧ Mismatches "dir data block" field 4) := by
  intro zeros before after field
  have room : 4 + 4 ≤ zeros.size := by decide
  have small : zeros.size < 0x10000000000000000 := by decide
  have stamped : sealBlock zeros 4 = .ok sealedZeros := by
    simp only [sealBlock,sealInPlace,ofBlock,crc32c,crc32cAppend_number]
    exact eq_ok_of_toOption (by decide +kernel)
  obtain ⟨written,sealing,detects⟩ := local_damage_detected "dir data block" zeros 4 room small
  obtain rfl : sealedZeros = written := Except.ok.inj (stamped.symm.trans sealing)
  have sameBefore : sealedZeros.SameOutside 0 4 before :=
    Bytes.sameOutside_overwritten (show 0 + ([1,0,0,1] : List UInt8).length ≤ sealedZeros.size by decide)
  have sameAfter : sealedZeros.SameOutside 8 2 after :=
    Bytes.sameOutside_overwritten (show 8 + ([0,0x80] : List UInt8).length ≤ sealedZeros.size by decide)
  have sameField : sealedZeros.SameOutside 4 4 field :=
    Bytes.sameOutside_overwritten (show 4 + ([0,0,0,0] : List UInt8).length ≤ sealedZeros.size by decide)
  have harmedBefore : before ≠ sealedZeros := by decide
  have harmedAfter : after ≠ sealedZeros := by decide
  have harmedField : field ≠ sealedZeros := by decide
  exact ⟨room,small,stamped,
    ⟨sameBefore,harmedBefore,detects before 0 4 (by decide) (.inl (by decide)) sameBefore harmedBefore⟩,
    ⟨sameAfter,harmedAfter,detects after 8 2 (by decide) (.inr (.inl (by decide))) sameAfter harmedAfter⟩,
    ⟨sameField,harmedField,detects field 4 4 (by decide) (.inr (.inr ⟨rfl,rfl⟩)) sameField harmedField⟩⟩

end Checksum
end XfsReader
