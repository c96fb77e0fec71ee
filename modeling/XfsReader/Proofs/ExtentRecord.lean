import Mathlib.Data.Nat.Bitwise
import XfsReader.Extent
import XfsReader.Proofs.Encoding

-- An extent comes out of its record as it went in, as long as its fields are within the widths that
-- the record has for them, and what comes out of a record is always within them. A record goes back as
-- it was unless it has block bits in its upper word, which are written into the lower one.
namespace XfsReader

section Words

variable {word high low mask : UInt64} {bits : Nat}

private theorem shiftAmount (short : bits < 64) : (UInt64.ofNat bits).toNat % 64 = bits := by
  rw [UInt64.toNat_ofNat']
  omega

-- Two numbers side by side in one word.
theorem toNat_join (short : bits < 64) (fits : high.toNat * 2 ^ bits < 2 ^ 64) (small : low.toNat < 2 ^ bits) :
    (high <<< UInt64.ofNat bits ||| low).toNat = high.toNat * 2 ^ bits + low.toNat := by
  rw [UInt64.toNat_or,UInt64.toNat_shiftLeft,shiftAmount short,Nat.shiftLeft_eq,Nat.mod_eq_of_lt fits,
    ← Nat.shiftLeft_eq,Nat.shiftLeft_add_eq_or_of_lt small]

theorem toNat_shiftRight (short : bits < 64) : (word >>> UInt64.ofNat bits).toNat = word.toNat / 2 ^ bits := by
  rw [UInt64.toNat_shiftRight,shiftAmount short,Nat.shiftRight_eq_div_pow]

theorem toNat_mask (ones : mask.toNat = 2 ^ bits - 1) : (word &&& mask).toNat = word.toNat % 2 ^ bits := by
  rw [UInt64.toNat_and,ones,Nat.and_two_pow_sub_one_eq_mod]

end Words

namespace Extent

structure Packed (extent : Extent) : Prop where
  offset : extent.startOffset.toNat < 2 ^ 54
  block : extent.startBlock.toNat < 2 ^ 43
  count : extent.blockCount.toNat < 2 ^ 21

def stateNumber : ExtentState → Nat
  | .normal => 0
  | .unwritten => 1

theorem stateBit_eq (state : ExtentState) :
    stateBit state = UInt64.ofNat (stateNumber state) <<< UInt64.ofNat 63 := by
  cases state <;> decide

variable {extent : Extent}

theorem Packed.toNat_upperWord (packed : extent.Packed) :
    extent.upperWord.toNat = stateNumber extent.state * 2 ^ 63 + extent.startOffset.toNat * 2 ^ 9 := by
  have offset := packed.offset
  have masked : extent.startOffset &&& startOffsetMask = extent.startOffset := by
    apply UInt64.toNat_inj.mp
    rw [toNat_mask (show startOffsetMask.toNat = 2 ^ 54 - 1 by decide)]
    exact Nat.mod_eq_of_lt offset
  have shifted : (extent.startOffset <<< 9).toNat = extent.startOffset.toNat * 2 ^ 9 := by
    have joined : (extent.startOffset <<< UInt64.ofNat 9 ||| 0).toNat = _ :=
      toNat_join (by decide) (by omega) (by decide)
    simpa using joined
  have number : (UInt64.ofNat (stateNumber extent.state)).toNat = stateNumber extent.state := by
    cases extent.state <;> decide
  have bit : stateNumber extent.state ≤ 1 := by cases extent.state <;> decide
  rw [upperWord,masked,stateBit_eq,toNat_join (by decide) (by omega) (by omega),shifted,number]

theorem Packed.toNat_lowerWord (packed : extent.Packed) :
    extent.lowerWord.toNat = extent.startBlock.toNat * 2 ^ 21 + extent.blockCount.toNat := by
  have block := packed.block
  have count := packed.count
  have masked : (extent.blockCount.toUInt64 &&& blockCountMask).toNat = extent.blockCount.toNat := by
    rw [toNat_mask (show blockCountMask.toNat = 2 ^ 21 - 1 by decide),UInt32.toNat_toUInt64]
    exact Nat.mod_eq_of_lt count
  have joined : (extent.startBlock <<< UInt64.ofNat 21 ||| (extent.blockCount.toUInt64 &&& blockCountMask)).toNat = _ :=
    toNat_join (by decide) (by omega) (by omega)
  rw [masked] at joined
  exact joined

theorem stateNumber_inj {one other : ExtentState} (same : stateNumber one = stateNumber other) : one = other := by
  revert same
  cases one <;> cases other <;> decide

theorem ext_numbers {one other : Extent} (offset : one.startOffset.toNat = other.startOffset.toNat)
    (block : one.startBlock.toNat = other.startBlock.toNat) (count : one.blockCount.toNat = other.blockCount.toNat)
    (state : stateNumber one.state = stateNumber other.state) : one = other := by
  cases one
  cases other
  simp only [mk.injEq]
  exact ⟨UInt64.toNat_inj.mp offset,UInt64.toNat_inj.mp block,UInt32.toNat_inj.mp count,stateNumber_inj state⟩

section Fields

variable (upper lower : UInt64)

theorem toNat_startOffset : (ofWords upper lower).startOffset.toNat = upper.toNat / 2 ^ 9 % 2 ^ 54 := by
  change ((upper >>> UInt64.ofNat 9) &&& startOffsetMask).toNat = _
  rw [toNat_mask (show startOffsetMask.toNat = 2 ^ 54 - 1 by decide),toNat_shiftRight (by decide)]

theorem toNat_startBlock :
    (ofWords upper lower).startBlock.toNat = lower.toNat / 2 ^ 21 ||| upper.toNat % 2 ^ 9 := by
  change ((lower >>> UInt64.ofNat 21) ||| (upper &&& upperBlockMask)).toNat = _
  rw [UInt64.toNat_or,toNat_shiftRight (by decide),toNat_mask (show upperBlockMask.toNat = 2 ^ 9 - 1 by decide)]

theorem toNat_blockCount : (ofWords upper lower).blockCount.toNat = lower.toNat % 2 ^ 21 := by
  change (lower &&& blockCountMask).toUInt32.toNat = _
  rw [UInt64.toNat_toUInt32,toNat_mask (show blockCountMask.toNat = 2 ^ 21 - 1 by decide)]
  omega

theorem stateNumber_ofWords : stateNumber (ofWords upper lower).state = upper.toNat / 2 ^ 63 := by
  have top : (upper >>> UInt64.ofNat 63).toNat = upper.toNat / 2 ^ 63 := toNat_shiftRight (by decide)
  have below := upper.toNat_lt
  change stateNumber (if upper >>> UInt64.ofNat 63 = 1 then .unwritten else .normal) = _
  split
  · rename_i set
    rw [← top,set]
    rfl
  · rename_i clear
    have other : (upper >>> UInt64.ofNat 63).toNat ≠ 1 := fun one => clear (UInt64.toNat_inj.mp one)
    change 0 = _
    omega

theorem ofWords_packed : (ofWords upper lower).Packed := by
  have below := lower.toNat_lt
  refine ⟨?_,?_,?_⟩
  · rw [toNat_startOffset]
    exact Nat.mod_lt _ (by decide)
  · rw [toNat_startBlock]
    exact Nat.or_lt_two_pow (by omega) (by omega)
  · rw [toNat_blockCount]
    exact Nat.mod_lt _ (by decide)

-- The words of an extent that came from words: the upper one without its block bits, which have gone
-- into the lower one.
theorem toNat_upperWord_ofWords : (ofWords upper lower).upperWord.toNat = upper.toNat / 2 ^ 9 * 2 ^ 9 := by
  have below := upper.toNat_lt
  rw [(ofWords_packed upper lower).toNat_upperWord,stateNumber_ofWords,toNat_startOffset]
  omega

theorem words_ofWords : (ofWords upper lower).upperWord = upper ∧ (ofWords upper lower).lowerWord = lower ↔
    upper.toNat % 2 ^ 9 = 0 := by
  have rounded := toNat_upperWord_ofWords upper lower
  constructor
  · rintro ⟨same,_⟩
    rw [same] at rounded
    omega
  · intro clear
    refine ⟨UInt64.toNat_inj.mp ?_,UInt64.toNat_inj.mp ?_⟩
    · omega
    · rw [(ofWords_packed upper lower).toNat_lowerWord,toNat_startBlock,toNat_blockCount,clear,Nat.or_zero]
      omega

end Fields

theorem Packed.ofWords_words (packed : extent.Packed) : ofWords extent.upperWord extent.lowerWord = extent := by
  have offset := packed.offset
  have block := packed.block
  have count := packed.count
  have upper := packed.toNat_upperWord
  have lower := packed.toNat_lowerWord
  have bit : stateNumber extent.state ≤ 1 := by cases extent.state <;> decide
  have clear : extent.upperWord.toNat % 2 ^ 9 = 0 := by omega
  apply ext_numbers
  · rw [toNat_startOffset]
    omega
  · rw [toNat_startBlock,clear,Nat.or_zero]
    omega
  · rw [toNat_blockCount]
    omega
  · rw [stateNumber_ofWords]
    omega

theorem Packed.ofRecord_encode (packed : extent.Packed) : ofRecord extent.encode.toArray = extent := by
  obtain ⟨upper,lower⟩ := Bytes.holds_append.mp (Bytes.holds_toArray extent.encode)
  have second : Bytes.be64 extent.encode.toArray 8 = extent.lowerWord := lower.be64
  rw [ofRecord,upper.be64,second]
  exact packed.ofWords_words

theorem decodeList_run {bytes : Bytes} {offset : Nat} {extents : List Extent}
    (held : bytes.Holds offset (extents.flatMap encode)) (packed : ∀ extent ∈ extents, extent.Packed)
    (small : bytes.size < 0x10000000000000000) :
    (decodeList offset extents.length).run bytes = .ok extents := by
  obtain ⟨fits,read⟩ := held.records length_encode (fun extent member => (packed extent member).ofRecord_encode) small
  rw [decodeList,fits]
  exact read

theorem encode_ofRecord {raw : Bytes} (whole : raw.size = recordSize) :
    (ofRecord raw).encode.toArray = raw ↔ (Bytes.be64 raw 0).toNat % 2 ^ 9 = 0 := by
  have room : 8 + 8 ≤ raw.size := Nat.le_of_eq whole.symm
  have upper : raw.Holds 0 (word64 (Bytes.be64 raw 0)) := Bytes.holds_be64 (by omega)
  have lower : raw.Holds 8 (word64 (Bytes.be64 raw 8)) := Bytes.holds_be64 room
  rw [← words_ofWords _ (Bytes.be64 raw 8)]
  constructor
  · intro same
    have held := Bytes.holds_toArray (ofRecord raw).encode
    rw [same] at held
    obtain ⟨first,second⟩ := Bytes.holds_append.mp held
    exact ⟨first.be64.symm,second.be64.symm⟩
  · rintro ⟨sameUpper,sameLower⟩
    calc (ofRecord raw).encode.toArray = (word64 (Bytes.be64 raw 0) ++ word64 (Bytes.be64 raw 8)).toArray := by
          rw [encode,ofRecord,sameUpper,sameLower]
      _ = raw := ((Bytes.holds_append.mpr ⟨upper,lower⟩).eq_toArray whole).symm

-- A record holds any extent within its widths, and every record holds one. Written anew, a record
-- comes out the same exactly if the nine low bits of its upper word are clear; read back once more it
-- is the same extent in any case.
theorem packed_records_read_back :
    (∀ extent : Extent, extent.Packed → ofRecord extent.encode.toArray = extent) ∧
    (∀ raw : Bytes, raw.size = recordSize → (ofRecord raw).Packed ∧
      ofRecord (ofRecord raw).encode.toArray = ofRecord raw ∧
      ((ofRecord raw).encode.toArray = raw ↔ (Bytes.be64 raw 0).toNat % 2 ^ 9 = 0)) ∧
    ∀ (front back : List UInt8) (extents : List Extent), (∀ extent ∈ extents, extent.Packed) →
      (front ++ extents.flatMap encode ++ back).length < 0x10000000000000000 →
      (decodeList front.length extents.length).run (front ++ extents.flatMap encode ++ back).toArray = .ok extents := by
  refine ⟨fun extent packed => packed.ofRecord_encode,?records,?lists⟩
  case records =>
    intro raw whole
    have packed : (ofRecord raw).Packed := ofWords_packed _ _
    exact ⟨packed,packed.ofRecord_encode,encode_ofRecord whole⟩
  case lists =>
    intro front back extents packed small
    have held := Bytes.holds_front (front ++ extents.flatMap encode) back
    have records := (Bytes.holds_append.mp held).2
    rw [Nat.zero_add] at records
    exact decodeList_run records packed small

-- The largest extent there is, a record with block bits in its upper word, and what this one holds behind
-- the other in a list.
def largestExtent : Extent := ⟨0x3FFFFFFFFFFFFF,0x7FFFFFFFFFF,0x1FFFFF,.unwritten⟩

def splitRecord : Bytes := #[0x80,0,0,0,0,0,3,5, 0,0,0,0,0,0x40,0,7]

def splitExtent : Extent := ⟨1,0x107,7,.unwritten⟩

theorem packed_records_read_back_split :
    (largestExtent.Packed ∧ ofRecord largestExtent.encode.toArray = largestExtent) ∧
      splitRecord.size = recordSize ∧ ofRecord splitRecord = splitExtent ∧ splitExtent.Packed ∧
      ofRecord splitExtent.encode.toArray = splitExtent ∧ splitExtent.encode.toArray ≠ splitRecord ∧
      (decodeList 3 2).run ([9,9,9] ++ [largestExtent,splitExtent].flatMap encode ++ [9]).toArray =
        .ok [largestExtent,splitExtent] := by
  obtain ⟨extents,records,lists⟩ := packed_records_read_back
  have largest : largestExtent.Packed := by constructor <;> decide
  have whole : splitRecord.size = recordSize := rfl
  have held : ofRecord splitRecord = splitExtent := by decide
  obtain ⟨packed,again,written⟩ := records splitRecord whole
  rw [held] at packed again written
  have changed : splitExtent.encode.toArray ≠ splitRecord := fun same => absurd (written.mp same) (by decide)
  have both : ∀ extent ∈ [largestExtent,splitExtent], extent.Packed := by simp [largest,packed]
  exact ⟨⟨largest,extents largestExtent largest⟩,whole,held,packed,again,changed,
    lists [9,9,9] [9] [largestExtent,splitExtent] both (by decide)⟩

end Extent
end XfsReader
