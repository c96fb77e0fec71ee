import XfsReader.Address
import XfsReader.Proofs.ExtentRecord

-- Translation in plain numbers. A block stands at its group's first block plus its number within the
-- group, and is refused exactly where the byte it comes to needs more than 64 bits.
namespace XfsReader

-- Of a chain of growing numbers the last alone decides whether all of them fit.
theorem fit64?_bind {value : Nat} (next : Nat → Nat) (grows : value ≤ next value) :
    ((fit64? value).bind fun kept => fit64? (next kept)) = fit64? (next value) := by
  cases fits : fit64? value with
  | some kept =>
    obtain ⟨_,rfl⟩ := fit64?_eq_some.mp fits
    rfl
  | none =>
    have large := fit64?_eq_none.mp fits
    exact (fit64?_eq_none.mpr (Nat.le_trans large grows)).symm

-- A number that a word can hold, or else a refusal that says which number it was.
def fitted (value : Nat) (field : String) : Except DecodeError Nat :=
  if value < 0x10000000000000000 then .ok value else .error (.integerConversion field)

section Fitted

variable {value result : Nat} {field : String}

theorem fitted_ok (fits : value < 0x10000000000000000) : fitted value field = .ok value := if_pos fits

theorem fitted_error (large : ¬ value < 0x10000000000000000) :
    fitted value field = .error (.integerConversion field) := if_neg large

theorem fitted_eq_ok : fitted value field = .ok result ↔ value < 0x10000000000000000 ∧ value = result := by
  by_cases fits : value < 0x10000000000000000
  · simp [fitted_ok fits,fits]
  · simp [fitted_error fits,fits]

theorem fitted_eq_error {error : DecodeError} :
    fitted value field = .error error ↔ 0x10000000000000000 ≤ value ∧ error = .integerConversion field := by
  by_cases fits : value < 0x10000000000000000
  · simp [fitted_ok fits,fits]
  · simp [fitted_error fits,Nat.le_of_not_lt fits,eq_comm]

end Fitted

theorem fit64?_or_fitted (value : Nat) (field : String) :
    (fit64? value = some value ∧ fitted value field = .ok value) ∨
      (fit64? value = none ∧ fitted value field = .error (.integerConversion field)) := by
  rcases Nat.lt_or_ge value 0x10000000000000000 with fits | large
  · exact .inl ⟨fit64?_eq_some.mpr ⟨fits,rfl⟩,fitted_ok fits⟩
  · exact .inr ⟨fit64?_eq_none.mpr large,fitted_error (Nat.not_lt.mpr large)⟩

theorem BlockSize.bytes_dvd (size : BlockSize) : size.bytes ∣ 0x10000000000000000 := by
  rw [bytes,Nat.one_shiftLeft]
  exact Nat.pow_dvd_pow 2 (Nat.le_trans size.upper (by decide : 16 ≤ 64))

theorem BlockSize.next_block {size : BlockSize} {offset limit : Nat} (whole : size.bytes ∣ offset)
    (ends : size.bytes ∣ limit) (before : offset < limit) : offset + size.bytes ≤ limit :=
  Nat.le_of_lt_add_of_dvd (Nat.add_lt_add_right before size.bytes) (Nat.dvd_add whole (Nat.dvd_refl _)) ends

-- Between the last multiple of the block size and the end of 64-bit offsets there is one block.
theorem BlockSize.last_block {size : BlockSize} {offset : Nat} (whole : size.bytes ∣ offset)
    (small : offset < 0x10000000000000000) : offset + size.bytes ≤ 0x10000000000000000 :=
  next_block whole size.bytes_dvd small

namespace AgGeometry

variable {ag : AgGeometry} {block start : UInt64} {index offset : Nat}

-- The number of a block among all blocks of the device, whatever it takes to write it down.
def place (ag : AgGeometry) (block : UInt64) : Nat :=
  block.toNat / 2 ^ ag.agBlockLog.toNat * ag.agBlocks.toNat + block.toNat % 2 ^ ag.agBlockLog.toNat

theorem toNat_groupSize (short : ag.agBlockLog < 64) :
    ((1 : UInt64) <<< ag.agBlockLog.toUInt64).toNat = 2 ^ ag.agBlockLog.toNat := by
  have bits : ag.agBlockLog.toNat < 64 := short
  have log : ag.agBlockLog.toUInt64 = UInt64.ofNat ag.agBlockLog.toNat := by simp
  have power : 2 ^ ag.agBlockLog.toNat < 2 ^ 64 := Nat.pow_lt_pow_right (by decide) bits
  have joined : ((1 : UInt64) <<< UInt64.ofNat ag.agBlockLog.toNat ||| 0).toNat = _ :=
    toNat_join bits (by simpa using power) (Nat.two_pow_pos _)
  rw [log]
  simpa using joined

-- From 64 bits on a group has room for every number there is.
theorem number_lt (ag : AgGeometry) (wide : 64 ≤ ag.agBlockLog.toNat) (block : UInt64) :
    block.toNat < 2 ^ ag.agBlockLog.toNat :=
  calc block.toNat < 2 ^ 64 := block.toNat_lt
    _ ≤ 2 ^ ag.agBlockLog.toNat := Nat.pow_le_pow_right (by decide) wide

theorem parts_toNat (ag : AgGeometry) (block : UInt64) :
    (ag.parts block).1.toNat = block.toNat / 2 ^ ag.agBlockLog.toNat ∧
      (ag.parts block).2.toNat = block.toNat % 2 ^ ag.agBlockLog.toNat := by
  unfold parts
  split
  · rename_i short
    have bits : ag.agBlockLog.toNat < 64 := short
    have log : ag.agBlockLog.toUInt64 = UInt64.ofNat ag.agBlockLog.toNat := by simp
    have single := toNat_groupSize short
    have ones : (((1 : UInt64) <<< ag.agBlockLog.toUInt64) - 1).toNat = 2 ^ ag.agBlockLog.toNat - 1 := by
      have positive := Nat.two_pow_pos ag.agBlockLog.toNat
      rw [UInt64.toNat_sub_of_le _ _ (UInt64.le_iff_toNat_le.mpr (by rw [single]; exact positive)),single]
      rfl
    refine ⟨?_,toNat_mask ones⟩
    rw [log]
    exact toNat_shiftRight bits
  · rename_i long
    have small := ag.number_lt (Nat.le_of_not_lt long) block
    exact ⟨(Nat.div_eq_of_lt small).symm,(Nat.mod_eq_of_lt small).symm⟩

theorem absoluteBlock_eq (ag : AgGeometry) (block : UInt64) :
    ag.absoluteBlock block = fitted (ag.place block) "absolute_block" := by
  obtain ⟨group,relative⟩ := ag.parts_toNat block
  unfold absoluteBlock place
  dsimp only
  rw [group,relative,fit64?_bind (fun base => base + _) (Nat.le_add_right _ _)]
  rcases fit64?_or_fitted _ "absolute_block" with ⟨fits,kept⟩ | ⟨large,refused⟩
  · rw [fits,kept]
  · rw [large,refused]

-- A block that has no number has no first byte either, and it is the number that is blamed.
theorem byteOffset_eq (ag : AgGeometry) (block : UInt64) :
    ag.byteOffset block = fitted (ag.place block * ag.blockSize.bytes)
      (if ag.place block < 0x10000000000000000 then "block_byte_offset" else "absolute_block") := by
  unfold byteOffset
  rw [absoluteBlock_eq]
  by_cases numbered : ag.place block < 0x10000000000000000
  · rw [fitted_ok numbered,if_pos numbered]
    dsimp only [BlockSize.blocksToBytes?]
    rcases fit64?_or_fitted _ "block_byte_offset" with ⟨fits,kept⟩ | ⟨large,refused⟩
    · rw [fits,kept]
    · rw [large,refused]
  · have scaled : ag.place block ≤ ag.place block * ag.blockSize.bytes :=
      Nat.le_mul_of_pos_right _ ag.blockSize.bytes_pos
    have large : ¬ ag.place block * ag.blockSize.bytes < 0x10000000000000000 := by omega
    rw [fitted_error numbered,if_neg numbered,fitted_error large]

-- A run cannot end in range if it does not start there.
theorem runByteOffset_eq (ag : AgGeometry) (start : UInt64) (index : Nat) :
    ag.runByteOffset start index = fitted ((ag.place start + index) * ag.blockSize.bytes)
      (if ag.place start * ag.blockSize.bytes < 0x10000000000000000 then "run_byte_offset"
        else if ag.place start < 0x10000000000000000 then "block_byte_offset" else "absolute_block") := by
  unfold runByteOffset
  rw [byteOffset_eq,Nat.add_mul]
  by_cases starts : ag.place start * ag.blockSize.bytes < 0x10000000000000000
  · rw [fitted_ok starts,if_pos starts]
    dsimp only [BlockSize.blocksToBytes?]
    rw [fit64?_bind (fun delta => _ + delta) (Nat.le_add_left _ _)]
    rcases fit64?_or_fitted _ "run_byte_offset" with ⟨fits,kept⟩ | ⟨large,refused⟩
    · rw [fits,kept]
    · rw [large,refused]
  · have large : ¬ ag.place start * ag.blockSize.bytes + index * ag.blockSize.bytes < 0x10000000000000000 := by omega
    rw [fitted_error starts,if_neg starts,fitted_error large]

theorem absoluteBlock_eq_ok {absolute : Nat} :
    ag.absoluteBlock block = .ok absolute ↔ ag.place block < 0x10000000000000000 ∧ ag.place block = absolute := by
  rw [absoluteBlock_eq,fitted_eq_ok]

theorem byteOffset_eq_ok :
    ag.byteOffset block = .ok offset ↔
      ag.place block * ag.blockSize.bytes < 0x10000000000000000 ∧ ag.place block * ag.blockSize.bytes = offset := by
  rw [byteOffset_eq,fitted_eq_ok]

theorem runByteOffset_eq_ok :
    ag.runByteOffset start index = .ok offset ↔
      (ag.place start + index) * ag.blockSize.bytes < 0x10000000000000000 ∧
        (ag.place start + index) * ag.blockSize.bytes = offset := by
  rw [runByteOffset_eq,fitted_eq_ok]

theorem byteOffset_dvd (translated : ag.byteOffset block = .ok offset) : ag.blockSize.bytes ∣ offset := by
  obtain ⟨_,rfl⟩ := byteOffset_eq_ok.mp translated
  exact Nat.dvd_mul_left _ _

theorem byteOffset_lt (translated : ag.byteOffset block = .ok offset) : offset < 0x10000000000000000 := by
  obtain ⟨small,rfl⟩ := byteOffset_eq_ok.mp translated
  exact small

theorem runByteOffset_dvd (translated : ag.runByteOffset start index = .ok offset) : ag.blockSize.bytes ∣ offset := by
  obtain ⟨_,rfl⟩ := runByteOffset_eq_ok.mp translated
  exact Nat.dvd_mul_left _ _

theorem runByteOffset_lt (translated : ag.runByteOffset start index = .ok offset) : offset < 0x10000000000000000 := by
  obtain ⟨small,rfl⟩ := runByteOffset_eq_ok.mp translated
  exact small

-- What is refused is refused as a number too large.
theorem runByteOffset_error {error : DecodeError} (refused : ag.runByteOffset start index = .error error) :
    ∃ field, error = .integerConversion field := by
  rw [runByteOffset_eq] at refused
  exact ⟨_,(fitted_eq_error.mp refused).2⟩

end AgGeometry
end XfsReader
