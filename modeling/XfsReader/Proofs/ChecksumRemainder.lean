import Mathlib.Order.Monotone.Basic
import XfsReader.Proofs.ChecksumNumber

-- The checksum register as a remainder. Shifting is linear in exclusive or and undoes a doubling, so
-- bytes go through the register as the one number that they spell. No number that fits the register is
-- shifted to zero but zero, so what two registers differ by is never lost.
namespace XfsReader

theorem byteRange_mono : Monotone byteRange :=
  monotone_nat_of_le_succ fun width => Nat.le_mul_of_pos_left (byteRange width) (by decide)

-- A byte and the bytes above it share no bit.
theorem littleEndian_cons_xor (byte : UInt8) (rest : List UInt8) :
    littleEndian (byte :: rest) = byte.toNat ^^^ 2 ^ 8 * littleEndian rest := by
  have small : byte.toNat < 2 ^ 8 := byte.toNat_lt
  rw [littleEndian_cons,Nat.add_comm,show (256 : Nat) = 2 ^ 8 from rfl]
  apply Nat.eq_of_testBit_eq
  intro place
  rw [Nat.testBit_two_pow_mul_add _ small,Nat.testBit_xor,Nat.testBit_two_pow_mul]
  by_cases low : place < 8
  · simp [low,Nat.not_le_of_lt low]
  · have high : 8 ≤ place := Nat.le_of_not_lt low
    have clear : byte.toNat.testBit place = false :=
      Nat.testBit_lt_two_pow (Nat.lt_of_lt_of_le small (Nat.pow_le_pow_right Nat.two_pos high))
    simp [low,high,clear]

section Shifts

variable {one other number : Nat}

theorem shiftNumber_double (number : Nat) : shiftNumber (2 * number) = number := by
  have half : 2 * number / 2 = number := Nat.mul_div_cancel_left number Nat.two_pos
  have even : 2 * number % 2 = 0 := Nat.mul_mod_right 2 number
  rw [shiftNumber,half,even]
  exact Nat.xor_zero number

theorem shiftNumber_xor (one other : Nat) :
    shiftNumber (one ^^^ other) = shiftNumber one ^^^ shiftNumber other := by
  have halves : (one ^^^ other) / 2 = one / 2 ^^^ other / 2 := Nat.xor_div_two_pow (n := 1)
  have carried : (one ^^^ other) % 2 * 0x82F63B78 = (one % 2 * 0x82F63B78) ^^^ (other % 2 * 0x82F63B78) := by
    have parity : (one ^^^ other) % 2 = one % 2 ^^^ other % 2 := Nat.xor_mod_two_pow (n := 1)
    rw [parity]
    rcases Nat.mod_two_eq_zero_or_one one with even | odd <;>
      rcases Nat.mod_two_eq_zero_or_one other with even' | odd' <;> simp [*]
  change ((one ^^^ other) / 2) ^^^ ((one ^^^ other) % 2 * 0x82F63B78) =
    (one / 2 ^^^ (one % 2 * 0x82F63B78)) ^^^ (other / 2 ^^^ (other % 2 * 0x82F63B78))
  rw [halves,carried]
  ac_rfl

theorem shiftNumber_lt (small : number < 2 ^ 32) : shiftNumber number < 2 ^ 32 := by
  refine Nat.xor_lt_two_pow ?_ ?_ <;> omega

-- The polynomial has the top bit that halving clears, so a register that is odd does not come to zero.
theorem shiftNumber_eq_zero (small : number < 2 ^ 32) (cleared : shiftNumber number = 0) : number = 0 := by
  have same : number / 2 = number % 2 * 0x82F63B78 := Nat.xor_eq_zero_iff.mp cleared
  omega

theorem shiftNumbers_succ (bits number : Nat) :
    shiftNumbers (bits + 1) number = shiftNumbers bits (shiftNumber number) := by
  rw [shiftNumbers,forced_eq]

theorem shiftNumbers_add (first second number : Nat) :
    shiftNumbers (first + second) number = shiftNumbers second (shiftNumbers first number) := by
  induction first generalizing number with
  | zero => rw [Nat.zero_add,shiftNumbers]
  | succ first ih => rw [Nat.succ_add,shiftNumbers_succ,shiftNumbers_succ,ih]

theorem shiftNumbers_xor (bits one other : Nat) :
    shiftNumbers bits (one ^^^ other) = shiftNumbers bits one ^^^ shiftNumbers bits other := by
  induction bits generalizing one other with
  | zero => rfl
  | succ bits ih => rw [shiftNumbers_succ,shiftNumbers_succ,shiftNumbers_succ,shiftNumber_xor,ih]

theorem shiftNumbers_raised (bits number : Nat) : shiftNumbers bits (2 ^ bits * number) = number := by
  induction bits with
  | zero => rw [shiftNumbers,Nat.pow_zero,Nat.one_mul]
  | succ bits ih => rw [shiftNumbers_succ,Nat.pow_succ',Nat.mul_assoc,shiftNumber_double,ih]

theorem shiftNumbers_eq_zero {bits : Nat} (small : number < 2 ^ 32) (cleared : shiftNumbers bits number = 0) :
    number = 0 := by
  induction bits generalizing number with
  | zero => exact cleared
  | succ bits ih =>
    rw [shiftNumbers_succ] at cleared
    exact shiftNumber_eq_zero small (ih (shiftNumber_lt small) cleared)

theorem shiftNumbers_inj {bits : Nat} (small : one < 2 ^ 32) (bounded : other < 2 ^ 32)
    (same : shiftNumbers bits one = shiftNumbers bits other) : one = other := by
  have cleared : shiftNumbers bits (one ^^^ other) = 0 := by
    rw [shiftNumbers_xor,same]
    exact Nat.xor_self _
  exact Nat.xor_eq_zero_iff.mp (shiftNumbers_eq_zero (Nat.xor_lt_two_pow small bounded) cleared)

end Shifts

-- Bytes of any number change the register as the number they spell, shifted out along with it.
theorem crcNumber_eq (register : Nat) (bytes : List UInt8) :
    crcNumber register bytes = shiftNumbers (8 * bytes.length) register ^^^
      shiftNumbers (8 * bytes.length) (littleEndian bytes) := by
  rw [← shiftNumbers_xor]
  induction bytes generalizing register with
  | nil => exact (Nat.xor_zero register).symm
  | cons byte rest ih =>
    have step : shiftNumbers 8 (register ^^^ littleEndian (byte :: rest)) =
        shiftNumbers 8 (register ^^^ byte.toNat) ^^^ littleEndian rest := by
      rw [littleEndian_cons_xor,← Nat.xor_assoc,shiftNumbers_xor,shiftNumbers_raised]
    rw [crcNumber,forced_eq,ih,List.length_cons,Nat.mul_succ,Nat.add_comm,shiftNumbers_add,step]
    rfl

section Appending

variable {crc one other : UInt32} {bytes front back window changed : List UInt8}

theorem crcNumber_of_append (same : crc32cAppend one front = crc32cAppend other back) :
    crcNumber (~~~one).toNat front = crcNumber (~~~other).toNat back := by
  have registers : front.foldl crcByte (~~~one) = back.foldl crcByte (~~~other) := UInt32.not_inj.mp same
  rw [← toNat_foldl_crcByte,← toNat_foldl_crcByte,registers]

-- Checksums that differ still differ after the same bytes.
theorem crc32cAppend_inj (same : crc32cAppend one bytes = crc32cAppend other bytes) : one = other := by
  have shifted := crcNumber_of_append same
  rw [crcNumber_eq,crcNumber_eq] at shifted
  have registers := shiftNumbers_inj (UInt32.toNat_lt _) (UInt32.toNat_lt _) (Nat.xor_left_inj.mp shifted)
  exact UInt32.not_inj.mp (UInt32.toNat_inj.mp registers)

-- So do the checksums of different bytes, as long as these fit the register at once.
theorem crc32cAppend_window (long : window.length = changed.length) (narrow : window.length ≤ 4)
    (same : crc32cAppend crc window = crc32cAppend crc changed) : window = changed := by
  have fits : ∀ bytes : List UInt8, bytes.length ≤ 4 → littleEndian bytes < 2 ^ 32 := fun bytes short =>
    Nat.lt_of_lt_of_le (littleEndian_lt bytes) (byteRange_mono short)
  have shifted := crcNumber_of_append same
  rw [crcNumber_eq,crcNumber_eq,← long] at shifted
  have numbers := shiftNumbers_inj (fits window narrow) (fits changed (long ▸ narrow)) (Nat.xor_right_inj.mp shifted)
  exact littleEndian_inj long numbers

-- No change within four bytes in a row leaves the checksum as it was.
theorem crc32c_window (long : window.length = changed.length) (narrow : window.length ≤ 4)
    (same : crc32c (front ++ window ++ back) = crc32c (front ++ changed ++ back)) : window = changed := by
  simp only [crc32c,crc32cAppend_append] at same
  exact crc32cAppend_window long narrow (crc32cAppend_inj same)

end Appending

-- The check value by which CRC-32C is known: that of the digits 1 to 9.
example : crc32c [0x31,0x32,0x33,0x34,0x35,0x36,0x37,0x38,0x39] = 0xE3069283 := by
  rw [crc32c,crc32cAppend_number]
  decide +kernel

end XfsReader
