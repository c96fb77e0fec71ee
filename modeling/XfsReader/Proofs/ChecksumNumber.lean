import Mathlib.Data.Nat.Bitwise
import XfsReader.BlockRole

-- The checksum register as a plain number, which is quick to work out for bytes that are known.
namespace XfsReader

def shiftNumber (register : Nat) : Nat := (register / 2).xor (register % 2 * 0x82F63B78)

theorem toNat_crcShift (register : UInt32) : (crcShift register).toNat = shiftNumber register.toNat := by
  have low : (register &&& 1).toNat = register.toNat % 2 := by
    rw [UInt32.toNat_and]
    exact Nat.and_two_pow_sub_one_eq_mod register.toNat 1
  have half : (register >>> 1).toNat = register.toNat / 2 := by
    rw [UInt32.toNat_shiftRight]
    exact Nat.shiftRight_eq_div_pow register.toNat 1
  by_cases odd : register &&& 1 = 1
  · have one : register.toNat % 2 = 1 := by
      rw [← low,odd]
      rfl
    rw [crcShift,if_pos odd,UInt32.toNat_xor,half,shiftNumber,one]
    rfl
  · have zero : register.toNat % 2 = 0 := by
      refine (Nat.mod_two_eq_zero_or_one _).resolve_right fun one => odd ?_
      exact UInt32.toNat_inj.mp (low.trans one)
    rw [crcShift,if_neg odd,half,shiftNumber,zero]
    exact (Nat.xor_zero _).symm

-- Works a number out before it goes on, so that a closed run stays shallow.
def forced (number : Nat) (next : Nat → α) : α :=
  match number with
  | 0 => next 0
  | before+1 => next (before + 1)

theorem forced_eq (number : Nat) (next : Nat → α) : forced number next = next number := by
  cases number <;> rfl

def shiftNumbers : Nat → Nat → Nat
  | 0,register => register
  | bits+1,register => forced (shiftNumber register) (shiftNumbers bits)

theorem toNat_crcByte (register : UInt32) (byte : UInt8) :
    (crcByte register byte).toNat = shiftNumbers 8 (register.toNat.xor byte.toNat) := by
  simp only [crcByte,toNat_crcShift,shiftNumbers,forced_eq,UInt32.toNat_xor,UInt8.toNat_toUInt32]
  rfl

def crcNumber (register : Nat) : List UInt8 → Nat
  | [] => register
  | byte :: rest => forced (shiftNumbers 8 (register.xor byte.toNat)) fun register => crcNumber register rest

theorem toNat_foldl_crcByte (register : UInt32) (bytes : List UInt8) :
    (bytes.foldl crcByte register).toNat = crcNumber register.toNat bytes := by
  induction bytes generalizing register with
  | nil => rfl
  | cons byte rest ih => rw [List.foldl_cons,ih,crcNumber,forced_eq,toNat_crcByte]

theorem crc32cAppend_number (crc : UInt32) (bytes : List UInt8) :
    crc32cAppend crc bytes = ~~~UInt32.ofNat (crcNumber (~~~crc).toNat bytes) := by
  rw [crc32cAppend,← toNat_foldl_crcByte,UInt32.ofNat_toNat]

end XfsReader
