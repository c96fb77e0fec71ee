import XfsReader.DecodeError
import XfsReader.Word64

-- The filesystem block size: a power of two between 512 and 65536 bytes.
namespace XfsReader

structure BlockSize where
  log : Nat
  lower : 9 ≤ log
  upper : log ≤ 16
deriving DecidableEq

namespace BlockSize

def bytes (size : BlockSize) : Nat := 1 <<< size.log

def smallest : BlockSize := ⟨9,Nat.le_refl 9,Nat.le_of_ble_eq_true rfl⟩

def ofBytes? (value : UInt32) : Option BlockSize :=
  let log := value.toNat.log2
  if valid : 9 ≤ log ∧ log ≤ 16 ∧ 1 <<< log = value.toNat then some ⟨log,valid.1,valid.2.1⟩ else none

def ofBytes (value : UInt32) : Except DecodeError BlockSize :=
  match ofBytes? value with
  | some size => .ok size
  | none => .error (.invalidField "block_size" "must be power of two in 512..=65536")

def blockOf (size : BlockSize) (offset : Nat) : Nat := offset / size.bytes

def within (size : BlockSize) (offset : Nat) : Nat := offset % size.bytes

def blocksToBytes? (size : BlockSize) (blocks : Nat) : Option Nat := fit64? (blocks * size.bytes)

theorem bytes_ge (size : BlockSize) : 512 ≤ size.bytes := by
  rw [bytes,Nat.one_shiftLeft]
  exact Nat.pow_le_pow_right Nat.two_pos size.lower

theorem bytes_le (size : BlockSize) : size.bytes ≤ 65536 := by
  rw [bytes,Nat.one_shiftLeft]
  exact Nat.pow_le_pow_right Nat.two_pos size.upper

theorem bytes_pos (size : BlockSize) : 0 < size.bytes := Nat.lt_of_lt_of_le (by decide) size.bytes_ge

theorem ofBytes?_bytes {value : UInt32} {size : BlockSize} (read : ofBytes? value = some size) :
    size.bytes = value.toNat := by
  simp only [ofBytes?] at read
  split at read
  · rename_i valid
    cases read
    exact valid.2.2
  · cases read

end BlockSize
end XfsReader
