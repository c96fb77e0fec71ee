import Mathlib.Data.Nat.Bitwise
import XfsReader.Directory.NameHash

-- The name hash four bytes at a time. Rotations add up and pass through exclusive or, and a byte is so
-- short that it meets the end of the register only after three turns: until then it is merely shifted.
namespace XfsReader

-- Bits that leave the register at the top come back in at the bottom.
theorem getLsbD_rotated (word : BitVec 32) (amount : Nat) {place : Nat} (below : place < 32) :
    (word.rotateLeft amount).getLsbD place = word.getLsbD ((place + (32 - amount % 32)) % 32) := by
  rw [BitVec.getLsbD_rotateLeft,Bool.cond_decide]
  split
  · congr 1
    omega
  · rw [decide_eq_true below,Bool.true_and]
    congr 1
    omega

theorem rotateLeft_add (word : BitVec 32) (first second : Nat) :
    (word.rotateLeft first).rotateLeft second = word.rotateLeft (first + second) := by
  apply BitVec.eq_of_getLsbD_eq
  intro place below
  rw [getLsbD_rotated _ second below,getLsbD_rotated _ first (Nat.mod_lt _ (by decide)),
    getLsbD_rotated _ (first + second) below]
  congr 1
  omega

theorem rotateLeft_xor (one other : BitVec 32) (amount : Nat) :
    (one ^^^ other).rotateLeft amount = one.rotateLeft amount ^^^ other.rotateLeft amount := by
  apply BitVec.eq_of_getLsbD_eq
  intro place below
  rw [BitVec.getLsbD_xor,getLsbD_rotated _ _ below,getLsbD_rotated _ _ below,getLsbD_rotated _ _ below,
    BitVec.getLsbD_xor]

theorem toBitVec_rotate7 (hash : UInt32) : (rotate7 hash).toBitVec = hash.toBitVec.rotateLeft 7 := rfl

theorem rotate7_xor (one other : UInt32) : rotate7 (one ^^^ other) = rotate7 one ^^^ rotate7 other :=
  UInt32.toBitVec_inj.mp (rotateLeft_xor one.toBitVec other.toBitVec 7)

theorem rotate7_four (hash : UInt32) :
    rotate7 (rotate7 (rotate7 (rotate7 hash))) = (hash <<< 28) ||| (hash >>> 4) := by
  apply UInt32.toBitVec_inj.mp
  simp only [toBitVec_rotate7,rotateLeft_add]
  rfl

theorem rotate7_short {word : UInt32} (short : word.toNat < 2 ^ 25) : rotate7 word = word <<< 7 := by
  have top : word >>> 25 = 0 := by
    apply UInt32.toNat_inj.mp
    rw [UInt32.toNat_shiftRight]
    exact (Nat.shiftRight_eq_div_pow word.toNat 25).trans (Nat.div_eq_of_lt short)
  rw [rotate7,top,UInt32.or_zero]

-- Fourteen bits up, a byte still leaves seven above it free.
theorem rotate7_byte (byte : UInt8) {bits : UInt32} (few : bits.toNat ≤ 14) :
    rotate7 (byte.toUInt32 <<< bits) = byte.toUInt32 <<< (bits + 7) := by
  have small : byte.toNat < 2 ^ 8 := byte.toNat_lt
  have short : (byte.toUInt32 <<< bits).toNat < 2 ^ 25 := by
    rw [UInt32.toNat_shiftLeft,UInt8.toNat_toUInt32,Nat.mod_eq_of_lt (show bits.toNat < 32 by omega),Nat.shiftLeft_eq]
    calc byte.toNat * 2 ^ bits.toNat % 2 ^ 32 ≤ byte.toNat * 2 ^ bits.toNat := Nat.mod_le _ _
      _ ≤ byte.toNat * 2 ^ 14 := Nat.mul_le_mul_left _ (Nat.pow_le_pow_right Nat.two_pos few)
      _ < 2 ^ 25 := by omega
  rw [rotate7_short short,UInt32.shiftLeft_add_of_toNat_lt]
  change bits.toNat + 7 < 32
  omega

-- What enters the register earlier is turned further.
theorem rotate7_spread (hash a b c d : UInt32) :
    rotate7 (rotate7 (rotate7 (rotate7 hash ^^^ a) ^^^ b) ^^^ c) ^^^ d =
      rotate7 (rotate7 (rotate7 a)) ^^^ rotate7 (rotate7 b) ^^^ rotate7 c ^^^ d ^^^
        rotate7 (rotate7 (rotate7 (rotate7 hash))) := by
  simp only [rotate7_xor]
  ac_rfl

theorem hash_four (hash : UInt32) (a b c d : UInt8) :
    rotate7 (rotate7 (rotate7 (rotate7 hash ^^^ a.toUInt32) ^^^ b.toUInt32) ^^^ c.toUInt32) ^^^ d.toUInt32 =
      (a.toUInt32 <<< 21) ^^^ (b.toUInt32 <<< 14) ^^^ (c.toUInt32 <<< 7) ^^^ d.toUInt32 ^^^
        ((hash <<< 28) ||| (hash >>> 4)) := by
  have once (byte : UInt8) : rotate7 byte.toUInt32 = byte.toUInt32 <<< 7 := by
    have turned := rotate7_byte byte (show (0 : UInt32).toNat ≤ 14 by decide)
    rwa [UInt32.shiftLeft_zero] at turned
  have twice (byte : UInt8) : rotate7 (rotate7 byte.toUInt32) = byte.toUInt32 <<< 14 := by
    rw [once]
    exact rotate7_byte byte (by decide)
  have thrice (byte : UInt8) : rotate7 (rotate7 (rotate7 byte.toUInt32)) = byte.toUInt32 <<< 21 := by
    rw [twice]
    exact rotate7_byte byte (by decide)
  rw [rotate7_spread,rotate7_four,thrice,twice,once]

-- The hash four bytes at a time, then the bytes left over one by one.
def chunkedHash (hash : UInt32) : Name → UInt32
  | a :: b :: c :: d :: rest =>
    chunkedHash ((a.toUInt32 <<< 21) ^^^ (b.toUInt32 <<< 14) ^^^ (c.toUInt32 <<< 7) ^^^ d.toUInt32 ^^^
      ((hash <<< 28) ||| (hash >>> 4))) rest
  | rest => rest.foldl (fun hash byte => rotate7 hash ^^^ byte.toUInt32) hash

theorem chunkedHash_eq_foldl (hash : UInt32) (name : Name) :
    chunkedHash hash name = name.foldl (fun hash byte => rotate7 hash ^^^ byte.toUInt32) hash := by
  fun_induction chunkedHash hash name with
  | case1 hash a b c d rest ih =>
    rw [ih,List.foldl_cons,List.foldl_cons,List.foldl_cons,List.foldl_cons,hash_four]
  | case2 => rfl

theorem nameHash_eq_chunkedHash (name : Name) : nameHash name = chunkedHash 0 name :=
  (chunkedHash_eq_foldl 0 name).symm

end XfsReader
