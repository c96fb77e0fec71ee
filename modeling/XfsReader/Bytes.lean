-- Byte buffers and the numbers their bytes spell. Every on-disk field is a number in one of the two
-- byte orders below.
namespace XfsReader

abbrev Bytes := Array UInt8

def bigEndian (bytes : List UInt8) : Nat :=
  bytes.foldl (fun value byte => 256 * value + byte.toNat) 0

def littleEndian (bytes : List UInt8) : Nat :=
  bytes.foldr (fun byte value => byte.toNat + 256 * value) 0

-- How many numbers so many bytes can spell.
def byteRange : (width : Nat) → Nat
  | 0 => 1
  | width+1 => 256 * byteRange width

-- The low bytes of a number, as many as asked for.
def toBigEndian : (width value : Nat) → List UInt8
  | 0, _ => []
  | width+1, value => UInt8.ofNat (value / byteRange width) :: toBigEndian width value

def toLittleEndian : (width value : Nat) → List UInt8
  | 0, _ => []
  | width+1, value => UInt8.ofNat value :: toLittleEndian width (value / 256)

def word16 (value : UInt16) : List UInt8 := toBigEndian 2 value.toNat
def word32 (value : UInt32) : List UInt8 := toBigEndian 4 value.toNat
def word64 (value : UInt64) : List UInt8 := toBigEndian 8 value.toNat
def littleWord32 (value : UInt32) : List UInt8 := toLittleEndian 4 value.toNat

-- Reads from a buffer that is already known to be long enough; a missing byte would simply not
-- count.
namespace Bytes

def part (bytes : Bytes) (offset length : Nat) : Bytes := bytes.extract offset (offset + length)

-- The content put in place of as many bytes.
def overwritten (bytes : Bytes) (offset : Nat) (content : List UInt8) : Bytes :=
  (bytes.toList.take offset ++ content ++ bytes.toList.drop (offset + content.length)).toArray

def byteAt (bytes : Bytes) (offset : Nat) : UInt8 :=
  UInt8.ofNat (bigEndian (part bytes offset 1).toList)

def be16 (bytes : Bytes) (offset : Nat) : UInt16 :=
  UInt16.ofNat (bigEndian (part bytes offset 2).toList)

def be32 (bytes : Bytes) (offset : Nat) : UInt32 :=
  UInt32.ofNat (bigEndian (part bytes offset 4).toList)

def be64 (bytes : Bytes) (offset : Nat) : UInt64 :=
  UInt64.ofNat (bigEndian (part bytes offset 8).toList)

def chunks (bytes : Bytes) (width count : Nat) : List Bytes :=
  (List.range count).map fun index => part bytes (width * index) width

-- A field is found in its piece of a buffer as it is in the buffer itself.
theorem part_part {bytes : Bytes} {offset length start width : Nat} (inside : start + width ≤ length) :
    part (part bytes offset length) start width = part bytes (offset + start) width := by
  simp only [part,Array.extract_extract]
  congr 1
  omega

theorem byteAt_part (bytes : Bytes) (offset : Nat) : byteAt (part bytes offset 1) 0 = byteAt bytes offset := by
  simp (disch := decide) only [byteAt,part_part,Nat.add_zero]

theorem be16_part (bytes : Bytes) (offset : Nat) : be16 (part bytes offset 2) 0 = be16 bytes offset := by
  simp (disch := decide) only [be16,part_part,Nat.add_zero]

theorem be32_part (bytes : Bytes) (offset : Nat) : be32 (part bytes offset 4) 0 = be32 bytes offset := by
  simp (disch := decide) only [be32,part_part,Nat.add_zero]

theorem be64_part (bytes : Bytes) (offset : Nat) : be64 (part bytes offset 8) 0 = be64 bytes offset := by
  simp (disch := decide) only [be64,part_part,Nat.add_zero]

end Bytes

@[simp] theorem length_toBigEndian (width value : Nat) :
    (toBigEndian width value).length = width := by
  induction width with
  | zero => rfl
  | succ width ih => simp [toBigEndian,ih]

@[simp] theorem length_toLittleEndian (width value : Nat) :
    (toLittleEndian width value).length = width := by
  induction width generalizing value with
  | zero => rfl
  | succ width ih => simp [toLittleEndian,ih]

theorem byteRange_pos (width : Nat) : 0 < byteRange width := by
  induction width with
  | zero => exact Nat.one_pos
  | succ width ih => exact Nat.mul_pos (by decide) ih

private theorem foldl_bigEndian (bytes : List UInt8) (start : Nat) :
    bytes.foldl (fun value byte => 256 * value + byte.toNat) start =
      byteRange bytes.length * start + bigEndian bytes := by
  induction bytes generalizing start with
  | nil => simp [bigEndian,byteRange]
  | cons byte rest ih =>
    simp only [List.foldl_cons,bigEndian,List.length_cons,byteRange]
    rw [ih,ih (256 * 0 + byte.toNat)]
    grind

theorem bigEndian_nil : bigEndian [] = 0 := rfl

theorem bigEndian_cons (byte : UInt8) (rest : List UInt8) :
    bigEndian (byte :: rest) = byteRange rest.length * byte.toNat + bigEndian rest := by
  have folded := foldl_bigEndian rest (256 * 0 + byte.toNat)
  simpa [bigEndian] using folded

theorem littleEndian_cons (byte : UInt8) (rest : List UInt8) :
    littleEndian (byte :: rest) = byte.toNat + 256 * littleEndian rest := rfl

-- Writing keeps exactly the bytes that fit the width.
theorem bigEndian_toBigEndian (width value : Nat) :
    bigEndian (toBigEndian width value) = value % byteRange width := by
  induction width with
  | zero => simp [toBigEndian,bigEndian,byteRange,Nat.mod_one]
  | succ width ih =>
    have byte : (UInt8.ofNat (value / byteRange width)).toNat = value / byteRange width % 256 := by simp
    rw [toBigEndian,bigEndian_cons,ih,length_toBigEndian,byte,byteRange,Nat.mul_comm 256,Nat.mod_mul,
      Nat.add_comm]

theorem littleEndian_toLittleEndian (width value : Nat) :
    littleEndian (toLittleEndian width value) = value % byteRange width := by
  induction width generalizing value with
  | zero => simp [toLittleEndian,littleEndian,byteRange,Nat.mod_one]
  | succ width ih =>
    have byte : (UInt8.ofNat value).toNat = value % 256 := by simp
    rw [toLittleEndian,littleEndian_cons,ih,byte,byteRange,Nat.mod_mul]

theorem bigEndian_lt (bytes : List UInt8) : bigEndian bytes < byteRange bytes.length := by
  induction bytes with
  | nil => exact Nat.one_pos
  | cons byte rest ih =>
    rw [bigEndian_cons,List.length_cons,byteRange]
    have small : byte.toNat ≤ 255 := Nat.le_of_lt_succ byte.toNat_lt
    have scaled := Nat.mul_le_mul_left (byteRange rest.length) small
    omega

theorem bigEndian_inj {one other : List UInt8} (long : one.length = other.length)
    (same : bigEndian one = bigEndian other) : one = other := by
  induction one generalizing other with
  | nil => exact (List.length_eq_zero_iff.mp long.symm).symm
  | cons byte rest ih =>
    cases other with
    | nil => cases long
    | cons another others =>
      have rests : rest.length = others.length := Nat.succ.inj long
      have below := bigEndian_lt rest
      have belowToo := bigEndian_lt others
      rw [bigEndian_cons,bigEndian_cons,← rests] at same
      rw [← rests] at belowToo
      have firsts : byte.toNat = another.toNat := by
        have quotients := congrArg (· / byteRange rest.length) same
        simpa only [Nat.mul_add_div (byteRange_pos _),Nat.div_eq_of_lt below,Nat.div_eq_of_lt belowToo,
          Nat.add_zero] using quotients
      rw [firsts] at same
      rw [UInt8.toNat_inj.mp firsts,ih rests (Nat.add_left_cancel same)]

theorem toBigEndian_bigEndian (bytes : List UInt8) : toBigEndian bytes.length (bigEndian bytes) = bytes := by
  apply bigEndian_inj (length_toBigEndian _ _)
  rw [bigEndian_toBigEndian,Nat.mod_eq_of_lt (bigEndian_lt bytes)]

theorem littleEndian_lt (bytes : List UInt8) : littleEndian bytes < byteRange bytes.length := by
  induction bytes with
  | nil => exact Nat.one_pos
  | cons byte rest ih =>
    have small : byte.toNat < 256 := byte.toNat_lt
    rw [littleEndian_cons,List.length_cons,byteRange]
    omega

theorem toLittleEndian_littleEndian (bytes : List UInt8) :
    toLittleEndian bytes.length (littleEndian bytes) = bytes := by
  induction bytes with
  | nil => rfl
  | cons byte rest ih =>
    have small : byte.toNat < 256 := byte.toNat_lt
    have low : UInt8.ofNat (byte.toNat + 256 * littleEndian rest) = byte := by
      apply UInt8.toNat_inj.mp
      rw [UInt8.toNat_ofNat']
      omega
    have high : (byte.toNat + 256 * littleEndian rest) / 256 = littleEndian rest := by omega
    rw [List.length_cons,littleEndian_cons,toLittleEndian,low,high,ih]

theorem littleEndian_inj {one other : List UInt8} (long : one.length = other.length)
    (same : littleEndian one = littleEndian other) : one = other := by
  rw [← toLittleEndian_littleEndian one,long,same,toLittleEndian_littleEndian]

end XfsReader
