import XfsReader.Bytes
import XfsReader.VolumeError
import XfsReader.Word64

-- A device is a size and the byte at each position below it. A read either gets every byte it asks
-- for or fails.
namespace XfsReader

structure Device where
  size : Nat
  byte : Nat → UInt8

namespace Device

def ofBytes (image : Bytes) : Device := ⟨image.size,fun position => image.getD position 0⟩

-- Zero but for some stretches; the first that reaches a position gives its byte.
def ofStretches (size : Nat) (stretches : List (Nat × List UInt8)) : Device where
  size := size
  byte position :=
    (stretches.findSome? fun stretch =>
      if stretch.1 ≤ position then stretch.2[position - stretch.1]? else none).getD 0

def ofFile (files : String → Option Bytes) (path : String) : Except VolumeError Device :=
  match files path with
  | some image => .ok (ofBytes image)
  | none => .error (.io .noSuchFile)

def region (device : Device) (offset length : Nat) : Bytes :=
  ((List.range length).map fun index => device.byte (offset + index)).toArray

def read (device : Device) (offset length : Nat) : Except VolumeError Bytes :=
  match fit64? (offset + length) with
  | none => .error (.format .readRangeOverflow)
  | some stop =>
    if device.size < stop then .error (.truncatedRead offset length (device.size - offset))
    else .ok (device.region offset length)

@[simp] theorem size_region (device : Device) (offset length : Nat) :
    (device.region offset length).size = length := by
  simp [region]

theorem region_ofBytes {image : Bytes} {offset length : Nat} (inside : offset + length ≤ image.size) :
    (ofBytes image).region offset length = Bytes.part image offset length := by
  apply Array.ext
  · rw [size_region,Bytes.part,Array.size_extract]
    omega
  · intro index below _
    have held : offset + index < image.size := by
      rw [size_region] at below
      omega
    simp [region,ofBytes,Bytes.part,Array.getD_eq_getD_getElem?,held]

theorem read_eq_ok {device : Device} {offset length : Nat} {found : Bytes} :
    device.read offset length = .ok found ↔
      fit64? (offset + length) = some (offset + length) ∧ offset + length ≤ device.size ∧
        device.region offset length = found := by
  unfold read
  cases fits : fit64? (offset + length) with
  | none => simp
  | some stop =>
    obtain ⟨_,rfl⟩ := fit64?_eq_some.mp fits
    by_cases short : device.size < offset + length
    · simp only [short,if_true,reduceCtorEq,true_and,false_iff]
      omega
    · simp [short,Nat.le_of_not_lt short]

theorem read_region {device : Device} {offset length : Nat} (inside : offset + length ≤ device.size)
    (small : device.size < 0x10000000000000000) : device.read offset length = .ok (device.region offset length) :=
  read_eq_ok.mpr ⟨fit64?_eq_some.mpr ⟨Nat.lt_of_le_of_lt inside small,rfl⟩,inside,rfl⟩

-- Bytes outside a region do not matter to a read of it.
theorem region_congr {one other : Device} {offset length : Nat}
    (same : ∀ index < length, one.byte (offset + index) = other.byte (offset + index)) :
    one.region offset length = other.region offset length := by
  unfold region
  congr 1
  apply List.map_congr_left
  intro index member
  exact same index (List.mem_range.mp member)

theorem read_congr {one other : Device} {offset length : Nat} (size : other.size = one.size)
    (same : ∀ position, offset ≤ position → position < offset + length → position < one.size →
      other.byte position = one.byte position) : other.read offset length = one.read offset length := by
  unfold read
  cases fits : fit64? (offset + length) with
  | none => rfl
  | some stop =>
    obtain ⟨_,rfl⟩ := fit64?_eq_some.mp fits
    by_cases short : one.size < offset + length
    · simp only [size,short,if_true]
    · have equal : other.region offset length = one.region offset length := by
        apply region_congr
        intro index inside
        exact same _ (Nat.le_add_right _ _) (by omega) (by omega)
      simp only [size,short,if_false,equal]

theorem part_region {device : Device} {offset length start width : Nat} (inside : start + width ≤ length) :
    Bytes.part (device.region offset length) start width = device.region (offset + start) width := by
  apply Array.ext
  · rw [Bytes.part,Array.size_extract,size_region,size_region]
    omega
  · intro index _ _
    simp [Bytes.part,region,Nat.add_assoc]

end Device
end XfsReader
