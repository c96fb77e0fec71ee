import XfsReader.Bytes

-- Magic numbers: the words by which a structure on disk names itself.
namespace XfsReader

-- The two generations of the format. The later one adds a self-description to every metadata block.
inductive FormatVersion where
  | v4
  | v5
deriving DecidableEq

def FormatVersion.text : FormatVersion → String
  | .v4 => "v4"
  | .v5 => "v5"

structure Magic where
  value : UInt32
  width : UInt8
deriving DecidableEq

-- Lower-case digits of a number, led by zeros up to the width; a longer number keeps all its digits.
def hexDigits (width value : Nat) : String :=
  let digits := Nat.toDigits 16 value
  String.ofList (List.replicate (width - digits.length) '0' ++ digits)

namespace Magic

def ofWord16 (value : UInt16) : Magic := ⟨value.toUInt32,2⟩
def ofWord32 (value : UInt32) : Magic := ⟨value,4⟩

def isGraphic (byte : UInt8) : Bool := 0x21 ≤ byte.toNat && byte.toNat ≤ 0x7E

-- ASCII when each byte of the width is graphic, otherwise the whole value in hexadecimal.
def text (magic : Magic) : String :=
  let shown := (toBigEndian 4 magic.value.toNat).drop (4 - magic.width.toNat)
  if shown.all isGraphic then String.ofList (shown.map fun byte => Char.ofNat byte.toNat)
  else if magic.width = 2 then "0x" ++ hexDigits 4 magic.value.toNat
  else "0x" ++ hexDigits 8 magic.value.toNat

end Magic

structure MagicSet where
  values : List UInt32
  width : UInt8
  few : values.length ≤ 4
deriving DecidableEq

namespace MagicSet

def ofWords32 (values : List UInt32) : MagicSet :=
  ⟨values.take 4,4,by rw [List.length_take]; exact Nat.min_le_left _ _⟩

def ofWords16 (values : List UInt16) : MagicSet :=
  ⟨(values.map UInt16.toUInt32).take 4,2,by rw [List.length_take]; exact Nat.min_le_left _ _⟩

def contains (set : MagicSet) (value : UInt32) : Bool := set.values.contains value

def text (set : MagicSet) : String :=
  "\x7b" ++ ", ".intercalate (set.values.map fun value => Magic.text ⟨value,set.width⟩) ++ "\x7d"

end MagicSet
end XfsReader
