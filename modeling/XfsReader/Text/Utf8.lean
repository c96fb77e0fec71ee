-- Text of a byte string that need not be well-formed UTF-8. Each longest run of bytes that begins a
-- character but does not complete it becomes one replacement character, and so does each byte that
-- begins none.
namespace XfsReader.Utf8

def replacement : Char := Char.ofNat 0xFFFD

-- A lead byte fixes how many bytes follow it and the range of each. The first range keeps out
-- overlong forms, surrogates and values past U+10FFFF.
structure Lead where
  bits : Nat
  follows : List (Nat × Nat)

def lead? (byte : UInt8) : Option Lead :=
  let b := byte.toNat
  if b < 0x80 then some ⟨b,[]⟩
  else if b < 0xC2 then none
  else if b < 0xE0 then some ⟨b - 0xC0,[(0x80,0xBF)]⟩
  else if b = 0xE0 then some ⟨0,[(0xA0,0xBF),(0x80,0xBF)]⟩
  else if b = 0xED then some ⟨0xD,[(0x80,0x9F),(0x80,0xBF)]⟩
  else if b < 0xF0 then some ⟨b - 0xE0,[(0x80,0xBF),(0x80,0xBF)]⟩
  else if b = 0xF0 then some ⟨0,[(0x90,0xBF),(0x80,0xBF),(0x80,0xBF)]⟩
  else if b < 0xF4 then some ⟨b - 0xF0,[(0x80,0xBF),(0x80,0xBF),(0x80,0xBF)]⟩
  else if b = 0xF4 then some ⟨4,[(0x80,0x8F),(0x80,0xBF),(0x80,0xBF)]⟩
  else none

-- The character and the bytes after it; a byte out of range is left for the next character.
def complete (value : Nat) : (follows : List (Nat × Nat)) → (bytes : List UInt8) → Char × List UInt8
  | [], bytes => (Char.ofNat value,bytes)
  | _ :: _, [] => (replacement,[])
  | (low,high) :: follows, byte :: bytes =>
    if low ≤ byte.toNat ∧ byte.toNat ≤ high then
      complete (64 * value + (byte.toNat - 0x80)) follows bytes
    else (replacement,byte :: bytes)

theorem complete_length (value : Nat) (follows : List (Nat × Nat)) (bytes : List UInt8) :
    (complete value follows bytes).2.length ≤ bytes.length := by
  induction bytes generalizing value follows with
  | nil => cases follows <;> simp [complete]
  | cons byte bytes ih =>
    match follows with
    | [] => simp [complete]
    | (low,high) :: follows =>
      rw [complete]
      split
      · exact Nat.le_succ_of_le (ih _ _)
      · simp

def chars : List UInt8 → List Char
  | [] => []
  | byte :: bytes =>
    match lead? byte with
    | none => replacement :: chars bytes
    | some lead =>
      let read := complete lead.bits lead.follows bytes
      read.1 :: chars read.2
termination_by bytes => bytes.length
decreasing_by
  · simp
  · exact Nat.lt_succ_of_le (complete_length _ _ _)

def text (bytes : List UInt8) : String := String.ofList (chars bytes)

end XfsReader.Utf8
