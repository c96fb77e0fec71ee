-- Naturals held to one 64-bit word. Arithmetic is done without bound and the result is refused
-- where it does not fit.
namespace XfsReader

def fit64? (value : Nat) : Option Nat := if value < 0x10000000000000000 then some value else none

theorem fit64?_eq_some : fit64? value = some result ↔ value < 0x10000000000000000 ∧ value = result := by
  unfold fit64?
  by_cases fits : value < 0x10000000000000000
  · rw [if_pos fits,Option.some.injEq]
    exact ⟨fun same => ⟨fits,same⟩,fun held => held.2⟩
  · rw [if_neg fits]
    exact ⟨fun absurd => (nomatch absurd),fun held => absurd held.1 fits⟩

theorem fit64?_eq_none : fit64? value = none ↔ 0x10000000000000000 ≤ value := by
  unfold fit64?
  by_cases fits : value < 0x10000000000000000
  · rw [if_pos fits]
    exact ⟨fun absurd => (nomatch absurd),fun large => absurd large (Nat.not_le_of_lt fits)⟩
  · rw [if_neg fits]
    exact ⟨fun _ => Nat.le_of_not_lt fits,fun _ => rfl⟩

-- A difference, unless it would be below zero.
def minus? (value less : Nat) : Option Nat := if less ≤ value then some (value - less) else none

theorem minus?_eq_some : minus? value less = some result ↔ result + less = value := by
  unfold minus?
  split
  · rw [Option.some.injEq]
    omega
  · simp only [reduceCtorEq,false_iff]
    omega

-- The next multiple of an alignment, which must be a power of two.
def alignUp? (value alignment : Nat) : Option Nat :=
  if alignment ≠ 0 ∧ 1 <<< alignment.log2 = alignment then
    (fit64? (value + (alignment - 1))).map fun raised => raised / alignment * alignment
  else none

def roundUp (value unit : Nat) : Nat := (value + (unit - 1)) / unit * unit

end XfsReader
