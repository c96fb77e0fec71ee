import XfsReader.Proofs.MachineRuns

-- Addresses of blocks as one formula over the naturals. The steps of a translation only grow, so a
-- word is too narrow for one of them exactly where it is too narrow for the last; the machine that
-- takes these steps is not stopped by any of them.
namespace XfsReader
namespace AgGeometry

-- Without bits for a block within its group every block opens a group of its own.
theorem place_closed {ag : AgGeometry} (closed : ag.agBlockLog = 0) (block : UInt64) :
    ag.place block = block.toNat * ag.agBlocks.toNat := by
  rw [place,closed]
  simp [Nat.mod_one]

-- With a whole word of them there is one group.
theorem place_open {ag : AgGeometry} (wide : 64 ≤ ag.agBlockLog.toNat) (block : UInt64) :
    ag.place block = block.toNat := by
  have below := ag.number_lt wide block
  rw [place,Nat.div_eq_of_lt below,Nat.mod_eq_of_lt below]
  simp

-- What comes of a block and of a run from it on, with the number to blame where it does not fit, for
-- groups of every size; and a machine that shifts, masks and multiplies words comes to the same.
theorem translation_exact (ag : AgGeometry) (block : UInt64) (index : Nat) :
    let number := block.toNat / 2 ^ ag.agBlockLog.toNat * ag.agBlocks.toNat + block.toNat % 2 ^ ag.agBlockLog.toNat
    let first := number * ag.blockSize.bytes
    let byte := (number + index) * ag.blockSize.bytes
    (ag.absoluteBlock block =
      if number < 2 ^ 64 then .ok number else .error (.integerConversion "absolute_block")) ∧
    (ag.byteOffset block =
      if first < 2 ^ 64 then .ok first
      else .error (.integerConversion (if number < 2 ^ 64 then "block_byte_offset" else "absolute_block"))) ∧
    (ag.runByteOffset block index =
      if byte < 2 ^ 64 then .ok byte
      else .error (.integerConversion (if first < 2 ^ 64 then "run_byte_offset"
        else if number < 2 ^ 64 then "block_byte_offset" else "absolute_block"))) ∧
    (ag.agBlockLog = 0 → number = block.toNat * ag.agBlocks.toNat) ∧
    (64 ≤ ag.agBlockLog.toNat → number = block.toNat) ∧
    (ag.machineAbsolute block).Computes (ag.absoluteBlock block) ∧
    (ag.machineByteOffset block).Computes (ag.byteOffset block) ∧
    (ag.machineRunByteOffset block index).Computes (ag.runByteOffset block index) := by
  intro number first byte
  refine ⟨?absolute,?start,?run,?closed,?wide,?machine⟩
  case absolute => exact ag.absoluteBlock_eq block
  case start => exact ag.byteOffset_eq block
  case run => exact ag.runByteOffset_eq block index
  case closed => exact fun closed => place_closed closed block
  case wide => exact fun wide => place_open wide block
  case machine =>
    exact ⟨ag.machineAbsolute_computes block,ag.machineByteOffset_computes block,
      ag.machineRunByteOffset_computes block index⟩

-- The last block that a word can number, in one group of 2^64 blocks, has no byte offset.
example : (AgGeometry.mk .smallest 100 255).absoluteBlock 0xFFFFFFFFFFFFFFFF = .ok 0xFFFFFFFFFFFFFFFF ∧
    (AgGeometry.mk .smallest 100 255).byteOffset 0xFFFFFFFFFFFFFFFF = .error (.integerConversion "block_byte_offset") :=
  ⟨rfl,rfl⟩

end AgGeometry
end XfsReader
