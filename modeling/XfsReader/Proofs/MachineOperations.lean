import XfsReader.Proofs.MachineTraversals

-- Whatever is asked of a volume, a machine that stops itself at the first step out of range never
-- does so. A file offset to be resolved is a machine word, and this is all that is asked of it.
namespace XfsReader
open Machine

-- The offset lies in the extent that was found for it, so its block does too.
def machineMapOffset (ag : AgGeometry) (extents : List Extent) (offset : Nat) :
    Machine VolumeError (Option MappedOffset) := do
  match ← find (fun extent => extent.machineCovers ag.blockSize offset) extents with
  | none => return none
  | some extent =>
    let block ← ag.blockSize.machineBlockOf offset
    let within ← ag.blockSize.machineWithin offset block
    let index ← sub block extent.startOffset.toNat
    let start ← (ag.machineRunByteOffset extent.startBlock index).located 0
    let position ← checked (fit64? (start + within)) (.format .deviceOffsetOverflow)
    return some ⟨extent,position⟩

theorem machineMapOffset_computes {ag : AgGeometry} {extents : List Extent} {offset : Nat}
    (fits : offset < 0x10000000000000000) :
    (machineMapOffset ag extents offset).Computes (mapOffset ag extents offset) := by
  refine .step (find_computes (fun extent => extent.machineCovers_computes ag.blockSize offset) extents) ?_
  unfold mapOffset
  cases found : extents.find? fun extent => extent.covers offset ag.blockSize with
  | none => exact .pure _
  | some extent =>
    have covered : extent.covers offset ag.blockSize := by simpa using List.find?_some found
    rw [Extent.covers_eq_containsBlock] at covered
    dsimp only
    refine .step (ag.blockSize.machineBlockOf_computes offset) (.step (BlockSize.machineWithin_computes fits) ?_)
    refine .step (sub_computes (Extent.containsBlock_iff.mp covered).1) ?_
    refine .examined (ag.machineRunByteOffset_computes extent.startBlock _) (fun error failed => by rw [failed]) fun start placed => ?_
    rw [placed]
    dsimp only
    cases fit64? (start + ag.blockSize.within offset) with
    | none => exact .refuse (.throw _)
    | some position => exact .step (.pure _) (.pure _)

namespace Operation

def machineOfFork (opened : InodeFork) : Operation α → MachineRun α
  | .walk _ tree => opened.machineWalk tree
  | .extents => do
    let map ← opened.machineWalk .dataExtents
    return map.extents
  | .resolve offset => do
    let map ← opened.machineWalk .dataExtents
    .compute (machineMapOffset opened.ag map.extents offset)
  | .list => opened.machineList
  | .lookup name => opened.machineLookup name
  | .attributes => opened.machineListAttributes

def machine (volume : Volume) (inode : UInt64) (operation : Operation α) : MachineRun α := do
  let opened ← .compute (lift (volume.openFork inode operation.fork))
  operation.machineOfFork opened

-- Whether the operation can be put to a machine at all.
def Fits : Operation α → Prop
  | .resolve offset => offset < 0x10000000000000000
  | _ => True

theorem machineOfFork_runs {operation : Operation α} (fits : operation.Fits) (opened : InodeFork) (device : Device) :
    (operation.machineOfFork opened).Runs device (operation.ofFork opened) := by
  cases operation with
  | walk kind tree => exact InodeFork.machineWalk_runs tree
  | extents => exact .bind (InodeFork.machineWalk_runs .dataExtents) fun map _ => .pure _
  | resolve offset =>
    exact .bind (InodeFork.machineWalk_runs .dataExtents) fun map _ => .compute (machineMapOffset_computes fits)
  | list => exact InodeFork.machineList_runs
  | lookup name => exact InodeFork.machineLookup_runs name
  | attributes => exact InodeFork.machineListAttributes_runs

-- The machine is not stopped, so each of its steps was in range; and since no step went wrong
-- silently either, it returns, reads and warns as if numbers had no bounds.
theorem machine_never_stops {operation : Operation α} (fits : operation.Fits) (volume : Volume) (inode : UInt64)
    (device : Device) :
    operation.machine volume inode device = some ((operation.traversal volume inode).run device) := by
  rw [operation.traversal_eq_bind]
  exact MachineRun.Runs.bind (.compute (.lift _)) fun opened _ => machineOfFork_runs fits opened device

-- A byte of the second extent, behind a hole.
theorem machine_never_stops_sparse :
    (Operation.resolve 3160).Fits ∧
      (Operation.resolve 3160).machine sparseVolume 7 sparseDevice =
        some ((sparseVolume.resolveFileOffset 7 3160).run sparseDevice) ∧
      ((sparseVolume.resolveFileOffset 7 3160).run sparseDevice).result =
        .ok (some ⟨⟨5,1027,2,.unwritten⟩,53336⟩) :=
  have fits : (Operation.resolve 3160).Fits := show 3160 < 0x10000000000000000 by decide
  ⟨fits,machine_never_stops fits sparseVolume 7 sparseDevice,eq_ok_of_toOption (by decide +kernel)⟩

end Operation
end XfsReader
