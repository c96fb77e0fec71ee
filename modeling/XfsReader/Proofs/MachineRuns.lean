import XfsReader.Proofs.FileOffsets
import XfsReader.Proofs.MachineEntries
import XfsReader.Volume.Listing

-- Runs on a machine. Addresses and places in a fork are worked out in machine words, and a run is
-- what becomes of a device, step after step, unless the machine stops itself.
namespace XfsReader
open Machine

namespace BlockSize

theorem shiftLeft_log (size : BlockSize) (block : Nat) : block <<< size.log = block * size.bytes := by
  rw [bytes,Nat.one_shiftLeft,Nat.shiftLeft_eq]

theorem shiftRight_log (size : BlockSize) (offset : Nat) : offset >>> size.log = size.blockOf offset := by
  rw [blockOf,bytes,Nat.one_shiftLeft,Nat.shiftRight_eq_div_pow]

theorem log_lt (size : BlockSize) : size.log < 64 := Nat.lt_of_le_of_lt size.upper (by decide)

def machineBlockOf (size : BlockSize) (offset : Nat) : Machine ε Nat := shiftRight offset size.log

theorem machineBlockOf_computes (size : BlockSize) (offset : Nat) :
    (size.machineBlockOf offset : Machine ε Nat).Computes (.ok (size.blockOf offset)) := by
  rw [← shiftRight_log]
  exact shiftRight_computes size.log_lt

def machineWithin (size : BlockSize) (offset block : Nat) : Machine ε Nat := do
  let start ← shiftLeft block size.log
  sub offset start

theorem machineWithin_computes {size : BlockSize} {offset : Nat} (small : offset < 0x10000000000000000) :
    (size.machineWithin offset (size.blockOf offset) : Machine ε Nat).Computes (.ok (size.within offset)) := by
  have before : size.blockOf offset <<< size.log ≤ offset := by
    rw [shiftLeft_log]
    exact Nat.div_mul_le_self _ _
  have rest : size.within offset = offset - size.blockOf offset <<< size.log := by
    rw [shiftLeft_log,within,blockOf,Nat.mod_eq_sub_div_mul]
  rw [rest]
  exact .step (shiftLeft_computes size.log_lt (Nat.lt_of_le_of_lt before small)) (sub_computes before)

end BlockSize

namespace AgGeometry

def machineParts (ag : AgGeometry) (block : UInt64) : Machine ε (UInt64 × UInt64) :=
  if ag.agBlockLog < 64 then do
    let mask ← sub ((1 : UInt64) <<< ag.agBlockLog.toUInt64).toNat 1
    return (block >>> ag.agBlockLog.toUInt64,block &&& UInt64.ofNat mask)
  else return (0,block)

theorem machineParts_computes (ag : AgGeometry) (block : UInt64) :
    (ag.machineParts block : Machine ε _).Computes (.ok (ag.parts block)) := by
  unfold machineParts parts
  split
  · rename_i short
    have single := toNat_groupSize short
    have positive : 1 ≤ ((1 : UInt64) <<< ag.agBlockLog.toUInt64).toNat := by
      rw [single]
      exact Nat.two_pow_pos _
    have mask : UInt64.ofNat (((1 : UInt64) <<< ag.agBlockLog.toUInt64).toNat - 1) = (1 <<< ag.agBlockLog.toUInt64) - 1 := by
      have order : (1 : UInt64) ≤ 1 <<< ag.agBlockLog.toUInt64 := UInt64.le_iff_toNat_le.mpr positive
      apply UInt64.toNat_inj.mp
      rw [UInt64.toNat_sub_of_le _ _ order]
      have below := ((1 : UInt64) <<< ag.agBlockLog.toUInt64).toNat_lt
      exact Nat.mod_eq_of_lt (Nat.lt_of_le_of_lt (Nat.sub_le _ _) below)
    refine .step (sub_computes positive) ?_
    rw [mask]
    exact .pure _
  · exact .pure _

def machineAbsolute (ag : AgGeometry) (block : UInt64) : Machine DecodeError Nat := do
  let (group,relative) ← ag.machineParts block
  checked ((fit64? (group.toNat * ag.agBlocks.toNat)).bind fun base => fit64? (base + relative.toNat))
    (.integerConversion "absolute_block")

def machineByteOffset (ag : AgGeometry) (block : UInt64) : Machine DecodeError Nat := do
  let absolute ← ag.machineAbsolute block
  checked (ag.blockSize.blocksToBytes? absolute) (.integerConversion "block_byte_offset")

def machineRunByteOffset (ag : AgGeometry) (start : UInt64) (index : Nat) : Machine DecodeError Nat := do
  let base ← ag.machineByteOffset start
  checked ((ag.blockSize.blocksToBytes? index).bind fun delta => fit64? (base + delta))
    (.integerConversion "run_byte_offset")

theorem machineAbsolute_computes (ag : AgGeometry) (block : UInt64) :
    (ag.machineAbsolute block).Computes (ag.absoluteBlock block) := by
  refine .step (ag.machineParts_computes block) ?_
  unfold absoluteBlock
  dsimp only
  cases (fit64? ((ag.parts block).1.toNat * ag.agBlocks.toNat)).bind fun base => fit64? (base + (ag.parts block).2.toNat) with
  | some absolute => exact .pure _
  | none => exact .throw _

theorem machineByteOffset_computes (ag : AgGeometry) (block : UInt64) :
    (ag.machineByteOffset block).Computes (ag.byteOffset block) := by
  unfold byteOffset
  refine .matched (ag.machineAbsolute_computes block) (fun error failed => by rw [failed]) fun absolute placed => ?_
  rw [placed]
  dsimp only
  cases ag.blockSize.blocksToBytes? absolute with
  | some offset => exact .pure _
  | none => exact .throw _

theorem machineRunByteOffset_computes (ag : AgGeometry) (start : UInt64) (index : Nat) :
    (ag.machineRunByteOffset start index).Computes (ag.runByteOffset start index) := by
  unfold runByteOffset
  refine .matched (ag.machineByteOffset_computes start) (fun error failed => by rw [failed]) fun base placed => ?_
  rw [placed]
  dsimp only
  cases (ag.blockSize.blocksToBytes? index).bind fun delta => fit64? (base + delta) with
  | some offset => exact .pure _
  | none => exact .throw _

end AgGeometry

namespace Extent

variable {extent : Extent}

def machineEnd (extent : Extent) : Machine ε Nat := addWide extent.startOffset.toNat extent.blockCount.toNat

theorem machineEnd_computes (extent : Extent) : (extent.machineEnd : Machine ε Nat).Computes (.ok extent.endOffset) := by
  have start := extent.startOffset.toNat_lt
  have count := extent.blockCount.toNat_lt
  exact addWide_computes (by omega)

def machineContains (extent : Extent) (block : Nat) : Machine ε Bool :=
  if extent.startOffset.toNat ≤ block then do
    let stop ← extent.machineEnd
    return block < stop
  else return false

theorem machineContains_computes (extent : Extent) (block : Nat) :
    (extent.machineContains block : Machine ε Bool).Computes (.ok (extent.containsBlock block)) := by
  unfold machineContains containsBlock
  split
  · rename_i reached
    rw [decide_eq_true reached,Bool.true_and]
    exact .step extent.machineEnd_computes (.pure _)
  · rename_i before
    rw [decide_eq_false before,Bool.false_and]
    exact .pure _

def machineCovers (size : BlockSize) (offset : Nat) (extent : Extent) : Machine ε Bool := do
  let start ← mulWide extent.startOffset.toNat size.bytes
  let last ← extent.machineEnd
  let stop ← mulWide last size.bytes
  return start ≤ offset && offset < stop

theorem wide_fits {blocks : Nat} (few : blocks < 0x20000000000000000) (size : BlockSize) :
    blocks * size.bytes < 0x100000000000000000000000000000000 := by
  calc blocks * size.bytes ≤ blocks * 65536 := Nat.mul_le_mul_left blocks size.bytes_le
    _ < 0x100000000000000000000000000000000 := by omega

theorem machineCovers_computes (size : BlockSize) (offset : Nat) (extent : Extent) :
    (machineCovers size offset extent : Machine ε Bool).Computes (.ok (extent.covers offset size)) := by
  have start := extent.startOffset.toNat_lt
  have count := extent.blockCount.toNat_lt
  have stop : extent.endOffset < 0x20000000000000000 := by
    unfold endOffset
    omega
  refine .step (mulWide_computes (wide_fits (by omega) size)) (.step extent.machineEnd_computes ?_)
  exact .step (mulWide_computes (wide_fits stop size)) (.pure _)

-- The first extent that starts before its predecessor ends.
def machineDisorder (extents : List Extent) : Machine ε (Option Extent) := do
  let found ← findNeighbours (fun first second => do
    let stop ← first.machineEnd
    return second.startOffset.toNat < stop) extents
  return found.map (·.2)

theorem firstDisorder?_eq (extents : List Extent) :
    firstDisorder? extents =
      (neighbours? (fun first second => decide (second.startOffset.toNat < first.endOffset)) extents).map (·.2) := by
  fun_induction firstDisorder? extents with
  | case1 first second rest disorder => simp [neighbours?,disorder]
  | case2 first second rest order ih => simp only [neighbours?,order,decide_false,Bool.false_eq_true,if_false,ih]
  | case3 extents short =>
    unfold neighbours?
    split
    · exact (short _ _ _ rfl).elim
    · rfl

theorem machineDisorder_computes (extents : List Extent) :
    (machineDisorder extents : Machine ε _).Computes (.ok (firstDisorder? extents)) := by
  rw [firstDisorder?_eq]
  refine .step (findNeighbours_computes (fun first second => ?_) extents) (.pure _)
  exact .step first.machineEnd_computes (.pure _)

end Extent

-- Keys of which one does not exceed its predecessor; the predecessor comes second.
def machineDescent (keys : List UInt64) : Machine ε (Option (UInt64 × UInt64)) := do
  let found ← findNeighbours (fun first second => return decide (second ≤ first)) keys
  return found.map fun pair => (pair.2,pair.1)

theorem firstDescent?_eq : (keys : List UInt64) → firstDescent? keys =
    (neighbours? (fun first second => decide (second ≤ first)) keys).map fun pair => (pair.2,pair.1)
  | [] => rfl
  | [_] => rfl
  | first :: second :: rest => by
    by_cases descent : second ≤ first
    · simp [firstDescent?,neighbours?,descent]
    · simp [firstDescent?,neighbours?,descent,firstDescent?_eq (second :: rest)]

theorem machineDescent_computes (keys : List UInt64) :
    (machineDescent keys : Machine ε _).Computes (.ok (firstDescent? keys)) := by
  rw [firstDescent?_eq]
  exact .step (findNeighbours_computes (fun _ _ => .pure _) keys) (.pure _)

namespace OffsetIndex

def machineWindows (size : BlockSize) : (start : Nat) → List Extent → Machine DecodeError (List IndexWindow)
  | _, [] => return []
  | start, extent :: extents => do
    let length ← mul extent.blockCount.toNat size.bytes
    let stop ← checked (fit64? (start + length)) (.integerConversion "extent_index_offset")
    let windows ← machineWindows size stop extents
    return ⟨start,stop,extent⟩ :: windows

theorem byteLength_lt (extent : Extent) (size : BlockSize) : extent.byteLength size < 0x1000000000000 := by
  have count := extent.blockCount.toNat_lt
  calc extent.blockCount.toNat * size.bytes ≤ extent.blockCount.toNat * 65536 := Nat.mul_le_mul_left _ size.bytes_le
    _ < 0x1000000000000 := by omega

theorem machineWindows_computes (size : BlockSize) (start : Nat) (extents : List Extent) :
    (machineWindows size start extents).Computes (windowsFrom size start extents) := by
  induction extents generalizing start with
  | nil => exact .pure _
  | cons extent extents ih =>
    have short := byteLength_lt extent size
    refine .step (mul_computes (Nat.lt_trans short (by decide))) ?_
    rw [windowsFrom]
    change (checked (fit64? (start + extent.byteLength size)) _ >>= _).Computes _
    cases fit64? (start + extent.byteLength size) with
    | none => exact .refuse (.throw _)
    | some stop =>
      refine .step (.pure stop) (.matched (ih stop) (fun error failed => by simp only [failed]) fun windows laid => ?_)
      simp only [laid]
      exact .pure _

def machineBuild (size : BlockSize) (extents : List Extent) : Machine DecodeError OffsetIndex := do
  let windows ← machineWindows size 0 extents
  return ⟨windows.toArray⟩

theorem machineBuild_computes (size : BlockSize) (extents : List Extent) :
    (machineBuild size extents).Computes (build size extents) := by
  unfold build
  refine .matched (machineWindows_computes size 0 extents) (fun error failed => by rw [failed]) fun windows laid => ?_
  rw [laid]
  exact .pure _

end OffsetIndex

namespace Segments

def machineSplit (size : BlockSize) (extents : List Extent) : Machine ε Segments := do
  let placed ← extents.mapM fun extent => do
    let start ← mulWide extent.startOffset.toNat size.bytes
    return (extent,Segment.ofByte start)
  let segment (wanted : Segment) : List Extent := (placed.filter fun item => item.2 = wanted).map (·.1)
  return ⟨segment .data,segment .leaf,segment .free⟩

theorem machineSplit_computes (size : BlockSize) (extents : List Extent) :
    (machineSplit size extents : Machine ε Segments).Computes (.ok (split size extents)) := by
  have placed : (extents.mapM (fun extent => do
      let start ← mulWide extent.startOffset.toNat size.bytes
      return (extent,Segment.ofByte start)) : Machine ε _).Computes
      (.ok (extents.map fun extent => (extent,extent.segment size))) := by
    refine mapM_pure_computes fun extent _ => ?_
    have start := extent.startOffset.toNat_lt
    exact .step (mulWide_computes (Extent.wide_fits (by omega) size)) (.pure _)
  have segment (wanted : Segment) :
      ((extents.map fun extent => (extent,extent.segment size)).filter fun item => item.2 = wanted).map (·.1) =
        extents.filter fun extent => extent.segment size = wanted := by
    rw [List.filter_map,List.map_map]
    exact List.map_id _
  refine .step placed ?_
  dsimp only
  rw [segment,segment,segment]
  exact .pure _

end Segments

-- What a traversal makes of a device; none once the machine has stopped itself.
def MachineRun (α : Type) := Device → Option (Outcome α)

namespace MachineRun

instance : Monad MachineRun where
  pure value := fun _ => some ⟨.ok value,[],[]⟩
  bind run next := fun device =>
    match run device with
    | none => none
    | some ⟨.error error,reads,warnings⟩ => some ⟨.error error,reads,warnings⟩
    | some ⟨.ok value,reads,warnings⟩ =>
      (next value device).map fun rest => ⟨rest.result,reads ++ rest.reads,warnings ++ rest.warnings⟩

def compute (machine : Machine VolumeError α) : MachineRun α := fun _ => machine.run.map fun result => ⟨result,[],[]⟩

def fail (error : VolumeError) : MachineRun α := compute (throw error)

def warn (warning : StaleCount) : MachineRun Unit := fun _ => some ⟨.ok (),[],[warning]⟩

-- The range is checked first and then summed up again to cut the region out of the device.
def region (device : Device) (offset length : Nat) : Machine VolumeError Bytes := do
  let stop ← checked (fit64? (offset + length)) (.format .readRangeOverflow)
  if device.size < stop then throw (.truncatedRead offset length (device.size - offset))
  else
    let last ← add offset length
    demand (offset ≤ last ∧ last ≤ device.size) (device.region offset length)

def read (role : Option BlockRole) (offset length : Nat) : MachineRun Bytes := fun device =>
  (region device offset length).run.map fun result => ⟨result,[⟨role,offset,length⟩],[]⟩

-- The machine is not stopped and all comes out as it does for the traversal on plain numbers.
def Runs (run : MachineRun α) (device : Device) (traversal : Traversal α) : Prop :=
  run device = some (traversal.run device)

variable {device : Device} {run : MachineRun α} {traversal : Traversal α} {next : α → MachineRun β}
  {rest : α → Traversal β} {machine : Machine VolumeError α} {plain : Except VolumeError α}

theorem Runs.pure (value : α) : (Pure.pure value : MachineRun α).Runs device (.done value) := rfl

theorem Runs.fail (error : VolumeError) : (fail error : MachineRun α).Runs device (.fail error) := rfl

theorem Runs.bind (first : run.Runs device traversal)
    (later : ∀ value, traversal.eval device = .ok value → (next value).Runs device (rest value)) :
    (run >>= next).Runs device (traversal >>= rest) := by
  rw [Runs,Traversal.run_bind]
  change (match run device with | none => _ | some ⟨.error _,_,_⟩ => _ | some ⟨.ok _,_,_⟩ => _) = _
  rw [Runs] at first
  cases ended : traversal.run device with
  | mk result reads warnings =>
    rw [first,ended]
    cases result with
    | error error => rfl
    | ok value =>
      have second : next value device = some ((rest value).run device) := later value (by rw [Traversal.eval,ended])
      simp only [second]
      rfl

theorem Runs.compute (computes : machine.Computes plain) : (compute machine).Runs device (.ofExcept plain) := by
  rw [Computes] at computes
  subst computes
  cases plain <;> rfl

-- A step that the traversal does not take, or takes only by looking at what came out.
theorem Runs.step {value : α} {traversal : Traversal β} (first : machine.Computes (.ok value))
    (later : (next value).Runs device traversal) : (MachineRun.compute machine >>= next).Runs device traversal := by
  change (MachineRun.compute machine >>= next).Runs device (Traversal.ofExcept (.ok value) >>= fun _ => traversal)
  exact .bind (.compute first) fun _ same => by cases same; exact later

theorem Runs.matched {traversal : Traversal β} (first : machine.Computes plain)
    (refused : ∀ error, plain = .error error → traversal = .fail error)
    (later : ∀ value, plain = .ok value → (next value).Runs device traversal) :
    (MachineRun.compute machine >>= next).Runs device traversal := by
  cases ended : plain with
  | error error =>
    rw [ended] at first
    rw [refused error ended]
    have failed : (Traversal.fail error : Traversal β) = (Traversal.ofExcept (.error error) : Traversal α) >>= fun _ => .fail error :=
      rfl
    rw [failed]
    exact .bind (.compute first) fun _ same => by cases same
  | ok value =>
    rw [ended] at first
    exact .step first (later value ended)

theorem region_computes (device : Device) (offset length : Nat) :
    (region device offset length).Computes (device.read offset length) := by
  unfold region Device.read
  cases fits : fit64? (offset + length) with
  | none => exact .refuse (.throw _)
  | some stop =>
    obtain ⟨small,rfl⟩ := fit64?_eq_some.mp fits
    refine .step (.pure _) ?_
    dsimp only
    split
    · exact .throw _
    · exact .step (add_computes small) (demand_computes _ ⟨Nat.le_add_right _ _,by omega⟩)

theorem Runs.read (role : Option BlockRole) (offset length : Nat) :
    (read role offset length).Runs device (.request role offset length) := by
  have computes := region_computes device offset length
  rw [Computes] at computes
  rw [Runs,MachineRun.read,computes,Traversal.request,Traversal.run,Device.answer]
  cases device.read offset length <;> rfl

theorem Runs.refuse {error : VolumeError} (first : machine.Computes (.error error)) :
    (MachineRun.compute machine >>= next).Runs device (.fail error) :=
  .matched first (fun _ same => by cases same; rfl) fun _ same => by cases same

-- What was read is as long as it was asked to be.
theorem Runs.reading {role : Option BlockRole} {offset length : Nat} {next : Bytes → MachineRun β}
    {rest : Bytes → Traversal β} (later : ∀ found, found.size = length → (next found).Runs device (rest found)) :
    (MachineRun.read role offset length >>= next).Runs device (.read ⟨role,offset,length⟩ rest) := by
  change (MachineRun.read role offset length >>= next).Runs device (Traversal.request role offset length >>= rest)
  refine .bind (.read role offset length) fun found got => later found ?_
  rw [Traversal.eval_request] at got
  obtain ⟨_,_,rfl⟩ := Device.read_eq_ok.mp got
  exact device.size_region offset length

section Blocks

def forBlocks (visit : Nat → MachineRun (List α)) : (index count : Nat) → MachineRun (List α)
  | _, 0 => return []
  | index, count+1 => do
    let first ← visit index
    let rest ← forBlocks visit (index + 1) count
    return first ++ rest

def forExtents (visit : Extent → Nat → MachineRun (List α)) : List Extent → MachineRun (List α)
  | [] => return []
  | extent :: extents => do
    let first ← forBlocks (visit extent) 0 extent.blockCount.toNat
    let rest ← forExtents visit extents
    return first ++ rest

theorem Runs.forBlocks {visit : Nat → MachineRun (List α)} {plainly : Nat → Traversal (List α)}
    (each : ∀ index, (visit index).Runs device (plainly index)) (index count : Nat) :
    (forBlocks visit index count).Runs device (XfsReader.forBlocks plainly index count) := by
  induction count generalizing index with
  | zero => exact .pure _
  | succ count ih => exact .bind (each index) fun first _ => .bind (ih (index + 1)) fun rest _ => .pure _

theorem Runs.forExtents {visit : Extent → Nat → MachineRun (List α)} {plainly : Extent → Nat → Traversal (List α)}
    (each : ∀ extent index, (visit extent index).Runs device (plainly extent index)) (extents : List Extent) :
    (forExtents visit extents).Runs device (XfsReader.forExtents plainly extents) := by
  induction extents with
  | nil => exact .pure _
  | cons extent extents ih =>
    exact .bind (.forBlocks (each extent) 0 _) fun first _ => .bind ih fun rest _ => .pure _

end Blocks

end MachineRun
end XfsReader
