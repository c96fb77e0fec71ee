import XfsReader.Proofs.MachineDecoders

-- Directory entries on a machine: one entry of a data block, the scan over a region of them, and the
-- directory in the inode.
namespace XfsReader
open Machine

namespace Machine

-- Bytes that are known to be there are taken without a check.
theorem Computes.taken {bytes : Bytes} {offset length : Nat} {next : Bytes → Machine DecodeError β}
    {rest : List UInt8 → Decoder β} (small : offset + length < 0x10000000000000000)
    (inside : offset + length ≤ bytes.size)
    (later : (next (Bytes.part bytes offset length)).Computes ((rest (Bytes.part bytes offset length).toList).run bytes)) :
    (slice bytes offset (offset + length) >>= next).Computes ((Decoder.bytes offset length >>= rest).run bytes) := by
  have read : (Decoder.bytes offset length).run bytes = .ok (Bytes.part bytes offset length).toList := by
    rw [Decoder.bytes,Decoder.run_slice_inside small inside]
    rfl
  rw [Decoder.run_bind,read]
  exact .step (slice_computes inside) later

end Machine

namespace DirectoryEntry

def machineSpan (nameLength : Nat) (typed : Bool) : Machine ε Nat := do
  let fixed ← add 11 nameLength
  let raw ← add fixed (if typed then 1 else 0)
  roundTo raw 8

theorem machineSpan_computes {nameLength : Nat} (short : nameLength < 256) (typed : Bool) :
    (machineSpan nameLength typed : Machine ε Nat).Computes (.ok (span nameLength typed)) := by
  have bit : (if typed then 1 else 0) ≤ 1 := by split <;> decide
  exact .step (add_computes (by omega)) (.step (add_computes (by omega)) (roundTo_computes (by omega)))

def machineDecode (typed : Bool) (offset : Nat) (region : Bytes) : Machine DecodeError (Option DirectoryEntry) := do
  let inode ← (Decoder.be64 offset).onMachine region
  let lengthAt ← add offset 8
  let nameLength ← (Decoder.u8 lengthAt).onMachine region
  if nameLength = 0 then return none
  else
    let length ← machineSpan nameLength.toNat typed
    let _ ← checkedSlice region offset length
    let nameAt ← add offset 9
    let typeAt ← add nameAt nameLength.toNat
    let name ← slice region nameAt typeAt
    let fileType ← (decodeType typed typeAt).onMachine region
    let stop ← add offset length
    let tagAt ← sub stop 2
    let tag ← (Decoder.be16 tagAt).onMachine region
    return some ⟨name.toList,inode,tag,length,fileType⟩

theorem machineDecode_computes (typed : Bool) (offset : Nat) (region : Bytes) :
    (machineDecode typed offset region).Computes ((decode typed offset).run region) := by
  refine .field fun inode read => .step (add_computes (Decoder.slice_eq_ok read).1) (.field fun nameLength _ => ?_)
  split
  · exact .pure _
  · refine .step (machineSpan_computes nameLength.toNat_lt typed) (.stretch fun small inside => ?_)
    have long : 11 + nameLength.toNat ≤ span nameLength.toNat typed := by
      unfold span roundUp
      omega
    refine .step (add_computes (by omega)) (.step (add_computes (by omega)) (.taken (by omega) (by omega) ?_))
    refine .field fun fileType _ => .step (add_computes small) (.step (sub_computes (by omega)) ?_)
    exact .field fun tag _ => .pure _

end DirectoryEntry

def RegionItem.machineDecode (typed : Bool) (cursor : Nat) (region : Bytes) : Machine DecodeError RegionItem := do
  let tag ← (Decoder.be16 cursor).onMachine region
  if tag = freeTag then
    let lengthAt ← add cursor 2
    let length ← (Decoder.be16 lengthAt).onMachine region
    if length.toNat < 8 ∨ length.toNat % 8 ≠ 0 then
      throw (.invalidField "dup_length" "unused region length not a positive multiple of 8")
    else
      let _ ← checkedSlice region cursor length.toNat
      return .unused length.toNat
  else
    match ← DirectoryEntry.machineDecode typed cursor region with
    | none => return .sentinel
    | some found => return .entry found

theorem RegionItem.machineDecode_computes (typed : Bool) (cursor : Nat) (region : Bytes) :
    (machineDecode typed cursor region).Computes ((decode typed cursor).run region) := by
  refine .field fun tag read => ?_
  split
  · refine .step (add_computes (Decoder.slice_eq_ok read).1) (.field fun length _ => ?_)
    split
    · exact .throw _
    · exact .stretch fun _ _ => .pure _
  · refine .decode (DirectoryEntry.machineDecode_computes typed cursor region) fun found _ => ?_
    cases found with
    | none => exact .pure _
    | some entry => exact .pure _

-- The bytes of an item have all been asked for.
theorem RegionItem.decode_fits {typed : Bool} {cursor : Nat} {region : Bytes} {item : RegionItem}
    (read : (decode typed cursor).run region = .ok item) : cursor + item.length < 0x10000000000000000 := by
  obtain ⟨tag,first,kind⟩ := decode_eq_ok read
  rcases kind with ⟨free,length,gap,small,rfl⟩ | ⟨used,found,decoded,rfl⟩
  · exact small
  · cases found with
    | none =>
      have near := (Decoder.slice_eq_ok first).1
      change cursor < _
      omega
    | some entry => exact (DirectoryEntry.decode_some decoded).2.2.1

namespace EntryScanner

def machineOfBlock (block : Bytes) (start stop : Nat) (typed : Bool) : Machine DecodeError EntryScanner :=
  if stop < start ∨ block.size < stop then throw (.invalidField "data_region" "entry region outside block")
  else do
    let region ← slice block 0 stop
    return ⟨region,start,typed,false⟩

theorem machineOfBlock_computes (block : Bytes) (start stop : Nat) (typed : Bool) :
    (machineOfBlock block start stop typed).Computes (ofBlock block start stop typed) := by
  unfold machineOfBlock ofBlock
  split
  · exact .throw _
  · rename_i inside
    have region : (block.toList.take stop).toArray = block.extract 0 stop := by
      apply Array.ext'
      rw [Array.toList_extract,List.extract_eq_take_drop]
      rfl
    rw [region]
    exact .step (demand_computes _ ⟨Nat.zero_le _,by omega⟩) (.pure _)

theorem ofBlock_running {block : Bytes} {start stop : Nat} {typed : Bool} {scanner : EntryScanner}
    (made : ofBlock block start stop typed = .ok scanner) : scanner.finished = false := by
  unfold ofBlock at made
  split at made
  · cases made
  · cases made
    rfl

-- A scan that stands still would never end: this too stops the machine.
def machineSeek (region : Bytes) (typed : Bool) (cursor : Nat) : Machine DecodeError (Option PlacedEntry) :=
  if _ : cursor < region.size then do
    match ← RegionItem.machineDecode typed cursor region with
    | .sentinel => return none
    | .entry found => return some ⟨cursor,found⟩
    | .unused length =>
      let after ← add cursor length
      if _ : cursor < after then machineSeek region typed after
      else stopped
  else return none
termination_by region.size - cursor

theorem machineSeek_computes (region : Bytes) (typed : Bool) (cursor : Nat) :
    (machineSeek region typed cursor).Computes (seek region typed cursor) := by
  fun_induction seek region typed cursor with
  | case1 cursor inside error got =>
    rw [machineSeek,dif_pos inside]
    exact .refuse ((RegionItem.machineDecode_computes typed cursor region).ended got)
  | case2 cursor inside got =>
    rw [machineSeek,dif_pos inside]
    exact .step ((RegionItem.machineDecode_computes typed cursor region).ended got) (.pure _)
  | case3 cursor inside found got =>
    rw [machineSeek,dif_pos inside]
    exact .step ((RegionItem.machineDecode_computes typed cursor region).ended got) (.pure _)
  | case4 cursor inside length got ih =>
    rw [machineSeek,dif_pos inside]
    have known := (RegionItem.machineDecode_computes typed cursor region).ended got
    have moved := (RegionItem.decode_yields typed cursor).run got (by simp)
    simp only [RegionItem.length] at moved
    refine .step known (.step (add_computes (RegionItem.decode_fits got)) ?_)
    rw [dif_pos (by omega)]
    exact ih
  | case5 cursor outside =>
    rw [machineSeek,dif_neg outside]
    exact .pure _

def machineEntries (region : Bytes) (typed : Bool) (cursor : Nat) : Machine DecodeError (List PlacedEntry) := do
  match ← machineSeek region typed cursor with
  | none => return []
  | some placed =>
    let stop ← add placed.offset placed.entry.length
    if _ : cursor < stop ∧ cursor < region.size then
      let rest ← machineEntries region typed stop
      return placed :: rest
    else stopped
termination_by region.size - cursor

theorem seek_fits {region : Bytes} {typed : Bool} {cursor : Nat} {placed : PlacedEntry}
    (found : seek region typed cursor = .ok (some placed)) : placed.stop < 0x10000000000000000 := by
  fun_induction seek region typed cursor with
  | case1 cursor inside error got => cases found
  | case2 cursor inside got => cases found
  | case3 cursor inside entry got =>
    cases found
    exact RegionItem.decode_fits got
  | case4 cursor inside length got ih => exact ih found
  | case5 cursor outside => cases found

theorem machineEntries_computes (region : Bytes) (typed : Bool) (cursor : Nat) :
    (machineEntries region typed cursor).Computes (EntryScanner.entries ⟨region,cursor,typed,false⟩) := by
  fun_induction machineEntries region typed cursor with
  | case1 cursor ih =>
    rw [entries_eq]
    refine .matched (machineSeek_computes region typed cursor) (fun error failed => by rw [failed]) fun found sought => ?_
    rw [sought]
    cases found with
    | none => exact .pure _
    | some placed =>
      have moved := seek_moves sought
      refine .step (add_computes (seek_fits sought)) ?_
      rw [dif_pos ⟨by omega,by omega⟩]
      exact .map (ih placed.stop ⟨by unfold PlacedEntry.stop; omega,by omega⟩)

end EntryScanner

def DataHeader.machineScan (header : DataHeader) (block : Bytes) (typed : Bool) :
    Machine DecodeError (List PlacedEntry) := do
  let stop ← header.machineDataEnd block
  let start ← machineEntriesOffset header.version
  let scanner ← EntryScanner.machineOfBlock block start stop typed
  EntryScanner.machineEntries scanner.region scanner.typed scanner.cursor

theorem DataHeader.machineScan_computes (header : DataHeader) (block : Bytes) (typed : Bool) :
    (header.machineScan block typed).Computes (header.scan block typed >>= EntryScanner.entries) := by
  unfold scan
  refine .matched (header.machineDataEnd_computes block) (fun error failed => by rw [failed]; rfl) fun stop found => ?_
  rw [found]
  refine .step (machineEntriesOffset_computes _) ?_
  refine .bind (EntryScanner.machineOfBlock_computes block _ stop typed) fun scanner made => ?_
  have running : scanner.finished = false := EntryScanner.ofBlock_running made
  obtain ⟨region,cursor,typed,finished⟩ := scanner
  subst running
  exact EntryScanner.machineEntries_computes region typed cursor

namespace Shortform

def machinePastType (typed : Bool) (offset : Nat) : Machine ε Nat := if typed then add offset 1 else pure offset

-- An entry and where it ends.
def machineEntry (typed wide : Bool) (start : Nat) (bytes : Bytes) : Machine DecodeError (DirectoryEntry × Nat) := do
  let nameLength ← (Decoder.u8 start).onMachine bytes
  let tagAt ← add start 1
  let tag ← (Decoder.be16 tagAt).onMachine bytes
  let nameAt ← add start 3
  let name ← checkedSlice bytes nameAt nameLength.toNat
  let named ← add 3 nameLength.toNat
  let typeAt ← add start named
  let fileType ← (DirectoryEntry.decodeType typed typeAt).onMachine bytes
  let inodeAt ← machinePastType typed typeAt
  let inode ← (decodeInode wide inodeAt).onMachine bytes
  let stop ← add inodeAt (inodeWidth wide)
  let length ← sub stop start
  return (⟨name.toList,inode,tag,length,fileType⟩,stop)

def machineEntries (typed wide : Bool) (bytes : Bytes) : (start count : Nat) → Machine DecodeError (List DirectoryEntry)
  | _, 0 => return []
  | start, count+1 => do
    let (entry,stop) ← machineEntry typed wide start bytes
    let rest ← machineEntries typed wide bytes stop count
    return entry :: rest

def machineDecode (typed : Bool) (bytes : Bytes) : Machine DecodeError Shortform := do
  let count ← (Decoder.u8 0).onMachine bytes
  let wideCount ← (Decoder.u8 1).onMachine bytes
  let wide := wideCount != 0
  let parent ← (decodeInode wide 2).onMachine bytes
  let start ← add 2 (inodeWidth wide)
  let entries ← machineEntries typed wide bytes start count.toNat
  return ⟨parent,entries⟩

theorem decodeInode_fits {wide : Bool} {offset : Nat} {bytes : Bytes} {inode : UInt64}
    (read : (decodeInode wide offset).run bytes = .ok inode) : offset + inodeWidth wide < 0x10000000000000000 := by
  cases wide with
  | true => exact (Decoder.slice_eq_ok read).1
  | false =>
    obtain ⟨word,read,_⟩ := Decoder.run_bind_eq_ok.mp read
    exact (Decoder.slice_eq_ok read).1

theorem machinePastType_computes {typed : Bool} {offset : Nat} {bytes : Bytes} {fileType : Option FileType}
    (read : (DirectoryEntry.decodeType typed offset).run bytes = .ok fileType) :
    (machinePastType typed offset : Machine ε Nat).Computes (.ok (if typed then offset + 1 else offset)) := by
  cases typed with
  | true =>
    obtain ⟨byte,first,_⟩ := Decoder.run_bind_eq_ok.mp read
    exact add_computes (Decoder.slice_eq_ok first).1
  | false => exact .pure _

theorem machineEntry_computes (typed wide : Bool) (start : Nat) (bytes : Bytes) :
    (machineEntry typed wide start bytes).Computes
      ((decodeEntry typed wide start >>= fun entry => return (entry,start + entry.length)).run bytes) := by
  unfold decodeEntry
  simp only [bind_assoc,pure_bind]
  refine .field fun nameLength read => .step (add_computes (Decoder.slice_eq_ok read).1) (.field fun tag read => ?_)
  have near := (Decoder.slice_eq_ok read).1
  refine .step (add_computes (by omega)) (.stretch fun small _ => ?_)
  refine .step (add_computes (by omega)) (.step (add_computes (by omega)) ?_)
  rw [← Nat.add_assoc start 3]
  refine .field fun fileType typeRead => .step (machinePastType_computes typeRead) (.field fun inode inodeRead => ?_)
  generalize placed : (if typed then start + 3 + nameLength.toNat + 1 else start + 3 + nameLength.toNat) = inodeAt
  rw [placed] at inodeRead
  have after : start ≤ inodeAt := by
    rw [← placed]
    split <;> omega
  refine .step (add_computes (decodeInode_fits inodeRead)) (.step (sub_computes (by omega)) ?_)
  rw [Nat.add_sub_cancel' (by omega)]
  exact .pure _

theorem machineEntries_computes (typed wide : Bool) (bytes : Bytes) (start count : Nat) :
    (machineEntries typed wide bytes start count).Computes ((decodeEntries typed wide start count).run bytes) := by
  induction count generalizing start with
  | zero => exact .pure _
  | succ count ih =>
    have split : decodeEntries typed wide start (count + 1) =
        (decodeEntry typed wide start >>= fun entry => return (entry,start + entry.length)) >>= fun found =>
          decodeEntries typed wide found.2 count >>= fun rest => return found.1 :: rest := by
      simp only [decodeEntries,bind_assoc,pure_bind]
    rw [split]
    exact .decode (machineEntry_computes typed wide start bytes) fun found _ => .decode (ih _) fun rest _ => .pure _

theorem machineDecode_computes (typed : Bool) (bytes : Bytes) :
    (machineDecode typed bytes).Computes ((decode typed).run bytes) := by
  refine .field fun count _ => .field fun wideCount _ => .field fun parent _ => ?_
  refine .step (add_computes ?_) (.decode (machineEntries_computes typed _ bytes _ _) fun entries _ => .pure _)
  unfold inodeWidth
  split <;> decide

theorem decode_yields (typed : Bool) : (decode typed).Yields fun shortform => shortform.entries.length < 256 := by
  refine .bind (.any _) fun count _ => .bind (.any _) fun wideCount _ => .bind (.any _) fun parent _ =>
    .bind (decodeEntries_yields _ _ _ _) fun entries same => ?_
  change entries.length < 256
  rw [same]
  exact count.toNat_lt

end Shortform
end XfsReader
