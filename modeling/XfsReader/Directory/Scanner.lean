import XfsReader.Directory.DataBlock

-- A lazy scan over the entry region of a data block. Unused stretches are stepped over; the scan
-- ends at the sentinel, at the end of the region, or with the first error.
namespace XfsReader

def freeTag : UInt16 := 0xFFFF

inductive RegionItem where
  | unused (length : Nat)
  | entry (found : DirectoryEntry)
  | sentinel
deriving DecidableEq

namespace RegionItem

def decode (typed : Bool) (offset : Nat) : Decoder RegionItem := do
  let tag ← Decoder.be16 offset
  if tag = freeTag then
    let length ← Decoder.be16 (offset + 2)
    if length.toNat < 8 ∨ length.toNat % 8 ≠ 0 then
      .fail (.invalidField "dup_length" "unused region length not a positive multiple of 8")
    else
      Decoder.require offset length.toNat
      return .unused length.toNat
  else
    match ← DirectoryEntry.decode typed offset with
    | none => return .sentinel
    | some found => return .entry found

def length : RegionItem → Nat
  | .unused length => length
  | .entry found => found.length
  | .sentinel => 0

end RegionItem

theorem DirectoryEntry.decode_yields (typed : Bool) (offset : Nat) :
    (DirectoryEntry.decode typed offset).Yields fun found => ∀ entry ∈ found, 8 ≤ entry.length := by
  refine .bind (.any _) fun inode _ => .bind (.any _) fun nameLength _ => ?_
  split
  · intro entry member; cases member
  · refine .bind (.any _) fun _ _ => .bind (.any _) fun name _ =>
      .bind (.any _) fun fileType _ => .bind (.any _) fun tag _ => ?_
    intro entry member
    cases member
    exact span_pos nameLength.toNat typed

-- Each item before the sentinel moves the scan on.
theorem RegionItem.decode_yields (typed : Bool) (offset : Nat) :
    (RegionItem.decode typed offset).Yields fun item => item ≠ .sentinel → 8 ≤ item.length := by
  refine .bind (.any _) fun tag _ => ?_
  split
  · refine .bind (.any _) fun length _ => ?_
    split
    · trivial
    · rename_i valid
      refine .bind (.any _) fun _ _ _ => ?_
      simp only [RegionItem.length]
      omega
  · refine .bind (DirectoryEntry.decode_yields typed offset) fun found long => ?_
    cases found with
    | none => intro moved; exact absurd rfl moved
    | some entry => intro _; exact long entry rfl

structure PlacedEntry where
  offset : Nat
  entry : DirectoryEntry
deriving DecidableEq

def PlacedEntry.stop (placed : PlacedEntry) : Nat := placed.offset + placed.entry.length

structure EntryScanner where
  region : Bytes
  cursor : Nat
  typed : Bool
  finished : Bool
deriving DecidableEq

namespace EntryScanner

-- A scan of the block from start to stop; bytes from stop on do not exist for it.
def ofBlock (block : Bytes) (start stop : Nat) (typed : Bool) : Except DecodeError EntryScanner :=
  if stop < start ∨ block.size < stop then
    .error (.invalidField "data_region" "entry region outside block")
  else .ok ⟨(block.toList.take stop).toArray,start,typed,false⟩

def seek (region : Bytes) (typed : Bool) (cursor : Nat) : Except DecodeError (Option PlacedEntry) :=
  if cursor < region.size then
    match _ : (RegionItem.decode typed cursor).run region with
    | .error error => .error error
    | .ok .sentinel => .ok none
    | .ok (.entry found) => .ok (some ⟨cursor,found⟩)
    | .ok (.unused length) => seek region typed (cursor + length)
  else .ok none
termination_by region.size - cursor
decreasing_by
  rename_i got
  have moved := (RegionItem.decode_yields typed cursor).run got (by simp)
  simp only [RegionItem.length] at moved
  omega

theorem seek_moves {region : Bytes} {typed : Bool} {cursor : Nat} {placed : PlacedEntry}
    (found : seek region typed cursor = .ok (some placed)) :
    cursor ≤ placed.offset ∧ placed.offset < region.size ∧ 8 ≤ placed.entry.length := by
  fun_induction seek region typed cursor with
  | case1 cursor inside error got => cases found
  | case2 cursor inside got => cases found
  | case3 cursor inside item got =>
    simp only [Except.ok.injEq,Option.some.injEq] at found
    subst found
    have moved := (RegionItem.decode_yields typed cursor).run got (by simp)
    exact ⟨Nat.le_refl cursor,inside,moved⟩
  | case4 cursor inside length got ih =>
    have later := ih found
    omega
  | case5 cursor outside => cases found

def next (scanner : EntryScanner) : Option (Except DecodeError PlacedEntry) × EntryScanner :=
  if scanner.finished then (none,scanner)
  else
    match seek scanner.region scanner.typed scanner.cursor with
    | .error error => (some (.error error),{scanner with finished := true})
    | .ok none => (none,{scanner with finished := true})
    | .ok (some placed) => (some (.ok placed),{scanner with cursor := placed.stop})

-- What bounds the calls that still yield something.
def remaining (scanner : EntryScanner) : Nat :=
  if scanner.finished then 0 else scanner.region.size - scanner.cursor + 1

theorem next_remaining {scanner later : EntryScanner} {item : Except DecodeError PlacedEntry}
    (got : scanner.next = (some item,later)) : later.remaining < scanner.remaining := by
  unfold next at got
  split at got
  · cases got
  · rename_i running
    split at got
    · cases got; simp [remaining,running]
    · cases got
    · rename_i placed found
      cases got
      have moved := seek_moves found
      simp only [remaining,running,PlacedEntry.stop]
      simp
      omega

def drain (scanner : EntryScanner) : List (Except DecodeError PlacedEntry) × EntryScanner :=
  match _ : scanner.next with
  | (none,last) => ([],last)
  | (some item,later) =>
    let rest := later.drain
    (item :: rest.1,rest.2)
termination_by scanner.remaining
decreasing_by
  rename_i got
  exact next_remaining got

def entries (scanner : EntryScanner) : Except DecodeError (List PlacedEntry) :=
  scanner.drain.1.mapM id

end EntryScanner

def DataHeader.scan (header : DataHeader) (block : Bytes) (typed : Bool) : Except DecodeError EntryScanner :=
  match header.dataEnd block with
  | .error error => .error error
  | .ok stop => EntryScanner.ofBlock block header.entriesOffset stop typed

end XfsReader
