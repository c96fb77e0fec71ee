import XfsReader.Directory.Scanner
import XfsReader.Proofs.Decoder

-- What a scan of a data region stands at, item by item, and the run that it takes over them. Every
-- run comes to an end; what it yields are the entries among the items, and every later position of
-- the region is either stood at or passed over.
namespace XfsReader

-- Unused space that is well formed: the tag, then a length of whole words that stays in the region.
structure UnusedAt (block : Bytes) (stop offset : Nat) (length : UInt16) : Prop where
  tagged : (Decoder.be16 offset).run block = .ok freeTag
  stated : (Decoder.be16 (offset + 2)).run block = .ok length
  long : 8 ≤ length.toNat
  whole : length.toNat % 8 = 0
  inside : offset + length.toNat ≤ stop

namespace DirectoryEntry

theorem span_whole (nameLength : Nat) (typed : Bool) : span nameLength typed % 8 = 0 := by
  simp [span,roundUp]

theorem span_long {nameLength : Nat} (named : 0 < nameLength) (typed : Bool) : 16 ≤ span nameLength typed := by
  simp only [span,roundUp]
  omega

theorem decode_some {typed : Bool} {offset : Nat} {bytes : Bytes} {entry : DirectoryEntry}
    (read : (decode typed offset).run bytes = .ok (some entry)) :
    entry.name ≠ [] ∧ entry.length = span entry.name.length typed ∧
      offset + entry.length < 0x10000000000000000 ∧ offset + entry.length ≤ bytes.size := by
  obtain ⟨inode,_,read⟩ := Decoder.run_bind_eq_ok.mp read
  obtain ⟨nameLength,_,read⟩ := Decoder.run_bind_eq_ok.mp read
  split at read
  · cases read
  · rename_i named
    obtain ⟨_,required,read⟩ := Decoder.run_bind_eq_ok.mp read
    obtain ⟨name,taken,read⟩ := Decoder.run_bind_eq_ok.mp read
    obtain ⟨fileType,_,read⟩ := Decoder.run_bind_eq_ok.mp read
    obtain ⟨tag,_,read⟩ := Decoder.run_bind_eq_ok.mp read
    cases read
    obtain ⟨small,inside,_⟩ := Decoder.slice_eq_ok required
    obtain ⟨_,reaches,same⟩ := Decoder.slice_eq_ok taken
    have known : name.length = nameLength.toNat := by
      cases same
      simp only [Bytes.part,Array.length_toList,Array.size_extract]
      omega
    have long : 0 < nameLength.toNat := by
      apply Nat.pos_of_ne_zero
      intro empty
      exact named (UInt8.toNat_inj.mp empty)
    refine ⟨?_,by rw [known],small,inside⟩
    rintro rfl
    rw [List.length_nil] at known
    omega

end DirectoryEntry

-- An item is unused space exactly when its first two bytes say so; otherwise it is what an entry
-- decodes to there.
theorem RegionItem.decode_eq_ok {typed : Bool} {offset : Nat} {bytes : Bytes} {item : RegionItem}
    (read : (RegionItem.decode typed offset).run bytes = .ok item) :
    ∃ tag, (Decoder.be16 offset).run bytes = .ok tag ∧
      ((tag = freeTag ∧ ∃ length, UnusedAt bytes bytes.size offset length ∧
          offset + length.toNat < 0x10000000000000000 ∧ item = .unused length.toNat) ∨
        (tag ≠ freeTag ∧ ∃ found, (DirectoryEntry.decode typed offset).run bytes = .ok found ∧
          item = found.elim .sentinel .entry)) := by
  obtain ⟨tag,first,read⟩ := Decoder.run_bind_eq_ok.mp read
  refine ⟨tag,first,?_⟩
  split at read
  · rename_i free
    subst free
    obtain ⟨length,second,read⟩ := Decoder.run_bind_eq_ok.mp read
    split at read
    · cases read
    · rename_i valid
      obtain ⟨_,required,read⟩ := Decoder.run_bind_eq_ok.mp read
      cases read
      obtain ⟨small,inside,_⟩ := Decoder.slice_eq_ok required
      refine .inl ⟨rfl,length,⟨first,second,?_,?_,inside⟩,small,rfl⟩
      · omega
      · omega
  · rename_i used
    obtain ⟨found,decoded,read⟩ := Decoder.run_bind_eq_ok.mp read
    cases found with
    | none => cases read; exact .inr ⟨used,none,decoded,rfl⟩
    | some entry => cases read; exact .inr ⟨used,some entry,decoded,rfl⟩

theorem RegionItem.decode_unused {bytes : Bytes} {offset length : Nat} {typed : Bool}
    (read : (decode typed offset).run bytes = .ok (.unused length)) :
    ∃ stated : UInt16, length = stated.toNat ∧ UnusedAt bytes bytes.size offset stated := by
  obtain ⟨tag,first,kind⟩ := decode_eq_ok read
  rcases kind with ⟨free,stated,gap,small,same⟩ | ⟨used,found,decoded,same⟩
  · cases same
    exact ⟨stated,rfl,gap⟩
  · cases found <;> cases same

theorem RegionItem.decode_entry {typed : Bool} {offset : Nat} {region : Bytes} {entry : DirectoryEntry}
    (read : (decode typed offset).run region = .ok (.entry entry)) :
    (DirectoryEntry.decode typed offset).run region = .ok (some entry) := by
  obtain ⟨tag,first,kind⟩ := decode_eq_ok read
  rcases kind with ⟨free,stated,gap,small,same⟩ | ⟨used,found,decoded,same⟩
  · cases same
  · cases found with
    | none => cases same
    | some other =>
      cases same
      exact decoded

-- The items from a position on, each with its own position. The scan runs off the region or stops
-- at a sentinel; it does not run past an item that cannot be read.
inductive RegionTrace (region : Bytes) (typed : Bool) : Nat → List (Nat × RegionItem) → Prop
  | finished {cursor} (outside : region.size ≤ cursor) : RegionTrace region typed cursor []
  | sentinel {cursor} (inside : cursor < region.size)
      (read : (RegionItem.decode typed cursor).run region = .ok .sentinel) :
      RegionTrace region typed cursor [(cursor,.sentinel)]
  | item {cursor found items} (inside : cursor < region.size)
      (read : (RegionItem.decode typed cursor).run region = .ok found) (goesOn : found ≠ .sentinel)
      (rest : RegionTrace region typed (cursor + found.length) items) :
      RegionTrace region typed cursor ((cursor,found) :: items)

def RegionItem.place? : Nat × RegionItem → Option PlacedEntry
  | (offset,.entry found) => some ⟨offset,found⟩
  | _ => none

theorem RegionItem.place?_eq_some {row : Nat × RegionItem} {placed : PlacedEntry} :
    place? row = some placed ↔ row = (placed.offset,.entry placed.entry) := by
  obtain ⟨offset,item⟩ := row
  cases item with
  | entry found =>
    obtain ⟨position,entry⟩ := placed
    simp [place?]
  | unused length => simp [place?]
  | sentinel => simp [place?]

-- A position that a scan does not stand at: inside an item, behind the sentinel, or past the region.
inductive PassedOver (region : Bytes) (items : List (Nat × RegionItem)) (position : Nat) : Prop
  | inside {start item} (member : (start,item) ∈ items) (after : start < position)
      (before : position < start + item.length)
  | behind {start} (member : (start,RegionItem.sentinel) ∈ items) (after : start < position)
  | beyond (outside : region.size ≤ position)

theorem PassedOver.cons {region : Bytes} {items : List (Nat × RegionItem)} {position : Nat}
    (passed : PassedOver region items position) (row : Nat × RegionItem) :
    PassedOver region (row :: items) position := by
  cases passed with
  | inside member after before => exact .inside (List.mem_cons_of_mem row member) after before
  | behind member after => exact .behind (List.mem_cons_of_mem row member) after
  | beyond outside => exact .beyond outside

namespace RegionTrace

variable {region : Bytes} {typed : Bool} {cursor : Nat} {items : List (Nat × RegionItem)}

theorem member (trace : RegionTrace region typed cursor items) {row : Nat × RegionItem} (listed : row ∈ items) :
    cursor ≤ row.1 ∧ row.1 < region.size ∧ (RegionItem.decode typed row.1).run region = .ok row.2 := by
  induction trace with
  | finished outside => cases listed
  | sentinel inside read =>
    obtain rfl := List.mem_singleton.mp listed
    exact ⟨Nat.le_refl _,inside,read⟩
  | item inside read goesOn rest ih =>
    rcases List.mem_cons.mp listed with rfl | later
    · exact ⟨Nat.le_refl _,inside,read⟩
    · obtain ⟨reached,within,decoded⟩ := ih later
      exact ⟨Nat.le_trans (Nat.le_add_right _ _) reached,within,decoded⟩

-- Nothing of the region lies outside the items but what comes after a sentinel.
theorem stands_or_passes (trace : RegionTrace region typed cursor items) {position : Nat} (reached : cursor ≤ position) :
    (∃ item, (position,item) ∈ items) ∨ PassedOver region items position := by
  induction trace with
  | finished outside => exact .inr (.beyond (Nat.le_trans outside reached))
  | @sentinel cursor inside read =>
    rcases Nat.eq_or_lt_of_le reached with rfl | after
    · exact .inl ⟨.sentinel,List.mem_singleton_self _⟩
    · exact .inr (.behind (List.mem_singleton_self _) after)
  | @item cursor found items inside read goesOn rest ih =>
    rcases Nat.eq_or_lt_of_le reached with rfl | after
    · exact .inl ⟨found,List.mem_cons_self⟩
    · by_cases before : position < cursor + found.length
      · exact .inr (.inside List.mem_cons_self after before)
      · rcases ih (Nat.le_of_not_lt before) with ⟨item,stood⟩ | passed
        · exact .inl ⟨item,List.mem_cons_of_mem _ stood⟩
        · exact .inr (passed.cons _)

end RegionTrace

-- One constructor for every turn the scan can take: out of the region, at a sentinel, at bytes that
-- are no item, past unused space, or past an entry.
inductive ScanRun (region : Bytes) (typed : Bool) : Nat → List PlacedEntry → Option DecodeError → Prop
  | outside {cursor} (past : region.size ≤ cursor) : ScanRun region typed cursor [] none
  | sentinel {cursor} (inside : cursor < region.size)
      (read : (RegionItem.decode typed cursor).run region = .ok .sentinel) : ScanRun region typed cursor [] none
  | refused {cursor error} (inside : cursor < region.size)
      (read : (RegionItem.decode typed cursor).run region = .error error) :
      ScanRun region typed cursor [] (some error)
  | unused {cursor length places error} (inside : cursor < region.size)
      (read : (RegionItem.decode typed cursor).run region = .ok (.unused length))
      (rest : ScanRun region typed (cursor + length) places error) : ScanRun region typed cursor places error
  | entry {cursor found places error} (inside : cursor < region.size)
      (read : (RegionItem.decode typed cursor).run region = .ok (.entry found))
      (rest : ScanRun region typed (cursor + found.length) places error) :
      ScanRun region typed cursor (⟨cursor,found⟩ :: places) error

namespace EntryScanner

variable {region : Bytes} {typed : Bool} {cursor : Nat} {scanner : EntryScanner}

theorem drain_none {last : EntryScanner} (ended : scanner.next = (none,last)) :
    scanner.drain = ([],last) := by
  rw [drain]
  split
  · rename_i other got
    rw [ended] at got
    cases got
    rfl
  · rename_i item later got
    rw [ended] at got
    cases got

theorem drain_some {later : EntryScanner} {item : Except DecodeError PlacedEntry}
    (got : scanner.next = (some item,later)) : scanner.drain = (item :: later.drain.1,later.drain.2) := by
  rw [drain]
  split
  · rename_i other ended
    rw [got] at ended
    cases ended
  · rename_i other next same
    rw [got] at same
    cases same
    rfl

theorem next_finished (finished : scanner.finished = true) : scanner.next = (none,scanner) := by
  simp [next,finished]

theorem drain_ended (sought : seek region typed cursor = .ok none) :
    (EntryScanner.mk region cursor typed false).drain.1 = [] := by
  have ended : (EntryScanner.mk region cursor typed false).next = (none,⟨region,cursor,typed,true⟩) := by
    simp [next,sought]
  rw [drain_none ended]

theorem drain_refused {error : DecodeError} (sought : seek region typed cursor = .error error) :
    (EntryScanner.mk region cursor typed false).drain.1 = [.error error] := by
  have failed : (EntryScanner.mk region cursor typed false).next =
      (some (.error error),⟨region,cursor,typed,true⟩) := by
    simp [next,sought]
  rw [drain_some failed,drain_none (next_finished rfl)]

theorem drain_entry {placed : PlacedEntry} (sought : seek region typed cursor = .ok (some placed)) :
    (EntryScanner.mk region cursor typed false).drain.1 =
      .ok placed :: (EntryScanner.mk region placed.stop typed false).drain.1 := by
  have moved : (EntryScanner.mk region cursor typed false).next =
      (some (.ok placed),⟨region,placed.stop,typed,false⟩) := by
    simp [next,sought]
  rw [drain_some moved]

theorem drain_seek {other : Nat} (same : seek region typed cursor = seek region typed other) :
    (EntryScanner.mk region cursor typed false).drain.1 = (EntryScanner.mk region other typed false).drain.1 := by
  cases sought : seek region typed other with
  | error error =>
    rw [sought] at same
    rw [drain_refused same,drain_refused sought]
  | ok found =>
    rw [sought] at same
    cases found with
    | none => rw [drain_ended same,drain_ended sought]
    | some placed => rw [drain_entry same,drain_entry sought]

theorem entries_eq (region : Bytes) (typed : Bool) (cursor : Nat) :
    (EntryScanner.mk region cursor typed false).entries =
      match seek region typed cursor with
      | .error error => .error error
      | .ok none => .ok []
      | .ok (some placed) => (EntryScanner.mk region placed.stop typed false).entries.map (placed :: ·) := by
  cases sought : seek region typed cursor with
  | error error =>
    rw [entries,drain_refused sought]
    rfl
  | ok found =>
    cases found with
    | none =>
      rw [entries,drain_ended sought]
      rfl
    | some placed =>
      rw [entries,drain_entry sought,List.mapM_cons]
      rfl

-- What one turn of the loop makes of the item it stands at.
theorem seek_outside (past : region.size ≤ cursor) : seek region typed cursor = .ok none := by
  rw [seek,if_neg (Nat.not_lt_of_le past)]

theorem seek_sentinel (inside : cursor < region.size)
    (read : (RegionItem.decode typed cursor).run region = .ok .sentinel) : seek region typed cursor = .ok none := by
  rw [seek,if_pos inside]
  split <;> simp_all

theorem seek_refused {error : DecodeError} (inside : cursor < region.size)
    (read : (RegionItem.decode typed cursor).run region = .error error) :
    seek region typed cursor = .error error := by
  rw [seek,if_pos inside]
  split <;> simp_all

theorem seek_entry {found : DirectoryEntry} (inside : cursor < region.size)
    (read : (RegionItem.decode typed cursor).run region = .ok (.entry found)) :
    seek region typed cursor = .ok (some ⟨cursor,found⟩) := by
  rw [seek,if_pos inside]
  split <;> simp_all

theorem seek_unused {length : Nat} (inside : cursor < region.size)
    (read : (RegionItem.decode typed cursor).run region = .ok (.unused length)) :
    seek region typed cursor = seek region typed (cursor + length) := by
  rw [seek,if_pos inside]
  split <;> simp_all

theorem drain_run {places : List PlacedEntry} {error : Option DecodeError}
    (run : ScanRun region typed cursor places error) :
    (EntryScanner.mk region cursor typed false).drain.1 = places.map .ok ++ error.toList.map .error := by
  induction run with
  | outside past => simp [drain_ended (seek_outside past)]
  | sentinel inside read => simp [drain_ended (seek_sentinel inside read)]
  | refused inside read => simp [drain_refused (seek_refused inside read)]
  | unused inside read rest ih => rw [drain_seek (seek_unused inside read),ih]
  | entry inside read rest ih =>
    rw [drain_entry (seek_entry inside read),PlacedEntry.stop,ih]
    rfl

-- Entries one after another and no error behind them are a list; with an error there is none.
theorem mapM_results (places : List PlacedEntry) (error : Option DecodeError) :
    (places.map Except.ok ++ error.toList.map Except.error).mapM id = error.elim (.ok places) .error := by
  induction places with
  | nil => cases error <;> rfl
  | cons placed places ih =>
    rw [List.map_cons,List.cons_append,List.mapM_cons,ih]
    cases error <;> rfl

theorem entries_run {places : List PlacedEntry} {error : Option DecodeError}
    (run : ScanRun region typed cursor places error) :
    (EntryScanner.mk region cursor typed false).entries = error.elim (.ok places) .error := by
  rw [entries,drain_run run]
  exact mapM_results places error

end EntryScanner

namespace ScanRun

variable {region : Bytes} {typed : Bool} {cursor : Nat} {places : List PlacedEntry} {error : Option DecodeError}

-- Every turn but the last moves the cursor on, so there is a last one.
theorem runs (region : Bytes) (typed : Bool) (cursor : Nat) :
    ∃ places error, ScanRun region typed cursor places error := by
  by_cases inside : cursor < region.size
  · cases read : (RegionItem.decode typed cursor).run region with
    | error error => exact ⟨[],some error,.refused inside read⟩
    | ok item =>
      have moved := (RegionItem.decode_yields typed cursor).run read
      cases item with
      | sentinel => exact ⟨[],none,.sentinel inside read⟩
      | unused length =>
        have long : 8 ≤ length := moved (by simp)
        obtain ⟨places,error,rest⟩ := runs region typed (cursor + length)
        exact ⟨places,error,.unused inside read rest⟩
      | entry found =>
        have long : 8 ≤ found.length := moved (by simp)
        obtain ⟨places,error,rest⟩ := runs region typed (cursor + found.length)
        exact ⟨⟨cursor,found⟩ :: places,error,.entry inside read rest⟩
  · exact ⟨[],none,.outside (Nat.le_of_not_lt inside)⟩
termination_by region.size - cursor

-- A run that ends without an error has stood at items only.
theorem trace (run : ScanRun region typed cursor places error) (ended : error = none) :
    ∃ items, RegionTrace region typed cursor items ∧ places = items.filterMap RegionItem.place? := by
  induction run with
  | outside past => exact ⟨[],.finished past,rfl⟩
  | sentinel inside read => exact ⟨_,.sentinel inside read,rfl⟩
  | refused inside read => cases ended
  | unused inside read rest ih =>
    obtain ⟨items,trace,listed⟩ := ih ended
    exact ⟨_,.item inside read (by simp) trace,listed⟩
  | entry inside read rest ih =>
    obtain ⟨items,trace,listed⟩ := ih ended
    exact ⟨_,.item inside read (by simp) trace,by rw [listed]; rfl⟩

end ScanRun

theorem EntryScanner.entries_trace {scanner : EntryScanner} {places : List PlacedEntry}
    (running : scanner.finished = false) (ran : scanner.entries = .ok places) :
    ∃ items, RegionTrace scanner.region scanner.typed scanner.cursor items ∧
      places = items.filterMap RegionItem.place? := by
  obtain ⟨region,cursor,typed,finished⟩ := scanner
  subst running
  obtain ⟨found,error,run⟩ := ScanRun.runs region typed cursor
  rw [entries_run run] at ran
  cases error with
  | none =>
    cases ran
    exact run.trace rfl
  | some error => cases ran

end XfsReader
