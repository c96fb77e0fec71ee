import XfsReader.Proofs.EntryScan

-- A scan of a region from its first call to its last. It goes from item to item without a gap or an
-- overlap, each item of a positive number of eight-byte words, and once it has nothing more to give
-- it never gives anything again.
namespace XfsReader

namespace EntryScanner

variable {region : Bytes} {typed : Bool} {cursor : Nat} {scanner : EntryScanner}

-- The scanner after so many calls, and what the next call then gives.
def called (scanner : EntryScanner) : Nat → EntryScanner
  | 0 => scanner
  | calls+1 => scanner.next.2.called calls

def answer (scanner : EntryScanner) (call : Nat) : Option (Except DecodeError PlacedEntry) :=
  (scanner.called call).next.1

theorem answer_succ (scanner : EntryScanner) (call : Nat) :
    scanner.answer (call + 1) = scanner.next.2.answer call := rfl

theorem answer_finished (finished : scanner.finished = true) (call : Nat) : scanner.answer call = none := by
  induction call with
  | zero => simp [answer,called,next_finished finished]
  | succ call ih => rw [answer_succ,next_finished finished,ih]

theorem next_none {last : EntryScanner} (ended : scanner.next = (none,last)) : last.finished = true := by
  unfold next at ended
  split at ended
  · rename_i finished
    cases ended
    exact finished
  · split at ended
    · cases ended
    · cases ended
      rfl
    · cases ended

-- Each call gives the next item of the drained list, and all calls after those give nothing.
theorem answer_eq (scanner : EntryScanner) (call : Nat) : scanner.answer call = scanner.drain.1[call]? := by
  fun_induction drain scanner generalizing call with
  | case1 scanner last ended =>
    rw [List.getElem?_nil]
    cases call with
    | zero => simp [answer,called,ended]
    | succ call =>
      rw [answer_succ,ended]
      exact answer_finished (next_none ended) call
  | case2 scanner item later got rest ih =>
    cases call with
    | zero => simp [answer,called,got]
    | succ call =>
      rw [answer_succ,got,List.getElem?_cons_succ]
      exact ih call

end EntryScanner

-- What a scan sees of a block: the bytes from stop on do not exist for it.
def Bytes.upTo (block : Bytes) (stop : Nat) : Bytes := (block.toList.take stop).toArray

theorem Bytes.size_upTo {block : Bytes} {stop : Nat} (within : stop ≤ block.size) : (block.upTo stop).size = stop := by
  simp [upTo,within]

-- Unused space after unused space, from one position to another and nothing else between them.
inductive UnusedRun (block : Bytes) (stop : Nat) : Nat → Nat → Prop
  | nil {position} : UnusedRun block stop position position
  | cons {position last} {length : UInt16} (gap : UnusedAt block stop position length)
      (rest : UnusedRun block stop (position + length.toNat) last) : UnusedRun block stop position last

-- Entries from a position on, with nothing but unused space before, between and after them.
inductive Spaced (block : Bytes) (stop : Nat) : Nat → List PlacedEntry → Nat → Prop
  | nil {position reached} (gap : UnusedRun block stop position reached) : Spaced block stop position [] reached
  | cons {position placed places reached} (gap : UnusedRun block stop position placed.offset)
      (rest : Spaced block stop placed.stop places reached) : Spaced block stop position (placed :: places) reached

-- Where a scan has come to when it gives nothing more, and why it does not go on.
inductive ScanEnd (region : Bytes) (typed : Bool) (reached : Nat) : Option DecodeError → Prop
  | outside (past : region.size ≤ reached) : ScanEnd region typed reached none
  | sentinel (inside : reached < region.size)
      (read : (RegionItem.decode typed reached).run region = .ok .sentinel) : ScanEnd region typed reached none
  | refused {error} (inside : reached < region.size)
      (read : (RegionItem.decode typed reached).run region = .error error) :
      ScanEnd region typed reached (some error)

theorem UnusedAt.inBlock {block : Bytes} {stop offset : Nat} {length : UInt16} (within : stop ≤ block.size)
    (gap : UnusedAt (block.upTo stop) (block.upTo stop).size offset length) : UnusedAt block stop offset length := by
  refine ⟨Decoder.run_take gap.tagged,Decoder.run_take gap.stated,gap.long,gap.whole,?_⟩
  rw [← Bytes.size_upTo within]
  exact gap.inside

theorem Spaced.widen {block : Bytes} {stop position reached : Nat} {length : UInt16} {places : List PlacedEntry}
    (gap : UnusedAt block stop position length) (rest : Spaced block stop (position + length.toNat) places reached) :
    Spaced block stop position places reached := by
  cases rest with
  | nil later => exact .nil (.cons gap later)
  | cons later rest => exact .cons (.cons gap later) rest

-- An entry as a scan from a cursor on places it.
structure PlacedEntry.From (placed : PlacedEntry) (region : Bytes) (typed : Bool) (cursor : Nat) : Prop where
  decoded : (DirectoryEntry.decode typed placed.offset).run region = .ok (some placed.entry)
  reached : cursor ≤ placed.offset
  aligned : placed.offset % 8 = cursor % 8

namespace PlacedEntry.From

variable {placed : PlacedEntry} {region : Bytes} {typed : Bool} {cursor : Nat}

theorem words (found : placed.From region typed cursor) : 16 ≤ placed.entry.length ∧ placed.entry.length % 8 = 0 := by
  obtain ⟨named,length,_⟩ := DirectoryEntry.decode_some found.decoded
  rw [length]
  exact ⟨DirectoryEntry.span_long (List.length_pos_iff.mpr named) typed,DirectoryEntry.span_whole _ typed⟩

theorem stop_le (found : placed.From region typed cursor) : placed.stop ≤ region.size :=
  (DirectoryEntry.decode_some found.decoded).2.2.2

theorem earlier {moved : Nat} (found : placed.From region typed (cursor + moved)) (whole : moved % 8 = 0) :
    placed.From region typed cursor := by
  refine ⟨found.decoded,?_,?_⟩
  · exact Nat.le_trans (Nat.le_add_right _ _) found.reached
  · rw [found.aligned]
    omega

end PlacedEntry.From

namespace ScanRun

variable {region : Bytes} {typed : Bool} {cursor : Nat} {places : List PlacedEntry} {error : Option DecodeError}

theorem head {found : DirectoryEntry} (read : (RegionItem.decode typed cursor).run region = .ok (.entry found)) :
    (PlacedEntry.mk cursor found).From region typed cursor :=
  ⟨RegionItem.decode_entry read,Nat.le_refl _,rfl⟩

theorem placed (run : ScanRun region typed cursor places error) :
    ∀ placed ∈ places, placed.From region typed cursor := by
  induction run with
  | outside past => simp
  | sentinel inside read => simp
  | refused inside read => simp
  | unused inside read rest ih =>
    intro placed member
    obtain ⟨stated,rfl,gap⟩ := RegionItem.decode_unused read
    exact (ih placed member).earlier gap.whole
  | entry inside read rest ih =>
    intro placed member
    rcases List.mem_cons.mp member with rfl | later
    · exact head read
    · exact (ih placed later).earlier (head read).words.2

theorem rising (run : ScanRun region typed cursor places error) :
    places.Pairwise fun one other => one.offset < other.offset ∧ one.stop ≤ other.offset := by
  induction run with
  | outside past => exact .nil
  | sentinel inside read => exact .nil
  | refused inside read => exact .nil
  | unused inside read rest ih => exact ih
  | entry inside read rest ih =>
    refine .cons ?_ ih
    intro other member
    have after := (rest.placed other member).reached
    obtain ⟨long,_⟩ := (head read).words
    simp only [PlacedEntry.stop] at long ⊢
    omega

-- Each entry takes up two words at least.
theorem few (run : ScanRun region typed cursor places error) : 16 * places.length ≤ region.size - cursor := by
  induction run with
  | outside past => simp
  | sentinel inside read => simp
  | refused inside read => simp
  | unused inside read rest ih => omega
  | entry inside read rest ih =>
    obtain ⟨long,_⟩ := (head read).words
    have within := (head read).stop_le
    simp only [PlacedEntry.stop,List.length_cons] at long within ⊢
    omega

-- What has come out tells the entries from the error.
theorem results_inj {others : List PlacedEntry} {other : Option DecodeError}
    (same : places.map Except.ok ++ error.toList.map Except.error =
      others.map Except.ok ++ other.toList.map Except.error) : places = others ∧ error = other := by
  induction places generalizing others with
  | nil => cases others <;> cases error <;> cases other <;> simp_all
  | cons placed places ih =>
    cases others with
    | nil => cases other <;> simp at same
    | cons another others =>
      simp only [List.map_cons,List.cons_append,List.cons.injEq,Except.ok.injEq] at same
      obtain ⟨rest,refused⟩ := ih same.2
      exact ⟨by rw [same.1,rest],refused⟩

theorem covered {block : Bytes} {stop : Nat} (within : stop ≤ block.size)
    (run : ScanRun (block.upTo stop) typed cursor places error) :
    ∃ reached, Spaced block stop cursor places reached ∧ ScanEnd (block.upTo stop) typed reached error := by
  induction run with
  | @outside cursor past => exact ⟨cursor,.nil .nil,.outside past⟩
  | @sentinel cursor inside read => exact ⟨cursor,.nil .nil,.sentinel inside read⟩
  | @refused cursor error inside read => exact ⟨cursor,.nil .nil,.refused inside read⟩
  | unused inside read rest ih =>
    obtain ⟨reached,spaced,ended⟩ := ih
    obtain ⟨stated,rfl,gap⟩ := RegionItem.decode_unused read
    exact ⟨reached,spaced.widen (gap.inBlock within),ended⟩
  | entry inside read rest ih =>
    obtain ⟨reached,spaced,ended⟩ := ih
    exact ⟨reached,.cons .nil spaced,ended⟩

end ScanRun

-- All that can be relied on in what a scan of a block has given, whatever the block holds.
structure SoundScan (block : Bytes) (start stop : Nat) (typed : Bool) (places : List PlacedEntry)
    (error : Option DecodeError) : Prop where
  decoded : ∀ placed ∈ places, (DirectoryEntry.decode typed placed.offset).run block = .ok (some placed.entry)
  inside : ∀ placed ∈ places, start ≤ placed.offset ∧ placed.stop ≤ stop
  words : ∀ placed ∈ places, 16 ≤ placed.entry.length ∧ placed.entry.length % 8 = 0
  aligned : ∀ placed ∈ places, placed.offset % 8 = start % 8
  named : ∀ placed ∈ places, placed.entry.name ≠ []
  rising : places.Pairwise fun one other => one.offset < other.offset ∧ one.stop ≤ other.offset
  covered : ∃ reached, Spaced block stop start places reached ∧ ScanEnd (block.upTo stop) typed reached error
  few : places.length ≤ (stop - start) / 16

theorem ScanRun.sound {block : Bytes} {start stop : Nat} {typed : Bool} {places : List PlacedEntry}
    {error : Option DecodeError} (within : stop ≤ block.size)
    (run : ScanRun (block.upTo stop) typed start places error) : SoundScan block start stop typed places error := by
  have size := Bytes.size_upTo within
  refine ⟨?_,?_,?_,?_,?_,run.rising,run.covered within,?_⟩
  · intro placed member
    exact Decoder.run_take (run.placed placed member).decoded
  · intro placed member
    have found := run.placed placed member
    rw [← size]
    exact ⟨found.reached,found.stop_le⟩
  · intro placed member
    exact (run.placed placed member).words
  · intro placed member
    exact (run.placed placed member).aligned
  · intro placed member
    exact (DirectoryEntry.decode_some (run.placed placed member).decoded).1
  · have room := run.few
    rw [size] at room
    omega

theorem EntryScanner.ofBlock_upTo {block : Bytes} {start stop : Nat} (typed : Bool) (ordered : start ≤ stop)
    (within : stop ≤ block.size) : ofBlock block start stop typed = .ok ⟨block.upTo stop,start,typed,false⟩ := by
  rw [ofBlock,if_neg (by omega)]
  rfl

theorem scan_sound_on_every_block (block : Bytes) {start stop : Nat} (typed : Bool) (ordered : start ≤ stop)
    (within : stop ≤ block.size) :
    ∃ scanner places error, EntryScanner.ofBlock block start stop typed = .ok scanner ∧
      scanner.drain.1 = places.map .ok ++ error.toList.map .error ∧
      (∀ call, scanner.answer call = (places.map .ok ++ error.toList.map .error)[call]?) ∧
      SoundScan block start stop typed places error := by
  obtain ⟨places,error,run⟩ := ScanRun.runs (block.upTo stop) typed start
  have drained := EntryScanner.drain_run run
  refine ⟨_,places,error,EntryScanner.ofBlock_upTo typed ordered within,drained,?_,run.sound within⟩
  intro call
  rw [EntryScanner.answer_eq,drained]

-- An entry, unused space of eight bytes, unused space that says it is three bytes long, and behind
-- the region another entry.
def brokenBlock : Bytes :=
  #[0,0,0,0,0,0,0,131, 1,0x61,1,0,0,0,0,0, 0xFF,0xFF,0,8,0,0,0,0, 0xFF,0xFF,0,3,0,0,0,0,
    0,0,0,0,0,0,0,132, 1,0x62,1,0,0,0,0,0]

def refusedLength : DecodeError :=
  .invalidField "dup_length" "unused region length not a positive multiple of 8"

theorem brokenBlock_run :
    ScanRun (brokenBlock.upTo 32) true 0 [⟨0,[0x61],131,0,16,some .regular⟩] (some refusedLength) := by
  have skipped : (RegionItem.decode true 16).run (brokenBlock.upTo 32) = .ok (.unused 8) := rfl
  have stopped : (RegionItem.decode true 24).run (brokenBlock.upTo 32) = .error refusedLength := rfl
  exact .entry (by decide) rfl (.unused (by decide) skipped (.refused (by decide) stopped))

theorem scan_sound_on_every_block_broken :
    ∃ scanner, EntryScanner.ofBlock brokenBlock 0 32 true = .ok scanner ∧
      scanner.drain.1 = [.ok ⟨0,[0x61],131,0,16,some .regular⟩,.error refusedLength] ∧
      SoundScan brokenBlock 0 32 true [⟨0,[0x61],131,0,16,some .regular⟩] (some refusedLength) := by
  obtain ⟨scanner,places,error,begun,drained,_,sound⟩ :=
    @scan_sound_on_every_block brokenBlock 0 32 true (by decide) (by decide)
  cases begun
  have known := EntryScanner.drain_run brokenBlock_run
  obtain ⟨same,refused⟩ := ScanRun.results_inj (drained.symm.trans known)
  rw [same,refused] at sound
  exact ⟨_,rfl,known,sound⟩

end XfsReader
