import XfsReader.Proofs.BlockHeaders
import XfsReader.Proofs.DecoderReach
import XfsReader.Proofs.DirectoryBlocks
import XfsReader.Proofs.ScanRuns
import XfsReader.Proofs.Seals

-- A block that keeps its own leaf slots. How many there are is read at its very end and not to be trusted:
-- either they fit behind the header, and then the entries end where they begin, or the block is refused.
-- A scan of the entries never sees them.
namespace XfsReader

variable {block other : Bytes}

namespace LeafSlot

theorem holds_ofRecord {place : Nat} (inside : place + size ≤ block.size) :
    block.Holds place (ofRecord (Bytes.part block place size)).encode := by
  rw [size] at inside
  have second : block.Holds (place + 4) (word32 (Bytes.be32 block (place + 4))) := Bytes.holds_be32 (by omega)
  rw [ofRecord_part]
  exact Bytes.holds_append.mpr ⟨Bytes.holds_be32 (by omega),second⟩

-- Slots are read off as they stand, one behind the other and none left out.
theorem decodeList_held {offset count : Nat} (inside : offset + count * size ≤ block.size)
    (small : block.size < 0x10000000000000000) :
    ∃ slots, (decodeList offset count).run block = .ok slots ∧ slots.length = count ∧
      block.Holds offset (slots.flatMap encode) := by
  have long : ((Bytes.chunks (Bytes.part block offset (count * size)) size count).map ofRecord).length = count := by
    simp [Bytes.chunks]
  have fits : fit64? (count * size) = some (count * size) := fit64?_eq_some.mpr ⟨by omega,rfl⟩
  have taken : (decodeList offset count).run block =
      .ok ((Bytes.chunks (Bytes.part block offset (count * size)) size count).map ofRecord) := by
    rw [decodeList,fits]
    exact Decoder.run_slice_inside (Nat.lt_of_le_of_lt inside small) inside
  refine ⟨_,taken,long,?_⟩
  refine Bytes.holds_items length_encode (by rw [long,Nat.mul_comm]; exact inside) fun index below => ?_
  rw [long] at below
  have room : size * index + size ≤ count * size := by
    rw [← Nat.mul_succ,Nat.mul_comm count]
    exact Nat.mul_le_mul_left size below
  simp only [Bytes.chunks,List.getElem_map,List.getElem_range,Bytes.part_part room]
  exact holds_ofRecord (by omega)

end LeafSlot

namespace BlockTail

def overfull : DecodeError := .invalidField "block_tail_count" "leaf entries overlap the block header"

theorem decode_run (room : size ≤ block.size) (small : block.size < 0x10000000000000000) :
    decode block = .ok ⟨Bytes.be32 block (block.size - size),Bytes.be32 block (block.size - size + 4)⟩ := by
  have wide : size = 8 := rfl
  have start : minus? block.size size = some (block.size - size) := minus?_eq_some.mpr (Nat.sub_add_cancel room)
  rw [decode,start]
  refine Decoder.run_bind_eq_ok.mpr ⟨_,Decoder.run_be32 (by omega) (by omega),?_⟩
  exact Decoder.run_bind_eq_ok.mpr ⟨_,Decoder.run_be32 (by omega) (by omega),rfl⟩

variable {tail : BlockTail} {length start stop : Nat}

theorem count_fits (tail : BlockTail) : fit64? tail.count.toNat = some tail.count.toNat := by
  have few := tail.count.toNat_lt
  exact fit64?_eq_some.mpr ⟨by omega,rfl⟩

-- Slots of any count can be counted in bytes, so that exit is never taken.
theorem slotBytes?_eq (tail : BlockTail) : tail.slotBytes? = some (8 * tail.count.toNat) := by
  have few := tail.count.toNat_lt
  rw [slotBytes?,tail.count_fits]
  exact fit64?_eq_some.mpr ⟨by rw [LeafSlot.size]; omega,Nat.mul_comm _ _⟩

-- Two steps back from the end, neither of which may leave the block, and not past the start.
theorem steps_back {slotBytes : Nat} :
    ((minus? length size).bind fun stop => minus? stop slotBytes).filter (start ≤ ·) = some stop ↔
      stop + slotBytes + 8 = length ∧ start ≤ stop := by
  simp only [Option.filter_eq_some_iff,Option.bind_eq_some_iff,minus?_eq_some,decide_eq_true_eq]
  constructor
  · rintro ⟨⟨middle,whole,rfl⟩,ordered⟩
    exact ⟨whole,ordered⟩
  · rintro ⟨whole,ordered⟩
    exact ⟨⟨_,whole,rfl⟩,ordered⟩

theorem dataEnd_eq_ok : tail.dataEnd length start = .ok stop ↔
    start + 8 * tail.count.toNat + 8 ≤ length ∧ stop + 8 * tail.count.toNat + 8 = length := by
  have ended : tail.dataEnd length start = .ok stop ↔ stop + 8 * tail.count.toNat + 8 = length ∧ start ≤ stop := by
    rw [← steps_back,dataEnd,tail.slotBytes?_eq]
    dsimp only
    split <;> simp [*]
  rw [ended]
  omega

theorem dataEnd_overfull (short : length < start + 8 * tail.count.toNat + 8) :
    tail.dataEnd length start = .error overfull := by
  have beyond : ((minus? length size).bind fun stop => minus? stop (8 * tail.count.toNat)).filter (start ≤ ·) = none := by
    apply Option.eq_none_iff_forall_ne_some.mpr
    intro stop stepped
    have whole := steps_back.mp stepped
    omega
  rw [dataEnd,tail.slotBytes?_eq]
  dsimp only
  rw [beyond]
  rfl

theorem slots_held (ended : tail.dataEnd block.size start = .ok stop) (small : block.size < 0x10000000000000000) :
    ∃ slots, tail.slots block start = .ok slots ∧ slots.length = tail.count.toNat ∧
      block.Holds stop (slots.flatMap LeafSlot.encode) := by
  obtain ⟨_,filled⟩ := dataEnd_eq_ok.mp ended
  rw [BlockTail.slots,ended,tail.count_fits]
  exact LeafSlot.decodeList_held (by rw [LeafSlot.size]; omega) small

end BlockTail

theorem Bytes.SameOutside.upTo {start width stop : Nat} (same : block.SameOutside start width other)
    (before : stop ≤ start) : other.upTo stop = block.upTo stop := by
  have front := congrArg (List.take stop) same.before
  rw [List.take_take,List.take_take,Nat.min_eq_left before] at front
  rw [Bytes.upTo,Bytes.upTo,front]

namespace DataHeader

variable {header : DataHeader} {version : FormatVersion} {stop : Nat} {typed : Bool}

theorem decode_version (decoded : (decode version).run block = .ok header) : header.version = version := by
  obtain ⟨_,owned⟩ := decode_fields decoded
  rw [owner] at owned
  rw [DataHeader.version]
  cases present : header.description with
  | none =>
    rw [present] at owned
    exact Eq.symm owned
  | some description =>
    rw [present] at owned
    exact owned.1.symm

theorem entriesOffset_le (decoded : (decode version).run block = .ok header) : header.entriesOffset ≤ block.size := by
  have reached := (decode_ends version).reach decoded
  rw [Nat.zero_max] at reached
  rw [entriesOffset,decode_version decoded,← reached]
  exact Decoder.reach_le decoded

theorem size_le_entriesOffset (header : DataHeader) : BlockTail.size ≤ header.entriesOffset := by
  rw [entriesOffset]
  cases header.version <;> decide

-- Bytes behind the header do not matter to it.
theorem decode_upTo (decoded : (decode version).run block = .ok header) (long : header.entriesOffset ≤ stop)
    (within : stop ≤ block.size) (same : other.upTo stop = block.upTo stop) :
    (decode version).run other = .ok header := by
  have reached := (decode_ends version).reach decoded
  rw [Nat.zero_max] at reached
  rw [entriesOffset,decode_version decoded,← reached] at long
  refine Decoder.run_of_take decoded long within (Array.ext' ?_)
  have listed := congrArg Array.toList same
  simpa [Bytes.upTo] using listed

theorem dataEnd_multi (multi : header.form = .multi) : header.dataEnd block = .ok block.size := by
  rw [dataEnd,multi]

theorem dataEnd_single (single : header.form = .single) {tail : BlockTail} (counted : BlockTail.decode block = .ok tail) :
    header.dataEnd block = tail.dataEnd block.size header.entriesOffset := by
  rw [dataEnd,single]
  simp only [counted]

theorem decode_tail (decoded : (decode version).run block = .ok header) (small : block.size < 0x10000000000000000) :
    BlockTail.decode block = .ok ⟨Bytes.be32 block (block.size - 8),Bytes.be32 block (block.size - 8 + 4)⟩ :=
  BlockTail.decode_run (Nat.le_trans header.size_le_entriesOffset (entriesOffset_le decoded)) small

-- Whatever a block says, its entries end between its header and its own end.
theorem dataEnd_within (decoded : (decode version).run block = .ok header) (small : block.size < 0x10000000000000000)
    (ended : header.dataEnd block = .ok stop) : header.entriesOffset ≤ stop ∧ stop ≤ block.size := by
  cases kind : header.form with
  | multi =>
    rw [dataEnd_multi kind] at ended
    cases ended
    exact ⟨entriesOffset_le decoded,Nat.le_refl _⟩
  | single =>
    rw [dataEnd_single kind (decode_tail decoded small)] at ended
    obtain ⟨room,filled⟩ := BlockTail.dataEnd_eq_ok.mp ended
    omega

theorem scan_eq_ok (ended : header.dataEnd block = .ok stop) (ordered : header.entriesOffset ≤ stop)
    (within : stop ≤ block.size) : header.scan block typed = .ok ⟨block.upTo stop,header.entriesOffset,typed,false⟩ := by
  rw [scan,ended]
  exact EntryScanner.ofBlock_upTo typed ordered within

theorem scan_eq_error {error : DecodeError} (refused : header.dataEnd block = .error error) :
    header.scan block typed = .error error := by
  rw [scan,refused]

-- Behind the entries, other bytes make no difference, as long as the count is not among them.
theorem dataEnd_sameOutside (decoded : (decode version).run block = .ok header) (small : block.size < 0x10000000000000000)
    (single : header.form = .single) (ended : header.dataEnd block = .ok stop) {start width : Nat}
    (same : block.SameOutside start width other) (behind : stop ≤ start)
    (beside : start + width ≤ block.size - 8 ∨ block.size - 8 + 4 ≤ start) :
    (decode version).run other = .ok header ∧ header.dataEnd other = .ok stop ∧ other.upTo stop = block.upTo stop := by
  obtain ⟨ordered,within⟩ := dataEnd_within decoded small ended
  have front := same.upTo behind
  have again := decode_upTo decoded ordered within front
  have count : Bytes.be32 other (other.size - 8) = Bytes.be32 block (block.size - 8) := by
    rw [Bytes.be32,same.size,same.part beside,Bytes.be32]
  refine ⟨again,?_,front⟩
  rw [dataEnd_single single (decode_tail decoded small)] at ended
  rw [dataEnd_single single (decode_tail again (same.size ▸ small))]
  apply BlockTail.dataEnd_eq_ok.mpr
  rw [count,same.size]
  exact BlockTail.dataEnd_eq_ok.mp ended

-- A block of which the entries end where its slots begin, and these where its tail does.
structure Parted (header : DataHeader) (tail : BlockTail) (block : Bytes) (stop : Nat) : Prop where
  ended : header.dataEnd block = .ok stop
  filled : stop + 8 * tail.count.toNat + 8 = block.size
  slots : ∃ slots, tail.slots block header.entriesOffset = .ok slots ∧ slots.length = tail.count.toNat ∧
    block.Holds stop (slots.flatMap LeafSlot.encode)
  unseen : ∀ refilled other, block.SameOutside stop (8 * tail.count.toNat) refilled →
    refilled.SameOutside (block.size - 4) 4 other →
      (decode header.version).run other = .ok header ∧ ∀ typed, header.scan other typed = header.scan block typed

theorem parted (decoded : (decode version).run block = .ok header) (small : block.size < 0x10000000000000000)
    (single : header.form = .single) {tail : BlockTail} (counted : BlockTail.decode block = .ok tail)
    (ended : header.dataEnd block = .ok stop) : header.Parted tail block stop := by
  obtain ⟨ordered,within⟩ := dataEnd_within decoded small ended
  have tailed := ended
  rw [dataEnd_single single counted] at tailed
  obtain ⟨_,filled⟩ := BlockTail.dataEnd_eq_ok.mp tailed
  refine ⟨ended,filled,BlockTail.slots_held tailed small,?_⟩
  intro refilled other slots stale
  obtain ⟨decodedFirst,endedFirst,front⟩ :=
    dataEnd_sameOutside decoded small single ended slots (Nat.le_refl _) (.inl (by omega))
  have size := slots.size
  obtain ⟨decodedThen,endedThen,frontThen⟩ :=
    dataEnd_sameOutside decodedFirst (size.symm ▸ small) single endedFirst stale (by omega) (.inr (by omega))
  have withinThen : stop ≤ other.size := by rwa [stale.size,size]
  rw [decode_version decoded]
  refine ⟨decodedThen,fun typed => ?_⟩
  rw [scan_eq_ok endedThen ordered withinThen,scan_eq_ok ended ordered within,frontThen,front]

-- The scan of a block begins unless the end of its entries is refused, and entries are then looked for
-- between the header and that end alone. In a block that keeps its own slots, the end is as far before the
-- tail as the count says, or refused, if that were inside the header.
theorem entries_and_slots_apart (decoded : (decode version).run block = .ok header)
    (small : block.size < 0x10000000000000000) :
    (∀ typed, (∃ scanner, header.scan block typed = .ok scanner) ↔ ∃ stop, header.dataEnd block = .ok stop) ∧
    (∀ typed error, header.scan block typed = .error error → header.dataEnd block = .error error) ∧
    (∀ stop, header.dataEnd block = .ok stop → header.entriesOffset ≤ stop ∧ stop ≤ block.size) ∧
    (header.form = .multi → header.dataEnd block = .ok block.size) ∧
    (header.form = .single → ∃ tail, BlockTail.decode block = .ok tail ∧
      (header.entriesOffset + 8 * tail.count.toNat + 8 ≤ block.size → ∃ stop, header.Parted tail block stop) ∧
      (block.size < header.entriesOffset + 8 * tail.count.toNat + 8 →
        header.dataEnd block = .error BlockTail.overfull)) := by
  have begins {stop : Nat} (typed : Bool) (ended : header.dataEnd block = .ok stop) :
      header.scan block typed = .ok ⟨block.upTo stop,header.entriesOffset,typed,false⟩ := by
    obtain ⟨ordered,within⟩ := dataEnd_within decoded small ended
    exact scan_eq_ok ended ordered within
  refine ⟨?begun,?refused,fun stop ended => dataEnd_within decoded small ended,dataEnd_multi,?single⟩
  case begun =>
    intro typed
    cases ended : header.dataEnd block with
    | error error => simp [scan_eq_error ended]
    | ok stop => simp [begins typed ended]
  case refused =>
    intro typed error failed
    cases ended : header.dataEnd block with
    | error other =>
      rw [scan_eq_error ended] at failed
      cases failed
      rfl
    | ok stop =>
      rw [begins typed ended] at failed
      cases failed
  case single =>
    intro single
    obtain ⟨tail,counted⟩ : ∃ tail, BlockTail.decode block = .ok tail := ⟨_,decode_tail decoded small⟩
    refine ⟨tail,counted,?room,?short⟩
    case room =>
      intro room
      refine ⟨block.size - (8 * tail.count.toNat + 8),parted decoded small single counted ?_⟩
      rw [dataEnd_single single counted]
      exact BlockTail.dataEnd_eq_ok.mpr ⟨room,by omega⟩
    case short =>
      intro short
      rw [dataEnd_single single counted]
      exact BlockTail.dataEnd_overfull short

-- A block with one entry and two slots, one of them stale; other slots and another number of stale ones in
-- their place; and the same block with a count that does not fit.
def slottedHeader : DataHeader := ⟨.single,(⟨0,0⟩,⟨0,0⟩,⟨0,0⟩),none⟩

def slottedFront : List UInt8 := slottedHeader.encode ++ [0,0,0,0,0,0,0,133, 1,0x64,0,0,0,0,0,16]

def slottedBlock : Bytes := (slottedFront ++ [0,0,0,0x64,0,0,0,2, 0,0,0,0x65,0,0,0,0, 0,0,0,2,0,0,0,1]).toArray

def refilledBlock : Bytes := slottedBlock.overwritten 32 (List.replicate 16 0xEE)

def restaledBlock : Bytes := refilledBlock.overwritten 52 [0xFF,0xFF,0xFF,0xFF]

def overfullBlock : Bytes := slottedBlock.overwritten 48 [0xFF,0xFF,0xFF,0xFF]

theorem entries_and_slots_apart_refilled :
    (decode .v4).run slottedBlock = .ok slottedHeader ∧ slottedBlock.size = 56 ∧ slottedHeader.Parted ⟨2,1⟩ slottedBlock 32 ∧
      (∀ typed, slottedHeader.scan restaledBlock typed = slottedHeader.scan slottedBlock typed) ∧
      (decode .v4).run overfullBlock = .ok slottedHeader ∧
      slottedHeader.dataEnd overfullBlock = .error BlockTail.overfull := by
  have decoded : (decode .v4).run slottedBlock = .ok slottedHeader := by decide +kernel
  have overDecoded : (decode .v4).run overfullBlock = .ok slottedHeader := by decide +kernel
  have counted : BlockTail.decode slottedBlock = .ok ⟨2,1⟩ := by decide +kernel
  have overCounted : BlockTail.decode overfullBlock = .ok ⟨0xFFFFFFFF,1⟩ := by decide +kernel
  obtain ⟨_,_,_,_,own⟩ := entries_and_slots_apart decoded (by decide)
  obtain ⟨_,_,_,_,full⟩ := entries_and_slots_apart overDecoded (by decide)
  obtain ⟨tail,found,fits,_⟩ := own rfl
  obtain rfl : ⟨2,1⟩ = tail := Except.ok.inj (counted.symm.trans found)
  obtain ⟨stop,parted⟩ := fits (by decide)
  obtain rfl : stop = 32 := Nat.add_right_cancel (Nat.add_right_cancel parted.filled)
  obtain ⟨most,overFound,_,refused⟩ := full rfl
  obtain rfl : ⟨0xFFFFFFFF,1⟩ = most := Except.ok.inj (overCounted.symm.trans overFound)
  have refilled : slottedBlock.SameOutside 32 16 refilledBlock :=
    Bytes.sameOutside_overwritten (show 32 + (List.replicate 16 (0xEE : UInt8)).length ≤ slottedBlock.size by decide)
  have restaled : refilledBlock.SameOutside 52 4 restaledBlock :=
    Bytes.sameOutside_overwritten (show 52 + ([0xFF,0xFF,0xFF,0xFF] : List UInt8).length ≤ refilledBlock.size by decide)
  exact ⟨decoded,by decide,parted,(parted.unseen _ _ refilled restaled).2,overDecoded,refused (by decide)⟩

end DataHeader
end XfsReader
