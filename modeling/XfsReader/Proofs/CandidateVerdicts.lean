import XfsReader.Proofs.DirectorySegments
import XfsReader.Proofs.EntryDecoding

-- What a lookup by hash makes of one slot: it is refused for the first thing found wrong, passed over,
-- or gives the entry.
namespace XfsReader

theorem BlockSize.eight_dvd (size : BlockSize) : 8 ∣ size.bytes := by
  rw [bytes,Nat.one_shiftLeft]
  exact Nat.pow_dvd_pow 2 (Nat.le_trans (by decide : 3 ≤ 9) size.lower)

-- An address counts units of eight bytes, which no block cuts in two.
theorem LeafSlot.within_room (slot : LeafSlot) (size : BlockSize) : size.within slot.byteOffset + 8 ≤ size.bytes := by
  have short : size.within slot.byteOffset < size.bytes := Nat.mod_lt _ size.bytes_pos
  have whole : 8 ∣ size.within slot.byteOffset :=
    (Nat.dvd_mod_iff size.eight_dvd).mpr (Nat.dvd_mul_left 8 slot.address.toNat)
  exact Nat.le_of_lt_add_of_dvd (Nat.add_lt_add_right short 8) (Nat.dvd_add whole (Nat.dvd_refl 8)) size.eight_dvd

theorem LeafSlot.byteOffset_lt (slot : LeafSlot) : slot.byteOffset < leafSegmentStart := by
  have word := slot.address.toNat_lt
  unfold byteOffset leafSegmentStart gibibyte
  omega

inductive Verdict where
  | refused (error : VolumeError)
  | missed
  | hit (entry : DirectoryEntry)
deriving DecidableEq

namespace Verdict

def outcome : Verdict → Except VolumeError (Option DirectoryEntry)
  | .refused error => .error error
  | .missed => .ok none
  | .hit entry => .ok (some entry)

theorem outcome_eq_none {verdict : Verdict} : verdict.outcome = .ok none ↔ verdict = .missed := by
  cases verdict <;> simp [outcome]

-- What a candidate is to one who looks for a name.
def ofCandidate (name : Name) : Except VolumeError (Option DirectoryEntry) → Verdict
  | .error error => .refused error
  | .ok none => .missed
  | .ok (some entry) => if entry.name = name then .hit entry else .missed

end Verdict

namespace InodeFork

def slotBlock (opened : InodeFork) (slot : LeafSlot) : Nat := opened.blockSize.blockOf slot.byteOffset

def slotWithin (opened : InodeFork) (slot : LeafSlot) : Nat := opened.blockSize.within slot.byteOffset

def blockBytes (opened : InodeFork) (device : Device) (offset : Nat) : Bytes :=
  device.region offset opened.blockSize.bytes

def SlotAt (opened : InodeFork) (data : List Extent) (slot : LeafSlot) (offset : Nat) : Prop :=
  ∃ extent ∈ data, opened.BlockAt extent (opened.slotBlock slot) offset

-- The block of a slot is on the device.
structure Fetches (opened : InodeFork) (device : Device) (data : List Extent) (slot : LeafSlot) (offset : Nat) :
    Prop where
  placed : opened.SlotAt data slot offset
  named : offset + opened.blockSize.bytes < 0x10000000000000000
  inside : offset + opened.blockSize.bytes ≤ device.size

-- It is a data block by its header, undamaged, and of this directory.
structure Accepts (opened : InodeFork) (device : Device) (data : List Extent) (slot : LeafSlot) (offset : Nat)
    (header : DataHeader) : Prop extends Fetches opened device data slot offset where
  decoded : (DataHeader.decode opened.version).run (opened.blockBytes device offset) = .ok header
  intact : opened.options.verifyChecksums = true → opened.version = .v5 →
    BlockRole.dataBlock.verify (opened.blockBytes device offset) = .ok ()
  owned : opened.options.verifyOwner = true → ∀ owner, header.owner = some owner → owner = opened.inode

-- Past the header, and not in unused space.
structure Admits (opened : InodeFork) (device : Device) (data : List Extent) (slot : LeafSlot) (offset : Nat) :
    Prop where
  accepted : ∃ header, opened.Accepts device data slot offset header ∧ header.entriesOffset ≤ opened.slotWithin slot
  used : Bytes.be16 (opened.blockBytes device offset) (opened.slotWithin slot) ≠ freeTag

def nameLength (opened : InodeFork) (device : Device) (slot : LeafSlot) (offset : Nat) : UInt8 :=
  Bytes.byteAt (opened.blockBytes device offset) (opened.slotWithin slot + 8)

-- Everything that can come of a slot, in the order in which it is found out.
inductive Judged (opened : InodeFork) (device : Device) (data : List Extent) (name : Name) (slot : LeafSlot) :
    Verdict → Prop
  | unmapped (missing : ∀ extent ∈ data, ¬ extent.containsBlock (opened.slotBlock slot)) :
      Judged opened device data name slot
        (.refused (.corruption opened.position (.unmappedAddress slot.address (opened.slotBlock slot))))
  | untranslatable {extent error} (member : extent ∈ data) (held : extent.containsBlock (opened.slotBlock slot))
      (failed : opened.ag.runByteOffset extent.startBlock (opened.slotBlock slot - extent.startOffset.toNat) =
        .error error) :
      Judged opened device data name slot (.refused (.ofDecode 0 error))
  | unnamed {offset} (placed : opened.SlotAt data slot offset)
      (large : 0x10000000000000000 ≤ offset + opened.blockSize.bytes) :
      Judged opened device data name slot (.refused (.format .readRangeOverflow))
  | beyond {offset} (placed : opened.SlotAt data slot offset)
      (named : offset + opened.blockSize.bytes < 0x10000000000000000)
      (outside : device.size < offset + opened.blockSize.bytes) :
      Judged opened device data name slot
        (.refused (.truncatedRead offset opened.blockSize.bytes (device.size - offset)))
  | misread {offset error} (fetched : opened.Fetches device data slot offset)
      (failed : (DataHeader.decode opened.version).run (opened.blockBytes device offset) = .error error) :
      Judged opened device data name slot (.refused (.ofDecode offset error))
  | damaged {offset header error} (fetched : opened.Fetches device data slot offset)
      (decoded : (DataHeader.decode opened.version).run (opened.blockBytes device offset) = .ok header)
      (checked : opened.options.verifyChecksums = true) (version : opened.version = .v5)
      (failed : BlockRole.dataBlock.verify (opened.blockBytes device offset) = .error error) :
      Judged opened device data name slot (.refused (.ofDecode offset error))
  | foreign {offset header owner} (fetched : opened.Fetches device data slot offset)
      (decoded : (DataHeader.decode opened.version).run (opened.blockBytes device offset) = .ok header)
      (intact : opened.options.verifyChecksums = true → opened.version = .v5 →
        BlockRole.dataBlock.verify (opened.blockBytes device offset) = .ok ())
      (checked : opened.options.verifyOwner = true) (known : header.owner = some owner)
      (other : owner ≠ opened.inode) :
      Judged opened device data name slot (.refused (.corruption offset (.blockOwner owner opened.inode)))
  | inHeader {offset header} (accepted : opened.Accepts device data slot offset header)
      (early : opened.slotWithin slot < header.entriesOffset) :
      Judged opened device data name slot (.refused (.corruption offset (.addressInHeader slot.address)))
  | unused {offset header} (accepted : opened.Accepts device data slot offset header)
      (past : header.entriesOffset ≤ opened.slotWithin slot)
      (free : Bytes.be16 (opened.blockBytes device offset) (opened.slotWithin slot) = freeTag) :
      Judged opened device data name slot (.refused (.corruption offset (.addressUnused slot.address)))
  | headless {offset} (admitted : opened.Admits device data slot offset)
      (last : opened.slotWithin slot + 8 = opened.blockSize.bytes) :
      Judged opened device data name slot
        (.refused (.corruption offset (.decode (.insufficientData 1 opened.blockSize.bytes 0))))
  | cut {offset length} (admitted : opened.Admits device data slot offset)
      (room : opened.slotWithin slot + 8 < opened.blockSize.bytes) (named : opened.nameLength device slot offset ≠ 0)
      (span : DirectoryEntry.span (opened.nameLength device slot offset).toNat opened.typed = length)
      (long : opened.blockSize.bytes < opened.slotWithin slot + length) :
      Judged opened device data name slot
        (.refused (.corruption offset (.decode
          (.insufficientData length (opened.slotWithin slot) (opened.blockSize.bytes - opened.slotWithin slot)))))
  | sentinel {offset} (admitted : opened.Admits device data slot offset)
      (room : opened.slotWithin slot + 8 < opened.blockSize.bytes)
      (empty : opened.nameLength device slot offset = 0) :
      Judged opened device data name slot .missed
  | other {offset entry} (admitted : opened.Admits device data slot offset)
      (decoded : (DirectoryEntry.decode opened.typed (opened.slotWithin slot)).run (opened.blockBytes device offset) =
        .ok (some entry)) (different : entry.name ≠ name) :
      Judged opened device data name slot .missed
  | same {offset entry} (admitted : opened.Admits device data slot offset)
      (decoded : (DirectoryEntry.decode opened.typed (opened.slotWithin slot)).run (opened.blockBytes device offset) =
        .ok (some entry)) (equal : entry.name = name) :
      Judged opened device data name slot (.hit entry)

-- The verdict as a lookup comes to it.
def verdict (opened : InodeFork) (device : Device) (data : List Extent) (name : Name) (slot : LeafSlot) : Verdict :=
  .ofCandidate name ((opened.candidate data slot).eval device)

section Slot

variable {opened : InodeFork} {device : Device} {data : List Extent} {name : Name} {slot : LeafSlot} {extent : Extent}
  {offset : Nat} {header : DataHeader}

theorem size_blockBytes (opened : InodeFork) (device : Device) (offset : Nat) :
    (opened.blockBytes device offset).size = opened.blockSize.bytes := Device.size_region _ _ _

theorem candidate_unmapped (missing : ∀ extent ∈ data, ¬ extent.containsBlock (opened.slotBlock slot)) :
    (opened.candidate data slot).eval device =
      .error (.corruption opened.position (.unmappedAddress slot.address (opened.slotBlock slot))) := by
  have sought := Extent.findBlock?_eq_none.mpr missing
  rw [slotBlock] at sought
  rw [candidate,logicalOffset,sought]
  rfl

theorem candidate_held (ordered : Ordered data) (member : extent ∈ data)
    (held : extent.containsBlock (opened.slotBlock slot)) :
    (opened.candidate data slot).eval device =
      (located 0 (opened.ag.runByteOffset extent.startBlock (opened.slotBlock slot - extent.startOffset.toNat))).bind
        fun offset => (device.read offset opened.blockSize.bytes).bind
          fun block => opened.examineCandidate slot.address (opened.slotWithin slot) offset block := by
  have sought := ordered.findBlock?_eq member held
  unfold slotBlock at sought ⊢
  rw [candidate,logicalOffset,sought]
  dsimp only [runOffset]
  cases opened.ag.runByteOffset extent.startBlock (opened.blockSize.blockOf slot.byteOffset - extent.startOffset.toNat) with
  | error error => rfl
  | ok offset =>
    change ((readBlock opened .dataBlock offset) >>= fun bytes => Traversal.ofExcept _).eval device = _
    simp only [Traversal.eval_bind,readBlock,Traversal.eval_request,Traversal.eval_ofExcept]
    rfl

theorem SlotAt.candidate (ordered : Ordered data) (placed : opened.SlotAt data slot offset) :
    (opened.candidate data slot).eval device = (device.read offset opened.blockSize.bytes).bind
      fun block => opened.examineCandidate slot.address (opened.slotWithin slot) offset block := by
  obtain ⟨extent,member,held,translated⟩ := placed
  rw [candidate_held ordered member held,translated]
  rfl

theorem Fetches.candidate (ordered : Ordered data) (fetched : opened.Fetches device data slot offset) :
    (opened.candidate data slot).eval device =
      opened.examineCandidate slot.address (opened.slotWithin slot) offset (opened.blockBytes device offset) := by
  have read : device.read offset opened.blockSize.bytes = .ok (opened.blockBytes device offset) :=
    Device.read_eq_ok.mpr ⟨fit64?_eq_some.mpr ⟨fetched.named,rfl⟩,fetched.inside,rfl⟩
  rw [fetched.placed.candidate ordered,read]
  rfl

theorem Fetches.candidate_refused {error : VolumeError} (ordered : Ordered data)
    (fetched : opened.Fetches device data slot offset)
    (refused : opened.examineDataHeader offset (opened.blockBytes device offset) = .error error) :
    (opened.candidate data slot).eval device = .error error := by
  rw [fetched.candidate ordered,examineCandidate,refused]
  rfl

section Header

variable {block : Bytes}

theorem examineDataHeader_misread {error : DecodeError} (offset : Nat)
    (failed : (DataHeader.decode opened.version).run block = .error error) :
    opened.examineDataHeader offset block = .error (.ofDecode offset error) := by
  rw [examineDataHeader,failed]
  rfl

theorem examineDataHeader_decoded (offset : Nat) (decoded : (DataHeader.decode opened.version).run block = .ok header) :
    opened.examineDataHeader offset block = opened.checkSeal .dataBlock offset block >>= fun _ =>
      opened.checkOwner .blockOwner offset header.owner >>= fun _ => .ok header := by
  rw [examineDataHeader,decoded]
  rfl

end Header

theorem Accepts.examined (accepted : opened.Accepts device data slot offset header) :
    opened.examineDataHeader offset (opened.blockBytes device offset) = .ok header := by
  rw [examineDataHeader_decoded offset accepted.decoded,checkSeal_eq_ok.mpr accepted.intact]
  change (opened.checkOwner .blockOwner offset _ >>= _) = _
  rw [checkOwner_eq_ok.mpr accepted.owned]
  rfl

theorem Accepts.candidate_inHeader (ordered : Ordered data) (accepted : opened.Accepts device data slot offset header)
    (early : opened.slotWithin slot < header.entriesOffset) :
    (opened.candidate data slot).eval device = .error (.corruption offset (.addressInHeader slot.address)) := by
  rw [accepted.toFetches.candidate ordered,examineCandidate,accepted.examined]
  exact if_pos early

theorem Accepts.candidate_past (ordered : Ordered data) (accepted : opened.Accepts device data slot offset header)
    (past : header.entriesOffset ≤ opened.slotWithin slot) :
    (opened.candidate data slot).eval device =
      if Bytes.be16 (opened.blockBytes device offset) (opened.slotWithin slot) = freeTag then
        .error (.corruption offset (.addressUnused slot.address))
      else located offset
        ((DirectoryEntry.decode opened.typed (opened.slotWithin slot)).run (opened.blockBytes device offset)) := by
  have eight : opened.slotWithin slot + 8 ≤ opened.blockSize.bytes := slot.within_room opened.blockSize
  have most := opened.blockSize.bytes_le
  have room : opened.slotWithin slot + 2 ≤ (opened.blockBytes device offset).size := by
    rw [size_blockBytes]
    omega
  rw [accepted.toFetches.candidate ordered,examineCandidate,accepted.examined]
  change (if opened.slotWithin slot < header.entriesOffset then _ else _) = _
  rw [if_neg (Nat.not_lt.mpr past),Decoder.run_be16 (by omega) room]
  rfl

theorem Admits.candidate (ordered : Ordered data) (admitted : opened.Admits device data slot offset) :
    (opened.candidate data slot).eval device = located offset
      ((DirectoryEntry.decode opened.typed (opened.slotWithin slot)).run (opened.blockBytes device offset)) := by
  obtain ⟨header,accepted,past⟩ := admitted.accepted
  rw [accepted.candidate_past ordered past,if_neg admitted.used]

theorem small_blockBytes : (opened.blockBytes device offset).size < 0xFFFFFFFFFFFF0000 := by
  rw [size_blockBytes]
  exact Nat.lt_of_le_of_lt opened.blockSize.bytes_le (by decide)

-- Each thing that can come of a slot is what a lookup makes of it.
theorem Judged.verdict_eq {verdict : Verdict} (ordered : Ordered data)
    (judged : opened.Judged device data name slot verdict) : opened.verdict device data name slot = verdict := by
  unfold InodeFork.verdict
  cases judged with
  | unmapped missing =>
    rw [candidate_unmapped missing]
    rfl
  | untranslatable member held failed =>
    rw [candidate_held ordered member held,failed]
    rfl
  | unnamed placed large =>
    rw [placed.candidate ordered,Device.read,fit64?_eq_none.mpr large]
    rfl
  | beyond placed named outside =>
    rw [placed.candidate ordered,Device.read,fit64?_eq_some.mpr ⟨named,rfl⟩]
    dsimp only
    rw [if_pos outside]
    rfl
  | misread fetched failed =>
    rw [fetched.candidate_refused ordered (examineDataHeader_misread _ failed)]
    rfl
  | @damaged offset header error fetched decoded checked version failed =>
    have refused : opened.examineDataHeader offset (opened.blockBytes device offset) = .error (.ofDecode offset error) := by
      rw [examineDataHeader_decoded offset decoded,checkSeal_eq_error.mpr ⟨checked,version,_,failed,rfl⟩]
      rfl
    rw [fetched.candidate_refused ordered refused]
    rfl
  | @foreign offset header owner fetched decoded intact checked known other =>
    have refused : opened.examineDataHeader offset (opened.blockBytes device offset) =
        .error (.corruption offset (.blockOwner owner opened.inode)) := by
      rw [examineDataHeader_decoded offset decoded,checkSeal_eq_ok.mpr intact]
      change (opened.checkOwner .blockOwner offset _ >>= _) = _
      rw [checkOwner_eq_error.mpr ⟨checked,owner,known,other,rfl⟩]
      rfl
    rw [fetched.candidate_refused ordered refused]
    rfl
  | inHeader accepted early =>
    rw [accepted.candidate_inHeader ordered early]
    rfl
  | unused accepted past free =>
    rw [accepted.candidate_past ordered past,if_pos free]
    rfl
  | @headless offset admitted last =>
    rw [← opened.size_blockBytes device offset] at last ⊢
    rw [admitted.candidate ordered,DirectoryEntry.decode_headless last (Nat.lt_trans small_blockBytes (by decide))]
    rfl
  | @cut offset length admitted room named span long =>
    rw [← opened.size_blockBytes device offset] at room long ⊢
    subst span
    rw [admitted.candidate ordered,DirectoryEntry.decode_cut room small_blockBytes named long]
    rfl
  | @sentinel offset admitted room empty =>
    rw [← opened.size_blockBytes device offset] at room
    rw [admitted.candidate ordered,
      DirectoryEntry.decode_sentinel room (Nat.lt_trans small_blockBytes (by decide)) empty]
    rfl
  | other admitted decoded different =>
    rw [admitted.candidate ordered,decoded]
    exact if_neg different
  | same admitted decoded equal =>
    rw [admitted.candidate ordered,decoded]
    exact if_pos equal

-- And there is always one, by going through the checks one after another.
theorem Admits.judged (name : Name) (admitted : opened.Admits device data slot offset) :
    ∃ verdict, opened.Judged device data name slot verdict := by
  rcases Nat.lt_or_eq_of_le (slot.within_room opened.blockSize) with room | last
  · by_cases empty : opened.nameLength device slot offset = 0
    · exact ⟨_,.sentinel admitted room empty⟩
    · rcases Nat.lt_or_ge opened.blockSize.bytes (opened.slotWithin slot +
        DirectoryEntry.span (opened.nameLength device slot offset).toNat opened.typed) with long | inside
      · exact ⟨_,.cut admitted room empty rfl long⟩
      · rw [← opened.size_blockBytes device offset] at inside
        obtain ⟨entry,decoded⟩ :=
          DirectoryEntry.decode_whole empty inside (Nat.lt_trans small_blockBytes (by decide))
        by_cases equal : entry.name = name
        · exact ⟨_,.same admitted decoded equal⟩
        · exact ⟨_,.other admitted decoded equal⟩
  · exact ⟨_,.headless admitted last⟩

theorem Accepts.judged (name : Name) (accepted : opened.Accepts device data slot offset header) :
    ∃ verdict, opened.Judged device data name slot verdict := by
  rcases Nat.lt_or_ge (opened.slotWithin slot) header.entriesOffset with early | past
  · exact ⟨_,.inHeader accepted early⟩
  · by_cases free : Bytes.be16 (opened.blockBytes device offset) (opened.slotWithin slot) = freeTag
    · exact ⟨_,.unused accepted past free⟩
    · exact Admits.judged name ⟨⟨header,accepted,past⟩,free⟩

theorem Fetches.judged (name : Name) (fetched : opened.Fetches device data slot offset) :
    ∃ verdict, opened.Judged device data name slot verdict := by
  cases decoded : (DataHeader.decode opened.version).run (opened.blockBytes device offset) with
  | error error => exact ⟨_,.misread fetched decoded⟩
  | ok header =>
    cases sealed : opened.checkSeal .dataBlock offset (opened.blockBytes device offset) with
    | error error =>
      obtain ⟨checked,version,broken,failed,_⟩ := checkSeal_eq_error.mp sealed
      exact ⟨_,.damaged fetched decoded checked version failed⟩
    | ok _ =>
      have intact := checkSeal_eq_ok.mp sealed
      cases owned : opened.checkOwner .blockOwner offset header.owner with
      | error error =>
        obtain ⟨checked,owner,known,other,_⟩ := checkOwner_eq_error.mp owned
        exact ⟨_,.foreign fetched decoded intact checked known other⟩
      | ok _ => exact Accepts.judged name ⟨fetched,decoded,intact,checkOwner_eq_ok.mp owned⟩

theorem SlotAt.judged (device : Device) (name : Name) (placed : opened.SlotAt data slot offset) :
    ∃ verdict, opened.Judged device data name slot verdict := by
  rcases Nat.lt_or_ge (offset + opened.blockSize.bytes) 0x10000000000000000 with named | large
  · rcases Nat.lt_or_ge device.size (offset + opened.blockSize.bytes) with outside | inside
    · exact ⟨_,.beyond placed named outside⟩
    · exact Fetches.judged name ⟨placed,named,inside⟩
  · exact ⟨_,.unnamed placed large⟩

theorem judged_total (opened : InodeFork) (device : Device) (data : List Extent) (name : Name) (slot : LeafSlot) :
    ∃ verdict, opened.Judged device data name slot verdict := by
  cases sought : Extent.findBlock? data (opened.slotBlock slot) with
  | none => exact ⟨_,.unmapped (Extent.findBlock?_eq_none.mp sought)⟩
  | some extent =>
    have member := List.mem_of_find?_eq_some sought
    have held : extent.containsBlock (opened.slotBlock slot) := by simpa using List.find?_some sought
    cases translated : opened.ag.runByteOffset extent.startBlock
        (opened.slotBlock slot - extent.startOffset.toNat) with
    | error error => exact ⟨_,.untranslatable member held translated⟩
    | ok offset => exact SlotAt.judged device name ⟨extent,member,held,translated⟩

theorem judged_iff {verdict : Verdict} (ordered : Ordered data) :
    opened.Judged device data name slot verdict ↔ opened.verdict device data name slot = verdict := by
  constructor
  · exact Judged.verdict_eq ordered
  · rintro rfl
    obtain ⟨verdict,judged⟩ := opened.judged_total device data name slot
    rw [judged.verdict_eq ordered]
    exact judged

end Slot

end InodeFork
end XfsReader
