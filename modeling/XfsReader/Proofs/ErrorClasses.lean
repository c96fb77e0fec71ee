import XfsReader.Proofs.ReadSites

-- Whatever a device holds, a traversal of it that fails says that the data is damaged or of a kind
-- that is not read. There is one exception: a block that would end exactly where 64-bit offsets do
-- is asked for like any other, and the range of that read is refused as the caller's mistake.
namespace XfsReader

def VolumeError.Classified (error : VolumeError) : Prop := error.isCorruption ∨ error.isUnsupported

theorem VolumeError.ofDecode_classifies (offset : Nat) (error : DecodeError) : (ofDecode offset error).Classified :=
  Bool.or_eq_true_iff.mp (ofDecode_classified offset error)

-- What a result may fail with is of one of the two kinds.
def Classified (result : Except VolumeError α) : Prop := ∀ error, result = .error error → error.Classified

namespace Classified

theorem ok (value : α) : Classified (.ok value) := fun _ absurd => (nomatch absurd)

theorem failed {error : VolumeError} (known : error.Classified) : Classified (.error error : Except VolumeError α) := by
  intro other same
  cases same
  exact known

theorem corruption (offset : Nat) (cause : Cause) : Classified (.error (.corruption offset cause) : Except VolumeError α) :=
  failed (.inl rfl)

theorem located (offset : Nat) (result : Except DecodeError α) : Classified (located offset result) := by
  cases result with
  | ok value => exact ok value
  | error failure => exact failed (VolumeError.ofDecode_classifies offset failure)

theorem bind {result : Except VolumeError α} {next : α → Except VolumeError β} (first : Classified result)
    (later : ∀ value, Classified (next value)) : Classified (result >>= next) := by
  cases result with
  | ok value => exact later value
  | error failure => exact failed (first failure rfl)

theorem map {result : Except VolumeError α} (first : Classified result) (change : α → β) :
    Classified (result.map change) := by
  cases result with
  | ok value => exact ok (change value)
  | error failure => exact failed (first failure rfl)

end Classified

namespace Traversal

-- Every error with which the traversal itself can end, whatever its reads are answered.
def Classifies : Traversal α → Prop
  | .done _ => True
  | .fail error => error.Classified
  | .read _ next => ∀ found, (next found).Classifies
  | .warn _ next => next.Classifies

theorem Classifies.bind {traversal : Traversal α} {next : α → Traversal β} (first : traversal.Classifies)
    (later : ∀ value, (next value).Classifies) : (traversal >>= next).Classifies := by
  change (traversal.bind next).Classifies
  induction traversal with
  | done value => exact later value
  | fail error => exact first
  | read request rest ih => intro found; exact ih found (first found)
  | warn warning rest ih => exact ih first

theorem ofExcept_classifies {result : Except VolumeError α} (known : Classified result) :
    (ofExcept result).Classifies := by
  cases result with
  | ok value => trivial
  | error error => exact known error rfl

theorem request_classifies (role : Option BlockRole) (offset length : Nat) :
    (request role offset length).Classifies :=
  fun _ => trivial

theorem forBlocks_classifies {visit : Nat → Traversal (List α)} (each : ∀ index, (visit index).Classifies)
    (first count : Nat) : (forBlocks visit first count).Classifies := by
  induction count generalizing first with
  | zero => trivial
  | succ count ih => exact (each first).bind fun _ => (ih (first + 1)).bind fun _ => trivial

theorem forExtents_classifies {visit : Extent → Nat → Traversal (List α)}
    (each : ∀ extent index, (visit extent index).Classifies) (extents : List Extent) :
    (forExtents visit extents).Classifies := by
  induction extents with
  | nil => trivial
  | cons extent extents ih =>
    exact (forBlocks_classifies (each extent) 0 extent.blockCount.toNat).bind fun _ => ih.bind fun _ => trivial

end Traversal

namespace InodeFork
open Traversal

variable {opened : InodeFork}

theorem checkSeal_classified (role : BlockRole) (offset : Nat) (block : Bytes) :
    Classified (opened.checkSeal role offset block) := by
  unfold checkSeal
  split
  · exact .located offset _
  · exact .ok ()

theorem checkOwner_classified (cause : UInt64 → UInt64 → Cause) (offset : Nat) (owner : Option UInt64) :
    Classified (opened.checkOwner cause offset owner) := by
  unfold checkOwner
  split
  · exact .ok ()
  · split
    · exact .corruption offset _
    · exact .ok ()

theorem checkOrdered_classified (extents : List Extent) : Classified (opened.checkOrdered extents) := by
  unfold checkOrdered
  split
  · exact .ok ()
  · exact .corruption opened.position _

theorem inlineExtents_classified (count : Nat) (literal : Bytes) :
    Classified (opened.inlineExtents count literal) := by
  unfold inlineExtents
  split
  · exact .corruption opened.position _
  · exact .located opened.position _

theorem checkMapVersion_classified (header : MapHeader) (offset : Nat) :
    Classified (opened.checkMapVersion header offset) := by
  unfold checkMapVersion
  split
  · exact .ok ()
  · exact .failed (.inl rfl)

theorem checkMapKeys_classified (header : MapHeader) (offset : Nat) (block : Bytes) :
    Classified (checkMapKeys header offset block) := by
  unfold checkMapKeys
  split
  · exact .failed (VolumeError.ofDecode_classifies offset _)
  · split
    · exact .ok ()
    · exact .corruption offset _

theorem mapContents_classified (header : MapHeader) (level offset : Nat) (block : Bytes) :
    Classified (mapContents header level offset block) := by
  unfold mapContents
  split
  · exact (Classified.located offset _).map _
  · split
    · exact .failed (VolumeError.ofDecode_classifies offset _)
    · split
      · rename_i error refused
        exact .failed (checkMapKeys_classified header offset block error refused)
      · exact .ok _

theorem examineMapBlock_classified (pair : MagicPair) (level offset : Nat) (block : Bytes) :
    Classified (opened.examineMapBlock pair level offset block) := by
  refine (Classified.located offset _).bind fun header => (checkMapVersion_classified header offset).bind fun _ =>
    (checkSeal_classified .mapBlock offset block).bind fun _ => ?_
  split
  · exact (checkOwner_classified _ offset _).bind fun _ => mapContents_classified header level offset block
  · exact .corruption offset _

theorem examineLeafBlock_classified (offset : Nat) (block : Bytes) :
    Classified (opened.examineLeafBlock offset block) := by
  refine (Classified.located offset _).bind fun header => (checkSeal_classified .leafBlock offset block).bind fun _ =>
    (checkOwner_classified _ offset _).bind fun _ => ?_
  cases header.kind with
  | dirLeaf1 => exact (Classified.located offset _).bind fun _ => .ok _
  | dirLeafN => exact (Classified.located offset _).bind fun _ => .ok _
  | node => exact (Classified.located offset _).bind fun _ => .ok _
  | attrLeaf => exact .failed (.inr rfl)

theorem examineDataHeader_classified (offset : Nat) (block : Bytes) :
    Classified (opened.examineDataHeader offset block) :=
  (Classified.located offset _).bind fun _ => (checkSeal_classified .dataBlock offset block).bind fun _ =>
    (checkOwner_classified _ offset _).bind fun _ => .ok _

theorem examineDataBlock_classified (offset : Nat) (block : Bytes) :
    Classified (opened.examineDataBlock offset block) :=
  (examineDataHeader_classified offset block).bind fun _ => (Classified.located offset _).bind fun _ =>
    .located offset _

theorem examineCandidate_classified (address : UInt32) (within offset : Nat) (block : Bytes) :
    Classified (opened.examineCandidate address within offset block) := by
  refine (examineDataHeader_classified offset block).bind fun header => ?_
  split
  · exact .corruption offset _
  · refine (Classified.located offset _).bind fun tag => ?_
    split
    · exact .corruption offset _
    · exact .located offset _

theorem attrNodeContents_classified (expected : Option Nat) (offset : Nat) (block : Bytes) :
    Classified (opened.attrNodeContents expected offset block) := by
  unfold attrNodeContents
  split
  · exact .failed (VolumeError.ofDecode_classifies offset _)
  · split
    · split
      · exact .failed (.inr rfl)
      · exact .ok _
    · exact .corruption offset _

theorem attrLeafContents_classified (expected : Option Nat) (offset : Nat) (block : Bytes) :
    Classified (opened.attrLeafContents expected offset block) := by
  unfold attrLeafContents
  split
  · exact (Classified.located offset _).bind fun _ => (Classified.located offset _).bind fun _ => .ok _
  · exact .corruption offset _

theorem examineAttrBlock_classified (expected : Option Nat) (offset : Nat) (block : Bytes) :
    Classified (opened.examineAttrBlock expected offset block) := by
  refine (Classified.located offset _).bind fun header => (checkSeal_classified .attrBlock offset block).bind fun _ =>
    (checkOwner_classified _ offset _).bind fun _ => ?_
  cases header.kind with
  | node => exact attrNodeContents_classified expected offset block
  | attrLeaf => exact attrLeafContents_classified expected offset block
  | dirLeaf1 => exact .failed (.inl rfl)
  | dirLeafN => exact .failed (.inl rfl)

theorem logicalOffset_classified (extents : List Extent) (block : Nat) :
    Classified (opened.logicalOffset extents block) := by
  unfold logicalOffset
  split
  · exact .ok none
  · exact (Classified.located 0 _).map some

theorem attrBlockOffset_classified (extents : List Extent) (block : Nat) :
    Classified (opened.attrBlockOffset extents block) := by
  unfold attrBlockOffset
  split
  · rename_i error failed
    exact .failed (logicalOffset_classified extents block error failed)
  · exact .corruption opened.position _
  · exact .ok _

theorem visitPending_classifies (pair : MagicPair) (visited : List UInt64) (extents : List Extent)
    (pending : PendingBlocks) :
    (opened.visitPending pair visited extents pending).Classifies := by
  fun_induction opened.visitPending pair visited extents pending with
  | case1 visited extents => trivial
  | case2 visited extents pointer level rest member => exact .inl rfl
  | case3 visited extents pointer level rest new error untranslated =>
    exact VolumeError.ofDecode_classifies opened.position error
  | case4 visited extents pointer level rest new offset translated ihLeaf ihNode =>
    intro block
    dsimp only
    split
    · rename_i error refused
      exact examineMapBlock_classified pair level offset block error refused
    · exact ihLeaf _
    · exact ihNode _ ‹_› ‹_›

theorem walk_classifies (tree : BtreeKind) : (opened.walk tree).Classifies := by
  refine (request_classifies none _ _).bind fun literal => .bind ?_ fun map =>
    (ofExcept_classifies (checkOrdered_classified map.extents)).bind fun _ => trivial
  unfold readMap
  split
  · exact .inr rfl
  · exact (ofExcept_classifies (inlineExtents_classified _ literal)).bind fun _ => trivial
  · refine (ofExcept_classifies (.located opened.position _)).bind fun root =>
      (ofExcept_classifies (checkMapVersion_classified root _)).bind fun _ => ?_
    split
    · exact .inr rfl
    · refine (ofExcept_classifies (mapContents_classified root _ _ literal)).bind fun contents => ?_
      cases contents with
      | extents found => trivial
      | children pointers few interior => exact (visitPending_classifies _ _ _ _).bind fun _ => trivial

theorem leafBlock_classifies (extent : Extent) (index : Nat) :
    (opened.leafBlock extent index).Classifies := by
  refine (ofExcept_classifies (.located opened.position _)).bind fun offset =>
    (request_classifies _ offset _).bind fun block =>
    (ofExcept_classifies (examineLeafBlock_classified offset block)).bind fun contents => ?_
  unfold keepLeaf
  split
  · trivial
  · split <;> trivial

theorem dataBlock_classifies (extent : Extent) (index : Nat) :
    (opened.dataBlock extent index).Classifies :=
  (ofExcept_classifies (.located opened.position _)).bind fun offset =>
    (request_classifies _ offset _).bind fun block =>
    (ofExcept_classifies (examineDataBlock_classified offset block)).bind fun _ => trivial

theorem dataEntries_classifies (extents : List Extent) :
    (opened.dataEntries extents).Classifies := by
  refine .bind ?_ fun _ => trivial
  rw [dataPlaces_byExtent]
  exact (ofExcept_classifies (.located opened.position _)).bind fun _ =>
    forExtents_classifies dataBlock_classifies extents

theorem shortformEntries_classifies : opened.shortformEntries.Classifies :=
  (request_classifies none _ _).bind fun _ => (ofExcept_classifies (.located opened.position _)).bind fun _ => trivial

theorem listDirectory_classifies : opened.listDirectory.Classifies := by
  by_cases layout : opened.fork.layout = .shortform
  · rw [opened.listDirectory_unmapped layout]
    exact shortformEntries_classifies
  · rw [opened.listDirectory_mapped layout]
    exact (walk_classifies .directory).bind fun _ =>
      (forExtents_classifies leafBlock_classifies _).bind fun _ => dataEntries_classifies _

theorem candidate_classifies (data : List Extent) (slot : LeafSlot) :
    (opened.candidate data slot).Classifies := by
  refine (ofExcept_classifies (logicalOffset_classified data _)).bind fun placed => ?_
  cases placed with
  | none => exact .inl rfl
  | some offset =>
    exact (request_classifies _ offset _).bind fun block =>
      ofExcept_classifies (examineCandidate_classified slot.address _ offset block)

theorem probe_classifies (data : List Extent) (name : Name) (slots : List LeafSlot) :
    (opened.probe data name slots).Classifies := by
  induction slots with
  | nil => trivial
  | cons slot slots ih =>
    refine (candidate_classifies data slot).bind fun found => ?_
    split
    · trivial
    · exact ih

theorem lookup_classifies (name : Name) : (opened.lookup name).Classifies := by
  by_cases layout : opened.fork.layout = .shortform
  · rw [opened.lookup_unmapped layout]
    exact shortformEntries_classifies.bind fun _ => trivial
  · rw [opened.lookup_mapped layout]
    refine (walk_classifies .directory).bind fun _ =>
      (forExtents_classifies leafBlock_classifies _).bind fun _ => ?_
    split
    · exact (dataEntries_classifies _).bind fun _ => trivial
    · exact probe_classifies _ name _

theorem visitAttributes_classifies (extents : List Extent) (visited : List Nat) (entries : List DirectoryEntry)
    (pending : PendingAttrs) :
    (opened.visitAttributes extents visited entries pending).Classifies := by
  fun_induction opened.visitAttributes extents visited entries pending with
  | case1 visited entries => trivial
  | case2 visited entries block expected rest member => exact .inl rfl
  | case3 visited entries block expected rest new error unplaced =>
    exact attrBlockOffset_classified extents block error unplaced
  | case4 visited entries block expected rest new offset placed ihLeaf ihNode =>
    intro bytes
    dsimp only
    split
    · rename_i error refused
      exact examineAttrBlock_classified expected offset bytes error refused
    · exact ihLeaf _
    · exact ihNode _ _ ‹_› ‹_›

theorem listAttributes_classifies : opened.listAttributes.Classifies := by
  by_cases layout : opened.fork.layout = .shortform
  · rw [opened.listAttributes_unmapped layout]
    exact .inr rfl
  · rw [opened.listAttributes_mapped layout]
    refine (walk_classifies .directory).bind fun _ => ?_
    split
    · trivial
    · exact (visitAttributes_classifies _ _ _ _).bind fun _ => trivial

end InodeFork

theorem mapOffset_classified (ag : AgGeometry) (extents : List Extent) (offset : Nat) :
    Classified (mapOffset ag extents offset) := by
  unfold mapOffset
  split
  · exact .ok none
  · split
    · exact .failed (VolumeError.ofDecode_classifies 0 _)
    · rename_i block translated
      have room := BlockSize.last_block (AgGeometry.runByteOffset_dvd translated) (AgGeometry.runByteOffset_lt translated)
      have within : ag.blockSize.within offset < ag.blockSize.bytes := Nat.mod_lt offset ag.blockSize.bytes_pos
      rw [fit64?_eq_some.mpr ⟨by omega,rfl⟩]
      exact .ok _

theorem Operation.classifies {volume : Volume} {inode : UInt64} {opened : InodeFork} (operation : Operation α)
    (known : volume.openFork inode operation.fork = .ok opened) :
    (operation.traversal volume inode).Classifies := by
  rw [operation.traversal_eq known]
  cases operation with
  | walk kind tree => exact InodeFork.walk_classifies tree
  | extents => exact (InodeFork.walk_classifies .dataExtents).bind fun _ => trivial
  | resolve offset =>
    exact (InodeFork.walk_classifies .dataExtents).bind fun map =>
      Traversal.ofExcept_classifies (mapOffset_classified opened.ag map.extents offset)
  | list => exact InodeFork.listDirectory_classifies
  | lookup name => exact InodeFork.lookup_classifies name
  | attributes => exact InodeFork.listAttributes_classifies

-- The block that no 64-bit offset lies behind.
def InodeFork.lastBlock (opened : InodeFork) (role : BlockRole) : ReadRequest :=
  ⟨some role,0x10000000000000000 - opened.blockSize.bytes,opened.blockSize.bytes⟩

theorem Device.answer_classified {device : Device} {request : ReadRequest}
    (fits : request.offset + request.length < 0x10000000000000000) : Classified (device.answer request) := by
  rw [answer,read,fit64?_eq_some.mpr ⟨fits,rfl⟩]
  dsimp only
  split
  · exact .failed (.inl rfl)
  · exact .ok _

theorem InodeFork.ReadSite.fits_or_last {opened : InodeFork} {map : Option MagicPair} {request : ReadRequest}
    {refuse : Bytes → Option VolumeError} (site : opened.ReadSite map request refuse)
    (literal : opened.position + opened.fork.size.toNat < 0x10000000000000000) :
    request.offset + request.length < 0x10000000000000000 ∨ ∃ role, request = opened.lastBlock role := by
  cases known : request.role with
  | none =>
    cases site with
    | literal => exact .inl literal
    | mapBlock level given translated => cases known
    | leafBlock translated => cases known
    | dataBlock translated => cases known
    | attrBlock expected translated => cases known
  | some role =>
    obtain ⟨whole,length⟩ := site.block known
    have room := BlockSize.last_block whole (site.lt known)
    by_cases fits : request.offset + opened.blockSize.bytes < 0x10000000000000000
    · left
      rw [length]
      exact fits
    · right
      have last : request.offset = 0x10000000000000000 - opened.blockSize.bytes := by omega
      refine ⟨role,?_⟩
      rw [lastBlock,← last,← known,← length]

-- A read range is refused only at the last block, and a run that asks for that block ends there.
theorem Traversal.Classifies.run {opened : InodeFork} {map : Option MagicPair} {device : Device} {traversal : Traversal α}
    (classifies : traversal.Classifies) (follows : traversal.Follows (opened.ReadSite map))
    (literal : opened.position + opened.fork.size.toNat < 0x10000000000000000) :
    Classified (traversal.run device).result ∧
        (∀ request ∈ (traversal.run device).reads, request.offset + request.length < 0x10000000000000000) ∨
      (traversal.run device).result = .error (.format .readRangeOverflow) ∧
        ∃ role, (traversal.run device).reads.getLast? = some (opened.lastBlock role) := by
  induction traversal with
  | done value => exact .inl ⟨.ok value,fun _ asked => (nomatch asked)⟩
  | fail error => exact .inl ⟨.failed classifies,fun _ asked => (nomatch asked)⟩
  | warn warning next ih => exact ih classifies follows
  | read request next ih =>
    obtain ⟨⟨refuse,site,_⟩,later⟩ := follows
    rcases site.fits_or_last literal with fits | ⟨role,rfl⟩
    · cases got : device.answer request with
      | error error =>
        left
        simp only [Traversal.run,got]
        refine ⟨.failed (Device.answer_classified fits error got),?_⟩
        intro other asked
        obtain rfl := List.mem_singleton.mp asked
        exact fits
      | ok found =>
        simp only [Traversal.run,got]
        rcases ih found (classifies found) (later found) with ⟨known,below⟩ | ⟨refused,role,last⟩
        · left
          refine ⟨known,?_⟩
          intro other asked
          rcases List.mem_cons.mp asked with rfl | after
          · exact fits
          · exact below other after
        · exact .inr ⟨refused,role,by rw [List.getLast?_cons,last]; rfl⟩
    · right
      have overflows : device.answer (opened.lastBlock role) = .error (.format .readRangeOverflow) := by
        have large : 0x10000000000000000 ≤
            0x10000000000000000 - opened.blockSize.bytes + opened.blockSize.bytes := by omega
        rw [Device.answer,InodeFork.lastBlock,Device.read,fit64?_eq_none.mpr large]
      simp only [Traversal.run,overflows]
      exact ⟨trivial,role,rfl⟩

-- What the data makes of a run: it finishes, or its error is one about the data, unless it is led to
-- the last block of all.
theorem failure_classified_before_last_block {volume : Volume} {inode : UInt64} {opened : InodeFork}
    {device : Device} (operation : Operation α) (known : volume.openFork inode operation.fork = .ok opened)
    (inside : opened.position + opened.fork.size.toNat ≤ device.size) (small : device.size < 0x10000000000000000) :
    let outcome := (operation.traversal volume inode).run device
    (∀ error, outcome.result = .error error → error.isCorruption ∨ error.isUnsupported) ∧
        (∀ request ∈ outcome.reads, request.offset + request.length < 0x10000000000000000) ∨
      outcome.result = .error (.format .readRangeOverflow) ∧
        ∃ role, outcome.reads.getLast? = some (opened.lastBlock role) :=
  (operation.classifies known).run (operation.follows known) (Nat.lt_of_le_of_lt inside small)

-- An image that holds a root and nothing else. The root's one child pointer leads to that block.
def strayImage : Bytes :=
  (MapHeader.encode ⟨0x424D4150,1,1,0xFFFFFFFFFFFFFFFF,0xFFFFFFFFFFFFFFFF,none⟩ ++ word64 0 ++
    word64 368934881474190403).toArray

def strayFork : InodeFork where
  volume :=
    { geometry := .ofSizes 512 100 10
      ag := ⟨.smallest,100,10⟩
      forks := ForkTable.empty.insert 5 .data ⟨0,40,.btree,.v4⟩
      options := .standard }
  inode := 5
  fork := ⟨0,40,.btree,.v4⟩

theorem failure_classified_before_last_block_stray :
    let outcome := ((Operation.walk .data .dataExtents).traversal strayFork.volume 5).run (.ofBytes strayImage)
    strayFork.volume.openFork 5 .data = .ok strayFork ∧
      strayFork.position + strayFork.fork.size.toNat ≤ strayImage.size ∧ strayImage.size < 0x10000000000000000 ∧
      ((∀ error, outcome.result = .error error → error.isCorruption ∨ error.isUnsupported) ∧
          (∀ request ∈ outcome.reads, request.offset + request.length < 0x10000000000000000) ∨
        outcome.result = .error (.format .readRangeOverflow) ∧
          ∃ role, outcome.reads.getLast? = some (strayFork.lastBlock role)) := by
  have inside : strayFork.position + strayFork.fork.size.toNat ≤ (Device.ofBytes strayImage).size := by decide
  have small : (Device.ofBytes strayImage).size < 0x10000000000000000 := by decide
  exact ⟨rfl,inside,small,failure_classified_before_last_block (.walk .data .dataExtents) rfl inside small⟩

-- Every other pointer past the end of a device is answered as a short read or as corruption.
theorem stray_pointer_refused_as_format :
    strayFork.volume.geometry.validate = .ok strayFork.ag ∧ strayFork.volume.openFork 5 .data = .ok strayFork ∧
      strayFork.position + strayFork.fork.size.toNat ≤ strayImage.size ∧
      ∃ error, (strayFork.volume.walkFork 5 .data .dataExtents).eval (.ofBytes strayImage) = .error error ∧
        error = .format .readRangeOverflow ∧ ¬error.isCorruption ∧ ¬error.isUnsupported := by
  have refused : (strayFork.volume.walkFork 5 .data .dataExtents).eval (.ofBytes strayImage) =
      .error (.format .readRangeOverflow) := by
    refine refusal_eq_some.mp ?_
    decide +kernel
  exact ⟨rfl,rfl,by decide,_,refused,rfl,by decide,by decide⟩

end XfsReader
