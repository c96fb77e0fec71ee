import XfsReader.Attribute
import XfsReader.BlockMap
import XfsReader.Directory.Shortform
import XfsReader.Proofs.Decoder

-- How far into its buffer a decoder looks. A structure that decodes is decided by its first bytes up
-- to there, and of any fewer of them its decoder asks for more.
namespace XfsReader
namespace Decoder

-- The end of the furthest slice on the way through a buffer.
def reach : Decoder α → Bytes → Nat
  | .done _, _ => 0
  | .fail _, _ => 0
  | .slice offset length next, bytes => max (offset + length) ((next (Bytes.part bytes offset length)).reach bytes)

variable {bytes other : Bytes} {value : α}

theorem reach_le {decoder : Decoder α} (ran : decoder.run bytes = .ok value) : decoder.reach bytes ≤ bytes.size := by
  induction decoder with
  | done result => exact Nat.zero_le _
  | fail error => cases ran
  | slice offset length next ih =>
    obtain ⟨_,inside,later⟩ := slice_eq_ok ran
    exact Nat.max_le.mpr ⟨inside,ih _ later⟩

theorem size_take (bytes : Bytes) (limit : Nat) : (bytes.take limit).size = min limit bytes.size := by
  rw [Array.take_eq_extract,Array.size_extract]
  omega

theorem part_take {offset length limit : Nat} (inside : offset + length ≤ limit) :
    Bytes.part (bytes.take limit) offset length = Bytes.part bytes offset length := by
  simp only [Bytes.part,Array.take_eq_extract,Array.extract_extract]
  congr 1 <;> omega

-- Nothing past the reach matters, nor whether there is anything.
theorem run_of_take {decoder : Decoder α} {limit : Nat} (ran : decoder.run bytes = .ok value)
    (far : decoder.reach bytes ≤ limit) (held : limit ≤ bytes.size) (same : other.take limit = bytes.take limit) :
    decoder.run other = .ok value := by
  have long : limit ≤ other.size := by
    have sizes := congrArg Array.size same
    rw [size_take,size_take] at sizes
    omega
  induction decoder with
  | done result => exact ran
  | fail error => cases ran
  | slice offset length next ih =>
    obtain ⟨small,_,later⟩ := slice_eq_ok ran
    obtain ⟨near,farther⟩ := Nat.max_le.mp far
    have part : Bytes.part other offset length = Bytes.part bytes offset length := by
      rw [← part_take near,same,part_take near]
    rw [run,sliceOf_eq_ok.mpr ⟨small,Nat.le_trans near long,part⟩]
    exact ih _ later farther

theorem run_take_short {decoder : Decoder α} {kept : Nat} (ran : decoder.run bytes = .ok value)
    (short : kept < decoder.reach bytes) :
    ∃ needed offset actual, decoder.run (bytes.take kept) = .error (.insufficientData needed offset actual) := by
  induction decoder with
  | done result => cases short
  | fail error => cases short
  | slice offset length next ih =>
    obtain ⟨small,inside,later⟩ := slice_eq_ok ran
    by_cases past : kept < offset + length
    · have cut : (bytes.take kept).size < offset + length :=
        Nat.lt_of_le_of_lt (by rw [size_take]; exact Nat.min_le_left _ _) past
      have refused : sliceOf (bytes.take kept) offset length =
          .error (.insufficientData length offset ((bytes.take kept).size - offset)) := by
        rw [sliceOf,fit64?_eq_some.mpr ⟨small,rfl⟩]
        exact if_pos cut
      exact ⟨_,_,_,by rw [run,refused]⟩
    · have enough : offset + length ≤ kept := Nat.le_of_not_lt past
      have whole : offset + length ≤ (bytes.take kept).size := by
        rw [size_take]
        exact Nat.le_min.mpr ⟨enough,inside⟩
      have farther : kept < (next (Bytes.part bytes offset length)).reach bytes := by
        rw [reach] at short
        omega
      rw [run,sliceOf_eq_ok.mpr ⟨small,whole,part_take enough⟩]
      exact ih _ later farther

-- Where the furthest slice ends for each value that the decoder can finish with, if those before it
-- have got so far. A slice is as long as it was asked to be.
def Ends (post : α → Nat → Prop) : Nat → Decoder α → Prop
  | far, .done value => post value far
  | _, .fail _ => True
  | far, .slice offset length next =>
    ∀ found : Vector UInt8 length, (next found.toArray).Ends post (max far (offset + length))

theorem Ends.bind {post : β → Nat → Prop} {decoder : Decoder α} {next : α → Decoder β} {far : Nat}
    (first : decoder.Ends (fun value stop => (next value).Ends post stop) far) : (decoder >>= next).Ends post far := by
  change (decoder.bind next).Ends post far
  induction decoder generalizing far with
  | done value => exact first
  | fail error => trivial
  | slice offset length rest ih => exact fun found => ih found.toArray (first found)

theorem Ends.mono {post wider : α → Nat → Prop} {decoder : Decoder α} {far : Nat} (ends : decoder.Ends post far)
    (more : ∀ value stop, post value stop → wider value stop) : decoder.Ends wider far := by
  induction decoder generalizing far with
  | done value => exact more value far ends
  | fail error => trivial
  | slice offset length next ih => exact fun found => ih found.toArray (ends found)

theorem Ends.reach {post : α → Nat → Prop} {decoder : Decoder α} {far : Nat} (ends : decoder.Ends post far)
    (ran : decoder.run bytes = .ok value) : post value (max far (decoder.reach bytes)) := by
  induction decoder generalizing far with
  | done result =>
    cases ran
    rw [Decoder.reach,Nat.max_zero]
    exact ends
  | fail error => cases ran
  | slice offset length next ih =>
    obtain ⟨_,inside,later⟩ := slice_eq_ok ran
    have whole : (Bytes.part bytes offset length).size = length := by
      rw [Bytes.part,Array.size_extract]
      omega
    rw [Decoder.reach,← Nat.max_assoc]
    exact ih _ (ends ⟨_,whole⟩) later

def furthest (ends : List Nat) : Nat := ends.foldr max 0

theorem le_furthest {ends : List Nat} {stop : Nat} (member : stop ∈ ends) : stop ≤ furthest ends := by
  induction ends with
  | nil => cases member
  | cons first rest ih =>
    change stop ≤ max first (furthest rest)
    rcases List.mem_cons.mp member with rfl | later
    · exact Nat.le_max_left _ _
    · exact Nat.le_trans (ih later) (Nat.le_max_right _ _)

theorem mapM_ends {items : List β} {record : β → Decoder α} {stop : α → Nat}
    (each : ∀ item far, (record item).Ends (fun value reached => reached = max far (stop value)) far) (far : Nat) :
    (items.mapM record).Ends (fun found reached => reached = max far (furthest (found.map stop))) far := by
  induction items generalizing far with
  | nil => exact (Nat.max_zero far).symm
  | cons item items ih =>
    rw [List.mapM_cons]
    refine .bind ((each item far).mono ?_)
    rintro first _ rfl
    refine .bind ((ih _).mono ?_)
    rintro rest _ rfl
    exact Nat.max_assoc _ _ _

theorem table_ends {record : Nat → Decoder α} {stride : Nat}
    (each : ∀ place far, (record place).Ends (fun _ reached => reached = max far (place + stride)) far)
    (offset count far : Nat) :
    (table offset stride count record).Ends
      (fun found reached => found.length = count ∧ reached = if count = 0 then far else max far (offset + stride * count))
      far := by
  have from_start (start : Nat) :
      ((List.range' start count).mapM fun index => record (offset + stride * index)).Ends
        (fun found reached => found.length = count ∧
          reached = if count = 0 then far else max far (offset + stride * (start + count))) far := by
    induction count generalizing start far with
    | zero => exact ⟨rfl,rfl⟩
    | succ count ih =>
      rw [List.range'_succ,List.mapM_cons]
      refine .bind ((each _ far).mono ?_)
      rintro first _ rfl
      refine .bind ((ih _ (start + 1)).mono ?_)
      rintro rest _ ⟨same,rfl⟩
      refine ⟨congrArg (· + 1) same,?_⟩
      rw [if_neg (Nat.succ_ne_zero count)]
      split
      · grind
      · grind
  simpa [table,List.range_eq_range'] using from_start 0

end Decoder

open Decoder

theorem SelfDescription.decodeFor_ends (offset far : Nat) (version : FormatVersion) :
    (decodeFor offset version).Ends
      (fun description stop => .ofDescription description = version ∧
        stop = match version with | .v4 => far | .v5 => max far (offset + 44)) far := by
  cases version with
  | v4 => exact ⟨rfl,rfl⟩
  | v5 =>
    refine fun crc blockNumber lsn uuid owner => ⟨rfl,?_⟩
    dsimp only
    omega

theorem MapHeader.decode_ends (pair : MagicPair) :
    (decode pair).Ends
      (fun header stop => pair.versionOf header.magic = some header.version ∧ stop = header.size) 0 := by
  refine fun raw => ?_
  change (decodeAfter pair (Bytes.be32 raw.toArray 0)).Ends _ _
  unfold decodeAfter
  cases pair.accepted.check32 "bmbt block" (Bytes.be32 raw.toArray 0) with
  | error error => trivial
  | ok _ =>
    cases known : pair.versionOf (Bytes.be32 raw.toArray 0) with
    | none => trivial
    | some version =>
      cases version with
      | v4 => exact fun _ level recordCount left right => ⟨known,rfl⟩
      | v5 => exact fun _ level recordCount left right _ blockNumber lsn uuid owner crc => ⟨known,rfl⟩

namespace DaHeader

theorem decode_ends (version : FormatVersion) :
    (decode version).Ends (fun header stop => header.version = version ∧ stop = sizeOf version) 0 := by
  refine fun raw => ?_
  change (decodeAfter version (Bytes.be16 raw.toArray 0)).Ends _ _
  unfold decodeAfter
  cases DaKind.ofMagic? version (Bytes.be16 raw.toArray 0) with
  | none => trivial
  | some kind =>
    refine fun _ forward backward => ?_
    change (SelfDescription.decodeFor 12 version >>= _).Ends _ _
    refine .bind ((SelfDescription.decodeFor_ends _ _ version).mono ?_)
    rintro description stop ⟨same,rfl⟩
    refine ⟨same,?_⟩
    cases version <;> rfl

theorem decodeKinds_ends (subject : String) (kinds : List DaKind) (version : FormatVersion) :
    (decodeKinds subject kinds version).Ends (fun header stop => header.version = version ∧ stop = sizeOf version) 0 := by
  refine .bind ((decode_ends version).mono fun header stop ended => ?_)
  split
  · exact ended
  · trivial

end DaHeader

theorem LeafSlot.decodeList_ends (offset count far : Nat) :
    (decodeList offset count).Ends
      (fun slots stop => slots.length = count ∧ stop = max far (offset + 8 * count)) far := by
  unfold decodeList
  cases fits : fit64? (count * size) with
  | none => trivial
  | some length =>
    obtain ⟨_,rfl⟩ := fit64?_eq_some.mp fits
    refine fun area => ⟨by simp [Bytes.chunks],?_⟩
    rw [size,Nat.mul_comm]

theorem LeafBlock.decode_ends (version : FormatVersion) :
    (decode version).Ends (fun leaf stop => stop = headerSize version + 8 * leaf.slots.length) 0 := by
  refine .bind ((DaHeader.decodeKinds_ends _ _ version).mono ?_)
  rintro header _ ⟨same,rfl⟩
  rw [DaHeader.size,same]
  refine fun count stale _ => ?_
  change (LeafSlot.decodeList _ _ >>= _).Ends _ _
  refine .bind ((LeafSlot.decodeList_ends _ _ _).mono ?_)
  rintro slots _ ⟨long,rfl⟩
  change _ = headerSize version + 8 * slots.length
  rw [long]
  cases version <;> simp only [DaHeader.sizeOf,headerSize] <;> omega

theorem DaNode.decode_ends (version : FormatVersion) :
    (decode version).Ends
      (fun node stop => stop =
        if node.entries.length = 0 then DaHeader.sizeOf version + 4 else entriesOffset version + 8 * node.entries.length)
      0 := by
  refine .bind ((DaHeader.decodeKinds_ends _ _ version).mono ?_)
  rintro header _ ⟨same,rfl⟩
  rw [DaHeader.size,same]
  refine fun count level => ?_
  change (Decoder.table _ _ _ _ >>= _).Ends _ _
  have each (place far : Nat) : (decodeEntry place).Ends (fun _ reached => reached = max far (place + 8)) far := by
    refine fun hash before => ?_
    change max (max far (place + 4)) (place + 4 + 4) = max far (place + 8)
    omega
  refine .bind ((table_ends each _ _ _).mono ?_)
  rintro entries _ ⟨whole,rfl⟩
  change _ = if entries.length = 0 then _ else _
  rw [whole]
  cases version <;> simp only [DaHeader.sizeOf,entriesOffset] <;> split <;> omega

theorem FreeRun.decodeThree_ends (offset far : Nat) :
    (decodeThree offset).Ends (fun _ stop => stop = max far (offset + 12)) far := by
  refine fun _ _ _ _ _ _ => ?_
  change max (max (max (max (max (max far _) _) _) _) _) _ = _
  omega

theorem AttrLeaf.decode_ends (version : FormatVersion) :
    (decode version).Ends (fun leaf stop => stop = headerSize version + 8 * leaf.entries.length) 0 := by
  refine .bind ((DaHeader.decodeKinds_ends _ _ version).mono ?_)
  rintro header _ ⟨same,rfl⟩
  rw [DaHeader.size,same]
  refine fun count usedBytes firstUsed holes => ?_
  change (FreeRun.decodeThree _ >>= _).Ends _ _
  refine .bind ((FreeRun.decodeThree_ends _ _).mono ?_)
  rintro freeMap _ rfl
  refine fun area => ?_
  change _ = headerSize version + 8 * ((Bytes.chunks area.toArray AttrEntry.size _).map AttrEntry.ofRecord).length
  simp only [Bytes.chunks,List.length_map,List.length_range]
  cases version <;> simp only [DaHeader.sizeOf,headerSize,AttrEntry.size] <;> omega

-- A name record ends with its value, or with its name where the value is elsewhere.
def AttrName.stop (name : AttrName) : Nat := name.nameIndex.toNat + name.encode.length

theorem AttrName.decode_ends (entry : AttrEntry) (far : Nat) :
    (decode entry).Ends (fun name reached => reached = max far name.stop) far := by
  unfold decode
  split
  · refine fun valueLength nameLength name value => ?_
    change _ = max far (entry.nameIndex.toNat + _)
    simp [encode,word16]
    omega
  · refine fun block length nameLength name => ?_
    change _ = max far (entry.nameIndex.toNat + _)
    simp [encode,word32]
    omega

theorem AttrLeaf.names_ends (leaf : AttrLeaf) :
    leaf.names.Ends (fun names stop => stop = furthest (names.map AttrName.stop)) 0 :=
  (mapM_ends AttrName.decode_ends 0).mono fun names stop ended => by rw [ended,Nat.zero_max]

theorem AttrLeaf.names_inside {leaf : AttrLeaf} {block : Bytes} {names : List AttrName} {name : AttrName}
    (read : leaf.names.run block = .ok names) (member : name ∈ names) : name.stop ≤ block.size := by
  have whole := leaf.names_ends.reach read
  rw [Nat.zero_max] at whole
  calc name.stop ≤ furthest (names.map AttrName.stop) := le_furthest (List.mem_map_of_mem member)
    _ = leaf.names.reach block := whole.symm
    _ ≤ block.size := Decoder.reach_le read

theorem DataHeader.decode_ends (version : FormatVersion) :
    (decode version).Ends (fun _ stop => stop = entriesOffsetOf version) 0 := by
  refine fun raw => ?_
  change (decodeAfter version (Bytes.be32 raw.toArray 0)).Ends _ _
  unfold decodeAfter
  cases DataForm.ofMagic? version (Bytes.be32 raw.toArray 0) with
  | none => trivial
  | some form =>
    refine .bind ((SelfDescription.decodeFor_ends _ _ version).mono ?_)
    rintro description _ ⟨_,rfl⟩
    refine .bind ((FreeRun.decodeThree_ends _ _).mono ?_)
    rintro bestFree _ rfl
    refine fun _ => ?_
    cases version <;> rfl

theorem Extent.decode_ends (offset : Nat) : (decode offset).Ends (fun _ stop => stop = offset + 16) 0 := by
  refine fun _ upper lower => ?_
  change max (max (max 0 (offset + 16)) (offset + 8)) (offset + 8 + 8) = offset + 16
  omega

theorem Extent.decodeList_ends (offset count : Nat) :
    (decodeList offset count).Ends (fun extents stop => extents.length = count ∧ stop = offset + 16 * count) 0 := by
  unfold decodeList
  cases fits : fit64? (count * recordSize) with
  | none => trivial
  | some length =>
    obtain ⟨_,rfl⟩ := fit64?_eq_some.mp fits
    refine fun area => ⟨by simp [Bytes.chunks],?_⟩
    rw [Nat.zero_max,recordSize,Nat.mul_comm]

namespace DirectoryEntry

theorem decodeType_ends (typed : Bool) (offset far : Nat) :
    (decodeType typed offset).Ends (fun _ reached => reached = if typed then max far (offset + 1) else far) far := by
  cases typed with
  | false => exact rfl
  | true => exact fun _ => rfl

-- The room that an entry takes up is asked for before its name, and its tag is the last of it.
theorem decode_ends (typed : Bool) (offset : Nat) :
    (decode typed offset).Ends
      (fun found stop => stop = found.elim (offset + 9) fun entry => offset + entry.length) 0 := by
  refine fun inode nameLength => ?_
  change (if Bytes.byteAt nameLength.toArray 0 = 0 then _ else _ : Decoder (Option DirectoryEntry)).Ends _ _
  split
  · exact (by omega : max (max 0 (offset + 8)) (offset + 8 + 1) = offset + 9)
  · refine fun _ name => ?_
    change (decodeType typed _ >>= _).Ends _ _
    refine .bind ((decodeType_ends _ _ _).mono ?_)
    rintro fileType _ rfl
    refine fun tag => ?_
    change max _ _ = offset + span (Bytes.byteAt nameLength.toArray 0).toNat typed
    have room := span_pos (Bytes.byteAt nameLength.toArray 0).toNat typed
    have fits := le_span (Bytes.byteAt nameLength.toArray 0).toNat typed
    split at fits <;> split <;> omega

end DirectoryEntry

namespace Shortform

def span (entries : List DirectoryEntry) : Nat := entries.foldr (fun entry total => entry.length + total) 0

theorem span_cons (entry : DirectoryEntry) (entries : List DirectoryEntry) :
    span (entry :: entries) = entry.length + span entries := rfl

theorem decodeInode_ends (wide : Bool) (offset far : Nat) :
    (decodeInode wide offset).Ends (fun _ reached => reached = max far (offset + inodeWidth wide)) far := by
  cases wide with
  | false => exact fun _ => rfl
  | true => exact fun _ => rfl

theorem decodeEntry_ends (typed wide : Bool) (offset far : Nat) :
    (decodeEntry typed wide offset).Ends (fun entry reached => reached = max far (offset + entry.length)) far := by
  refine fun nameLength tag name => ?_
  change (DirectoryEntry.decodeType typed _ >>= _).Ends _ _
  refine .bind ((DirectoryEntry.decodeType_ends _ _ _).mono ?_)
  rintro fileType _ rfl
  refine .bind ((decodeInode_ends _ _ _).mono ?_)
  rintro inode _ rfl
  change max _ _ = max far (offset + ((if typed then _ else _) + inodeWidth wide - offset))
  split <;> omega

theorem decodeEntries_ends (typed wide : Bool) (offset count far : Nat) (inside : offset ≤ far) :
    (decodeEntries typed wide offset count).Ends
      (fun entries reached => reached = max far (offset + span entries)) far := by
  induction count generalizing offset far with
  | zero => exact (Nat.max_eq_left inside).symm
  | succ count ih =>
    refine .bind ((decodeEntry_ends typed wide offset far).mono ?_)
    rintro entry _ rfl
    refine .bind ((ih (offset + entry.length) _ (Nat.le_max_right _ _)).mono ?_)
    rintro entries _ rfl
    change _ = max far (offset + span (entry :: entries))
    rw [span_cons]
    omega

-- Nothing that is decoded tells the width of the parent; the second byte does.
theorem reach_decode {typed : Bool} {bytes : Bytes} {directory : Shortform}
    (ran : (decode typed).run bytes = .ok directory) :
    (decode typed).reach bytes =
      2 + inodeWidth (Bytes.byteAt bytes 1 != 0) + span directory.entries := by
  have rest (wide : Bool) (count : Nat) :
      (decodeInode wide 2 >>= fun parent => decodeEntries typed wide (2 + inodeWidth wide) count >>= fun entries =>
        pure (Shortform.mk parent entries)).Ends
        (fun directory stop => stop = 2 + inodeWidth wide + span directory.entries) 2 := by
    refine .bind ((decodeInode_ends wide 2 2).mono ?_)
    rintro parent _ rfl
    refine .bind ((decodeEntries_ends typed wide _ count _ (Nat.le_max_right _ _)).mono ?_)
    rintro entries _ rfl
    change max (max 2 _) _ = 2 + inodeWidth wide + span entries
    omega
  obtain ⟨_,_,ran⟩ := slice_eq_ok ran
  obtain ⟨_,_,ran⟩ := slice_eq_ok ran
  have ended := (rest _ _).reach ran
  rw [← Bytes.byteAt_part bytes 1,← ended]
  have first (far : Nat) : max (0 + 1) (max (1 + 1) far) = max 2 far := by omega
  exact first _

end Shortform

-- What is decoded out of a buffer, one kind of structure for each decoder.
inductive Structure : Type → Type where
  | mapHeader (pair : MagicPair) : Structure MapHeader
  | daHeader (version : FormatVersion) : Structure DaHeader
  | leafBlock (version : FormatVersion) : Structure LeafBlock
  | daNode (version : FormatVersion) : Structure DaNode
  | attrLeaf (version : FormatVersion) : Structure AttrLeaf
  | attrNames (leaf : AttrLeaf) : Structure (List AttrName)
  | dataHeader (version : FormatVersion) : Structure DataHeader
  | shortform (typed : Bool) : Structure Shortform
  | entry (typed : Bool) (offset : Nat) : Structure (Option DirectoryEntry)
  | extent (offset : Nat) : Structure Extent
  | extents (offset count : Nat) : Structure (List Extent)

namespace Structure

def decoder : Structure α → Decoder α
  | .mapHeader pair => MapHeader.decode pair
  | .daHeader version => DaHeader.decode version
  | .leafBlock version => LeafBlock.decode version
  | .daNode version => DaNode.decode version
  | .attrLeaf version => AttrLeaf.decode version
  | .attrNames leaf => leaf.names
  | .dataHeader version => DataHeader.decode version
  | .shortform typed => Shortform.decode typed
  | .entry typed offset => DirectoryEntry.decode typed offset
  | .extent offset => Extent.decode offset
  | .extents offset count => Extent.decodeList offset count

-- The end of what a structure is decoded from. It is read off the structure, but for the width of the
-- numbers in a shortform directory.
def stop (bytes : Bytes) : Structure α → α → Nat
  | .mapHeader pair, header => (pair.versionOf header.magic).elim 0 MapHeader.sizeOf
  | .daHeader version, _ => DaHeader.sizeOf version
  | .leafBlock version, leaf => LeafBlock.headerSize version + 8 * leaf.slots.length
  | .daNode version, node =>
    if node.entries.length = 0 then DaHeader.sizeOf version + 4
    else DaNode.entriesOffset version + 8 * node.entries.length
  | .attrLeaf version, leaf => AttrLeaf.headerSize version + 8 * leaf.entries.length
  | .attrNames _, names => furthest (names.map AttrName.stop)
  | .dataHeader version, _ => DataHeader.entriesOffsetOf version
  | .shortform _, directory =>
    2 + Shortform.inodeWidth (Bytes.byteAt bytes 1 != 0) + Shortform.span directory.entries
  | .entry _ offset, found => found.elim (offset + 9) fun entry => offset + entry.length
  | .extent offset, _ => offset + 16
  | .extents offset count, _ => offset + 16 * count

theorem reach_decoder {kind : Structure α} {bytes : Bytes} {value : α}
    (ran : kind.decoder.run bytes = .ok value) : kind.decoder.reach bytes = kind.stop bytes value := by
  have straight {stop : α → Nat} (ends : kind.decoder.Ends (fun value reached => reached = stop value) 0) :
      kind.decoder.reach bytes = stop value := (Nat.zero_max _).symm.trans (ends.reach ran)
  cases kind with
  | mapHeader pair =>
    refine straight ((MapHeader.decode_ends pair).mono ?_)
    rintro header _ ⟨known,rfl⟩
    rw [stop,known]
    rfl
  | daHeader version => exact straight ((DaHeader.decode_ends version).mono fun _ _ => And.right)
  | leafBlock version => exact straight (LeafBlock.decode_ends version)
  | daNode version => exact straight (DaNode.decode_ends version)
  | attrLeaf version => exact straight (AttrLeaf.decode_ends version)
  | attrNames leaf => exact straight leaf.names_ends
  | dataHeader version => exact straight (DataHeader.decode_ends version)
  | shortform typed => exact Shortform.reach_decode ran
  | entry typed offset => exact straight (DirectoryEntry.decode_ends typed offset)
  | extent offset => exact straight (Extent.decode_ends offset)
  | extents offset count => exact straight ((Extent.decodeList_ends offset count).mono fun _ _ => And.right)

-- A structure is decoded from exactly the bytes before its stop. Whatever follows them, if anything
-- does, it decodes to the same, and without the last of them there is too little data.
theorem decoded_up_to_stop {kind : Structure α} {bytes : Bytes} {value : α}
    (ran : kind.decoder.run bytes = .ok value) :
    kind.stop bytes value ≤ bytes.size ∧
      (∀ other : Bytes, other.take (kind.stop bytes value) = bytes.take (kind.stop bytes value) →
        kind.decoder.run other = .ok value) ∧
      ∀ kept < kind.stop bytes value, ∃ needed offset actual,
        kind.decoder.run (bytes.take kept) = .error (.insufficientData needed offset actual) := by
  rw [← reach_decoder ran]
  refine ⟨reach_le ran,fun other same => ?_,fun kept short => ?_⟩
  · exact run_of_take ran (Nat.le_refl _) (reach_le ran) same
  · exact run_take_short ran short

-- A leaf block of two slots, with two bytes after it that are none of its own.
def pairedLeaf : LeafBlock := ⟨⟨0,0,.dirLeaf1,none⟩,0,[⟨0x61,2⟩,⟨0x62,4⟩]⟩

def pairedBytes : Bytes := (pairedLeaf.encode ++ [0xAA,0xBB]).toArray

theorem decoded_up_to_stop_leaf :
    (leafBlock .v4).decoder.run pairedBytes = .ok pairedLeaf ∧ pairedBytes.size = 34 ∧
      (∀ other : Bytes, other.take 32 = pairedBytes.take 32 → (leafBlock .v4).decoder.run other = .ok pairedLeaf) ∧
      ∀ kept < 32, ∃ needed offset actual,
        (leafBlock .v4).decoder.run (pairedBytes.take kept) = .error (.insufficientData needed offset actual) := by
  have decoded : (leafBlock .v4).decoder.run pairedBytes = .ok pairedLeaf := eq_ok_of_toOption (by decide +kernel)
  obtain ⟨_,agrees,short⟩ := decoded_up_to_stop decoded
  exact ⟨decoded,by decide,agrees,short⟩

end Structure
end XfsReader
