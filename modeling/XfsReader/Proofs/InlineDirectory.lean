import XfsReader.Proofs.DecoderReach
import XfsReader.Proofs.RegionLayout
import XfsReader.Proofs.Traversal
import XfsReader.Volume.Listing

-- A directory kept in the inode is read back as it was written. Every entry begins where the one before
-- ends, so that the length of each, as the cursor counts it, has to be the length of its bytes.
namespace XfsReader

-- The type byte may be any byte, there or not as the directory has it. The name may be empty.
structure InlineEntry (typed : Bool) where
  name : Name
  tag : UInt16
  typeByte : Option UInt8
  inode : UInt64
  short : name.length ≤ 255
  kinded : typeByte.isSome = typed

-- Whether inode numbers take eight bytes is said by a count of its own; with four they must be small.
structure InlineDirectory (typed : Bool) where
  wideCount : UInt8
  parent : UInt64
  entries : List (InlineEntry typed)
  few : entries.length ≤ 255
  fits : wideCount = 0 → ∀ inode ∈ parent :: entries.map (·.inode), inode.toNat < 0x100000000

variable {typed : Bool} {buffer : Bytes} {offset : Nat}

namespace Shortform

variable {wide : Bool}

theorem length_encodeInode (wide : Bool) (inode : UInt64) : (encodeInode wide inode).length = inodeWidth wide :=
  length_toBigEndian _ _

theorem decodeInode_run {inode : UInt64} (held : buffer.Holds offset (encodeInode wide inode))
    (fits : wide = false → inode.toNat < 0x100000000) (small : buffer.size < 0x10000000000000000) :
    (decodeInode wide offset).run buffer = .ok inode := by
  cases wide with
  | true => exact Decoder.be64_run held small
  | false =>
    have kept : (UInt32.ofNat inode.toNat).toNat = inode.toNat := UInt32.toNat_ofNat_of_lt' (fits rfl)
    have word : buffer.Holds offset (word32 (UInt32.ofNat inode.toNat)) := by
      rw [word32,kept]
      exact held
    have widened : (UInt32.ofNat inode.toNat).toUInt64 = inode := UInt64.toNat_inj.mp kept
    exact Decoder.run_bind_eq_ok.mpr ⟨_,Decoder.be32_run word small,congrArg Except.ok widened⟩

theorem decode_counts {shortform : Shortform} (ran : (decode typed).run buffer = .ok shortform) :
    shortform.entries.length = (Bytes.byteAt buffer 0).toNat := by
  obtain ⟨count,counted,ran⟩ := Decoder.run_bind_eq_ok.mp ran
  obtain ⟨wideCount,_,ran⟩ := Decoder.run_bind_eq_ok.mp ran
  obtain ⟨parent,_,ran⟩ := Decoder.run_bind_eq_ok.mp ran
  obtain ⟨entries,decoded,ran⟩ := Decoder.run_bind_eq_ok.mp ran
  obtain ⟨_,_,counted⟩ := Decoder.slice_eq_ok counted
  cases ran
  cases counted
  rw [← Bytes.byteAt_part buffer 0]
  exact (decodeEntries_yields _ _ _ _).run decoded

end Shortform

namespace InlineEntry

variable {wide : Bool}

def bytes (wide : Bool) (stored : InlineEntry typed) : List UInt8 :=
  [UInt8.ofNat stored.name.length] ++ (word16 stored.tag ++ (stored.name ++
    (stored.typeByte.toList ++ Shortform.encodeInode wide stored.inode)))

def entry (wide : Bool) (stored : InlineEntry typed) : DirectoryEntry where
  name := stored.name
  inode := stored.inode
  tag := stored.tag
  length := 3 + stored.name.length + stored.typeByte.toList.length + Shortform.inodeWidth wide
  fileType := stored.typeByte.map FileType.ofByte

theorem length_bytes (wide : Bool) (stored : InlineEntry typed) :
    (stored.bytes wide).length = (stored.entry wide).length := by
  simp only [bytes,entry,List.length_append,List.length_singleton,word16,length_toBigEndian,
    Shortform.length_encodeInode]
  omega

theorem length_flatMap (wide : Bool) (entries : List (InlineEntry typed)) :
    (entries.flatMap (InlineEntry.bytes wide)).length = Shortform.span (entries.map (InlineEntry.entry wide)) := by
  induction entries with
  | nil => rfl
  | cons stored entries ih =>
    rw [List.flatMap_cons,List.length_append,stored.length_bytes,ih]
    rfl

theorem typeByte_length (stored : InlineEntry typed) : stored.typeByte.toList.length = if typed then 1 else 0 := by
  obtain ⟨_,_,typeByte,_,_,rfl⟩ := stored
  cases typeByte <;> rfl

theorem decode_run {stored : InlineEntry typed} (held : buffer.Holds offset (stored.bytes wide))
    (fits : wide = false → stored.inode.toNat < 0x100000000) (small : buffer.size < 0x10000000000000000) :
    (Shortform.decodeEntry typed wide offset).run buffer = .ok (stored.entry wide) := by
  obtain ⟨count,held⟩ := Bytes.holds_append.mp held
  obtain ⟨tag,held⟩ := Bytes.holds_append.mp held
  obtain ⟨name,held⟩ := Bytes.holds_append.mp held
  obtain ⟨typeByte,inode⟩ := Bytes.holds_append.mp held
  replace name : buffer.Holds (offset + 3) stored.name := name
  replace typeByte : buffer.Holds (offset + 3 + stored.name.length) stored.typeByte.toList := typeByte
  have stated : (UInt8.ofNat stored.name.length).toNat = stored.name.length :=
    UInt8.toNat_ofNat_of_lt' (Nat.lt_succ_of_le stored.short)
  -- The decoder steps over the type by the format, the writer by the byte that it wrote.
  have stepped : (if typed then offset + 3 + stored.name.length + 1 else offset + 3 + stored.name.length) =
      offset + 3 + stored.name.length + stored.typeByte.toList.length := by
    rw [stored.typeByte_length]
    split <;> rfl
  refine Decoder.run_bind_eq_ok.mpr ⟨_,Decoder.u8_run count small,?_⟩
  refine Decoder.run_bind_eq_ok.mpr ⟨_,Decoder.be16_run tag small,?_⟩
  rw [stated]
  refine Decoder.run_bind_eq_ok.mpr ⟨_,Decoder.bytes_run name small rfl,?_⟩
  refine Decoder.run_bind_eq_ok.mpr ⟨_,DirectoryEntry.decodeType_run stored.kinded typeByte small,?_⟩
  rw [stepped]
  refine Decoder.run_bind_eq_ok.mpr ⟨_,Shortform.decodeInode_run inode fits small,?_⟩
  have length : offset + 3 + stored.name.length + stored.typeByte.toList.length + Shortform.inodeWidth wide - offset =
      (stored.entry wide).length := by
    simp only [entry]
    omega
  rw [length]
  rfl

-- By induction on the entries, with the cursor where the next of them begins.
theorem decodeEntries_run {entries : List (InlineEntry typed)}
    (held : buffer.Holds offset (entries.flatMap (InlineEntry.bytes wide)))
    (fits : wide = false → ∀ stored ∈ entries, stored.inode.toNat < 0x100000000)
    (small : buffer.size < 0x10000000000000000) :
    (Shortform.decodeEntries typed wide offset entries.length).run buffer = .ok (entries.map (InlineEntry.entry wide)) := by
  induction entries generalizing offset with
  | nil => rfl
  | cons stored entries ih =>
    obtain ⟨here,later⟩ := Bytes.holds_append.mp held
    rw [stored.length_bytes] at later
    have decoded := decode_run here (fun narrow => fits narrow stored List.mem_cons_self) small
    have rest := ih later fun narrow other member => fits narrow other (List.mem_cons_of_mem stored member)
    refine Decoder.run_bind_eq_ok.mpr ⟨_,decoded,?_⟩
    exact Decoder.run_bind_eq_ok.mpr ⟨_,rest,rfl⟩

-- The writer of entries writes these bytes where the type byte is the one that its type is written with.
theorem encodeEntry_entry {stored : InlineEntry typed}
    (known : ∀ byte ∈ stored.typeByte, (FileType.ofByte byte).toByte = byte) :
    Shortform.encodeEntry wide (stored.entry wide) = stored.bytes wide := by
  have kind : DirectoryEntry.encodeType (stored.entry wide).fileType = stored.typeByte.toList := by
    cases said : stored.typeByte with
    | none => simp [entry,said,DirectoryEntry.encodeType]
    | some byte => simp [entry,said,DirectoryEntry.encodeType,known byte said]
  rw [Shortform.encodeEntry,kind]
  simp [bytes,entry]

end InlineEntry

namespace InlineDirectory

def wide (directory : InlineDirectory typed) : Bool := directory.wideCount != 0

def bytes (directory : InlineDirectory typed) : List UInt8 :=
  [UInt8.ofNat directory.entries.length] ++ ([directory.wideCount] ++
    (Shortform.encodeInode directory.wide directory.parent ++
      directory.entries.flatMap (InlineEntry.bytes directory.wide)))

def shortform (directory : InlineDirectory typed) : Shortform where
  parent := directory.parent
  entries := directory.entries.map (InlineEntry.entry directory.wide)

-- What a listing makes of it: the inode itself and its parent lead.
def listing (directory : InlineDirectory typed) (inode : UInt64) : List DirectoryEntry :=
  let fileType := if typed then some FileType.directory else none
  ⟨DirectoryEntry.dot,inode,0,0,fileType⟩ :: ⟨DirectoryEntry.dotDot,directory.parent,0,0,fileType⟩ ::
    directory.shortform.entries

variable {directory : InlineDirectory typed}

theorem fits_of_narrow (narrow : directory.wide = false) {inode : UInt64}
    (member : inode ∈ directory.parent :: directory.entries.map (·.inode)) : inode.toNat < 0x100000000 :=
  directory.fits (by simpa [wide] using narrow) inode member

theorem decode_run (held : buffer.Holds 0 directory.bytes) (small : buffer.size < 0x10000000000000000) :
    (Shortform.decode typed).run buffer = .ok directory.shortform := by
  obtain ⟨count,held⟩ := Bytes.holds_append.mp held
  obtain ⟨wideCount,held⟩ := Bytes.holds_append.mp held
  obtain ⟨parent,entries⟩ := Bytes.holds_append.mp held
  rw [Shortform.length_encodeInode] at entries
  have stated : (UInt8.ofNat directory.entries.length).toNat = directory.entries.length :=
    UInt8.toNat_ofNat_of_lt' (Nat.lt_succ_of_le directory.few)
  refine Decoder.run_bind_eq_ok.mpr ⟨_,Decoder.u8_run count small,?_⟩
  refine Decoder.run_bind_eq_ok.mpr ⟨_,Decoder.u8_run wideCount small,?_⟩
  have first : directory.wide = false → directory.parent.toNat < 0x100000000 :=
    fun narrow => fits_of_narrow narrow List.mem_cons_self
  refine Decoder.run_bind_eq_ok.mpr ⟨_,Shortform.decodeInode_run parent first small,?_⟩
  rw [stated]
  have later : directory.wide = false → ∀ stored ∈ directory.entries, stored.inode.toNat < 0x100000000 :=
    fun narrow stored member => fits_of_narrow narrow (List.mem_cons_of_mem _ (List.mem_map_of_mem member))
  exact Decoder.run_bind_eq_ok.mpr ⟨_,InlineEntry.decodeEntries_run entries later small,rfl⟩

theorem length_bytes (directory : InlineDirectory typed) :
    directory.bytes.length =
      2 + Shortform.inodeWidth directory.wide + Shortform.span directory.shortform.entries := by
  simp only [bytes,shortform,List.length_append,List.length_singleton,Shortform.length_encodeInode,
    InlineEntry.length_flatMap]
  omega

theorem encode_shortform
    (known : ∀ stored ∈ directory.entries, ∀ byte ∈ stored.typeByte, (FileType.ofByte byte).toByte = byte) :
    directory.shortform.encode directory.wideCount = directory.bytes := by
  have entries : directory.shortform.entries.flatMap (Shortform.encodeEntry directory.wide) =
      directory.entries.flatMap (InlineEntry.bytes directory.wide) := by
    rw [shortform,List.flatMap_map,List.flatMap_def,List.flatMap_def]
    exact congrArg List.flatten
      (List.map_congr_left fun stored member => InlineEntry.encodeEntry_entry (known stored member))
  change UInt8.ofNat _ :: directory.wideCount :: Shortform.encodeInode directory.wide directory.parent ++
    directory.shortform.entries.flatMap (Shortform.encodeEntry directory.wide) = _
  rw [entries,shortform,List.length_map]
  rfl

end InlineDirectory

section Listing

variable {volume : Volume} {inode : UInt64} {fork : Fork} {device : Device}

theorem Volume.listDirectory_shortform (known : volume.forks.find inode .data = .ok fork)
    (layout : fork.layout = .shortform) :
    volume.listDirectory inode = InodeFork.shortformEntries ⟨volume,inode,fork⟩ := by
  have opened : volume.openFork inode .data = .ok ⟨volume,inode,fork⟩ := by rw [openFork,known]
  rw [listDirectory,opened]
  exact InodeFork.listDirectory_unmapped ⟨volume,inode,fork⟩ layout

theorem Volume.listDirectory_inline {directory : InlineDirectory typed} (known : volume.forks.find inode .data = .ok fork)
    (layout : fork.layout = .shortform) (format : InodeFork.typed ⟨volume,inode,fork⟩ = typed)
    (inside : fork.position + fork.size.toNat ≤ device.size) (small : device.size < 0x10000000000000000)
    (held : (device.region fork.position fork.size.toNat).Holds 0 directory.bytes) :
    (volume.listDirectory inode).eval device = .ok (directory.listing inode) := by
  have below : (device.region fork.position fork.size.toNat).size < 0x10000000000000000 := by
    rw [Device.size_region]
    omega
  have decoded := directory.decode_run held below
  have answered : (InodeFork.readLiteral ⟨volume,inode,fork⟩).eval device =
      .ok (device.region fork.position fork.size.toNat) :=
    (Traversal.eval_request device none _ _).trans (Device.read_region inside small)
  rw [listDirectory_shortform known layout]
  refine Traversal.eval_bind_eq_ok.mpr ⟨_,answered,?_⟩
  refine Traversal.eval_bind_eq_ok.mpr ⟨directory.shortform,?_,?_⟩
  · rw [Traversal.eval_ofExcept,format,decoded]
    rfl
  · rw [format]
    rfl

-- No entry is left out of a listing: there are as many as the count says, besides the two that lead.
theorem Volume.listDirectory_counts {listing : List DirectoryEntry} (known : volume.forks.find inode .data = .ok fork)
    (layout : fork.layout = .shortform) (listed : (volume.listDirectory inode).eval device = .ok listing) :
    listing.length = (Bytes.byteAt (device.region fork.position fork.size.toNat) 0).toNat + 2 := by
  rw [listDirectory_shortform known layout] at listed
  obtain ⟨literal,answered,rest⟩ := Traversal.eval_bind_eq_ok.mp listed
  obtain ⟨shortform,decoded,ended⟩ := Traversal.eval_bind_eq_ok.mp rest
  rw [Traversal.eval_ofExcept] at decoded
  have read : device.read fork.position fork.size.toNat = .ok literal :=
    (Traversal.eval_request device none _ _).symm.trans answered
  obtain ⟨_,_,rfl⟩ := Device.read_eq_ok.mp read
  have counted := Shortform.decode_counts (located_eq_ok.mp decoded)
  cases ended
  exact congrArg (· + 2) counted

end Listing

-- The directory comes back whatever follows it in the literal area, each entry with the length of its own
-- bytes, and a listing has just its entries behind the inode and the parent.
theorem inline_directory_read_back {typed : Bool} (directory : InlineDirectory typed) :
    (∀ buffer : Bytes, buffer.size < 0x10000000000000000 → buffer.Holds 0 directory.bytes →
      (Shortform.decode typed).run buffer = .ok directory.shortform) ∧
    (directory.bytes.length =
      2 + Shortform.inodeWidth directory.wide + Shortform.span directory.shortform.entries) ∧
    ((∀ stored ∈ directory.entries, ∀ byte ∈ stored.typeByte, (FileType.ofByte byte).toByte = byte) →
      directory.shortform.encode directory.wideCount = directory.bytes) ∧
    ∀ (volume : Volume) inode fork device, volume.forks.find inode .data = .ok fork → fork.layout = .shortform →
      (InodeFork.typed ⟨volume,inode,fork⟩ = typed → fork.position + fork.size.toNat ≤ device.size →
        device.size < 0x10000000000000000 →
        (device.region fork.position fork.size.toNat).Holds 0 directory.bytes →
          (volume.listDirectory inode).eval device = .ok (directory.listing inode)) ∧
      ∀ listing, (volume.listDirectory inode).eval device = .ok listing →
        listing.length = (Bytes.byteAt (device.region fork.position fork.size.toNat) 0).toNat + 2 := by
  refine ⟨?decoded,?measured,?written,?listed⟩
  case decoded => exact fun buffer small held => directory.decode_run held small
  case measured => exact directory.length_bytes
  case written => exact InlineDirectory.encode_shortform
  case listed =>
    intro volume inode fork device known layout
    refine ⟨fun format inside small held => ?_,fun listing listed => ?_⟩
    · exact volume.listDirectory_inline known layout format inside small held
    · exact volume.listDirectory_counts known layout listed

-- Four bytes for an inode number, an empty name, and a type byte that stands for no type.
def narrowDirectory : InlineDirectory true where
  wideCount := 0
  parent := 128
  entries := [⟨[],0x30,some 200,131,by decide,rfl⟩,⟨[0x61,0x62],0x40,some 2,4294967295,by decide,rfl⟩]
  few := by decide
  fits _ := List.forall_mem_cons.mpr ⟨by decide,List.forall_mem_cons.mpr ⟨by decide,
    List.forall_mem_cons.mpr ⟨by decide,List.forall_mem_nil _⟩⟩⟩

def inlineVolume : Volume where
  geometry := .ofSizes 512 100 10
  ag := ⟨.smallest,100,10⟩
  forks := ForkTable.empty.insert 5 .data ⟨2,30,.shortform,.v5⟩
  options := .standard

def inlineDevice : Device := .ofBytes ([0xAA,0xBB] ++ narrowDirectory.bytes ++ [0xEE,0xEE,0xEE,0xEE,0xEE,0xEE]).toArray

theorem inline_directory_read_back_narrow :
    narrowDirectory.bytes.length = 24 ∧ inlineDevice.size = 32 ∧
      (Shortform.decode true).run narrowDirectory.bytes.toArray = .ok narrowDirectory.shortform ∧
      (inlineVolume.listDirectory 5).eval inlineDevice =
        .ok [⟨DirectoryEntry.dot,5,0,0,some .directory⟩,⟨DirectoryEntry.dotDot,128,0,0,some .directory⟩,
          ⟨[],131,0x30,8,some .unknown⟩,⟨[0x61,0x62],4294967295,0x40,10,some .directory⟩] := by
  obtain ⟨decoded,_,_,listed⟩ := inline_directory_read_back narrowDirectory
  have held : (inlineDevice.region 2 30).Holds 0 narrowDirectory.bytes := by decide +kernel
  have whole := decoded narrowDirectory.bytes.toArray (by decide +kernel) (Bytes.holds_toArray _)
  have listing := (listed inlineVolume 5 ⟨2,30,.shortform,.v5⟩ inlineDevice rfl rfl).1 rfl (by decide +kernel)
    (by decide +kernel) held
  exact ⟨by decide +kernel,by decide +kernel,whole,listing⟩

end XfsReader
