import XfsReader.Directory.DataBlock
import XfsReader.Proofs.Encoding

-- The fields that blocks of directories and of attribute forks have in common, each at its place in a
-- block whose other bytes may be anything.
namespace XfsReader

variable {block : Bytes} {offset : Nat}

theorem length_word16 (value : UInt16) : (word16 value).length = 2 := rfl

theorem length_word32 (value : UInt32) : (word32 value).length = 4 := rfl

theorem length_littleWord32 (value : UInt32) : (littleWord32 value).length = 4 := rfl

namespace SelfDescription

theorem decode_run {description : SelfDescription} (held : block.Holds offset description.encode)
    (small : block.size < 0x10000000000000000) : (decode offset).run block = .ok description := by
  obtain ⟨held,owner⟩ := Bytes.holds_append.mp held
  obtain ⟨held,uuid⟩ := Bytes.holds_append.mp held
  obtain ⟨held,lsn⟩ := Bytes.holds_append.mp held
  obtain ⟨crc,blockNumber⟩ := Bytes.holds_append.mp held
  simp only [List.length_append,length_littleWord32,Bytes.length_word64,Vector.length_toList] at blockNumber lsn uuid owner
  simp only [decode,Decoder.run_bind,Decoder.le32_run crc small,Decoder.be64_run blockNumber small,
    Decoder.be64_run lsn small,Decoder.fixed16_run uuid small,Decoder.be64_run owner small]
  rfl

theorem decodeFor_run {description : Option SelfDescription} (held : block.Holds offset (encodeFor description))
    (small : block.size < 0x10000000000000000) :
    (decodeFor offset (.ofDescription description)).run block = .ok description := by
  cases description with
  | none => rfl
  | some description => exact Decoder.run_bind_eq_ok.mpr ⟨description,decode_run held small,rfl⟩

end SelfDescription

namespace FreeRun

theorem decode_run {run : FreeRun} (held : block.Holds offset run.encode) (small : block.size < 0x10000000000000000) :
    (decode offset).run block = .ok run := by
  obtain ⟨start,length⟩ := Bytes.holds_append.mp held
  refine Decoder.run_bind_eq_ok.mpr ⟨run.start,Decoder.be16_run start small,?_⟩
  exact Decoder.run_bind_eq_ok.mpr ⟨run.length,Decoder.be16_run length small,rfl⟩

theorem decodeThree_run {runs : FreeRun × FreeRun × FreeRun} (held : block.Holds offset (encodeThree runs))
    (small : block.size < 0x10000000000000000) : (decodeThree offset).run block = .ok runs := by
  obtain ⟨held,third⟩ := Bytes.holds_append.mp held
  obtain ⟨first,second⟩ := Bytes.holds_append.mp held
  refine Decoder.run_bind_eq_ok.mpr ⟨runs.1,decode_run first small,?_⟩
  refine Decoder.run_bind_eq_ok.mpr ⟨runs.2.1,decode_run second small,?_⟩
  exact Decoder.run_bind_eq_ok.mpr ⟨runs.2.2,decode_run third small,rfl⟩

theorem length_encodeThree (runs : FreeRun × FreeRun × FreeRun) : (encodeThree runs).length = 12 := rfl

end FreeRun

-- No magic of one version is one of the other.
theorem DaKind.ofMagic?_other {version other : FormatVersion} (different : other ≠ version) (kind : DaKind) :
    ofMagic? other (kind.magic version) = none := by
  revert different
  cases version <;> cases other <;> cases kind <;> decide

namespace DaHeader

structure HeldBy (header : DaHeader) (block : Bytes) : Prop where
  forward : block.Holds 0 (word32 header.forward)
  backward : block.Holds 4 (word32 header.backward)
  magic : block.Holds 8 (word16 header.magic)
  description : block.Holds 12 (SelfDescription.encodeFor header.description)

variable {header : DaHeader} {version : FormatVersion} {subject : String} {kinds : List DaKind}

theorem size_eq (header : DaHeader) : header.size = 12 + (SelfDescription.encodeFor header.description).length := by
  cases present : header.description with
  | none => simp [size,sizeOf,DaHeader.version,FormatVersion.ofDescription,present,SelfDescription.encodeFor]
  | some description =>
    simp [size,sizeOf,DaHeader.version,FormatVersion.ofDescription,present,SelfDescription.encodeFor,
      SelfDescription.length_encode]

theorem length_encode (header : DaHeader) : header.encode.length = header.size := by
  simp only [encode,List.length_append,length_word32,length_word16,size_eq]
  rfl

theorem heldBy_of_holds (held : block.Holds 0 header.encode) : header.HeldBy block := by
  obtain ⟨held,description⟩ := Bytes.holds_append.mp held
  obtain ⟨held,_⟩ := Bytes.holds_append.mp held
  obtain ⟨held,magic⟩ := Bytes.holds_append.mp held
  obtain ⟨forward,backward⟩ := Bytes.holds_append.mp held
  exact ⟨forward,backward,magic,description⟩

theorem HeldBy.decode_run (held : header.HeldBy block) (small : block.size < 0x10000000000000000) :
    (decode header.version).run block = .ok header := by
  have whole : 0 + sizeOf header.version ≤ block.size := by
    have inside := held.description.inside
    rw [← size_eq] at inside
    rw [Nat.zero_add]
    exact inside
  have described := SelfDescription.decodeFor_run held.description small
  refine Decoder.run_bind_eq_ok.mpr ⟨header.magic,Decoder.be16_run held.magic small,?_⟩
  rw [decodeAfter,DaHeader.magic,DaKind.ofMagic?_magic]
  refine Decoder.run_bind_eq_ok.mpr ⟨(),Decoder.require_run whole small,?_⟩
  refine Decoder.run_bind_eq_ok.mpr ⟨_,Decoder.be32_run held.forward small,?_⟩
  refine Decoder.run_bind_eq_ok.mpr ⟨_,Decoder.be32_run held.backward small,?_⟩
  exact Decoder.run_bind_eq_ok.mpr ⟨_,described,rfl⟩

theorem HeldBy.decode_other (held : header.HeldBy block) (different : version ≠ header.version)
    (small : block.size < 0x10000000000000000) :
    (decode version).run block =
      .error (.signatureMismatch "da block" (DaKind.magics DaKind.all version) (.ofWord16 header.magic)) := by
  rw [decode,peekMagic,Decoder.run_bind,Decoder.be16_run held.magic small]
  change (decodeAfter version header.magic).run block = _
  rw [decodeAfter,DaHeader.magic,DaKind.ofMagic?_other different]
  rfl

theorem HeldBy.decodeKinds_run (held : header.HeldBy block) (kinded : header.kind ∈ kinds)
    (small : block.size < 0x10000000000000000) : (decodeKinds subject kinds header.version).run block = .ok header := by
  refine Decoder.run_bind_eq_ok.mpr ⟨header,held.decode_run small,?_⟩
  rw [if_pos (List.contains_iff_mem.mpr kinded)]
  rfl

-- What a decoder of blocks of other kinds, or of the other version, makes of a header.
def refusal (header : DaHeader) (subject : String) (kinds : List DaKind) (version : FormatVersion) : DecodeError :=
  if version = header.version then .signatureMismatch subject (DaKind.magics kinds version) (.ofWord16 header.magic)
  else .signatureMismatch "da block" (DaKind.magics DaKind.all version) (.ofWord16 header.magic)

theorem HeldBy.decodeKinds_refused (held : header.HeldBy block)
    (foreign : version ≠ header.version ∨ header.kind ∉ kinds) (small : block.size < 0x10000000000000000) :
    (decodeKinds subject kinds version).run block = .error (header.refusal subject kinds version) := by
  rw [decodeKinds,Decoder.run_bind,refusal]
  by_cases same : version = header.version
  · subst same
    have unlisted : ¬ kinds.contains header.kind = true := by
      rw [List.contains_iff_mem]
      exact foreign.resolve_left (fun different => different rfl)
    rw [held.decode_run small,if_pos rfl]
    change (if _ then _ else _ : Decoder DaHeader).run block = _
    rw [if_neg unlisted]
    rfl
  · rw [held.decode_other same small,if_neg same]
    rfl

end DaHeader
end XfsReader
