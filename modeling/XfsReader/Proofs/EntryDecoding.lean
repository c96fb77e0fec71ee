import XfsReader.Directory.Entry
import XfsReader.Proofs.Decoder

-- What decoding an entry comes to at each place of a block, by the length of its name and by the room
-- that is left there.
namespace XfsReader
namespace DirectoryEntry

-- What is left of an entry once its inode and the length of its name are known.
def decodeNamed (typed : Bool) (within : Nat) (inode : UInt64) (nameLength : UInt8) : Decoder (Option DirectoryEntry) :=
  if nameLength = 0 then return none
  else do
    let length := span nameLength.toNat typed
    Decoder.require within length
    let name ← Decoder.bytes (within + 9) nameLength.toNat
    let fileType ← decodeType typed (within + 9 + nameLength.toNat)
    let tag ← Decoder.be16 (within + length - 2)
    return some ⟨name,inode,tag,length,fileType⟩

variable {typed : Bool} {block : Bytes} {within : Nat} {inode : UInt64} {nameLength : UInt8}

theorem decodeNamed_finishes (named : nameLength ≠ 0) :
    (decodeNamed typed within inode nameLength).Finishes (within + span nameLength.toNat typed) (·.isSome) := by
  have fits := le_span nameLength.toNat typed
  rw [decodeNamed,if_neg named]
  refine (Decoder.require_finishes (Nat.le_refl _)).bind fun _ _ => ?_
  have nameRead : (Decoder.bytes (within + 9) nameLength.toNat).Finishes (within + span nameLength.toNat typed)
      fun _ => True := ⟨by omega,fun _ => trivial⟩
  refine nameRead.bind fun name _ => ?_
  have typeRead : (decodeType typed (within + 9 + nameLength.toNat)).Finishes
      (within + span nameLength.toNat typed) fun _ => True := by
    cases typed with
    | false => exact trivial
    | true =>
      rw [if_pos rfl] at fits
      exact ⟨by omega,fun _ => trivial⟩
  refine typeRead.bind fun fileType _ => ?_
  refine (Decoder.be16_finishes ?_).bind fun tag _ => rfl
  omega

theorem decode_headed (room : within + 8 < block.size) (small : block.size < 0x10000000000000000) :
    (decode typed within).run block =
      (decodeNamed typed within (Bytes.be64 block within) (Bytes.byteAt block (within + 8))).run block := by
  rw [decode,Decoder.run_bind,Decoder.run_be64 (by omega) (by omega)]
  change Decoder.run (Decoder.u8 (within + 8) >>= decodeNamed typed within _) block = _
  rw [Decoder.run_bind,Decoder.run_u8 (by omega) room]
  rfl

-- In the last eight bytes of a block there is no room for the length of a name.
theorem decode_headless (last : within + 8 = block.size) (small : block.size < 0xFFFFFFFFFFFFFFFF) :
    (decode typed within).run block = .error (.insufficientData 1 block.size 0) := by
  rw [decode,Decoder.run_bind,Decoder.run_be64 (by omega) (Nat.le_of_eq last)]
  change Decoder.run (Decoder.u8 (within + 8) >>= decodeNamed typed within _) block = _
  rw [Decoder.run_bind,Decoder.u8,last,Decoder.run_slice_short (by omega) (Nat.lt_succ_self _),Nat.sub_self]
  rfl

theorem decode_sentinel (room : within + 8 < block.size) (small : block.size < 0x10000000000000000)
    (unnamed : Bytes.byteAt block (within + 8) = 0) : (decode typed within).run block = .ok none := by
  rw [decode_headed room small,unnamed]
  rfl

theorem decode_cut (room : within + 8 < block.size) (small : block.size < 0xFFFFFFFFFFFF0000)
    (named : Bytes.byteAt block (within + 8) ≠ 0)
    (long : block.size < within + span (Bytes.byteAt block (within + 8)).toNat typed) :
    (decode typed within).run block =
      .error (.insufficientData (span (Bytes.byteAt block (within + 8)).toNat typed) within (block.size - within)) := by
  have least : span (Bytes.byteAt block (within + 8)).toNat typed ≤ 0xFFF := by
    have byte := (Bytes.byteAt block (within + 8)).toNat_lt
    simp only [span,roundUp]
    split <;> omega
  rw [decode_headed room (by omega),decodeNamed,if_neg named,Decoder.run_bind,Decoder.require,
    Decoder.run_slice_short (by omega) long]
  rfl

theorem decode_whole (named : Bytes.byteAt block (within + 8) ≠ 0)
    (inside : within + span (Bytes.byteAt block (within + 8)).toNat typed ≤ block.size)
    (small : block.size < 0x10000000000000000) :
    ∃ entry, (decode typed within).run block = .ok (some entry) := by
  have room : within + 8 < block.size := by
    have fits := le_span (Bytes.byteAt block (within + 8)).toNat typed
    omega
  rw [decode_headed room small]
  obtain ⟨found,decoded,some⟩ := (decodeNamed_finishes named).run inside (Nat.lt_of_le_of_lt inside small)
  obtain ⟨entry,rfl⟩ := Option.isSome_iff_exists.mp some
  exact ⟨entry,decoded⟩

end DirectoryEntry

end XfsReader
