import XfsReader.BlockMap
import XfsReader.Dabtree
import XfsReader.Directory.DataBlock
import XfsReader.Proofs.Decoder

-- The magic of a block alone decides whether its header decodes, and as which version. Every other
-- field of a header can hold anything, and the owner is what a version 5 block says in its place.
namespace XfsReader
open Decoder

-- Who a block belongs to: the inode at an offset of it, where it is of version 5.
def OwnerAt (version : FormatVersion) (offset : Nat) (block : Bytes) : Option UInt64 → Prop
  | none => version = .v4
  | some owner => version = .v5 ∧ (be64 offset).run block = .ok owner

theorem OwnerAt.none_of_v4 {version : FormatVersion} {offset : Nat} {block : Bytes} {owner : Option UInt64}
    (known : OwnerAt version offset block owner) (old : version = .v4) : owner = none := by
  cases owner with
  | none => rfl
  | some owner => rw [old] at known; cases known.1

namespace SelfDescription

theorem decodeFor_owner {version : FormatVersion} {offset : Nat} {block : Bytes}
    {description : Option SelfDescription} (decoded : (decodeFor offset version).run block = .ok description) :
    OwnerAt version (offset + 36) block (description.map (·.owner)) := by
  cases version with
  | v4 => cases decoded; exact rfl
  | v5 =>
    obtain ⟨found,fields,returned⟩ := run_bind_eq_ok.mp decoded
    cases returned
    obtain ⟨crc,_,decoded⟩ := run_bind_eq_ok.mp fields
    obtain ⟨blockNumber,_,decoded⟩ := run_bind_eq_ok.mp decoded
    obtain ⟨lsn,_,decoded⟩ := run_bind_eq_ok.mp decoded
    obtain ⟨uuid,_,decoded⟩ := run_bind_eq_ok.mp decoded
    obtain ⟨owner,read,returned⟩ := run_bind_eq_ok.mp decoded
    cases returned
    exact ⟨rfl,read⟩

theorem decode_finishes {offset limit : Nat} (inside : offset + 44 ≤ limit) :
    (decode offset).Finishes limit fun _ => True := by
  unfold decode
  refine .bind (le32_finishes (by omega)) fun crc _ => .bind (be64_finishes (by omega)) fun blockNumber _ =>
    .bind (be64_finishes (by omega)) fun lsn _ => .bind (fixed16_finishes (by omega)) fun uuid _ =>
    .bind (be64_finishes (by omega)) fun owner _ => ?_
  trivial

theorem decodeFor_finishes {offset limit : Nat} (version : FormatVersion) (inside : offset + 44 ≤ limit) :
    (decodeFor offset version).Finishes limit fun description => .ofDescription description = version := by
  cases version with
  | v4 => exact rfl
  | v5 => exact (decode_finishes inside).bind fun description _ => rfl

end SelfDescription

namespace MapHeader

theorem decodeDescription_finishes (version : FormatVersion) :
    (decodeDescription version).Finishes 72 fun description => .ofDescription description = version := by
  cases version with
  | v4 => exact rfl
  | v5 =>
    refine .bind (require_finishes (by decide)) fun _ _ => .bind (be64_finishes (by decide)) fun blockNumber _ =>
      .bind (be64_finishes (by decide)) fun lsn _ => .bind (fixed16_finishes (by decide)) fun uuid _ =>
      .bind (be64_finishes (by decide)) fun owner _ => .bind (le32_finishes (by decide)) fun crc _ => ?_
    exact rfl

theorem decodeAfter_decided (pair : MagicPair) (magic : UInt32) :
    (decodeAfter pair magic).Finishes 72 (fun header => pair.versionOf magic = some header.version) ∨
      (decodeAfter pair magic).Yields fun _ => False := by
  unfold decodeAfter
  cases pair.accepted.check32 "bmbt block" magic with
  | error error => exact .inr trivial
  | ok _ =>
    cases known : pair.versionOf magic with
    | none => exact .inr trivial
    | some version =>
      left
      change Finishes 72 _ (require 0 (sizeOf .v4) >>= _)
      refine .bind (require_finishes (by decide)) fun _ _ => .bind (be16_finishes (by decide)) fun level _ =>
        .bind (be16_finishes (by decide)) fun recordCount _ => .bind (be64_finishes (by decide)) fun left _ =>
        .bind (be64_finishes (by decide)) fun right _ =>
        .bind (decodeDescription_finishes version) fun description same => ?_
      exact congrArg some same.symm

theorem decodeDescription_owner {version : FormatVersion} {block : Bytes} {description : Option SelfDescription}
    (decoded : (decodeDescription version).run block = .ok description) :
    FormatVersion.ofDescription description = version ∧
      OwnerAt version 56 block (description.map (·.owner)) := by
  cases version with
  | v4 => cases decoded; exact ⟨rfl,rfl⟩
  | v5 =>
    obtain ⟨_,_,decoded⟩ := run_bind_eq_ok.mp decoded
    obtain ⟨blockNumber,_,decoded⟩ := run_bind_eq_ok.mp decoded
    obtain ⟨lsn,_,decoded⟩ := run_bind_eq_ok.mp decoded
    obtain ⟨uuid,_,decoded⟩ := run_bind_eq_ok.mp decoded
    obtain ⟨owner,read,decoded⟩ := run_bind_eq_ok.mp decoded
    obtain ⟨crc,_,returned⟩ := run_bind_eq_ok.mp decoded
    cases returned
    exact ⟨rfl,rfl,read⟩

theorem decode_fields {pair : MagicPair} {block : Bytes} {header : MapHeader}
    (decoded : (decode pair).run block = .ok header) :
    (∃ magic, (be32 0).run block = .ok magic ∧ pair.versionOf magic = some header.version) ∧
      OwnerAt header.version 56 block header.owner := by
  obtain ⟨magic,read,decoded⟩ := run_bind_eq_ok.mp decoded
  obtain ⟨_,_,decoded⟩ := run_bind_eq_ok.mp decoded
  cases known : pair.versionOf magic with
  | none => rw [known] at decoded; cases decoded
  | some version =>
    rw [known] at decoded
    obtain ⟨_,_,decoded⟩ := run_bind_eq_ok.mp decoded
    obtain ⟨level,_,decoded⟩ := run_bind_eq_ok.mp decoded
    obtain ⟨recordCount,_,decoded⟩ := run_bind_eq_ok.mp decoded
    obtain ⟨left,_,decoded⟩ := run_bind_eq_ok.mp decoded
    obtain ⟨right,_,decoded⟩ := run_bind_eq_ok.mp decoded
    obtain ⟨description,described,returned⟩ := run_bind_eq_ok.mp decoded
    cases returned
    obtain ⟨same,owned⟩ := decodeDescription_owner described
    obtain rfl : version = _ := same.symm
    exact ⟨⟨magic,read,known⟩,owned⟩

theorem decode_magic {pair : MagicPair} {one other : Bytes} {header : MapHeader}
    (decoded : (decode pair).run one = .ok header) (same : Bytes.part other 0 4 = Bytes.part one 0 4)
    (long : 72 ≤ other.size) : ∃ again, (decode pair).run other = .ok again ∧ again.version = header.version := by
  obtain ⟨magic,again,ran,first,second⟩ :=
    run_decided (decodeAfter pair) decoded (decodeAfter_decided pair) same (by decide) long (by decide)
  exact ⟨again,ran,Option.some.inj (second.symm.trans first)⟩

end MapHeader

namespace DaHeader

theorem decodeAfter_decided (version : FormatVersion) (magic : UInt16) :
    (decodeAfter version magic).Finishes 56 (fun _ => True) ∨ (decodeAfter version magic).Yields fun _ => False := by
  unfold decodeAfter
  cases DaKind.ofMagic? version magic with
  | none => exact .inr trivial
  | some kind =>
    left
    have size : 0 + sizeOf version ≤ 56 := by cases version <;> decide
    refine .bind (require_finishes size) fun _ _ => .bind (be32_finishes (by decide)) fun forward _ =>
      .bind (be32_finishes (by decide)) fun backward _ =>
      .bind (SelfDescription.decodeFor_finishes version (by decide)) fun description _ => ?_
    trivial

theorem decode_fields {version : FormatVersion} {block : Bytes} {header : DaHeader}
    (decoded : (decode version).run block = .ok header) :
    (be16 8).run block = .ok (header.kind.magic version) ∧ OwnerAt version 48 block header.owner := by
  obtain ⟨magic,read,decoded⟩ := run_bind_eq_ok.mp decoded
  unfold decodeAfter at decoded
  cases known : DaKind.ofMagic? version magic with
  | none => rw [known] at decoded; cases decoded
  | some kind =>
    rw [known] at decoded
    obtain ⟨_,_,decoded⟩ := run_bind_eq_ok.mp decoded
    obtain ⟨forward,_,decoded⟩ := run_bind_eq_ok.mp decoded
    obtain ⟨backward,_,decoded⟩ := run_bind_eq_ok.mp decoded
    obtain ⟨description,described,returned⟩ := run_bind_eq_ok.mp decoded
    cases returned
    rw [DaKind.magic_of_ofMagic? known]
    exact ⟨read,SelfDescription.decodeFor_owner described⟩

theorem decode_magic {version : FormatVersion} {one other : Bytes} {header : DaHeader}
    (decoded : (decode version).run one = .ok header) (same : Bytes.part other 8 2 = Bytes.part one 8 2)
    (long : 56 ≤ other.size) : ∃ again, (decode version).run other = .ok again := by
  obtain ⟨_,again,ran,_⟩ :=
    run_decided (decodeAfter version) decoded (decodeAfter_decided version) same (by decide) long (by decide)
  exact ⟨again,ran⟩

end DaHeader

namespace DataHeader

theorem decodeAfter_decided (version : FormatVersion) (magic : UInt32) :
    (decodeAfter version magic).Finishes 64 (fun _ => True) ∨ (decodeAfter version magic).Yields fun _ => False := by
  have freeRun : ∀ offset, offset + 4 ≤ 64 → (FreeRun.decode offset).Finishes 64 fun _ => True := by
    intro offset inside
    refine .bind (be16_finishes (by omega)) fun start _ => .bind (be16_finishes (by omega)) fun length _ => ?_
    trivial
  have preface : prefaceSize version ≤ 48 := by cases version <;> decide
  have three : (FreeRun.decodeThree (prefaceSize version)).Finishes 64 fun _ => True := by
    refine .bind (freeRun _ (by omega)) fun first _ => .bind (freeRun _ (by omega)) fun second _ =>
      .bind (freeRun _ (by omega)) fun third _ => ?_
    trivial
  have size : 0 + entriesOffsetOf version ≤ 64 := by cases version <;> decide
  unfold decodeAfter
  cases DataForm.ofMagic? version magic with
  | none => exact .inr trivial
  | some form =>
    left
    refine .bind (SelfDescription.decodeFor_finishes version (by decide)) fun description _ =>
      .bind three fun bestFree _ => .bind (require_finishes size) fun _ _ => ?_
    trivial

theorem decode_fields {version : FormatVersion} {block : Bytes} {header : DataHeader}
    (decoded : (decode version).run block = .ok header) :
    (be32 0).run block = .ok (header.form.magic version) ∧ OwnerAt version 40 block header.owner := by
  obtain ⟨magic,read,decoded⟩ := run_bind_eq_ok.mp decoded
  unfold decodeAfter at decoded
  cases known : DataForm.ofMagic? version magic with
  | none => rw [known] at decoded; cases decoded
  | some form =>
    rw [known] at decoded
    have named : form.magic version = magic := by simpa using List.find?_some known
    obtain ⟨description,described,decoded⟩ := run_bind_eq_ok.mp decoded
    obtain ⟨bestFree,_,decoded⟩ := run_bind_eq_ok.mp decoded
    obtain ⟨_,_,returned⟩ := run_bind_eq_ok.mp decoded
    cases returned
    rw [named]
    exact ⟨read,SelfDescription.decodeFor_owner described⟩

theorem decode_magic {version : FormatVersion} {one other : Bytes} {header : DataHeader}
    (decoded : (decode version).run one = .ok header) (same : Bytes.part other 0 4 = Bytes.part one 0 4)
    (long : 64 ≤ other.size) : ∃ again, (decode version).run other = .ok again := by
  obtain ⟨_,again,ran,_⟩ :=
    run_decided (decodeAfter version) decoded (decodeAfter_decided version) same (by decide) long (by decide)
  exact ⟨again,ran⟩

end DataHeader
end XfsReader
