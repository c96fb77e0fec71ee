import Mathlib.Tactic.LinearCombination
import XfsReader.Proofs.Decoder
import XfsReader.Proofs.Translation

-- Block numbers and the order of blocks on the device. From group to group a number grows by a power
-- of two, but the device by the blocks that a group has. Numbers keep the order of the blocks that
-- groups have; a run that goes on into another group shows what the two steps differ by.
namespace XfsReader

-- What is added to a number that fits is refused where the sum does not.
theorem fitted_add (value more : Nat) (field : String) :
    fitted (value + more) field = fitted value field >>= fun kept => fitted (kept + more) field := by
  by_cases fits : value < 0x10000000000000000
  · rw [fitted_ok fits]
    rfl
  · have larger : ¬ value + more < 0x10000000000000000 := by omega
    rw [fitted_error fits,fitted_error larger]
    rfl

theorem BlockSize.ranges_apart (size : BlockSize) {low high : Nat} (before : low < high) :
    low * size.bytes + size.bytes ≤ high * size.bytes := by
  rw [← Nat.succ_mul]
  exact Nat.mul_le_mul_right _ before

namespace AgGeometry

def group (ag : AgGeometry) (block : UInt64) : Nat := (ag.parts block).1.toNat

-- A block that its group has: below the group's power of two there may be room for more.
def Valid (ag : AgGeometry) (block : UInt64) : Prop := ag.relativeBlock block < ag.agBlocks.toNat

instance (ag : AgGeometry) (block : UInt64) : Decidable (ag.Valid block) := Nat.decLt _ _

-- The number, of whatever width, that names a block of the device.
def numberOf (ag : AgGeometry) (absolute : Nat) : Nat :=
  absolute / ag.agBlocks.toNat * 2 ^ ag.agBlockLog.toNat + absolute % ag.agBlocks.toNat

section Places

variable {ag : AgGeometry} {block next low high one other start last : UInt64} {index : Nat}

theorem group_eq (ag : AgGeometry) (block : UInt64) : ag.group block = block.toNat / 2 ^ ag.agBlockLog.toNat :=
  (ag.parts_toNat block).1

theorem relativeBlock_eq (ag : AgGeometry) (block : UInt64) :
    ag.relativeBlock block = block.toNat % 2 ^ ag.agBlockLog.toNat :=
  (ag.parts_toNat block).2

theorem place_eq (ag : AgGeometry) (block : UInt64) :
    ag.place block = ag.group block * ag.agBlocks.toNat + ag.relativeBlock block := by
  rw [place,group_eq,relativeBlock_eq]

theorem number_eq (ag : AgGeometry) (block : UInt64) :
    block.toNat = ag.group block * 2 ^ ag.agBlockLog.toNat + ag.relativeBlock block := by
  rw [group_eq,relativeBlock_eq]
  exact (Nat.div_add_mod' _ _).symm

theorem group_mono (ag : AgGeometry) (before : low ≤ high) : ag.group low ≤ ag.group high := by
  rw [group_eq,group_eq]
  exact Nat.div_le_div_right (UInt64.le_iff_toNat_le.mp before)

-- The last block that a group has comes before the first of the next, wherever their numbers stand.
theorem place_lt (before : low < high) (valid : ag.Valid low) : ag.place low < ag.place high := by
  have numbers : low.toNat < high.toNat := UInt64.lt_iff_toNat_lt.mp before
  rw [place_eq,place_eq]
  rcases Nat.lt_or_eq_of_le (ag.group_mono (UInt64.le_of_lt before)) with earlier | same
  · calc ag.group low * ag.agBlocks.toNat + ag.relativeBlock low
        < ag.group low * ag.agBlocks.toNat + ag.agBlocks.toNat := Nat.add_lt_add_left valid _
      _ = (ag.group low + 1) * ag.agBlocks.toNat := (Nat.succ_mul _ _).symm
      _ ≤ ag.group high * ag.agBlocks.toNat := Nat.mul_le_mul_right _ earlier
      _ ≤ ag.group high * ag.agBlocks.toNat + ag.relativeBlock high := Nat.le_add_right _ _
  · rw [number_eq ag low,number_eq ag high,same] at numbers
    rw [same]
    omega

theorem numberOf_place (valid : ag.Valid block) : ag.numberOf (ag.place block) = block.toNat := by
  have some : 0 < ag.agBlocks.toNat := Nat.zero_lt_of_lt valid
  have group : ag.place block / ag.agBlocks.toNat = ag.group block := by
    rw [place_eq,Nat.mul_comm,Nat.mul_add_div some,Nat.div_eq_of_lt valid,Nat.add_zero]
  have relative : ag.place block % ag.agBlocks.toNat = ag.relativeBlock block := by
    rw [place_eq,Nat.mul_add_mod_self_right,Nat.mod_eq_of_lt valid]
  rw [numberOf,group,relative,← number_eq]

theorem eq_of_place_eq (first : ag.Valid one) (second : ag.Valid other) (same : ag.place one = ag.place other) :
    one = other := by
  apply UInt64.toNat_inj.mp
  rw [← numberOf_place first,← numberOf_place second,same]

-- Where the power of two has room for the group, every block of the device has a number.
theorem exists_place (room : ag.agBlocks.toNat ≤ 2 ^ ag.agBlockLog.toNat) (filled : 0 < ag.agBlocks.toNat)
    {absolute : Nat} (fits : ag.numberOf absolute < 2 ^ 64) : ∃ block, ag.Valid block ∧ ag.place block = absolute := by
  have number : (UInt64.ofNat (ag.numberOf absolute)).toNat = ag.numberOf absolute :=
    UInt64.toNat_ofNat_of_lt' fits
  have inside : absolute % ag.agBlocks.toNat < ag.agBlocks.toNat := Nat.mod_lt _ filled
  have below : absolute % ag.agBlocks.toNat < 2 ^ ag.agBlockLog.toNat := Nat.lt_of_lt_of_le inside room
  have group : ag.group (UInt64.ofNat (ag.numberOf absolute)) = absolute / ag.agBlocks.toNat := by
    rw [group_eq,number,numberOf,Nat.mul_comm,Nat.mul_add_div (Nat.two_pow_pos _),Nat.div_eq_of_lt below,Nat.add_zero]
  have relative : ag.relativeBlock (UInt64.ofNat (ag.numberOf absolute)) = absolute % ag.agBlocks.toNat := by
    rw [relativeBlock_eq,number,numberOf,Nat.mul_add_mod_self_right,Nat.mod_eq_of_lt below]
  refine ⟨UInt64.ofNat (ag.numberOf absolute),?_,?_⟩
  · rw [Valid,relative]
    exact inside
  · rw [place_eq,group,relative]
    exact Nat.div_add_mod' _ _

theorem le_numberOf (room : ag.agBlocks.toNat ≤ 2 ^ ag.agBlockLog.toNat) (absolute : Nat) :
    absolute ≤ ag.numberOf absolute :=
  calc absolute = absolute / ag.agBlocks.toNat * ag.agBlocks.toNat + absolute % ag.agBlocks.toNat :=
        (Nat.div_add_mod' _ _).symm
    _ ≤ ag.numberOf absolute := Nat.add_le_add_right (Nat.mul_le_mul_left _ room) _

-- Between two blocks the numbers count a power of two for each group entered, the device a group's blocks.
theorem place_after (ag : AgGeometry) (reached : last.toNat = start.toNat + index) :
    ag.place last + ag.group last * 2 ^ ag.agBlockLog.toNat + ag.group start * ag.agBlocks.toNat =
      ag.place start + index + ag.group last * ag.agBlocks.toNat + ag.group start * 2 ^ ag.agBlockLog.toNat := by
  rw [number_eq ag last,number_eq ag start] at reached
  rw [place_eq,place_eq]
  omega

theorem place_within_group (reached : last.toNat = start.toNat + index) (same : ag.group last = ag.group start) :
    ag.place last = ag.place start + index := by
  have after := ag.place_after reached
  rw [same] at after
  omega

theorem place_next_group (entered : ag.group next = ag.group block + 1)
    (same : ag.relativeBlock next = ag.relativeBlock block) :
    ag.place next = ag.place block + ag.agBlocks.toNat := by
  rw [place_eq,place_eq,entered,same,Nat.succ_mul]
  omega

theorem absoluteBlock_moved {more : Nat} (moved : ag.place next = ag.place block + more) :
    ag.absoluteBlock next =
      ag.absoluteBlock block >>= fun absolute => fitted (absolute + more) "absolute_block" := by
  rw [absoluteBlock_eq,absoluteBlock_eq,moved]
  exact fitted_add _ _ _

end Places

-- Of blocks that their groups have, the lower number stands first on the device and no two overlap. The
-- next number in a group is the next block, and the same place in the next group as many blocks on as a
-- group has. Where the power of two has room for the group, exactly the blocks of the device whose
-- number fits a word have one, and only one.
theorem valid_blocks_in_order (ag : AgGeometry) (filled : 0 < ag.agBlocks.toNat) :
    (∀ low high last, low < high → ag.Valid low → ag.Valid high → ag.absoluteBlock high = .ok last →
      ∃ first, ag.absoluteBlock low = .ok first ∧ first < last) ∧
    (∀ one other absolute, ag.Valid one → ag.Valid other → ag.absoluteBlock one = .ok absolute →
      ag.absoluteBlock other = .ok absolute → one = other) ∧
    (∀ one other first second, one ≠ other → ag.Valid one → ag.Valid other → ag.byteOffset one = .ok first →
      ag.byteOffset other = .ok second →
        first + ag.blockSize.bytes ≤ second ∨ second + ag.blockSize.bytes ≤ first) ∧
    (∀ block next, next.toNat = block.toNat + 1 → ag.group next = ag.group block →
      ag.absoluteBlock next =
        ag.absoluteBlock block >>= fun absolute => fitted (absolute + 1) "absolute_block") ∧
    (∀ block next, ag.group next = ag.group block + 1 → ag.relativeBlock next = ag.relativeBlock block →
      ag.absoluteBlock next =
        ag.absoluteBlock block >>= fun absolute => fitted (absolute + ag.agBlocks.toNat) "absolute_block") ∧
    (ag.agBlocks.toNat ≤ 2 ^ ag.agBlockLog.toNat → ∀ absolute,
      ag.numberOf absolute < 2 ^ 64 ↔ ∃! block, ag.Valid block ∧ ag.absoluteBlock block = .ok absolute) := by
  refine ⟨?order,?distinct,?apart,?forward,?across,?onto⟩
  case order =>
    intro low high last before valid _ translated
    obtain ⟨small,rfl⟩ := absoluteBlock_eq_ok.mp translated
    have earlier := place_lt before valid
    exact ⟨_,absoluteBlock_eq_ok.mpr ⟨Nat.lt_trans earlier small,rfl⟩,earlier⟩
  case distinct =>
    intro one other absolute first second translated again
    obtain ⟨_,rfl⟩ := absoluteBlock_eq_ok.mp translated
    obtain ⟨_,same⟩ := absoluteBlock_eq_ok.mp again
    exact eq_of_place_eq first second same.symm
  case apart =>
    intro one other first second different valid validToo translated again
    obtain ⟨_,rfl⟩ := byteOffset_eq_ok.mp translated
    obtain ⟨_,rfl⟩ := byteOffset_eq_ok.mp again
    have unlike : ag.place one ≠ ag.place other := fun same => different (eq_of_place_eq valid validToo same)
    rcases Nat.lt_or_gt_of_ne unlike with before | behind
    · exact .inl (ag.blockSize.ranges_apart before)
    · exact .inr (ag.blockSize.ranges_apart behind)
  case forward =>
    intro block next following same
    exact absoluteBlock_moved (place_within_group following same)
  case across =>
    intro block next entered same
    exact absoluteBlock_moved (place_next_group entered same)
  case onto =>
    intro room absolute
    constructor
    · intro fits
      obtain ⟨block,valid,placed⟩ := exists_place room filled fits
      have small : ag.place block < 0x10000000000000000 := by
        rw [placed]
        exact Nat.lt_of_le_of_lt (le_numberOf room absolute) fits
      refine ⟨block,⟨valid,absoluteBlock_eq_ok.mpr ⟨small,placed⟩⟩,?_⟩
      rintro other ⟨validToo,translated⟩
      obtain ⟨_,same⟩ := absoluteBlock_eq_ok.mp translated
      exact eq_of_place_eq validToo valid (same.trans placed.symm)
    · rintro ⟨block,⟨valid,translated⟩,_⟩
      obtain ⟨_,rfl⟩ := absoluteBlock_eq_ok.mp translated
      rw [numberOf_place valid]
      exact block.toNat_lt

-- Groups of a hundred blocks, numbered by the thousand: the last of one group and the first of the next.
theorem valid_blocks_in_order_hundred :
    let ag : AgGeometry := ⟨.smallest,100,10⟩
    0 < ag.agBlocks.toNat ∧ (99 : UInt64) < 1024 ∧ ag.Valid 99 ∧ ag.Valid 1024 ∧ ag.absoluteBlock 1024 = .ok 100 ∧
      (∃ first, ag.absoluteBlock 99 = .ok first ∧ first < 100) ∧
      ag.byteOffset 99 = .ok 50688 ∧ ag.byteOffset 1024 = .ok 51200 ∧
      (50688 + ag.blockSize.bytes ≤ 51200 ∨ 51200 + ag.blockSize.bytes ≤ 50688) ∧
      (99 : UInt64).toNat = (98 : UInt64).toNat + 1 ∧ ag.group 99 = ag.group 98 ∧
      ag.absoluteBlock 99 = (ag.absoluteBlock 98 >>= fun absolute => fitted (absolute + 1) "absolute_block") ∧
      ag.group 1024 = ag.group 0 + 1 ∧ ag.relativeBlock 1024 = ag.relativeBlock 0 ∧
      ag.absoluteBlock 1024 =
        (ag.absoluteBlock 0 >>= fun absolute => fitted (absolute + ag.agBlocks.toNat) "absolute_block") ∧
      ag.agBlocks.toNat ≤ 2 ^ ag.agBlockLog.toNat ∧ ag.numberOf 100 < 2 ^ 64 ∧
      ∃! block, ag.Valid block ∧ ag.absoluteBlock block = .ok 100 := by
  intro ag
  obtain ⟨order,_,apart,forward,across,onto⟩ := ag.valid_blocks_in_order (by decide)
  have before : (99 : UInt64) < 1024 := by decide
  have valid : ag.Valid 99 := by decide
  have validToo : ag.Valid 1024 := by decide
  have last : ag.absoluteBlock 1024 = .ok 100 := eq_ok_of_toOption (by decide)
  have earlier : ag.byteOffset 99 = .ok 50688 := eq_ok_of_toOption (by decide)
  have later : ag.byteOffset 1024 = .ok 51200 := eq_ok_of_toOption (by decide)
  have stays : ag.group 99 = ag.group 98 := by decide
  have entered : ag.group 1024 = ag.group 0 + 1 := by decide
  have abreast : ag.relativeBlock 1024 = ag.relativeBlock 0 := by decide
  have room : ag.agBlocks.toNat ≤ 2 ^ ag.agBlockLog.toNat := by decide
  have fits : ag.numberOf 100 < 2 ^ 64 := by decide
  exact ⟨by decide,before,valid,validToo,last,order 99 1024 100 before valid validToo last,
    earlier,later,apart 99 1024 50688 51200 (by decide) valid validToo earlier later,
    rfl,stays,forward 98 99 rfl stays,entered,abreast,across 0 1024 entered abreast,
    room,fits,(onto room 100).mp fits⟩

section Runs

variable {ag : AgGeometry} {start last : UInt64} {index along direct : Nat}

-- A block of a run that has a byte address both ways: counted on along the device from where the run
-- starts, and straight from its own number.
structure BothWays (ag : AgGeometry) (start : UInt64) (index : Nat) (last : UInt64) (along direct : Nat) : Prop where
  reached : last.toNat = start.toNat + index
  along : ag.runByteOffset start index = .ok along
  direct : ag.byteOffset last = .ok direct

theorem runByteOffset_within_group (reached : last.toNat = start.toNat + index)
    (same : ag.group last = ag.group start) {byte : Nat} :
    ag.runByteOffset start index = .ok byte ↔ ag.byteOffset last = .ok byte := by
  rw [runByteOffset_eq_ok,byteOffset_eq_ok,place_within_group reached same]

theorem group_open (wide : 64 ≤ ag.agBlockLog.toNat) (block : UInt64) : ag.group block = 0 := by
  rw [group_eq]
  exact Nat.div_eq_of_lt (ag.number_lt wide block)

theorem BothWays.difference (found : ag.BothWays start index last along direct) :
    (along : Int) - direct = ((ag.group last : Int) - ag.group start) *
      (2 ^ ag.agBlockLog.toNat - ag.agBlocks.toNat) * ag.blockSize.bytes := by
  obtain ⟨_,rfl⟩ := runByteOffset_eq_ok.mp found.along
  obtain ⟨_,rfl⟩ := byteOffset_eq_ok.mp found.direct
  have after : ((ag.place last + ag.group last * 2 ^ ag.agBlockLog.toNat + ag.group start * ag.agBlocks.toNat : Nat) : Int) =
      (ag.place start + index + ag.group last * ag.agBlocks.toNat + ag.group start * 2 ^ ag.agBlockLog.toNat : Nat) :=
    congrArg Nat.cast (ag.place_after found.reached)
  push_cast at after ⊢
  linear_combination (-(ag.blockSize.bytes : Int)) * after

theorem BothWays.agree_iff (found : ag.BothWays start index last along direct) :
    along = direct ↔ ag.agBlocks.toNat = 2 ^ ag.agBlockLog.toNat ∨ ag.group last = ag.group start := by
  have some : (ag.blockSize.bytes : Int) ≠ 0 := Int.natCast_ne_zero.mpr (Nat.ne_of_gt ag.blockSize.bytes_pos)
  calc along = direct ↔ (along : Int) - direct = 0 := by omega
    _ ↔ ((ag.group last : Int) - ag.group start = 0 ∨
          (2 : Int) ^ ag.agBlockLog.toNat - ag.agBlocks.toNat = 0) := by
        rw [found.difference,mul_eq_zero,mul_eq_zero,or_iff_left some]
    _ ↔ _ := by
        rw [sub_eq_zero,sub_eq_zero,or_comm]
        norm_cast
        exact or_congr_left eq_comm

end Runs

-- Counted along the device or translated by their own numbers, the blocks of a run are at the same bytes
-- as long as the run stays in its group. For every group that it enters the two ways come apart by what
-- the power of two has over the group, so they agree throughout only where that is nothing.
theorem ways_part_between_groups (ag : AgGeometry) :
    (∀ start index last, last.toNat = start.toNat + index → ag.group last = ag.group start →
      ∀ byte, ag.runByteOffset start index = .ok byte ↔ ag.byteOffset last = .ok byte) ∧
    (∀ start index last along direct, ag.BothWays start index last along direct →
      (along : Int) - direct = ((ag.group last : Int) - ag.group start) *
        (2 ^ ag.agBlockLog.toNat - ag.agBlocks.toNat) * ag.blockSize.bytes ∧
      (along = direct ↔ ag.agBlocks.toNat = 2 ^ ag.agBlockLog.toNat ∨ ag.group last = ag.group start)) ∧
    ((∀ start index last along direct, ag.BothWays start index last along direct → along = direct) ↔
      ag.agBlocks.toNat = 2 ^ ag.agBlockLog.toNat ∨
        ∀ start index last along direct, ag.BothWays start index last along direct → ag.group last = ag.group start) ∧
    (64 ≤ ag.agBlockLog.toNat → ∀ start index last, last.toNat = start.toNat + index →
      ∀ byte, ag.runByteOffset start index = .ok byte ↔ ag.byteOffset last = .ok byte) := by
  refine ⟨?within,?between,?everywhere,?wide⟩
  case within => exact fun start index last reached same byte => runByteOffset_within_group reached same
  case between => exact fun start index last along direct found => ⟨found.difference,found.agree_iff⟩
  case everywhere =>
    by_cases whole : ag.agBlocks.toNat = 2 ^ ag.agBlockLog.toNat
    · exact iff_of_true (fun _ _ _ _ _ found => found.agree_iff.mpr (.inl whole)) (.inl whole)
    · rw [or_iff_right whole]
      refine forall_congr' fun start => forall_congr' fun index => forall_congr' fun last =>
        forall_congr' fun along => forall_congr' fun direct => forall_congr' fun found => ?_
      exact found.agree_iff.trans (or_iff_right whole)
  case wide =>
    intro wide start index last reached byte
    exact runByteOffset_within_group reached ((group_open wide last).trans (group_open wide start).symm)

-- Groups of a hundred blocks, numbered by eights: nine blocks on from the first of group 1 the device is
-- still in that group, and the number in the next. In one open group nothing parts.
theorem ways_part_between_groups_eights :
    let ag : AgGeometry := ⟨.smallest,100,3⟩
    let wide : AgGeometry := ⟨.smallest,100,64⟩
    ((11 : UInt64).toNat = (8 : UInt64).toNat + 3 ∧ ag.group 11 = ag.group 8 ∧
      (ag.runByteOffset 8 3 = .ok 52736 ↔ ag.byteOffset 11 = .ok 52736)) ∧
    (ag.BothWays 8 9 17 55808 102912 ∧
      ((55808 : Nat) : Int) - (102912 : Nat) = ((ag.group 17 : Int) - ag.group 8) *
        (2 ^ ag.agBlockLog.toNat - ag.agBlocks.toNat) * ag.blockSize.bytes ∧
      ((55808 : Nat) = 102912 ↔ ag.agBlocks.toNat = 2 ^ ag.agBlockLog.toNat ∨ ag.group 17 = ag.group 8)) ∧
    (64 ≤ wide.agBlockLog.toNat ∧ (17 : UInt64).toNat = (8 : UInt64).toNat + 9 ∧
      (wide.runByteOffset 8 9 = .ok 8704 ↔ wide.byteOffset 17 = .ok 8704)) := by
  intro ag wide
  obtain ⟨within,between,_,_⟩ := ag.ways_part_between_groups
  obtain ⟨_,_,_,opened⟩ := wide.ways_part_between_groups
  have found : ag.BothWays 8 9 17 55808 102912 := ⟨rfl,eq_ok_of_toOption (by decide),eq_ok_of_toOption (by decide)⟩
  exact ⟨⟨rfl,rfl,within 8 3 11 rfl rfl 52736⟩,⟨found,between 8 9 17 55808 102912 found⟩,
    by decide,rfl,opened (by decide) 8 9 17 rfl 8704⟩

end AgGeometry
end XfsReader
