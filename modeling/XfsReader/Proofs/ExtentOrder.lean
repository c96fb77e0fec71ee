import Mathlib.Data.List.Pairwise
import XfsReader.Proofs.Traversal
import XfsReader.Volume.Mapping

-- A walked map is ordered, so that no two of its extents hold one block and any search for the
-- extent of a block has one answer.
namespace XfsReader

theorem Extent.containsBlock_iff {extent : Extent} {block : Nat} :
    extent.containsBlock block ↔ extent.startOffset.toNat ≤ block ∧ block < extent.endOffset := by
  simp [containsBlock]

theorem Extent.findBlock?_eq_none {extents : List Extent} {block : Nat} :
    findBlock? extents block = none ↔ ∀ extent ∈ extents, ¬ extent.containsBlock block := by
  simp [findBlock?]

def Ordered (extents : List Extent) : Prop :=
  extents.Pairwise fun first second => first.endOffset ≤ second.startOffset.toNat

-- An extent of no blocks still starts no later than it ends, so that to be apart from it is to be
-- apart from all that follow it.
theorem Ordered.cons {first second : Extent} {rest : List Extent} (apart : first.endOffset ≤ second.startOffset.toNat)
    (ordered : Ordered (second :: rest)) : Ordered (first :: second :: rest) := by
  refine List.Pairwise.cons ?_ ordered
  intro extent member
  rcases List.mem_cons.mp member with rfl | farther
  · exact apart
  · calc first.endOffset ≤ second.startOffset.toNat := apart
      _ ≤ second.endOffset := Nat.le_add_right _ _
      _ ≤ extent.startOffset.toNat := List.rel_of_pairwise_cons ordered farther

theorem ordered_of_firstDisorder? {extents : List Extent} (checked : firstDisorder? extents = none) :
    Ordered extents := by
  fun_induction firstDisorder? extents with
  | case1 first second rest early => cases checked
  | case2 first second rest apart ih => exact .cons (Nat.le_of_not_lt apart) (ih checked)
  | case3 extents short =>
    match extents,short with
    | [],_ => exact .nil
    | [extent],_ => exact List.pairwise_singleton _ extent
    | first :: second :: rest,short => exact absurd rfl (short first second rest)

theorem firstDisorder?_ordered {extents : List Extent} (ordered : Ordered extents) :
    firstDisorder? extents = none := by
  fun_induction firstDisorder? extents with
  | case1 first second rest early =>
    have apart := List.rel_of_pairwise_cons ordered (List.mem_cons_self : second ∈ second :: rest)
    exact absurd early (Nat.not_lt.mpr apart)
  | case2 first second rest apart ih => exact ih (List.Pairwise.of_cons ordered)
  | case3 extents short => rfl

namespace Ordered

variable {extents : List Extent}

theorem filter (ordered : Ordered extents) (kept : Extent → Bool) : Ordered (extents.filter kept) :=
  List.Pairwise.filter kept ordered

theorem eq_of_containsBlock (ordered : Ordered extents) {one other : Extent} {block : Nat}
    (member : one ∈ extents) (also : other ∈ extents) (first : one.containsBlock block)
    (second : other.containsBlock block) : one = other := by
  by_contra different
  have symmetric : Std.Symm fun one other : Extent =>
      one.endOffset ≤ other.startOffset.toNat ∨ other.endOffset ≤ one.startOffset.toNat :=
    ⟨fun _ _ => Or.symm⟩
  have either : extents.Pairwise fun one other : Extent =>
      one.endOffset ≤ other.startOffset.toNat ∨ other.endOffset ≤ one.startOffset.toNat :=
    ordered.imp Or.inl
  have apart := either.forall member also different
  rw [Extent.containsBlock_iff] at first second
  omega

theorem findBlock?_eq (ordered : Ordered extents) {extent : Extent} {block : Nat} (member : extent ∈ extents)
    (inside : extent.containsBlock block) : Extent.findBlock? extents block = some extent := by
  cases found : Extent.findBlock? extents block with
  | none => exact absurd inside (List.find?_eq_none.mp found extent member)
  | some other =>
    have contains : other.containsBlock block := by simpa using List.find?_some found
    rw [ordered.eq_of_containsBlock (List.mem_of_find?_eq_some found) member contains inside]

end Ordered

theorem InodeFork.walk_ordered (opened : InodeFork) (tree : BtreeKind) :
    (opened.walk tree).Yields fun map => Ordered map.extents := by
  refine .bind (.any _) fun literal _ => .bind (.any _) fun map _ =>
    .bind (Traversal.ofExcept_yields _) fun _ checked => ?_
  refine ordered_of_firstDisorder? ?_
  cases disorder : firstDisorder? map.extents with
  | none => rfl
  | some extent => simp [checkOrdered,disorder] at checked

end XfsReader
