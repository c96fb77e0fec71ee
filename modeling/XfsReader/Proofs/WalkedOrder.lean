import XfsReader.Proofs.StoredMap

-- A walk compares neighbours alone, and yet any two extents of a map that it gives are apart, however
-- many leaves lie between them. A map with two that are not apart is refused, and for nothing else.
namespace XfsReader

section Extents

variable {extents : List Extent}

theorem ordered_iff_getElem? : Ordered extents ↔ ∀ (i j : Nat) (first second : Extent), i < j →
    extents[i]? = some first → extents[j]? = some second → first.endOffset ≤ second.startOffset.toNat := by
  unfold Ordered
  rw [List.pairwise_iff_getElem]
  constructor
  · intro apart i j first second before one other
    obtain ⟨inside,rfl⟩ := List.getElem?_eq_some_iff.mp one
    obtain ⟨below,rfl⟩ := List.getElem?_eq_some_iff.mp other
    exact apart i j inside below before
  · intro apart i j inside below before
    exact apart i j _ _ before (List.getElem?_eq_getElem inside) (List.getElem?_eq_getElem below)

-- Also two extents that are equal cannot both hold a block.
theorem Ordered.position_eq (ordered : Ordered extents) {i j : Nat} {one other : Extent} {block : Nat}
    (first : extents[i]? = some one) (second : extents[j]? = some other) (held : one.containsBlock block)
    (again : other.containsBlock block) : j = i := by
  have apart := ordered_iff_getElem?.mp ordered
  obtain ⟨starts,ends⟩ := Extent.containsBlock_iff.mp held
  obtain ⟨restarts,reends⟩ := Extent.containsBlock_iff.mp again
  rcases Nat.lt_trichotomy i j with before | same | after
  · exact absurd (apart i j one other before first second) (Nat.not_le.mpr (Nat.lt_of_le_of_lt restarts ends))
  · exact same.symm
  · exact absurd (apart j i other one after second first) (Nat.not_le.mpr (Nat.lt_of_le_of_lt starts reends))

-- The extent that is named is where the order breaks first: all before it are in order.
theorem firstDisorder?_eq_some {culprit : Extent} (found : firstDisorder? extents = some culprit) :
    ∃ front first back, extents = front ++ first :: culprit :: back ∧ Ordered (front ++ [first]) ∧
      culprit.startOffset.toNat < first.endOffset := by
  fun_induction firstDisorder? extents with
  | case1 first second rest early =>
    cases found
    exact ⟨[],first,rest,rfl,List.pairwise_singleton _ first,early⟩
  | case2 first second rest apart ih =>
    obtain ⟨front,last,back,same,ordered,early⟩ := ih found
    refine ⟨first :: front,last,back,by rw [same]; rfl,?_,early⟩
    have next : first.endOffset ≤ second.startOffset.toNat := Nat.le_of_not_lt apart
    cases front with
    | nil =>
      cases same
      exact .cons next ordered
    | cons other front =>
      cases same
      exact .cons next ordered
  | case3 extents short => cases found

end Extents

namespace InodeFork
open Traversal

variable {opened : InodeFork} {tree : BtreeKind} {device : Device} {extents : List Extent} {map : ExtentMap}

-- The map as its records give it, with nothing said yet of their order.
def decodeMap (opened : InodeFork) (tree : BtreeKind) : Traversal ExtentMap := do
  let literal ← opened.readLiteral
  opened.readMap tree literal

theorem walk_checks (opened : InodeFork) (tree : BtreeKind) :
    opened.walk tree = opened.decodeMap tree >>= fun map =>
      .ofExcept (opened.checkOrdered map.extents) >>= fun _ => return map := by
  exact (LawfulMonad.bind_assoc _ _ _).symm

theorem checkOrdered_passes (ordered : Ordered extents) : opened.checkOrdered extents = .ok () := by
  unfold checkOrdered
  rw [firstDisorder?_ordered ordered]

theorem checkOrdered_refuses (opened : InodeFork) (disorder : ¬ Ordered extents) :
    ∃ front first culprit back, extents = front ++ first :: culprit :: back ∧ Ordered (front ++ [first]) ∧
      culprit.startOffset.toNat < first.endOffset ∧
      opened.checkOrdered extents = .error (.corruption opened.position (.extentOrder culprit.startOffset)) := by
  unfold checkOrdered
  cases found : firstDisorder? extents with
  | none => exact absurd (ordered_of_firstDisorder? found) disorder
  | some culprit =>
    obtain ⟨front,first,back,same,ordered,early⟩ := firstDisorder?_eq_some found
    exact ⟨front,first,culprit,back,same,ordered,early,rfl⟩

theorem walk_ends (decoded : (opened.decodeMap tree).eval device = .ok map) :
    (opened.walk tree).eval device = (opened.checkOrdered map.extents).map fun _ => map := by
  rw [walk_checks,eval_bind,decoded]
  change (ofExcept (opened.checkOrdered map.extents) >>= fun _ => return map).eval device = _
  rw [eval_bind,eval_ofExcept]
  cases opened.checkOrdered map.extents <;> rfl

-- A walk ends well just where the records decode and are in order.
theorem walk_eq_ok :
    (opened.walk tree).eval device = .ok map ↔ (opened.decodeMap tree).eval device = .ok map ∧ Ordered map.extents := by
  constructor
  · intro walked
    refine ⟨?_,(opened.walk_ordered tree).eval walked⟩
    rw [walk_checks] at walked
    obtain ⟨found,decoded,walked⟩ := eval_bind_eq_ok.mp walked
    obtain ⟨_,_,returned⟩ := eval_bind_eq_ok.mp walked
    cases returned
    exact decoded
  · rintro ⟨decoded,ordered⟩
    rw [walk_ends decoded,checkOrdered_passes ordered]
    rfl

-- A map is given only where each extent ends before any later one starts, and so a block has one extent
-- at the most, which is the one that a search finds. One pair the wrong way round, neighbours or not,
-- and the records are refused where the fork stands.
theorem walk_separates (opened : InodeFork) (tree : BtreeKind) (device : Device) :
    (∀ map, (opened.walk tree).eval device = .ok map →
      (∀ (i j : Nat) (first second : Extent), i < j → map.extents[i]? = some first →
        map.extents[j]? = some second →
        first.startOffset.toNat + first.blockCount.toNat ≤ second.startOffset.toNat) ∧
      (∀ (block i : Nat) (extent : Extent), map.extents[i]? = some extent → extent.containsBlock block →
        Extent.findBlock? map.extents block = some extent ∧
        ∀ (j : Nat) (other : Extent), map.extents[j]? = some other → other.containsBlock block → j = i) ∧
      ∀ block, Extent.findBlock? map.extents block = none ↔
        ∀ extent ∈ map.extents, ¬ extent.containsBlock block) ∧
    (∀ map, (opened.walk tree).eval device = .ok map ↔ (opened.decodeMap tree).eval device = .ok map ∧
      Ordered map.extents) ∧
    ∀ map, (opened.decodeMap tree).eval device = .ok map →
      ∀ (i j : Nat) (first second : Extent), i < j → map.extents[i]? = some first →
        map.extents[j]? = some second →
        second.startOffset.toNat < first.startOffset.toNat + first.blockCount.toNat →
        ∃ culprit ∈ map.extents,
          (opened.walk tree).eval device = .error (.corruption opened.position (.extentOrder culprit.startOffset)) := by
  refine ⟨?separate,fun map => walk_eq_ok,?refused⟩
  case separate =>
    intro map walked
    have ordered := (walk_eq_ok.mp walked).2
    refine ⟨ordered_iff_getElem?.mp ordered,?_,fun block => Extent.findBlock?_eq_none⟩
    intro block i extent found held
    refine ⟨ordered.findBlock?_eq (List.mem_of_getElem? found) held,?_⟩
    intro j other again also
    exact ordered.position_eq found again held also
  case refused =>
    intro map decoded i j first second before one other early
    have disorder : ¬ Ordered map.extents := by
      intro ordered
      exact Nat.not_le.mpr early (ordered_iff_getElem?.mp ordered i j first second before one other)
    obtain ⟨front,last,culprit,back,same,_,_,refused⟩ := opened.checkOrdered_refuses disorder
    refine ⟨culprit,?_,?_⟩
    · rw [same]
      simp
    · rw [walk_ends decoded,refused]
      rfl

end InodeFork

-- The last of three records starts inside the first, and an extent of no blocks stands between them.
def crossedExtents : List Extent := [⟨0,4,10,.normal⟩,⟨12,14,0,.normal⟩,⟨8,20,1,.normal⟩]

def crossedDevice : Device := .ofBytes (crossedExtents.flatMap Extent.encode).toArray

def crossedFork (count size : UInt32) : InodeFork :=
  { grownFork with fork := ⟨0,size,.extents count,.v5⟩ }

theorem walk_separates_crossed :
    ((crossedFork 2 32).walk .dataExtents).eval crossedDevice = .ok ⟨crossedExtents.take 2,.inline,0⟩ ∧
      Extent.findBlock? (crossedExtents.take 2) 9 = some ⟨0,4,10,.normal⟩ ∧
      ((crossedFork 3 48).decodeMap .dataExtents).eval crossedDevice = .ok ⟨crossedExtents,.inline,0⟩ ∧
      ∃ culprit ∈ crossedExtents, ((crossedFork 3 48).walk .dataExtents).eval crossedDevice =
        .error (.corruption 0 (.extentOrder culprit.startOffset)) := by
  have pair : ((crossedFork 2 32).decodeMap .dataExtents).eval crossedDevice =
      .ok ⟨crossedExtents.take 2,.inline,0⟩ := eq_ok_of_toOption (by decide +kernel)
  have whole : ((crossedFork 3 48).decodeMap .dataExtents).eval crossedDevice = .ok ⟨crossedExtents,.inline,0⟩ :=
    eq_ok_of_toOption (by decide +kernel)
  obtain ⟨separate,exact,_⟩ := InodeFork.walk_separates (crossedFork 2 32) .dataExtents crossedDevice
  obtain ⟨_,_,refused⟩ := InodeFork.walk_separates (crossedFork 3 48) .dataExtents crossedDevice
  have walked := (exact _).mpr ⟨pair,List.pairwise_pair.mpr (by decide)⟩
  obtain ⟨_,found,_⟩ := separate _ walked
  refine ⟨walked,(found 9 0 _ rfl (by decide)).1,whole,?_⟩
  exact refused _ whole 0 2 _ _ (by decide) rfl rfl (by decide)

end XfsReader
