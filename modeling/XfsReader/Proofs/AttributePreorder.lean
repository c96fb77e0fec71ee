import XfsReader.Proofs.Decoder
import XfsReader.Proofs.Preorder

-- Attributes listed with a list of pending blocks are those that recursion on the hash tree lists,
-- in the same order and with the same reads, and where the one fails so does the other. A block's
-- level is what its parent requires, so the level to recurse at is known before the block is read.
namespace XfsReader

def AttrContents.items {expected : Option Nat} : AttrContents expected → List DirectoryEntry ⊕ Nat × List UInt32
  | .entries found => .inl found
  | .children blocks level _ _ => .inr (level,blocks)

namespace InodeFork
open Traversal

variable {opened : InodeFork} {extents : List Extent} {expected : Option Nat}

-- The checks of a block and the place where it is looked for are those that the recursion is defined by.
section Checks

variable {offset : Nat} {block : Bytes}

theorem attrBlockPlace_eq (block : Nat) : opened.attrBlockPlace extents block = opened.attrBlockOffset extents block := by
  rw [attrBlockPlace,attrBlockOffset,logicalOffset,Extent.findBlock?]
  cases extents.find? fun extent => extent.containsBlock block with
  | none => rfl
  | some extent =>
    dsimp only
    rw [runOffset]
    cases opened.ag.runByteOffset extent.startBlock (block - extent.startOffset.toNat) <;> rfl

theorem any_ne_eq (expected : Option Nat) (level : Nat) : expected.any (· ≠ level) = !meets expected level := by
  cases expected with
  | none => rfl
  | some expected => simp [meets]

theorem attrNodeAt_eq : opened.attrNodeAt expected offset block =
    (opened.attrNodeContents expected offset block).map AttrContents.items := by
  rw [attrNodeAt]
  cases read : (DaNode.decode opened.version).run block with
  | error error =>
    rw [attrNodeContents_undecoded opened expected offset read]
    rfl
  | ok node =>
    obtain ⟨few,below,contents⟩ := attrNodeContents_node opened expected offset read
    rw [contents]
    dsimp only
    rw [any_ne_eq]
    by_cases accepted : node.level ≠ 0 ∧ meets expected node.level.toNat
    · obtain ⟨inner,met⟩ := accepted
      simp only [inner,met,ne_eq,not_false_eq_true,and_self,dite_true,Bool.not_true,Bool.false_eq_true,or_self,if_false]
      split <;> rfl
    · have refused : node.level = 0 ∨ (!meets expected node.level.toNat) = true := by
        by_cases ground : node.level = 0
        · exact .inl ground
        · exact .inr (by simpa [ground] using accepted)
      rw [dif_neg accepted,if_pos refused]
      rfl

theorem attrLeafAt_eq : opened.attrLeafAt expected offset block =
    (opened.attrLeafContents expected offset block).map AttrContents.items := by
  rw [attrLeafAt,attrLeafContents,any_ne_eq]
  by_cases met : meets expected 0
  · simp only [met,Bool.not_true,Bool.false_eq_true,if_false,if_true]
    cases (AttrLeaf.decode opened.version).run block with
    | error error => rfl
    | ok leaf =>
      simp only [located_ok,bind,Except.bind]
      cases leaf.names.run block <;> rfl
  · simp only [met,Bool.not_false,if_true,Bool.false_eq_true,if_false]
    rfl

theorem attrBlockItems_eq : opened.attrBlockItems expected offset block =
    (opened.examineAttrBlock expected offset block).map AttrContents.items := by
  rw [attrBlockItems,examineAttrBlock]
  simp only [checkSeal_broken?,checkOwner_foreign?,bind,Except.bind]
  cases (DaHeader.decode opened.version).run block with
  | error error => rfl
  | ok header =>
    dsimp only [located_ok]
    cases opened.brokenSeal? .attrBlock block with
    | some error => rfl
    | none =>
      dsimp only
      cases opened.foreignOwner? header.owner with
      | some owner => rfl
      | none =>
        dsimp only
        cases header.kind with
        | node => exact attrNodeAt_eq
        | attrLeaf => exact attrLeafAt_eq
        | dirLeaf1 => rfl
        | dirLeafN => rfl

end Checks

theorem attrNodeContents_children {offset level : Nat} {block : Bytes} {blocks : List UInt32}
    {few : blocks.length < 65536} {below : level < PendingAttrs.rank expected}
    (examined : opened.attrNodeContents expected offset block = .ok (.children blocks level few below)) :
    meets expected (level + 1) ∧
      ∃ node, (DaNode.decode opened.version).run block = .ok node ∧ blocks = node.entries.map (·.before) := by
  unfold attrNodeContents at examined
  split at examined
  · cases examined
  · rename_i node read
    split at examined
    · rename_i accepted
      split at examined
      · cases examined
      · cases examined
        have positive : node.level.toNat ≠ 0 := fun zero => accepted.1 (UInt16.toNat_inj.mp zero)
        rw [Nat.sub_add_cancel (Nat.pos_of_ne_zero positive)]
        exact ⟨accepted.2,node,read,rfl⟩
    · cases examined

theorem attrLeafContents_entries {offset : Nat} {block : Bytes} {contents : AttrContents expected}
    (examined : opened.attrLeafContents expected offset block = .ok contents) :
    ∃ found, contents = .entries found := by
  unfold attrLeafContents at examined
  split at examined
  · obtain ⟨leaf,_,examined⟩ := bind_eq_ok.mp examined
    obtain ⟨names,_,examined⟩ := bind_eq_ok.mp examined
    cases examined
    exact ⟨_,rfl⟩
  · cases examined

theorem examineAttrBlock_children {offset level : Nat} {block : Bytes} {blocks : List UInt32}
    {few : blocks.length < 65536} {below : level < PendingAttrs.rank expected}
    (examined : opened.examineAttrBlock expected offset block = .ok (.children blocks level few below)) :
    meets expected (level + 1) ∧
      ∃ node, (DaNode.decode opened.version).run block = .ok node ∧ blocks = node.entries.map (·.before) := by
  obtain ⟨header,_,examined⟩ := bind_eq_ok.mp examined
  obtain ⟨_,_,examined⟩ := bind_eq_ok.mp examined
  obtain ⟨_,_,examined⟩ := bind_eq_ok.mp examined
  cases kind : header.kind with
  | node =>
    rw [kind] at examined
    exact attrNodeContents_children examined
  | attrLeaf =>
    rw [kind] at examined
    obtain ⟨found,absurd⟩ := attrLeafContents_entries examined
    cases absurd
  | dirLeaf1 => rw [kind] at examined; cases examined
  | dirLeafN => rw [kind] at examined; cases examined

theorem visitAttributes_block
    {descend : Nat → List UInt32 → List Nat → Traversal (List DirectoryEntry × List Nat)}
    (below : ∀ level, meets expected (level + 1) → ∀ blocks,
      Unstacks (opened.visitAttributes extents) id (blocks.map fun child : UInt32 => (child.toNat,some level))
        (descend level blocks))
    (block : Nat) :
    Unstacks (opened.visitAttributes extents) id [(block,expected)]
      (opened.visitAttrBlock extents expected descend block) := by
  intro visited entries rest
  rw [List.singleton_append,visitAttributes,visitAttrBlock]
  by_cases member : block ∈ visited
  · simp only [member,if_true,Traversal.bind]
  · simp only [member,if_false]
    rw [attrBlockPlace_eq]
    cases placed : opened.attrBlockOffset extents block with
    | error error => rfl
    | ok offset =>
      simp only [Traversal.bind]
      congr 1
      funext bytes
      rw [attrBlockItems_eq]
      cases examined : opened.examineAttrBlock expected offset bytes with
      | error error => rfl
      | ok contents =>
        cases contents with
        | entries found => rfl
        | children blocks level few lower =>
          dsimp only
          rw [pushReversed_eq]
          exact below level (examineAttrBlock_children examined).1 blocks (block :: visited) entries rest

theorem visitAttributes_siblings {level : Nat}
    (one : ∀ block : UInt32, Unstacks (opened.visitAttributes extents) id [(block.toNat,some level)]
      (opened.attrSubtree extents level block)) (blocks : List UInt32) :
    Unstacks (opened.visitAttributes extents) id (blocks.map fun child => (child.toNat,some level))
      (visitEach (opened.attrSubtree extents level) blocks) :=
  Unstacks.siblings rfl (fun _ _ => rfl) one blocks

-- Nothing hangs below level zero, and above it all children are one level lower.
theorem visitAttributes_subtree (level : Nat) (block : UInt32) :
    Unstacks (opened.visitAttributes extents) id [(block.toNat,some level)]
      (opened.attrSubtree extents level block) := by
  induction level generalizing block with
  | zero =>
    refine visitAttributes_block ?_ block.toNat
    intro level met
    simp [meets] at met
  | succ level ih =>
    refine visitAttributes_block ?_ block.toNat
    intro lower met
    have same : level + 1 = lower + 1 := by simpa [meets] using met
    cases same
    exact visitAttributes_siblings ih

theorem visitAttributes_root (opened : InodeFork) (extents : List Extent) :
    opened.visitAttributes extents [] [] [(0,none)] = opened.attributesPreorder extents := by
  have root : Unstacks (opened.visitAttributes extents) id [(0,none)] (opened.visitAttrBlock extents none
      (fun level => visitEach (opened.attrSubtree extents level)) 0) :=
    visitAttributes_block (fun level _ => visitAttributes_siblings (visitAttributes_subtree level)) 0
  have ended : (fun below : List DirectoryEntry × List Nat =>
      opened.visitAttributes extents below.2 ([] ++ id below.1) []) = Traversal.done := by
    funext below
    unfold visitAttributes
    rfl
  have emptied := root [] [] []
  rw [ended,bind_done,List.append_nil] at emptied
  exact emptied

theorem listAttributes_eq_listAttributesPreorder (opened : InodeFork) :
    opened.listAttributes = opened.listAttributesPreorder := by
  unfold listAttributes listAttributesPreorder
  cases opened.fork.layout with
  | shortform => rfl
  | extents count => simp only [visitAttributes_root]
  | btree => simp only [visitAttributes_root]

end InodeFork
end XfsReader
