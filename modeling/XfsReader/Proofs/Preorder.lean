import XfsReader.Proofs.Traversal
import XfsReader.Volume.Preorder

-- The walk with a list of pending blocks does what the recursive one does: the same reads in the
-- same order, the same result, and the same error where there is one.
namespace XfsReader

-- Items that lie on top of a stack are done with, and what they lead to is gathered, before what
-- lies below them is touched.
def Unstacks (loop : List κ → List ε → List ι → Traversal γ) (gather : List β → List ε) (items : List ι)
    (visit : List κ → Traversal (List β × List κ)) : Prop :=
  ∀ visited found rest, loop visited found (items ++ rest) =
    (visit visited).bind fun below => loop below.2 (found ++ gather below.1) rest

-- Siblings come off the stack from left to right.
theorem Unstacks.siblings {loop : List κ → List ε → List ι → Traversal γ} {gather : List β → List ε}
    {place : α → ι} {visit : α → List κ → Traversal (List β × List κ)} (nothing : gather [] = [])
    (both : ∀ front back, gather (front ++ back) = gather front ++ gather back)
    (one : ∀ item, Unstacks loop gather [place item] (visit item)) (items : List α) :
    Unstacks loop gather (items.map place) (visitEach visit items) := by
  induction items with
  | nil =>
    intro visited found rest
    change _ = loop visited (found ++ gather []) rest
    rw [nothing,List.append_nil]
    rfl
  | cons item items ih =>
    intro visited found rest
    have first := one item visited found (items.map place ++ rest)
    rw [List.singleton_append] at first
    rw [List.map_cons,List.cons_append,first]
    change _ = Traversal.bind (Traversal.bind _ _) _
    rw [Traversal.bind_assoc]
    congr 1
    funext below
    rw [ih]
    change _ = Traversal.bind (Traversal.bind _ _) _
    rw [Traversal.bind_assoc]
    congr 1
    funext others
    change _ = loop others.2 (found ++ gather (below.1 ++ others.1)) rest
    rw [both,List.append_assoc]

-- The first descent of keys is found among their neighbours.
theorem firstDescent?_neighbours : (keys : List UInt64) → firstDescent? keys =
    ((keys.zip keys.tail).find? fun (previous,key) => key ≤ previous).map Prod.swap
  | [] => rfl
  | [_] => rfl
  | first :: second :: rest => by
    have later := firstDescent?_neighbours (second :: rest)
    by_cases descent : second ≤ first
    · simp [firstDescent?,descent]
    · simpa [firstDescent?,descent] using later

-- What a block leads to, without what bounds the walk.
def MapContents.items {level : Nat} : MapContents level → List Extent ⊕ List UInt64
  | .extents found => .inl found
  | .children pointers _ _ => .inr pointers

namespace InodeFork
open Traversal MapTree

variable {opened : InodeFork} {pair : MagicPair}

-- The checks of the walk, one by one, are those that the recursion is defined by.
section Checks

variable {role : BlockRole} {offset level : Nat} {block : Bytes} {owner : Option UInt64}
  {cause : UInt64 → UInt64 → Cause}

theorem checkSeal_broken? : opened.checkSeal role offset block =
    match opened.brokenSeal? role block with
    | some error => .error (.ofDecode offset error)
    | none => .ok () := by
  unfold checkSeal brokenSeal?
  by_cases asked : opened.options.verifyChecksums = true ∧ opened.version = .v5
  · rw [if_pos asked,if_pos asked.symm]
    cases role.verify block <;> rfl
  · rw [if_neg asked,if_neg fun both => asked both.symm]

theorem checkOwner_foreign? : opened.checkOwner cause offset owner =
    match opened.foreignOwner? owner with
    | some known => .error (.corruption offset (cause known opened.inode))
    | none => .ok () := by
  unfold checkOwner foreignOwner?
  cases owner with
  | none => simp
  | some known =>
    by_cases asked : opened.options.verifyOwner
    · by_cases home : known = opened.inode <;> simp [asked,home,Option.filter_some]
    · simp [asked]

theorem mapHeaderAt_eq : opened.mapHeaderAt pair offset block =
    (located offset ((MapHeader.decode pair).run block) >>= fun header =>
      opened.checkMapVersion header offset >>= fun _ => .ok header) := by
  unfold mapHeaderAt
  cases (MapHeader.decode pair).run block with
  | error error => rfl
  | ok header =>
    simp only [located_ok,checkMapVersion,bind,Except.bind]
    by_cases versioned : header.version = opened.version <;> simp [versioned]

theorem mapItemsAt_eq {header : MapHeader} (levelled : header.level.toNat = level) :
    mapItemsAt header offset block = (mapContents header level offset block).map MapContents.items := by
  by_cases ground : level = 0
  · have leaf : header.level = 0 := UInt16.toNat_inj.mp (levelled.trans ground)
    rw [mapItemsAt,if_pos leaf,mapContents,dif_pos ground]
    cases header.leafExtents block <;> rfl
  · have node : header.level ≠ 0 := fun zero => ground (by rw [← levelled,zero]; rfl)
    have interior := Nat.pos_of_ne_zero ground
    rw [mapItemsAt,if_neg node]
    cases read : header.childPointers block with
    | error error =>
      rw [mapContents_undecoded interior offset read]
      rfl
    | ok pointers =>
      obtain ⟨few,contents⟩ := mapContents_interior interior offset read
      rw [contents,checkMapKeys]
      cases header.keys block with
      | error error => rfl
      | ok keys =>
        dsimp only
        rw [firstDescent?_neighbours]
        cases (keys.zip keys.tail).find? fun (previous,key) => key ≤ previous <;> rfl

theorem mapBlockItems_eq : opened.mapBlockItems pair level offset block =
    (opened.examineMapBlock pair level offset block).map MapContents.items := by
  rw [mapBlockItems,mapHeaderAt_eq,examineMapBlock]
  simp only [checkSeal_broken?,checkOwner_foreign?,bind,Except.bind]
  cases located offset ((MapHeader.decode pair).run block) with
  | error error => rfl
  | ok header =>
    dsimp only
    cases opened.checkMapVersion header offset with
    | error error => rfl
    | ok _ =>
      dsimp only
      cases opened.brokenSeal? .mapBlock block with
      | some error => rfl
      | none =>
        by_cases levelled : header.level.toNat = level
        · simp only [levelled,ne_eq,not_true_eq_false,if_false,if_true]
          cases opened.foreignOwner? header.owner with
          | some owner => rfl
          | none => exact mapItemsAt_eq levelled
        · simp only [levelled,ne_eq,not_false_eq_true,if_true,if_false]
          rfl

end Checks

-- A block on top of the stack is handled with all below it before the rest of the stack is, if that
-- is so for its children.
theorem visitPending_block {level : Nat}
    {descend : List UInt64 → List UInt64 → Traversal (List MapTree × List UInt64)}
    (below : 0 < level → ∀ pointers visited extents rest,
      opened.visitPending pair visited extents (pushReversed (pointers.map fun child => (child,level - 1)) rest) =
        (descend pointers visited).bind fun found =>
          opened.visitPending pair found.2 (extents ++ extentsOf found.1) rest)
    (pointer : UInt64) (visited : List UInt64) (extents : List Extent) (rest : PendingBlocks) :
    opened.visitPending pair visited extents ((pointer,level) :: rest) =
      (opened.visitMapBlock pair level descend pointer visited).bind fun found =>
        opened.visitPending pair found.2 (extents ++ extentsOf found.1) rest := by
  rw [visitPending,visitMapBlock]
  by_cases member : pointer ∈ visited
  · simp only [member,if_true,Traversal.bind]
  · simp only [member,if_false]
    cases translated : opened.ag.byteOffset pointer with
    | error error => rfl
    | ok offset =>
      simp only [Traversal.bind]
      congr 1
      funext block
      rw [mapBlockItems_eq]
      cases examined : opened.examineMapBlock pair level offset block with
      | error error => rfl
      | ok contents =>
        cases contents with
        | extents found =>
          change _ = opened.visitPending pair (pointer :: visited) (extents ++ extentsOf [.leaf pointer found]) rest
          simp [extentsOf,MapTree.extents]
        | children pointers few interior =>
          dsimp only
          rw [below interior]
          change _ = Traversal.bind (Traversal.bind _ _) _
          rw [Traversal.bind_assoc]
          congr 1
          funext children
          change _ = opened.visitPending pair children.2 (extents ++ extentsOf [.node pointer children.1]) rest
          simp [extentsOf,MapTree.extents]

theorem visitPending_siblings {level : Nat} {visit : UInt64 → List UInt64 → Traversal (List MapTree × List UInt64)}
    (one : ∀ pointer visited extents rest,
      opened.visitPending pair visited extents ((pointer,level) :: rest) =
        (visit pointer visited).bind fun found =>
          opened.visitPending pair found.2 (extents ++ extentsOf found.1) rest)
    (pointers visited : List UInt64) (extents : List Extent) (rest : PendingBlocks) :
    opened.visitPending pair visited extents (pushReversed (pointers.map fun child => (child,level)) rest) =
      (visitEach visit pointers visited).bind fun found =>
        opened.visitPending pair found.2 (extents ++ extentsOf found.1) rest := by
  rw [pushReversed_eq]
  exact Unstacks.siblings rfl extentsOf_append one pointers visited extents rest

theorem visitPending_subtree (level : Nat) (pointer : UInt64) (visited : List UInt64) (extents : List Extent)
    (rest : PendingBlocks) :
    opened.visitPending pair visited extents ((pointer,level) :: rest) =
      (opened.mapSubtree pair level pointer visited).bind fun found =>
        opened.visitPending pair found.2 (extents ++ extentsOf found.1) rest := by
  induction level generalizing pointer visited extents rest with
  | zero => exact visitPending_block (fun interior => absurd interior (Nat.lt_irrefl 0)) pointer visited extents rest
  | succ level ih => exact visitPending_block (fun _ => visitPending_siblings ih) pointer visited extents rest

def VisitsTrees (visited : List UInt64) (found : List MapTree × List UInt64) : Prop :=
  found.2 = (pointersOf found.1).reverse ++ visited

theorem visitEach_visits {visit : UInt64 → List UInt64 → Traversal (List MapTree × List UInt64)}
    (one : ∀ pointer visited, (visit pointer visited).Yields (VisitsTrees visited))
    (pointers visited : List UInt64) : (visitEach visit pointers visited).Yields (VisitsTrees visited) := by
  induction pointers generalizing visited with
  | nil => exact rfl
  | cons pointer pointers ih =>
    refine .bind (one pointer visited) fun first trees => .bind (ih first.2) fun others later => ?_
    change others.2 = (pointersOf (first.1 ++ others.1)).reverse ++ visited
    rw [later,trees,pointersOf_append,List.reverse_append,List.append_assoc]

theorem visitMapBlock_visits {level : Nat}
    {descend : List UInt64 → List UInt64 → Traversal (List MapTree × List UInt64)}
    (below : ∀ pointers visited, (descend pointers visited).Yields (VisitsTrees visited))
    (pointer : UInt64) (visited : List UInt64) :
    (opened.visitMapBlock pair level descend pointer visited).Yields (VisitsTrees visited) := by
  unfold visitMapBlock
  split
  · trivial
  · split
    · trivial
    · intro block
      dsimp only
      split
      · trivial
      · exact rfl
      · refine .bind (below _ _) fun children trees => ?_
        change children.2 = (pointersOf [.node pointer children.1]).reverse ++ visited
        rw [trees]
        simp [pointersOf,pointers]

theorem mapSubtree_visits (level : Nat) (pointer : UInt64) (visited : List UInt64) :
    (opened.mapSubtree pair level pointer visited).Yields (VisitsTrees visited) := by
  induction level generalizing pointer visited with
  | zero =>
    refine visitMapBlock_visits ?_ pointer visited
    intro pointers visited
    exact rfl
  | succ level ih => exact visitMapBlock_visits (visitEach_visits ih) pointer visited

-- The stack, once emptied, holds what recursion gathers: all records of the tree from left to right
-- and each of its blocks.
theorem visitPending_tree (level : Nat) (pointers : List UInt64) (next : List Extent → Nat → Traversal α) :
    ((opened.visitPending pair [] [] (pushReversed (pointers.map fun child => (child,level)) [])).bind
      fun found => next found.1 found.2.length) =
    (visitEach (opened.mapSubtree pair level) pointers []).bind
      fun found => next (extentsOf found.1) (pointersOf found.1).length := by
  rw [visitPending_siblings (visitPending_subtree level),bind_assoc]
  refine (visitEach_visits (mapSubtree_visits level) pointers []).bind_congr fun found trees => ?_
  change found.2 = (pointersOf found.1).reverse ++ [] at trees
  simp [visitPending,Traversal.bind,trees]

theorem walkTree_eq_walkTreePreorder (opened : InodeFork) (pair : MagicPair) (literal : Bytes) :
    opened.walkTree pair literal = opened.walkTreePreorder pair literal := by
  rw [walkTree,walkTreePreorder,mapHeaderAt_eq]
  simp only [bind,Except.bind]
  cases located opened.position ((MapHeader.decode pair).run literal) with
  | error error => rfl
  | ok root =>
    dsimp only [Traversal.ofExcept,Traversal.bind]
    cases opened.checkMapVersion root opened.position with
    | error error => rfl
    | ok _ =>
      dsimp only [Traversal.ofExcept,Traversal.bind]
      split
      · rfl
      · rw [mapItemsAt_eq rfl]
        cases mapContents root root.level.toNat opened.position literal with
        | error error => rfl
        | ok contents =>
          cases contents with
          | extents found => rfl
          | children pointers few interior =>
            exact visitPending_tree (root.level.toNat - 1) pointers fun extents blocks =>
              Traversal.done (ExtentMap.mk extents (.tree root.level) blocks)

end InodeFork
end XfsReader
