import XfsReader.Proofs.BlockHeaders
import XfsReader.Proofs.ErrorClasses
import XfsReader.Proofs.TamperEvidence

-- What the options are for: to refuse blocks. With fewer checks a traversal that finishes does all that
-- it did before, and no check of a version 4 block is left to the options but that of its depth.
namespace XfsReader

-- The first options ask for no check that the second do not ask for.
structure WalkOptions.Relaxes (loose strict : WalkOptions) : Prop where
  depth : strict.maxDepth ≤ loose.maxDepth
  owner : loose.verifyOwner = true → strict.verifyOwner = true
  checksums : loose.verifyChecksums = true → strict.verifyChecksums = true

-- The same result, or in its place whatever there is for one who leniently passes over its error.
inductive Eases (lenient : Prop) : Except ε α → Except ε α → Prop
  | same (result : Except ε α) : Eases lenient result result
  | passed (error : ε) (other : Except ε α) (may : lenient) : Eases lenient (.error error) other

namespace Eases

variable {lenient : Prop}

theorem bind {one other : Except ε α} {next again : α → Except ε β} (first : Eases lenient one other)
    (later : ∀ value, one = .ok value → Eases lenient (next value) (again value)) :
    Eases lenient (one >>= next) (other >>= again) := by
  cases first with
  | same =>
    cases one with
    | ok value => exact later value rfl
    | error error => exact .same _
  | passed error other may => exact .passed error _ may

theorem outcome {one other : Except ε α} (eased : Eases lenient one other) :
    other = one ∨ ∃ error, one = .error error ∧ lenient := by
  cases eased with
  | same => exact .inl rfl
  | passed error other may => exact .inr ⟨error,rfl,may⟩

-- One check under two conditions: where only the first holds, it is for the lenient to do without.
theorem guarded {asked fewer : Prop} [Decidable asked] [Decidable fewer] (check : Except ε Unit)
    (implied : fewer → asked) (may : asked → fewer ∨ lenient) :
    Eases lenient (if asked then check else .ok ()) (if fewer then check else .ok ()) := by
  by_cases first : asked
  · rw [if_pos first]
    rcases may first with second | may
    · rw [if_pos second]
      exact .same check
    · cases check with
      | ok value => rw [ite_self]; exact .same _
      | error error => exact .passed error _ may
  · rw [if_neg first,if_neg fun second => first (implied second)]
    exact .same _

end Eases

namespace Traversal

-- Two traversals that ask for the same and do the same with it, but that the second may go on where
-- the first fails, if it is lenient.
inductive Eases (lenient : Prop) : Traversal α → Traversal α → Prop
  | done (value : α) : Eases lenient (.done value) (.done value)
  | fail (error : VolumeError) : Eases lenient (.fail error) (.fail error)
  | passed (error : VolumeError) (other : Traversal α) (may : lenient) : Eases lenient (.fail error) other
  | read (request : ReadRequest) {next again : Bytes → Traversal α}
      (later : ∀ found, Eases lenient (next found) (again found)) :
      Eases lenient (.read request next) (.read request again)
  | warn (warning : StaleCount) {next again : Traversal α} (later : Eases lenient next again) :
      Eases lenient (.warn warning next) (.warn warning again)

theorem guard_bind {refused : Prop} [Decidable refused] (error : VolumeError) (result : Except VolumeError α)
    (next : α → Traversal β) :
    (if refused then .fail error else ofExcept result >>= next) =
      ofExcept (if refused then .error error else result) >>= next := by
  split <;> rfl

namespace Eases

variable {lenient : Prop}

theorem refl (traversal : Traversal α) : Eases lenient traversal traversal := by
  induction traversal with
  | done value => exact .done value
  | fail error => exact .fail error
  | read request next ih => exact .read request ih
  | warn warning next ih => exact .warn warning ih

theorem bind {one other : Traversal α} {next again : α → Traversal β} (first : Eases lenient one other)
    (later : ∀ value, Eases lenient (next value) (again value)) :
    Eases lenient (one >>= next) (other >>= again) := by
  change Eases lenient (one.bind next) (other.bind again)
  induction first with
  | done value => exact later value
  | fail error => exact .fail error
  | passed error other may => exact .passed error _ may
  | read request _ ih => exact .read request ih
  | warn warning _ ih => exact .warn warning ih

theorem ofExcept {one other : Except VolumeError α} (eased : XfsReader.Eases lenient one other) :
    Eases lenient (.ofExcept one) (.ofExcept other) := by
  cases eased with
  | same result => exact .refl _
  | passed error other may => exact .passed error _ may

theorem forBlocks {visit again : Nat → Traversal (List α)} (each : ∀ index, Eases lenient (visit index) (again index))
    (first count : Nat) : Eases lenient (XfsReader.forBlocks visit first count) (XfsReader.forBlocks again first count) := by
  induction count generalizing first with
  | zero => exact .refl _
  | succ count ih => exact (each first).bind fun _ => (ih (first + 1)).bind fun _ => .refl _

theorem forExtents {visit again : Extent → Nat → Traversal (List α)}
    (each : ∀ extent index, Eases lenient (visit extent index) (again extent index)) (extents : List Extent) :
    Eases lenient (XfsReader.forExtents visit extents) (XfsReader.forExtents again extents) := by
  induction extents with
  | nil => exact .refl _
  | cons extent extents ih =>
    exact (forBlocks (each extent) 0 extent.blockCount.toNat).bind fun _ => ih.bind fun _ => .refl _

-- A run that finishes leaves nothing to be lenient about.
theorem run {one other : Traversal α} (eased : Eases lenient one other) {device : Device} {value : α}
    (ran : one.eval device = .ok value) : other.run device = one.run device := by
  induction eased with
  | done value => rfl
  | fail error => rfl
  | passed error other may => cases ran
  | read request _ ih =>
    rw [eval_read] at ran
    simp only [Traversal.run]
    cases got : device.answer request with
    | error error => rfl
    | ok found =>
      rw [got] at ran
      simp only [ih found ran]
  | warn warning _ ih => simp only [Traversal.run,ih ran]

theorem eq {one other : Traversal α} (eased : Eases False one other) : one = other := by
  induction eased with
  | done value => rfl
  | fail error => rfl
  | passed error other may => exact may.elim
  | read request _ ih => exact congrArg _ (funext ih)
  | warn warning _ ih => exact congrArg _ ih

end Eases
end Traversal

namespace InodeFork

def withOptions (opened : InodeFork) (options : WalkOptions) : InodeFork :=
  {opened with volume := opened.volume.withOptions options}

theorem fork_withOptions (opened : InodeFork) (options : WalkOptions) :
    (opened.withOptions options).fork = opened.fork := rfl

theorem ag_withOptions (opened : InodeFork) (options : WalkOptions) :
    (opened.withOptions options).ag = opened.ag := rfl

theorem attrBlockOffset_withOptions (opened : InodeFork) (options : WalkOptions) :
    (opened.withOptions options).attrBlockOffset = opened.attrBlockOffset := rfl

-- When other options ease what is done with a fork: leniently, where they relax its own; and with no
-- leniency at all, where the fork is of version 4 and may be as deep as before.
inductive Easing (opened : InodeFork) (options : WalkOptions) : Prop → Prop
  | relaxed (fewer : options.Relaxes opened.options) : Easing opened options True
  | old (version : opened.version = .v4) (deep : options.maxDepth = opened.options.maxDepth) :
      Easing opened options False

variable {opened : InodeFork} {options : WalkOptions} {lenient : Prop}

section
variable (ease : opened.Easing options lenient)
include ease

theorem Easing.checkSeal (role : BlockRole) (offset : Nat) (block : Bytes) :
    Eases lenient (opened.checkSeal role offset block) ((opened.withOptions options).checkSeal role offset block) := by
  cases ease with
  | relaxed fewer =>
    exact .guarded _ (fun sealed => ⟨fewer.checksums sealed.1,sealed.2⟩) fun _ => .inr trivial
  | old version deep =>
    have unsealed : opened.version ≠ .v5 := by rw [version]; exact nofun
    exact .guarded _ (fun sealed => absurd sealed.2 unsealed) fun sealed => absurd sealed.2 unsealed

-- A version 4 block names no owner, so that there is nothing to check: that it is of version 4 has been
-- made sure of before.
theorem Easing.checkOwner {place : Nat} {block : Bytes} {owner : Option UInt64}
    (known : OwnerAt opened.version place block owner) (cause : UInt64 → UInt64 → Cause) (offset : Nat) :
    Eases lenient (opened.checkOwner cause offset owner)
      ((opened.withOptions options).checkOwner cause offset owner) := by
  cases owner with
  | none => exact .same _
  | some owner =>
    cases ease with
    | relaxed fewer =>
      exact .guarded _ (fun foreign => ⟨fewer.owner foreign.1,foreign.2⟩) fun _ => .inr trivial
    | old version deep =>
      have unowned := known.none_of_v4 version
      cases unowned

-- The depth check of a block, whose error states the depth that is allowed.
theorem Easing.depth {level : UInt16} {refused : UInt16 → Cause} {one other : Except VolumeError α}
    (eased : Eases lenient one other) :
    Eases lenient
      (if opened.options.maxDepth < level then .error (.unsupportedLayout (refused opened.options.maxDepth)) else one)
      (if options.maxDepth < level then .error (.unsupportedLayout (refused options.maxDepth)) else other) := by
  cases ease with
  | relaxed fewer =>
    by_cases deep : opened.options.maxDepth < level
    · rw [if_pos deep]
      exact .passed _ _ trivial
    · rw [if_neg deep,if_neg fun deeper => deep (UInt16.lt_of_le_of_lt fewer.depth deeper)]
      exact eased
  | old version deep =>
    rw [deep]
    split
    · exact .same _
    · exact eased

theorem Easing.examineMapBlock (pair : MagicPair) (level offset : Nat) (block : Bytes) :
    Eases lenient (opened.examineMapBlock pair level offset block)
      ((opened.withOptions options).examineMapBlock pair level offset block) := by
  refine .bind (.same _) fun header decoded => .bind (.same _) fun _ agreed =>
    .bind (ease.checkSeal .mapBlock offset block) fun _ _ => ?_
  have known := (MapHeader.decode_fields (located_eq_ok.mp decoded)).2
  rw [checkMapVersion_eq_ok.mp agreed] at known
  split
  · exact .bind (ease.checkOwner known _ offset) fun _ _ => .same _
  · exact .same _

theorem Easing.examineLeafBlock (offset : Nat) (block : Bytes) :
    Eases lenient (opened.examineLeafBlock offset block) ((opened.withOptions options).examineLeafBlock offset block) := by
  refine .bind (.same _) fun header decoded => .bind (ease.checkSeal .leafBlock offset block) fun _ _ => ?_
  exact .bind (ease.checkOwner (DaHeader.decode_fields (located_eq_ok.mp decoded)).2 _ offset) fun _ _ => .same _

theorem Easing.examineDataHeader (offset : Nat) (block : Bytes) :
    Eases lenient (opened.examineDataHeader offset block)
      ((opened.withOptions options).examineDataHeader offset block) := by
  refine .bind (.same _) fun header decoded => .bind (ease.checkSeal .dataBlock offset block) fun _ _ => ?_
  exact .bind (ease.checkOwner (DataHeader.decode_fields (located_eq_ok.mp decoded)).2 _ offset) fun _ _ => .same _

theorem Easing.examineDataBlock (offset : Nat) (block : Bytes) :
    Eases lenient (opened.examineDataBlock offset block) ((opened.withOptions options).examineDataBlock offset block) :=
  .bind (ease.examineDataHeader offset block) fun _ _ => .same _

theorem Easing.examineCandidate (address : UInt32) (within offset : Nat) (block : Bytes) :
    Eases lenient (opened.examineCandidate address within offset block)
      ((opened.withOptions options).examineCandidate address within offset block) :=
  .bind (ease.examineDataHeader offset block) fun _ _ => .same _

theorem Easing.attrNodeContents (expected : Option Nat) (offset : Nat) (block : Bytes) :
    Eases lenient (opened.attrNodeContents expected offset block)
      ((opened.withOptions options).attrNodeContents expected offset block) := by
  cases read : (DaNode.decode opened.version).run block with
  | error error =>
    rw [opened.attrNodeContents_undecoded expected offset read,
      (opened.withOptions options).attrNodeContents_undecoded expected offset read]
    exact .same _
  | ok node =>
    obtain ⟨_,_,strict⟩ := opened.attrNodeContents_node expected offset read
    obtain ⟨_,_,loose⟩ := (opened.withOptions options).attrNodeContents_node expected offset read
    rw [strict,loose]
    split
    · exact ease.depth (.same _)
    · exact .same _

theorem Easing.examineAttrBlock (expected : Option Nat) (offset : Nat) (block : Bytes) :
    Eases lenient (opened.examineAttrBlock expected offset block)
      ((opened.withOptions options).examineAttrBlock expected offset block) := by
  refine .bind (.same _) fun header decoded => .bind (ease.checkSeal .attrBlock offset block) fun _ _ =>
    .bind (ease.checkOwner (DaHeader.decode_fields (located_eq_ok.mp decoded)).2 _ offset) fun _ _ => ?_
  cases header.kind with
  | node => exact ease.attrNodeContents expected offset block
  | attrLeaf => exact .same _
  | dirLeaf1 => exact .same _
  | dirLeafN => exact .same _

theorem Easing.visitPending (pair : MagicPair) (visited : List UInt64) (extents : List Extent)
    (pending : PendingBlocks) :
    Traversal.Eases lenient (opened.visitPending pair visited extents pending)
      ((opened.withOptions options).visitPending pair visited extents pending) := by
  fun_induction opened.visitPending pair visited extents pending with
  | case1 visited extents => rw [InodeFork.visitPending]; exact .refl _
  | case2 visited extents pointer level rest member =>
    rw [InodeFork.visitPending,if_pos member]
    exact .refl _
  | case3 visited extents pointer level rest new error untranslated =>
    rw [InodeFork.visitPending,if_neg new,ag_withOptions,untranslated]
    exact .refl _
  | case4 visited extents pointer level rest new offset translated ihLeaf ihNode =>
    rw [InodeFork.visitPending,if_neg new,ag_withOptions,translated]
    refine .read _ fun block => ?_
    rcases (ease.examineMapBlock pair level offset block).outcome with same | ⟨error,failed,may⟩
    · rw [same]
      split
      · exact .fail _
      · exact ihLeaf _
      · exact ihNode _ ‹_› ‹_›
    · rw [failed]
      exact .passed error _ may

theorem Easing.walkTree (pair : MagicPair) (literal : Bytes) :
    Traversal.Eases lenient (opened.walkTree pair literal) ((opened.withOptions options).walkTree pair literal) := by
  refine .bind (.refl _) fun root => .bind (.refl _) fun _ => ?_
  rw [Traversal.guard_bind,Traversal.guard_bind]
  refine .bind (.ofExcept (ease.depth (.same _))) fun contents => ?_
  cases contents with
  | extents found => exact .refl _
  | children pointers few interior => exact .bind (ease.visitPending pair [] [] _) fun _ => .refl _

theorem Easing.walk (tree : BtreeKind) :
    Traversal.Eases lenient (opened.walk tree) ((opened.withOptions options).walk tree) := by
  refine .bind (.refl _) fun literal => .bind ?_ fun _ => .refl _
  unfold readMap
  rw [fork_withOptions]
  cases opened.fork.layout with
  | shortform => exact .refl _
  | extents count => exact .refl _
  | btree => exact ease.walkTree _ literal

theorem Easing.leafBlock (extent : Extent) (index : Nat) :
    Traversal.Eases lenient (opened.leafBlock extent index) ((opened.withOptions options).leafBlock extent index) :=
  .bind (.refl _) fun offset => .bind (.refl _) fun block =>
    .bind (.ofExcept (ease.examineLeafBlock offset block)) fun _ => .refl _

theorem Easing.dataBlock (extent : Extent) (index : Nat) :
    Traversal.Eases lenient (opened.dataBlock extent index) ((opened.withOptions options).dataBlock extent index) :=
  .bind (.refl _) fun offset => .bind (.refl _) fun block =>
    .bind (.ofExcept (ease.examineDataBlock offset block)) fun _ => .refl _

theorem Easing.dataEntries (extents : List Extent) :
    Traversal.Eases lenient (opened.dataEntries extents) ((opened.withOptions options).dataEntries extents) := by
  refine .bind ?_ fun _ => .refl _
  rw [dataPlaces_byExtent,dataPlaces_byExtent]
  exact .bind (.refl _) fun _ => .forExtents ease.dataBlock extents

theorem Easing.listDirectory :
    Traversal.Eases lenient opened.listDirectory (opened.withOptions options).listDirectory := by
  by_cases layout : opened.fork.layout = .shortform
  · rw [opened.listDirectory_unmapped layout,(opened.withOptions options).listDirectory_unmapped layout]
    exact .refl _
  · rw [opened.listDirectory_mapped layout,(opened.withOptions options).listDirectory_mapped layout]
    exact (ease.walk .directory).bind fun _ => (Traversal.Eases.forExtents ease.leafBlock _).bind fun _ =>
      ease.dataEntries _

theorem Easing.candidate (data : List Extent) (slot : LeafSlot) :
    Traversal.Eases lenient (opened.candidate data slot) ((opened.withOptions options).candidate data slot) := by
  refine .bind (.refl _) fun placed => ?_
  cases placed with
  | none => exact .refl _
  | some offset =>
    exact .bind (.refl _) fun bytes => .ofExcept (ease.examineCandidate slot.address _ offset bytes)

theorem Easing.probe (data : List Extent) (name : Name) (slots : List LeafSlot) :
    Traversal.Eases lenient (opened.probe data name slots) ((opened.withOptions options).probe data name slots) := by
  induction slots with
  | nil => exact .refl _
  | cons slot slots ih =>
    refine .bind (ease.candidate data slot) fun found => ?_
    split
    · exact .refl _
    · exact ih

theorem Easing.lookup (name : Name) :
    Traversal.Eases lenient (opened.lookup name) ((opened.withOptions options).lookup name) := by
  by_cases layout : opened.fork.layout = .shortform
  · rw [opened.lookup_unmapped layout,(opened.withOptions options).lookup_unmapped layout]
    exact .refl _
  · rw [opened.lookup_mapped layout,(opened.withOptions options).lookup_mapped layout]
    refine (ease.walk .directory).bind fun _ => (Traversal.Eases.forExtents ease.leafBlock _).bind fun _ => ?_
    split
    · exact (ease.dataEntries _).bind fun _ => .refl _
    · exact ease.probe _ name _

theorem Easing.visitAttributes (extents : List Extent) (visited : List Nat) (entries : List DirectoryEntry)
    (pending : PendingAttrs) :
    Traversal.Eases lenient (opened.visitAttributes extents visited entries pending)
      ((opened.withOptions options).visitAttributes extents visited entries pending) := by
  fun_induction opened.visitAttributes extents visited entries pending with
  | case1 visited entries => rw [InodeFork.visitAttributes]; exact .refl _
  | case2 visited entries block expected rest member =>
    rw [InodeFork.visitAttributes,if_pos member]
    exact .refl _
  | case3 visited entries block expected rest new error unplaced =>
    rw [InodeFork.visitAttributes,if_neg new,attrBlockOffset_withOptions,unplaced]
    exact .refl _
  | case4 visited entries block expected rest new offset placed ihLeaf ihNode =>
    rw [InodeFork.visitAttributes,if_neg new,attrBlockOffset_withOptions,placed]
    refine .read _ fun bytes => ?_
    rcases (ease.examineAttrBlock expected offset bytes).outcome with same | ⟨error,failed,may⟩
    · rw [same]
      split
      · exact .fail _
      · exact ihLeaf _
      · exact ihNode _ _ ‹_› ‹_›
    · rw [failed]
      exact .passed error _ may

theorem Easing.listAttributes :
    Traversal.Eases lenient opened.listAttributes (opened.withOptions options).listAttributes := by
  by_cases layout : opened.fork.layout = .shortform
  · rw [opened.listAttributes_unmapped layout,(opened.withOptions options).listAttributes_unmapped layout]
    exact .refl _
  · rw [opened.listAttributes_mapped layout,(opened.withOptions options).listAttributes_mapped layout]
    refine (ease.walk .directory).bind fun _ => ?_
    split
    · exact .refl _
    · exact (ease.visitAttributes _ [] [] _).bind fun _ => .refl _

end
end InodeFork

theorem Volume.openFork_eq_ok {volume : Volume} {inode : UInt64} {kind : ForkKind} {opened : InodeFork} :
    volume.openFork inode kind = .ok opened ↔
      ∃ fork, volume.forks.find inode kind = .ok fork ∧ ⟨volume,inode,fork⟩ = opened := by
  unfold openFork
  cases volume.forks.find inode kind <;> simp

theorem Volume.openFork_withOptions {volume : Volume} {inode : UInt64} {kind : ForkKind} {opened : InodeFork}
    (known : volume.openFork inode kind = .ok opened) (options : WalkOptions) :
    (volume.withOptions options).openFork inode kind = .ok (opened.withOptions options) := by
  obtain ⟨fork,found,rfl⟩ := openFork_eq_ok.mp known
  exact openFork_eq_ok.mpr ⟨fork,found,rfl⟩

namespace Operation

theorem eases {opened : InodeFork} {options : WalkOptions} {lenient : Prop} (operation : Operation α)
    (ease : opened.Easing options lenient) :
    Traversal.Eases lenient (operation.ofFork opened) (operation.ofFork (opened.withOptions options)) := by
  cases operation with
  | walk kind tree => exact ease.walk tree
  | extents => exact (ease.walk .dataExtents).bind fun _ => .refl _
  | resolve offset => exact (ease.walk .dataExtents).bind fun _ => .refl _
  | list => exact ease.listDirectory
  | lookup name => exact ease.lookup name
  | attributes => exact ease.listAttributes

end Operation

-- Options only ever turn a result into an error, and on a version 4 fork the flags do not even that.
theorem relaxed_options_same_result (operation : Operation α) (volume : Volume) (inode : UInt64)
    (options : WalkOptions) (device : Device) :
    (options.Relaxes volume.options → ∀ value, (operation.traversal volume inode).eval device = .ok value →
      (operation.traversal (volume.withOptions options) inode).eval device = .ok value) ∧
    (∀ opened, volume.openFork inode operation.fork = .ok opened → opened.version = .v4 →
      options.maxDepth = volume.options.maxDepth →
      (operation.traversal (volume.withOptions options) inode).eval device =
        (operation.traversal volume inode).eval device) := by
  constructor
  · intro fewer value ran
    obtain ⟨opened,known⟩ := operation.opens ran
    rw [operation.traversal_eq known] at ran
    rw [operation.traversal_eq (Volume.openFork_withOptions known options)]
    have relaxed : options.Relaxes opened.options := by
      rw [InodeFork.options,Volume.openFork_volume known]
      exact fewer
    rw [Traversal.eval,(operation.eases (.relaxed relaxed)).run ran]
    exact ran
  · intro opened known version deep
    have same : options.maxDepth = opened.options.maxDepth := by
      rw [InodeFork.options,Volume.openFork_volume known]
      exact deep
    rw [operation.traversal_eq known,operation.traversal_eq (Volume.openFork_withOptions known options),
      (operation.eases (.old version same)).eq]

theorem relaxed_options_same_result_unchecked :
    let unchecked : WalkOptions := ⟨8,false,false⟩
    (unchecked.Relaxes sealedFork.volume.options ∧
      (Operation.list.traversal sealedFork.volume 5).eval (sealedDirectory 5) = .ok [sealedEntry] ∧
      (Operation.list.traversal (sealedFork.volume.withOptions unchecked) 5).eval (sealedDirectory 5) =
        .ok [sealedEntry]) ∧
    (strayFork.volume.openFork 5 .data = .ok strayFork ∧ strayFork.version = .v4 ∧
      ((Operation.walk .data .dataExtents).traversal (strayFork.volume.withOptions unchecked) 5).eval
          (.ofBytes strayImage) =
        ((Operation.walk .data .dataExtents).traversal strayFork.volume 5).eval (.ofBytes strayImage)) := by
  intro unchecked
  have fewer : unchecked.Relaxes sealedFork.volume.options := ⟨by decide,nofun,nofun⟩
  refine ⟨⟨fewer,listDirectory_sealed,?_⟩,rfl,rfl,?_⟩
  · exact (relaxed_options_same_result .list sealedFork.volume 5 unchecked (sealedDirectory 5)).1 fewer _
      listDirectory_sealed
  · exact (relaxed_options_same_result (.walk .data .dataExtents) strayFork.volume 5 unchecked
      (.ofBytes strayImage)).2 strayFork rfl rfl rfl

end XfsReader
