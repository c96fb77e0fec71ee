import XfsReader.Proofs.DataWindows
import XfsReader.Proofs.Translation
import XfsReader.Volume.FileOffset
import XfsReader.Volume.Lookup

-- Where traversals read, and what they make of a block before they use anything of it. Whatever is
-- asked of a volume, each read is of the literal area or of a whole block, and a block that its
-- site refuses ends the traversal with the error of that refusal.
namespace XfsReader

def refusal : Except ε α → Option ε
  | .ok _ => none
  | .error error => some error

theorem refusal_eq_some {result : Except ε α} {error : ε} : refusal result = some error ↔ result = .error error := by
  cases result <;> simp [refusal]

theorem refusal_eq_none {result : Except ε α} : refusal result = none ↔ ∃ value, result = .ok value := by
  cases result <;> simp [refusal]

theorem refusal_bind {result : Except ε α} {next : α → Except ε β} {error : ε}
    (refused : refusal result = some error) : result >>= next = .error error := by
  cases result with
  | ok value => cases refused
  | error other => cases refused; rfl

namespace Traversal

-- Every read is at some site, whatever came before it, and what the site refuses goes no further.
def Follows (site : ReadRequest → (Bytes → Option VolumeError) → Prop) : Traversal α → Prop
  | .done _ => True
  | .fail _ => True
  | .warn _ next => next.Follows site
  | .read request next =>
    (∃ refuse, site request refuse ∧ ∀ found error, refuse found = some error → next found = .fail error) ∧
      ∀ found, (next found).Follows site

variable {site : ReadRequest → (Bytes → Option VolumeError) → Prop}

theorem Follows.bind {traversal : Traversal α} {next : α → Traversal β} (first : traversal.Follows site)
    (later : ∀ value, (next value).Follows site) : (traversal >>= next).Follows site := by
  change (traversal.bind next).Follows site
  induction traversal with
  | done value => exact later value
  | fail error => trivial
  | warn warning rest ih => exact ih first
  | read request rest ih =>
    obtain ⟨⟨refuse,known,ends⟩,follows⟩ := first
    refine ⟨⟨refuse,known,?_⟩,fun found => ih found (follows found)⟩
    intro found error refused
    dsimp only
    rw [ends found error refused]
    rfl

theorem Follows.mono {wider : ReadRequest → (Bytes → Option VolumeError) → Prop} {traversal : Traversal α}
    (follows : traversal.Follows site) (more : ∀ request refuse, site request refuse → wider request refuse) :
    traversal.Follows wider := by
  induction traversal with
  | done value => trivial
  | fail error => trivial
  | warn warning next ih => exact ih follows
  | read request next ih =>
    obtain ⟨⟨refuse,known,ends⟩,later⟩ := follows
    exact ⟨⟨refuse,more request refuse known,ends⟩,fun found => ih found (later found)⟩

theorem ofExcept_follows (result : Except VolumeError α) : (ofExcept result).Follows site := by
  cases result <;> trivial

theorem request_follows {role : Option BlockRole} {offset length : Nat} {refuse : Bytes → Option VolumeError}
    {later : Bytes → Traversal α} (known : site ⟨role,offset,length⟩ refuse)
    (ends : ∀ found error, refuse found = some error → later found = .fail error)
    (follows : ∀ found, (later found).Follows site) : (request role offset length >>= later).Follows site :=
  ⟨⟨refuse,known,ends⟩,follows⟩

theorem ofExcept_fails {result : Except VolumeError α} {next : α → Traversal β} {error : VolumeError}
    (refused : refusal result = some error) : ofExcept result >>= next = .fail error := by
  cases result with
  | ok value => cases refused
  | error other => cases refused; rfl

theorem Follows.reads {traversal : Traversal α} (follows : traversal.Follows site) (device : Device)
    {request : ReadRequest} (asked : request ∈ (traversal.run device).reads) : ∃ refuse, site request refuse := by
  induction traversal with
  | done value => cases asked
  | fail error => cases asked
  | warn warning next ih => exact ih follows asked
  | read first next ih =>
    obtain ⟨⟨refuse,known,_⟩,later⟩ := follows
    rw [run] at asked
    cases got : device.answer first with
    | error error =>
      rw [got] at asked
      obtain rfl := List.mem_singleton.mp asked
      exact ⟨refuse,known⟩
    | ok found =>
      rw [got] at asked
      rcases List.mem_cons.mp asked with rfl | after
      · exact ⟨refuse,known⟩
      · exact ih found (later found) after

theorem forBlocks_follows {visit : Nat → Traversal (List α)} (first count : Nat)
    (each : ∀ index < first + count, (visit index).Follows site) : (forBlocks visit first count).Follows site := by
  induction count generalizing first with
  | zero => trivial
  | succ count ih =>
    have rest := ih (first + 1) fun index below => each index (by omega)
    exact (each first (by omega)).bind fun _ => rest.bind fun _ => trivial

theorem forExtents_follows_inside {visit : Extent → Nat → Traversal (List α)} (extents : List Extent)
    (each : ∀ extent ∈ extents, ∀ index < extent.blockCount.toNat, (visit extent index).Follows site) :
    (forExtents visit extents).Follows site := by
  induction extents with
  | nil => trivial
  | cons extent extents ih =>
    have rest := ih fun other member => each other (List.mem_cons_of_mem extent member)
    refine (forBlocks_follows 0 extent.blockCount.toNat fun index below => ?_).bind fun _ => rest.bind fun _ => trivial
    exact each extent List.mem_cons_self index (by omega)

theorem forExtents_follows {visit : Extent → Nat → Traversal (List α)}
    (each : ∀ extent index, (visit extent index).Follows site) (extents : List Extent) :
    (forExtents visit extents).Follows site :=
  forExtents_follows_inside extents fun extent _ index _ => each extent index

end Traversal

namespace InodeFork
open Traversal

def magics (opened : InodeFork) (tree : BtreeKind) : MagicPair := opened.volume.geometry.magics.pair tree

-- The reads that a fork may ask for, those of map blocks only where magics are given for them. A data
-- block is judged by its header alone: listing then scans it, while lookup decodes one entry.
inductive ReadSite (opened : InodeFork) (map : Option MagicPair) : ReadRequest → (Bytes → Option VolumeError) → Prop
  | literal : ReadSite opened map ⟨none,opened.position,opened.fork.size.toNat⟩ fun _ => none
  | mapBlock {pair pointer offset} (level : Nat) (given : map = some pair)
      (translated : opened.ag.byteOffset pointer = .ok offset) :
      ReadSite opened map ⟨some .mapBlock,offset,opened.blockSize.bytes⟩ fun block =>
        refusal (opened.examineMapBlock pair level offset block)
  | leafBlock {start index offset} (translated : opened.ag.runByteOffset start index = .ok offset) :
      ReadSite opened map ⟨some .leafBlock,offset,opened.blockSize.bytes⟩ fun block =>
        refusal (opened.examineLeafBlock offset block)
  | dataBlock {start index offset} (translated : opened.ag.runByteOffset start index = .ok offset) :
      ReadSite opened map ⟨some .dataBlock,offset,opened.blockSize.bytes⟩ fun block =>
        refusal (opened.examineDataHeader offset block)
  | attrBlock {start index offset} (expected : Option Nat)
      (translated : opened.ag.runByteOffset start index = .ok offset) :
      ReadSite opened map ⟨some .attrBlock,offset,opened.blockSize.bytes⟩ fun block =>
        refusal (opened.examineAttrBlock expected offset block)

variable {opened : InodeFork} {map : Option MagicPair}

theorem ReadSite.any {request : ReadRequest} {refuse : Bytes → Option VolumeError}
    (site : opened.ReadSite none request refuse) : opened.ReadSite map request refuse := by
  cases site with
  | literal => exact .literal
  | mapBlock level given translated => cases given
  | leafBlock translated => exact .leafBlock translated
  | dataBlock translated => exact .dataBlock translated
  | attrBlock expected translated => exact .attrBlock expected translated

theorem ReadSite.block {request : ReadRequest} {refuse : Bytes → Option VolumeError}
    (site : opened.ReadSite map request refuse) {role : BlockRole} (known : request.role = some role) :
    opened.blockSize.bytes ∣ request.offset ∧ request.length = opened.blockSize.bytes := by
  cases site with
  | literal => cases known
  | mapBlock level given translated => exact ⟨AgGeometry.byteOffset_dvd translated,rfl⟩
  | leafBlock translated => exact ⟨AgGeometry.runByteOffset_dvd translated,rfl⟩
  | dataBlock translated => exact ⟨AgGeometry.runByteOffset_dvd translated,rfl⟩
  | attrBlock expected translated => exact ⟨AgGeometry.runByteOffset_dvd translated,rfl⟩

theorem ReadSite.lt {request : ReadRequest} {refuse : Bytes → Option VolumeError}
    (site : opened.ReadSite map request refuse) {role : BlockRole} (known : request.role = some role) :
    request.offset < 0x10000000000000000 := by
  cases site with
  | literal => cases known
  | mapBlock level given translated => exact AgGeometry.byteOffset_lt translated
  | leafBlock translated => exact AgGeometry.runByteOffset_lt translated
  | dataBlock translated => exact AgGeometry.runByteOffset_lt translated
  | attrBlock expected translated => exact AgGeometry.runByteOffset_lt translated

theorem checkMapVersion_eq_ok {header : MapHeader} {offset : Nat} {passed : Unit} :
    opened.checkMapVersion header offset = .ok passed ↔ header.version = opened.version := by
  unfold checkMapVersion
  split <;> simp [*]

theorem readLiteral_follows {later : Bytes → Traversal α}
    (follows : ∀ found, (later found).Follows (opened.ReadSite map)) :
    (opened.readLiteral >>= later).Follows (opened.ReadSite map) :=
  request_follows .literal (fun _ _ refused => (nomatch refused)) follows

section Walk

variable {site : ReadRequest → (Bytes → Option VolumeError) → Prop} {pair : MagicPair}

theorem visitPending_follows
    (block : ∀ pointer offset level, opened.ag.byteOffset pointer = .ok offset →
      site ⟨some .mapBlock,offset,opened.blockSize.bytes⟩ fun block =>
        refusal (opened.examineMapBlock pair level offset block))
    (visited : List UInt64) (extents : List Extent) (pending : PendingBlocks) :
    (opened.visitPending pair visited extents pending).Follows site := by
  fun_induction opened.visitPending pair visited extents pending with
  | case1 visited extents => trivial
  | case2 visited extents pointer level rest member => trivial
  | case3 visited extents pointer level rest new error untranslated => trivial
  | case4 visited extents pointer level rest new offset translated ihLeaf ihNode =>
    refine ⟨⟨_,block pointer offset level translated,?_⟩,?_⟩
    · intro block error refused
      dsimp only
      rw [refusal_eq_some.mp refused]
    · intro block
      dsimp only
      split
      · trivial
      · exact ihLeaf _
      · exact ihNode _ ‹_› ‹_›

-- A walk reads its literal area and after it map blocks alone.
theorem walk_follows_of (tree : BtreeKind)
    (literal : site ⟨none,opened.position,opened.fork.size.toNat⟩ fun _ => none)
    (block : ∀ pointer offset level, opened.ag.byteOffset pointer = .ok offset →
      site ⟨some .mapBlock,offset,opened.blockSize.bytes⟩ fun block =>
        refusal (opened.examineMapBlock (opened.magics tree) level offset block)) :
    (opened.walk tree).Follows site := by
  refine request_follows literal (fun _ _ refused => (nomatch refused)) fun _ =>
    .bind ?_ fun _ => (ofExcept_follows _).bind fun _ => trivial
  unfold readMap
  split
  · trivial
  · exact (ofExcept_follows _).bind fun _ => trivial
  · refine (ofExcept_follows _).bind fun _ => (ofExcept_follows _).bind fun _ => ?_
    split
    · trivial
    · refine (ofExcept_follows _).bind fun contents => ?_
      cases contents with
      | extents found => trivial
      | children pointers few interior => exact (visitPending_follows block _ _ _).bind fun _ => trivial

end Walk

theorem walk_follows (tree : BtreeKind) :
    (opened.walk tree).Follows (opened.ReadSite (some (opened.magics tree))) :=
  walk_follows_of tree .literal fun _ _ level => .mapBlock level rfl

theorem leafBlock_follows (extent : Extent) (index : Nat) :
    (opened.leafBlock extent index).Follows (opened.ReadSite map) := by
  unfold leafBlock
  cases translated : opened.runOffset extent.startBlock index opened.position with
  | error error => trivial
  | ok offset =>
    refine request_follows (.leafBlock (located_eq_ok.mp translated)) ?_ ?_
    · intro block error refused
      exact ofExcept_fails refused
    · intro block
      refine (ofExcept_follows _).bind fun contents => ?_
      unfold keepLeaf
      split
      · trivial
      · split <;> trivial

theorem dataBlock_follows (extent : Extent) (index : Nat) :
    (opened.dataBlock extent index).Follows (opened.ReadSite map) := by
  unfold dataBlock
  cases translated : opened.runOffset extent.startBlock index opened.position with
  | error error => trivial
  | ok offset =>
    refine request_follows (.dataBlock (located_eq_ok.mp translated)) ?_ ?_
    · intro block error refused
      rw [examineDataBlock,refusal_bind refused]
      rfl
    · intro block
      exact (ofExcept_follows _).bind fun _ => trivial

theorem dataPlaces_follows (extents : List Extent) : (opened.dataPlaces extents).Follows (opened.ReadSite map) := by
  rw [dataPlaces_byExtent]
  exact (ofExcept_follows _).bind fun _ => forExtents_follows dataBlock_follows extents

theorem dataEntries_follows (extents : List Extent) : (opened.dataEntries extents).Follows (opened.ReadSite map) :=
  (dataPlaces_follows extents).bind fun _ => trivial

theorem shortformEntries_follows : opened.shortformEntries.Follows (opened.ReadSite map) :=
  readLiteral_follows fun _ => (ofExcept_follows _).bind fun _ => trivial

theorem logicalOffset_translated {extents : List Extent} {block offset : Nat}
    (placed : opened.logicalOffset extents block = .ok (some offset)) :
    ∃ start index, opened.ag.runByteOffset start index = .ok offset := by
  unfold logicalOffset at placed
  split at placed
  · cases placed
  · rename_i extent _
    cases translated : opened.runOffset extent.startBlock (block - extent.startOffset.toNat) 0 with
    | error error => rw [translated] at placed; cases placed
    | ok found =>
      rw [translated] at placed
      cases placed
      exact ⟨_,_,located_eq_ok.mp translated⟩

theorem candidate_follows (data : List Extent) (slot : LeafSlot) :
    (opened.candidate data slot).Follows (opened.ReadSite map) := by
  unfold candidate
  cases placed : opened.logicalOffset data (opened.blockSize.blockOf slot.byteOffset) with
  | error error => dsimp only; rw [placed]; trivial
  | ok found =>
    dsimp only
    rw [placed]
    cases found with
    | none => trivial
    | some offset =>
      obtain ⟨start,index,translated⟩ := logicalOffset_translated placed
      refine request_follows (.dataBlock translated) ?_ ?_
      · intro block error refused
        rw [examineCandidate,refusal_bind refused]
        rfl
      · intro block
        exact ofExcept_follows _

theorem probe_follows (data : List Extent) (name : Name) (slots : List LeafSlot) :
    (opened.probe data name slots).Follows (opened.ReadSite map) := by
  induction slots with
  | nil => trivial
  | cons slot slots ih =>
    refine (candidate_follows data slot).bind fun found => ?_
    split
    · trivial
    · exact ih

theorem visitAttributes_follows (extents : List Extent) (visited : List Nat) (entries : List DirectoryEntry)
    (pending : PendingAttrs) :
    (opened.visitAttributes extents visited entries pending).Follows (opened.ReadSite map) := by
  fun_induction opened.visitAttributes extents visited entries pending with
  | case1 visited extents => trivial
  | case2 visited entries block expected rest member => trivial
  | case3 visited entries block expected rest new error untranslated => trivial
  | case4 visited entries block expected rest new offset placed ihLeaf ihNode =>
    obtain ⟨start,index,translated⟩ : ∃ start index, opened.ag.runByteOffset start index = .ok offset := by
      unfold attrBlockOffset at placed
      split at placed
      · cases placed
      · cases placed
      · rename_i found mapped
        cases placed
        exact logicalOffset_translated mapped
    refine ⟨⟨_,.attrBlock expected translated,?_⟩,?_⟩
    · intro bytes error refused
      dsimp only
      rw [refusal_eq_some.mp refused]
    · intro bytes
      dsimp only
      split
      · trivial
      · exact ihLeaf _
      · exact ihNode _ _ ‹_› ‹_›

-- A traversal that walks a map first and after that reads none of its blocks.
def Walks (opened : InodeFork) (tree : BtreeKind) (traversal : Traversal α) : Prop :=
  ∃ later : ExtentMap → Traversal α, traversal = opened.walk tree >>= later ∧
    ∀ map, (later map).Follows (opened.ReadSite none)

theorem Walks.follows {tree : BtreeKind} {traversal : Traversal α} (walks : opened.Walks tree traversal) :
    traversal.Follows (opened.ReadSite (some (opened.magics tree))) := by
  obtain ⟨later,rfl,follows⟩ := walks
  exact (walk_follows tree).bind fun map => (follows map).mono fun _ _ => ReadSite.any

theorem listDirectory_walks (mapped : opened.fork.layout ≠ .shortform) :
    opened.Walks .directory opened.listDirectory :=
  ⟨_,opened.listDirectory_mapped mapped,fun _ =>
    (forExtents_follows leafBlock_follows _).bind fun _ => dataEntries_follows _⟩

theorem lookup_walks (mapped : opened.fork.layout ≠ .shortform) (name : Name) :
    opened.Walks .directory (opened.lookup name) := by
  refine ⟨_,opened.lookup_mapped mapped name,fun _ => (forExtents_follows leafBlock_follows _).bind fun _ => ?_⟩
  split
  · exact (dataEntries_follows _).bind fun _ => trivial
  · exact probe_follows _ name _

theorem listAttributes_walks (mapped : opened.fork.layout ≠ .shortform) :
    opened.Walks .directory opened.listAttributes := by
  refine ⟨_,opened.listAttributes_mapped mapped,fun _ => ?_⟩
  split
  · trivial
  · exact (visitAttributes_follows _ _ _ _).bind fun _ => trivial

end InodeFork

-- What can be asked of a volume about one inode.
inductive Operation : Type → Type where
  | walk (kind : ForkKind) (tree : BtreeKind) : Operation ExtentMap
  | extents : Operation (List Extent)
  | resolve (offset : Nat) : Operation (Option MappedOffset)
  | list : Operation (List DirectoryEntry)
  | lookup (name : Name) : Operation (Option DirectoryEntry)
  | attributes : Operation (List DirectoryEntry)

namespace Operation

def fork : Operation α → ForkKind
  | .walk kind _ => kind
  | .attributes => .attr
  | _ => .data

def traversal (volume : Volume) (inode : UInt64) : Operation α → Traversal α
  | .walk kind tree => volume.walkFork inode kind tree
  | .extents => volume.fileExtents inode
  | .resolve offset => volume.resolveFileOffset inode offset
  | .list => volume.listDirectory inode
  | .lookup name => volume.lookup inode name
  | .attributes => volume.listAttributes inode

def tree : Operation α → BtreeKind
  | .walk _ tree => tree
  | .extents | .resolve _ => .dataExtents
  | _ => .directory

-- What is left to do once the fork is known.
def ofFork (opened : InodeFork) : Operation α → Traversal α
  | .walk _ tree => opened.walk tree
  | .extents => do
    let map ← opened.walk .dataExtents
    return map.extents
  | .resolve offset => do
    let map ← opened.walk .dataExtents
    .ofExcept (mapOffset opened.ag map.extents offset)
  | .list => opened.listDirectory
  | .lookup name => opened.lookup name
  | .attributes => opened.listAttributes

theorem traversal_eq_bind (operation : Operation α) (volume : Volume) (inode : UInt64) :
    operation.traversal volume inode = Traversal.ofExcept (volume.openFork inode operation.fork) >>= operation.ofFork := by
  cases operation with
  | walk kind tree => rfl
  | extents => exact bind_assoc _ _ _
  | resolve offset =>
    rw [traversal,Volume.resolveFileOffset,Volume.fileExtents,Volume.walkFork,bind_assoc,bind_assoc]
    change _ = Traversal.ofExcept (volume.openFork inode .data) >>= _
    cases known : volume.openFork inode .data with
    | error error => rfl
    | ok opened =>
      obtain rfl := Volume.openFork_volume known
      exact congrArg (opened.walk .dataExtents >>= ·) (funext fun map => pure_bind _ _)
  | list => rfl
  | lookup name => rfl
  | attributes => rfl

theorem traversal_eq {volume : Volume} {inode : UInt64} {opened : InodeFork} (operation : Operation α)
    (known : volume.openFork inode operation.fork = .ok opened) :
    operation.traversal volume inode = operation.ofFork opened := by
  rw [traversal_eq_bind,known]
  rfl

theorem opens {volume : Volume} {inode : UInt64} {device : Device} {value : α} (operation : Operation α)
    (ran : (operation.traversal volume inode).eval device = .ok value) :
    ∃ opened, volume.openFork inode operation.fork = .ok opened := by
  rw [traversal_eq_bind] at ran
  obtain ⟨opened,known,_⟩ := Traversal.ofExcept_bind_ok ran
  exact ⟨opened,known⟩

theorem walks {opened : InodeFork} (operation : Operation α) (mapped : opened.fork.layout ≠ .shortform) :
    opened.Walks operation.tree (operation.ofFork opened) := by
  cases operation with
  | walk kind tree => exact ⟨pure,(bind_pure _).symm,fun _ => trivial⟩
  | extents => exact ⟨_,rfl,fun _ => trivial⟩
  | resolve offset => exact ⟨_,rfl,fun _ => Traversal.ofExcept_follows _⟩
  | list => exact InodeFork.listDirectory_walks mapped
  | lookup name => exact InodeFork.lookup_walks mapped name
  | attributes => exact InodeFork.listAttributes_walks mapped

-- Of a fork that has no map nothing is read but its literal area.
theorem shortform_follows {opened : InodeFork} (operation : Operation α) (layout : opened.fork.layout = .shortform) :
    (operation.ofFork opened).Follows (opened.ReadSite (some (opened.magics operation.tree))) := by
  cases operation with
  | walk kind tree => exact InodeFork.walk_follows tree
  | extents => exact (InodeFork.walk_follows .dataExtents).bind fun _ => trivial
  | resolve offset => exact (InodeFork.walk_follows .dataExtents).bind fun _ => Traversal.ofExcept_follows _
  | list =>
    rw [ofFork,opened.listDirectory_unmapped layout]
    exact InodeFork.shortformEntries_follows
  | lookup name =>
    rw [ofFork,opened.lookup_unmapped layout]
    exact InodeFork.shortformEntries_follows.bind fun _ => trivial
  | attributes =>
    rw [ofFork,opened.listAttributes_unmapped layout]
    trivial

theorem follows {volume : Volume} {inode : UInt64} {opened : InodeFork} (operation : Operation α)
    (known : volume.openFork inode operation.fork = .ok opened) :
    (operation.traversal volume inode).Follows (opened.ReadSite (some (opened.magics operation.tree))) := by
  rw [operation.traversal_eq known]
  by_cases layout : opened.fork.layout = .shortform
  · exact operation.shortform_follows layout
  · exact (operation.walks layout).follows

end Operation
end XfsReader
