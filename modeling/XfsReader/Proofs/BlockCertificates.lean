import XfsReader.Proofs.BlockHeaders
import XfsReader.Proofs.TamperEvidence

-- A run that ends well vouches for every block that it has read: each is of the fork's version by its
-- magic, sealed and owned as the options ask, and a block of the map hangs one level below the block
-- that leads to it.
namespace XfsReader

theorem Traversal.Follows.accepted {site : ReadRequest → (Bytes → Option VolumeError) → Prop}
    {traversal : Traversal α} {device : Device} {value : α} (follows : traversal.Follows site)
    (ran : traversal.eval device = .ok value) {request : ReadRequest}
    (asked : request ∈ (traversal.run device).reads) :
    ∃ refuse block, site request refuse ∧ device.answer request = .ok block ∧ refuse block = none := by
  induction traversal with
  | done result => cases asked
  | fail error => cases ran
  | warn warning next ih => exact ih follows ran asked
  | read first next ih =>
    obtain ⟨⟨refuse,known,ends⟩,later⟩ := follows
    rw [eval_read] at ran
    cases got : device.answer first with
    | error error => rw [got] at ran; cases ran
    | ok block =>
      rw [got] at ran
      replace ran : (next block).eval device = .ok value := ran
      have reads : ((Traversal.read first next).run device).reads = first :: ((next block).run device).reads := by
        simp only [run,got]
      rw [reads] at asked
      rcases List.mem_cons.mp asked with rfl | after
      · refine ⟨refuse,block,known,got,?_⟩
        cases refused : refuse block with
        | none => rfl
        | some error => rw [ends block error refused] at ran; cases ran
      · exact ih block (later block) ran after

namespace BlockRole

-- What a block may call itself where it is read in a role.
def Names (role : BlockRole) (pair : MagicPair) (version : FormatVersion) (block : Bytes) : Prop :=
  match role with
  | .mapBlock => ∃ magic, (Decoder.be32 0).run block = .ok magic ∧ pair.versionOf magic = some version
  | .leafBlock => ∃ kind ∈ [DaKind.dirLeaf1,.dirLeafN,.node], (Decoder.be16 8).run block = .ok (kind.magic version)
  | .dataBlock => ∃ form : DataForm, (Decoder.be32 0).run block = .ok (form.magic version)
  | .attrBlock => ∃ kind ∈ [DaKind.attrLeaf,.node], (Decoder.be16 8).run block = .ok (kind.magic version)

def ownerOffset : BlockRole → Nat
  | .mapBlock => 56
  | .leafBlock | .attrBlock => 48
  | .dataBlock => 40

end BlockRole

namespace InodeFork
open Traversal

variable {opened : InodeFork} {pair : MagicPair} {device : Device} {block : Bytes} {offset : Nat}

structure Certified (opened : InodeFork) (pair : MagicPair) (role : BlockRole) (block : Bytes) : Prop where
  named : role.Names pair opened.version block
  intact : opened.options.verifyChecksums = true → opened.version = .v5 → role.verify block = .ok ()
  owned : opened.options.verifyOwner = true → opened.version = .v5 →
    (Decoder.be64 role.ownerOffset).run block = .ok opened.inode

theorem Certified.of_checks {role : BlockRole} {cause : UInt64 → UInt64 → Cause} {owner : Option UInt64}
    (named : role.Names pair opened.version block) (intact : opened.checkSeal role offset block = .ok ())
    (known : OwnerAt opened.version role.ownerOffset block owner)
    (owned : opened.checkOwner cause offset owner = .ok ()) : opened.Certified pair role block := by
  refine ⟨named,checkSeal_eq_ok.mp intact,?_⟩
  intro checks version
  cases owner with
  | none => rw [version] at known; cases known
  | some owner =>
    have same : owner = opened.inode := checkOwner_eq_ok.mp owned checks owner rfl
    rw [← same]
    exact known.2

theorem examineMapBlock_ok {level : Nat} {contents : MapContents level}
    (examined : opened.examineMapBlock pair level offset block = .ok contents) :
    ∃ header, (MapHeader.decode pair).run block = .ok header ∧ header.version = opened.version ∧
      header.level.toNat = level ∧ opened.Certified pair .mapBlock block ∧
      mapContents header level offset block = .ok contents := by
  obtain ⟨header,decoded,examined⟩ := bind_eq_ok.mp examined
  obtain ⟨_,agreed,examined⟩ := bind_eq_ok.mp examined
  obtain ⟨_,intact,examined⟩ := bind_eq_ok.mp examined
  replace decoded := located_eq_ok.mp decoded
  have version := checkMapVersion_eq_ok.mp agreed
  split at examined
  · rename_i levelled
    obtain ⟨_,owned,examined⟩ := bind_eq_ok.mp examined
    obtain ⟨named,known⟩ := MapHeader.decode_fields decoded
    rw [version] at named known
    exact ⟨header,decoded,version,levelled,.of_checks named intact known owned,examined⟩
  · cases examined

theorem examineLeafBlock_certified {contents : LeafContents}
    (examined : opened.examineLeafBlock offset block = .ok contents) : opened.Certified pair .leafBlock block := by
  obtain ⟨header,decoded,examined⟩ := bind_eq_ok.mp examined
  obtain ⟨_,intact,examined⟩ := bind_eq_ok.mp examined
  obtain ⟨_,owned,examined⟩ := bind_eq_ok.mp examined
  obtain ⟨magic,known⟩ := DaHeader.decode_fields (located_eq_ok.mp decoded)
  refine .of_checks ⟨header.kind,?_,magic⟩ intact known owned
  cases kind : header.kind with
  | attrLeaf => rw [kind] at examined; cases examined
  | _ => decide

theorem examineDataHeader_certified {header : DataHeader}
    (examined : opened.examineDataHeader offset block = .ok header) : opened.Certified pair .dataBlock block := by
  obtain ⟨found,decoded,examined⟩ := bind_eq_ok.mp examined
  obtain ⟨_,intact,examined⟩ := bind_eq_ok.mp examined
  obtain ⟨_,owned,_⟩ := bind_eq_ok.mp examined
  obtain ⟨magic,known⟩ := DataHeader.decode_fields (located_eq_ok.mp decoded)
  exact .of_checks ⟨found.form,magic⟩ intact known owned

theorem examineAttrBlock_certified {expected : Option Nat} {contents : AttrContents expected}
    (examined : opened.examineAttrBlock expected offset block = .ok contents) :
    opened.Certified pair .attrBlock block := by
  obtain ⟨header,decoded,examined⟩ := bind_eq_ok.mp examined
  obtain ⟨_,intact,examined⟩ := bind_eq_ok.mp examined
  obtain ⟨_,owned,examined⟩ := bind_eq_ok.mp examined
  obtain ⟨magic,known⟩ := DaHeader.decode_fields (located_eq_ok.mp decoded)
  refine .of_checks ⟨header.kind,?_,magic⟩ intact known owned
  cases kind : header.kind with
  | dirLeaf1 => rw [kind] at examined; cases examined
  | dirLeafN => rw [kind] at examined; cases examined
  | _ => decide

theorem ReadSite.certified {request : ReadRequest} {refuse : Bytes → Option VolumeError}
    (site : opened.ReadSite (some pair) request refuse) (accepted : refuse block = none) {role : BlockRole}
    (known : request.role = some role) : opened.Certified pair role block := by
  cases site with
  | literal => cases known
  | mapBlock level given translated =>
    cases known
    cases given
    obtain ⟨contents,examined⟩ := refusal_eq_none.mp accepted
    obtain ⟨_,_,_,_,certified,_⟩ := examineMapBlock_ok examined
    exact certified
  | leafBlock translated =>
    cases known
    obtain ⟨contents,examined⟩ := refusal_eq_none.mp accepted
    exact examineLeafBlock_certified examined
  | dataBlock translated =>
    cases known
    obtain ⟨header,examined⟩ := refusal_eq_none.mp accepted
    exact examineDataHeader_certified examined
  | attrBlock expected translated =>
    cases known
    obtain ⟨contents,examined⟩ := refusal_eq_none.mp accepted
    exact examineAttrBlock_certified examined

-- A block of a map with its offset and its header: the root, or one whose parent has a pointer to it
-- and stands one level above it.
inductive Hangs (opened : InodeFork) (pair : MagicPair) (device : Device) : Nat → MapHeader → Bytes → Prop
  | root {header literal} (read : device.read opened.position opened.fork.size.toNat = .ok literal)
      (decoded : (MapHeader.decode pair).run literal = .ok header) :
      Hangs opened pair device opened.position header literal
  | child {place parent above header block pointers pointer offset}
      (hung : Hangs opened pair device place parent above)
      (led : parent.childPointers above = .ok pointers) (among : pointer ∈ pointers)
      (translated : opened.ag.byteOffset pointer = .ok offset)
      (read : device.read offset opened.blockSize.bytes = .ok block)
      (decoded : (MapHeader.decode pair).run block = .ok header)
      (below : header.level.toNat + 1 = parent.level.toNat) : Hangs opened pair device offset header block

-- Some block of the map has the pointer and is one level above what it must lead to.
def Leads (opened : InodeFork) (pair : MagicPair) (device : Device) (pointer : UInt64) (level : Nat) : Prop :=
  ∃ place parent above pointers, opened.Hangs pair device place parent above ∧
    parent.childPointers above = .ok pointers ∧ pointer ∈ pointers ∧ level + 1 = parent.level.toNat

theorem mapContents_pointers {header : MapHeader} {level : Nat} {pointers : List UInt64}
    {few : pointers.length < 65536} {interior : 0 < level}
    (contents : mapContents header level offset block = .ok (.children pointers few interior)) :
    header.childPointers block = .ok pointers := by
  unfold mapContents at contents
  split at contents
  · cases extents : located offset (header.leafExtents block) with
    | error error => rw [extents] at contents; cases contents
    | ok found => rw [extents] at contents; cases contents
  · split at contents
    · cases contents
    · rename_i found read
      split at contents
      · cases contents
      · cases contents
        exact read

theorem Hangs.leads {place : Nat} {header : MapHeader} {level : Nat} {pointers : List UInt64}
    (hung : opened.Hangs pair device place header block) (levelled : header.level.toNat = level)
    {few : pointers.length < 65536} {interior : 0 < level}
    (contents : mapContents header level offset block = .ok (.children pointers few interior)) :
    ∀ pointer ∈ pointers, opened.Leads pair device pointer (level - 1) :=
  fun pointer among => ⟨place,header,block,pointers,hung,mapContents_pointers contents,among,by omega⟩

theorem visitPending_hangs {visited : List UInt64} {extents : List Extent} {pending : PendingBlocks}
    {value : List Extent × List UInt64} (led : ∀ item ∈ pending, opened.Leads pair device item.1 item.2)
    (ran : (opened.visitPending pair visited extents pending).eval device = .ok value) :
    ∀ request ∈ ((opened.visitPending pair visited extents pending).run device).reads,
      ∃ header block, device.answer request = .ok block ∧ opened.Hangs pair device request.offset header block := by
  fun_induction opened.visitPending pair visited extents pending with
  | case1 visited extents => intro request asked; cases asked
  | case2 visited extents pointer level rest member => cases ran
  | case3 visited extents pointer level rest new error untranslated => cases ran
  | case4 visited extents pointer level rest new offset translated ihLeaf ihNode =>
    have others : ∀ item ∈ rest, opened.Leads pair device item.1 item.2 :=
      fun item member => led item (List.mem_cons_of_mem _ member)
    obtain ⟨_,_,_,_,hung,listed,among,lower⟩ := led (pointer,level) List.mem_cons_self
    intro request asked
    rw [eval_read] at ran
    cases got : device.answer ⟨some .mapBlock,offset,opened.blockSize.bytes⟩ with
    | error error => rw [got] at ran; cases ran
    | ok block =>
      rw [got] at ran
      simp only [run,got] at asked
      cases examined : opened.examineMapBlock pair level offset block with
      | error error => simp only [Except.bind,examined] at ran; cases ran
      | ok contents =>
        obtain ⟨header,decoded,_,levelled,_,contained⟩ := examineMapBlock_ok examined
        have hangs : opened.Hangs pair device offset header block :=
          .child hung listed among translated got decoded (by omega)
        simp only [Except.bind,examined] at ran asked
        rcases List.mem_cons.mp asked with rfl | after
        · exact ⟨header,block,got,hangs⟩
        · cases contents with
          | extents found => exact ihLeaf found others ran request after
          | children pointers few interior =>
            refine ihNode pointers few interior ?_ ran request after
            intro item member
            rw [pushReversed_eq] at member
            rcases List.mem_append.mp member with child | old
            · obtain ⟨pointer,among,rfl⟩ := List.mem_map.mp child
              exact hangs.leads levelled contained pointer among
            · exact others item old

theorem walkTree_hangs {literal : Bytes} {map : ExtentMap}
    (read : device.read opened.position opened.fork.size.toNat = .ok literal)
    (ran : (opened.walkTree pair literal).eval device = .ok map) :
    ∀ request ∈ ((opened.walkTree pair literal).run device).reads,
      ∃ header block, device.answer request = .ok block ∧ opened.Hangs pair device request.offset header block := by
  unfold walkTree at ran ⊢
  obtain ⟨root,decoded,same⟩ := ofExcept_bind_ok ran
  rw [same] at ran ⊢
  obtain ⟨_,_,same⟩ := ofExcept_bind_ok ran
  rw [same] at ran ⊢
  have hung : opened.Hangs pair device opened.position root literal := .root read (located_eq_ok.mp decoded)
  split at ran
  · cases ran
  · rename_i shallow
    rw [if_neg shallow]
    obtain ⟨contents,contained,same⟩ := ofExcept_bind_ok ran
    rw [same] at ran ⊢
    cases contents with
    | extents found => intro request asked; cases asked
    | children pointers few interior =>
      intro request asked
      obtain ⟨found,visited,_,asked⟩ := asked_bind ran asked
      rcases asked with asked | asked
      · refine visitPending_hangs ?_ visited request asked
        intro item member
        rw [pushReversed_eq,List.append_nil] at member
        obtain ⟨pointer,among,rfl⟩ := List.mem_map.mp member
        exact hung.leads rfl contained pointer among
      · cases asked

-- The blocks that a walk reads are the literal area and blocks that hang from the root in it.
theorem walk_hangs {tree : BtreeKind} {map : ExtentMap} (ran : (opened.walk tree).eval device = .ok map)
    {request : ReadRequest} (asked : request ∈ ((opened.walk tree).run device).reads)
    (block : request.role ≠ none) :
    ∃ header block, device.answer request = .ok block ∧
      opened.Hangs (opened.magics tree) device request.offset header block := by
  obtain ⟨literal,read,ran,asked⟩ := asked_bind ran asked
  rw [readLiteral,eval_request] at read
  rcases asked with asked | asked
  · rw [asked_request asked] at block
    exact absurd rfl block
  · obtain ⟨found,mapped,ran,asked⟩ := asked_bind ran asked
    rcases asked with asked | asked
    · cases layout : opened.fork.layout with
      | shortform => rw [readMap,layout] at mapped; cases mapped
      | extents count =>
        rw [readMap,layout] at mapped asked
        dsimp only at mapped asked
        obtain ⟨_,_,same⟩ := ofExcept_bind_ok mapped
        rw [same] at asked
        cases asked
      | btree =>
        rw [readMap,layout] at mapped asked
        exact walkTree_hangs read mapped request asked
    · obtain ⟨_,_,same⟩ := ofExcept_bind_ok ran
      rw [same] at asked
      cases asked

end InodeFork

-- Whatever has been asked of a volume, an answer rests on no block that fails a check.
theorem successful_reads_certified {volume : Volume} {inode : UInt64} {opened : InodeFork} {device : Device}
    {value : α} (operation : Operation α) (known : volume.openFork inode operation.fork = .ok opened)
    (mapped : opened.fork.layout ≠ .shortform)
    (ran : (operation.traversal volume inode).eval device = .ok value) :
    ∀ request ∈ ((operation.traversal volume inode).run device).reads,
      request = ⟨none,opened.position,opened.fork.size.toNat⟩ ∨
        ∃ role block, request.role = some role ∧ request.length = opened.blockSize.bytes ∧
          device.answer request = .ok block ∧ opened.Certified (opened.magics operation.tree) role block ∧
          (role = .mapBlock →
            ∃ header, opened.Hangs (opened.magics operation.tree) device request.offset header block) := by
  intro request asked
  obtain ⟨refuse,block,site,answered,accepted⟩ := (operation.follows known).accepted ran asked
  cases known_role : request.role with
  | none =>
    left
    cases site with
    | literal => rfl
    | mapBlock level given translated => cases known_role
    | leafBlock translated => cases known_role
    | dataBlock translated => cases known_role
    | attrBlock expected translated => cases known_role
  | some role =>
    refine .inr ⟨role,block,rfl,(site.block known_role).2,answered,site.certified accepted known_role,?_⟩
    rintro rfl
    -- Map blocks are read by the walk alone, which comes first.
    obtain ⟨later,same,follows⟩ := operation.walks mapped
    rw [operation.traversal_eq known,same] at ran asked
    obtain ⟨map,walked,_,asked⟩ := Traversal.asked_bind ran asked
    rcases asked with asked | asked
    · obtain ⟨header,again,read,hangs⟩ := InodeFork.walk_hangs walked asked (by rw [known_role]; exact nofun)
      obtain rfl : again = block := Except.ok.inj (read.symm.trans answered)
      exact ⟨header,hangs⟩
    · obtain ⟨_,elsewhere⟩ := (follows map).reads device asked
      cases elsewhere with
      | literal => cases known_role
      | mapBlock level given translated => cases given
      | leafBlock translated => cases known_role
      | dataBlock translated => cases known_role
      | attrBlock expected translated => cases known_role

theorem successful_reads_certified_sealed :
    let listing := Operation.list.traversal sealedFork.volume 5
    sealedFork.volume.openFork 5 .data = .ok sealedFork ∧ sealedFork.fork.layout ≠ .shortform ∧
      listing.eval (sealedDirectory 5) = .ok [sealedEntry] ∧
      ∀ request ∈ (listing.run (sealedDirectory 5)).reads,
        request = ⟨none,0,16⟩ ∨
          ∃ role block, request.role = some role ∧ request.length = 512 ∧
            (sealedDirectory 5).answer request = .ok block ∧
            sealedFork.Certified (sealedFork.magics .directory) role block ∧
            (role = .mapBlock →
              ∃ header, sealedFork.Hangs (sealedFork.magics .directory) (sealedDirectory 5) request.offset
                header block) := by
  intro listing
  have mapped : sealedFork.fork.layout ≠ .shortform := by decide
  exact ⟨rfl,mapped,listDirectory_sealed,successful_reads_certified .list rfl mapped listDirectory_sealed⟩

end XfsReader
