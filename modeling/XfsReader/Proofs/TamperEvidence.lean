import XfsReader.Proofs.BlockHeaders
import XfsReader.Proofs.ReadSites
import XfsReader.Proofs.Seals

-- A sealed block that is changed is found out. Whatever is done to a block but for its magic, once
-- its checksum no longer fits, the traversal that read it ends at that block with a checksum error.
namespace XfsReader

namespace BlockRole

def magicOffset : BlockRole → Nat
  | .mapBlock | .dataBlock => 0
  | .leafBlock | .attrBlock => 8

def magicWidth : BlockRole → Nat
  | .mapBlock | .dataBlock => 4
  | .leafBlock | .attrBlock => 2

theorem verify_cases (role : BlockRole) {block : Bytes} (long : 512 ≤ block.size) :
    role.verify block = .ok () ∨
      ∃ stored computed, role.verify block = .error (.checksumMismatch role.subject stored computed) := by
  have inside : role.checksumOffset + Checksum.width ≤ 512 := by cases role <;> decide
  rw [verify,Checksum.verify_eq _ (Nat.le_trans inside long) (Nat.lt_of_le_of_lt inside (by decide))]
  split
  · exact .inl rfl
  · exact .inr ⟨_,_,rfl⟩

end BlockRole

-- Two devices of one size that differ in one block alone. The later one has the block's magic as it
-- was, but a checksum that does not fit.
structure Tampered (unit : BlockSize) (role : BlockRole) (offset : Nat) (before after : Device) : Prop where
  size : after.size = before.size
  elsewhere : ∀ position < before.size, position < offset ∨ offset + unit.bytes ≤ position →
    after.byte position = before.byte position
  magic : ∀ index < role.magicWidth,
    after.byte (offset + role.magicOffset + index) = before.byte (offset + role.magicOffset + index)
  broken : role.verify (after.region offset unit.bytes) ≠ .ok ()

def firstRole (reads : List ReadRequest) (offset : Nat) : Option BlockRole :=
  reads.findSome? fun request => if request.offset = offset then request.role else none

namespace InodeFork

variable {opened : InodeFork} {map : Option MagicPair} {request : ReadRequest} {refuse : Bytes → Option VolumeError}

theorem checkSeal_broken {role : BlockRole} {block : Bytes} (offset : Nat)
    (checks : opened.options.verifyChecksums = true) (version : opened.version = .v5) (long : 512 ≤ block.size)
    (broken : role.verify block ≠ .ok ()) :
    ∃ stored computed, opened.checkSeal role offset block =
      .error (.checksumMismatch offset (.decode (.checksumMismatch role.subject stored computed))) := by
  obtain ⟨stored,computed,failed⟩ := (role.verify_cases long).resolve_left broken
  exact ⟨stored,computed,checkSeal_eq_error.mpr ⟨checks,version,_,failed,rfl⟩⟩

theorem seal_after_header {decoder : Decoder α} {role : BlockRole} {block : Bytes} {offset : Nat} {header : α}
    {later : α → Except VolumeError β} {error : VolumeError} (decoded : decoder.run block = .ok header)
    (failed : opened.checkSeal role offset block = .error error) :
    (located offset (decoder.run block) >>= fun header => opened.checkSeal role offset block >>= fun _ => later header) =
      .error error := by
  rw [decoded]
  change (opened.checkSeal role offset block >>= _) = _
  rw [failed]
  rfl

-- At every site the checksum is judged right after the magic, and before anything else.
theorem ReadSite.refuses_broken (site : opened.ReadSite map request refuse) {role : BlockRole}
    (known : request.role = some role) (checks : opened.options.verifyChecksums = true)
    (version : opened.version = .v5) {one other : Bytes} (accepted : refuse one = none) (long : 512 ≤ other.size)
    (magic : Bytes.part other role.magicOffset role.magicWidth = Bytes.part one role.magicOffset role.magicWidth)
    (broken : role.verify other ≠ .ok ()) :
    ∃ stored computed, refuse other =
      some (.checksumMismatch request.offset (.decode (.checksumMismatch role.subject stored computed))) := by
  obtain ⟨stored,computed,failed⟩ := checkSeal_broken request.offset checks version long broken
  refine ⟨stored,computed,?_⟩
  cases site with
  | literal => cases known
  | mapBlock level given translated =>
    cases known
    obtain ⟨contents,examined⟩ := refusal_eq_none.mp accepted
    obtain ⟨header,decoded,examined⟩ := bind_eq_ok.mp examined
    obtain ⟨_,agreed,_⟩ := bind_eq_ok.mp examined
    obtain ⟨again,ran,same⟩ := MapHeader.decode_magic (located_eq_ok.mp decoded) magic (by omega)
    have agrees : ∀ place, opened.checkMapVersion again place = .ok () :=
      fun place => checkMapVersion_eq_ok.mpr (same.trans (checkMapVersion_eq_ok.mp agreed))
    refine refusal_eq_some.mpr ?_
    rw [examineMapBlock,ran]
    change (opened.checkMapVersion again _ >>= fun _ => opened.checkSeal .mapBlock _ other >>= _) = _
    rw [agrees]
    change (opened.checkSeal .mapBlock _ other >>= _) = _
    rw [failed]
    rfl
  | leafBlock translated =>
    cases known
    obtain ⟨contents,examined⟩ := refusal_eq_none.mp accepted
    obtain ⟨header,decoded,_⟩ := bind_eq_ok.mp examined
    obtain ⟨again,ran⟩ := DaHeader.decode_magic (located_eq_ok.mp decoded) magic (by omega)
    exact refusal_eq_some.mpr (seal_after_header ran failed)
  | dataBlock translated =>
    cases known
    obtain ⟨contents,examined⟩ := refusal_eq_none.mp accepted
    obtain ⟨header,decoded,_⟩ := bind_eq_ok.mp examined
    obtain ⟨again,ran⟩ := DataHeader.decode_magic (located_eq_ok.mp decoded) magic (by omega)
    exact refusal_eq_some.mpr (seal_after_header ran failed)
  | attrBlock expected translated =>
    cases known
    obtain ⟨contents,examined⟩ := refusal_eq_none.mp accepted
    obtain ⟨header,decoded,_⟩ := bind_eq_ok.mp examined
    obtain ⟨again,ran⟩ := DaHeader.decode_magic (located_eq_ok.mp decoded) magic (by omega)
    exact refusal_eq_some.mpr (seal_after_header ran failed)

-- A read of anything but the block is answered as before. Blocks stand at multiples of their size,
-- so that two of them are the same or apart.
theorem ReadSite.answer_elsewhere (site : opened.ReadSite map request refuse) {role : BlockRole} {offset : Nat}
    {before after : Device} (tampered : Tampered opened.blockSize role offset before after)
    (aligned : opened.blockSize.bytes ∣ offset)
    (outside : ∀ position, opened.position ≤ position → position < opened.position + opened.fork.size.toNat →
      position < offset ∨ offset + opened.blockSize.bytes ≤ position)
    (different : request.offset = offset → request.role = none) :
    after.answer request = before.answer request := by
  refine Device.read_congr tampered.size fun position low high inside => tampered.elsewhere position inside ?_
  cases known : request.role with
  | none =>
    cases site with
    | literal => exact outside position low high
    | mapBlock level given translated => cases known
    | leafBlock translated => cases known
    | dataBlock translated => cases known
    | attrBlock expected translated => cases known
  | some read =>
    obtain ⟨whole,length⟩ := site.block known
    have unlike : request.offset ≠ offset := fun same => by rw [different same] at known; cases known
    obtain ⟨row,there⟩ := whole
    obtain ⟨column,here⟩ := aligned
    rw [length] at high
    rcases Nat.lt_or_gt_of_ne fun same : row = column => unlike (by rw [there,here,same]) with earlier | later
    · have apart := Nat.mul_le_mul_left opened.blockSize.bytes (Nat.succ_le_of_lt earlier)
      rw [Nat.mul_succ,← there,← here] at apart
      omega
    · have apart := Nat.mul_le_mul_left opened.blockSize.bytes (Nat.succ_le_of_lt later)
      rw [Nat.mul_succ,← there,← here] at apart
      omega

theorem ReadSite.refuses_tampered (site : opened.ReadSite map request refuse) {role : BlockRole}
    (known : request.role = some role) (checks : opened.options.verifyChecksums = true)
    (version : opened.version = .v5) {before after : Device} {found : Bytes}
    (tampered : Tampered opened.blockSize role request.offset before after)
    (got : before.answer request = .ok found) (accepted : refuse found = none) :
    ∃ again stored computed, after.answer request = .ok again ∧
      refuse again =
        some (.checksumMismatch request.offset (.decode (.checksumMismatch role.subject stored computed))) := by
  obtain ⟨_,length⟩ := site.block known
  obtain ⟨fits,inside,rfl⟩ := Device.read_eq_ok.mp got
  have reread : after.answer request = .ok (after.region request.offset request.length) :=
    Device.read_eq_ok.mpr ⟨fits,by rw [tampered.size]; exact inside,rfl⟩
  have wide : 512 ≤ request.length := by rw [length]; exact opened.blockSize.bytes_ge
  have narrow : role.magicOffset + role.magicWidth ≤ request.length := by
    have short : role.magicOffset + role.magicWidth ≤ 512 := by cases role <;> decide
    omega
  have magic := Device.region_congr tampered.magic
  rw [← Device.part_region narrow,← Device.part_region narrow] at magic
  have broken := tampered.broken
  rw [← length] at broken
  obtain ⟨stored,computed,refused⟩ :=
    site.refuses_broken known checks version accepted (by rw [Device.size_region]; exact wide) magic broken
  exact ⟨_,stored,computed,reread,refused⟩

end InodeFork

theorem firstRole_cons {request : ReadRequest} {reads : List ReadRequest} {offset : Nat} {role : BlockRole}
    (first : firstRole (request :: reads) offset = some role) :
    (request.offset = offset ∧ request.role = some role) ∨
      ((request.offset = offset → request.role = none) ∧ firstRole reads offset = some role) := by
  rw [firstRole,List.findSome?_cons] at first
  by_cases same : request.offset = offset
  · rw [if_pos same] at first
    cases known : request.role with
    | none => rw [known] at first; exact .inr ⟨fun _ => rfl,first⟩
    | some read => rw [known] at first; exact .inl ⟨same,first⟩
  · rw [if_neg same] at first
    exact .inr ⟨fun absurd => (same absurd).elim,first⟩

theorem firstRole_asked {reads : List ReadRequest} {offset : Nat} {role : BlockRole}
    (first : firstRole reads offset = some role) :
    ∃ request ∈ reads, request.offset = offset ∧ request.role = some role := by
  induction reads with
  | nil => cases first
  | cons request reads ih =>
    rcases firstRole_cons first with ⟨same,known⟩ | ⟨_,later⟩
    · exact ⟨request,List.mem_cons_self,same,known⟩
    · obtain ⟨other,asked,found⟩ := ih later
      exact ⟨other,List.mem_cons_of_mem request asked,found⟩

-- Up to the first read of the block both runs are one. There the later one ends.
theorem Traversal.Follows.rejects {opened : InodeFork} {map : Option MagicPair} {role : BlockRole} {offset : Nat} {before after : Device}
    {traversal : Traversal α} {value : α} (follows : traversal.Follows (opened.ReadSite map))
    (checks : opened.options.verifyChecksums = true) (version : opened.version = .v5)
    (tampered : Tampered opened.blockSize role offset before after) (aligned : opened.blockSize.bytes ∣ offset)
    (outside : ∀ position, opened.position ≤ position → position < opened.position + opened.fork.size.toNat →
      position < offset ∨ offset + opened.blockSize.bytes ≤ position)
    (ran : traversal.eval before = .ok value) (first : firstRole (traversal.run before).reads offset = some role) :
    ∃ stored computed, traversal.eval after =
      .error (.checksumMismatch offset (.decode (.checksumMismatch role.subject stored computed))) := by
  induction traversal with
  | done result => cases first
  | fail error => cases ran
  | warn warning next ih => exact ih follows ran first
  | read request next ih =>
    obtain ⟨⟨refuse,site,ends⟩,later⟩ := follows
    rw [eval_read] at ran ⊢
    cases got : before.answer request with
    | error error => rw [got] at ran; cases ran
    | ok found =>
      rw [got] at ran
      replace ran : (next found).eval before = .ok value := ran
      have reads : ((Traversal.read request next).run before).reads = request :: ((next found).run before).reads := by
        simp only [run,got]
      rw [reads] at first
      rcases firstRole_cons first with ⟨rfl,known⟩ | ⟨different,others⟩
      · have accepted : refuse found = none := by
          cases refused : refuse found with
          | none => rfl
          | some error => rw [ends found error refused] at ran; cases ran
        obtain ⟨again,stored,computed,reread,refused⟩ :=
          site.refuses_tampered known checks version tampered got accepted
        refine ⟨stored,computed,?_⟩
        rw [reread]
        change (next again).eval after = _
        rw [ends again _ refused]
        rfl
      · rw [site.answer_elsewhere tampered aligned outside different,got]
        exact ih found (later found) ran others

-- A tampered block never passes, nor is it blamed for anything but its checksum.
theorem tampered_block_rejected {volume : Volume} {inode : UInt64} {opened : InodeFork} {operation : Operation α}
    {role : BlockRole} {offset : Nat} {before after : Device} {value : α}
    (known : volume.openFork inode operation.fork = .ok opened)
    (checks : volume.options.verifyChecksums = true) (version : opened.version = .v5)
    (ran : (operation.traversal volume inode).eval before = .ok value)
    (first : firstRole ((operation.traversal volume inode).run before).reads offset = some role)
    (outside : ∀ position, opened.position ≤ position → position < opened.position + opened.fork.size.toNat →
      position < offset ∨ offset + opened.blockSize.bytes ≤ position)
    (tampered : Tampered opened.blockSize role offset before after) :
    ∃ stored computed, (operation.traversal volume inode).eval after =
      .error (.checksumMismatch offset (.decode (.checksumMismatch role.subject stored computed))) := by
  have follows := operation.follows known
  obtain ⟨request,asked,rfl,block⟩ := firstRole_asked first
  obtain ⟨refuse,site⟩ := follows.reads before asked
  have kept : opened.options.verifyChecksums = true := by
    rw [InodeFork.options,Volume.openFork_volume known]
    exact checks
  exact follows.rejects kept version tampered (site.block block).1 outside ran first

-- A directory of one sealed block with one entry. The seal fits where the owner is inode 5.
def sealedDirectory (owner : UInt8) : Device :=
  .ofStretches 1024
    [(0,Extent.encode ⟨0,1,1,.normal⟩),(512,[0x58,0x44,0x44,0x33,0xB2,0x49,0x6E,0xFD]),(559,[owner]),
      (576,[0,0,0,0,0,0,0,11,1,0x61,0,0,0,0,0,64,0xFF,0xFF,0x01,0xB0])]

def sealedEntry : DirectoryEntry := ⟨[0x61],11,64,16,some .unknown⟩

def sealedFork : InodeFork where
  volume :=
    { geometry := .ofSizes 512 100 10
      ag := ⟨.smallest,100,10⟩
      forks := ForkTable.empty.insert 5 .data ⟨0,16,.extents 1,.v5⟩
      options := .standard }
  inode := 5
  fork := ⟨0,16,.extents 1,.v5⟩

def sealedExtent : Extent := ⟨0,1,1,.normal⟩

theorem verify_sealedDirectory :
    BlockRole.dataBlock.verify ((sealedDirectory 5).region 512 512) = .ok () ∧
      BlockRole.dataBlock.verify ((sealedDirectory 6).region 512 512) ≠ .ok () := by
  simp only [BlockRole.verify,Checksum.verify,Checksum.ofBlock,crc32c,crc32cAppend_number]
  refine ⟨eq_ok_of_toOption (by decide +kernel),?_⟩
  intro same
  have finished := congrArg Except.toOption same
  revert finished
  decide +kernel

theorem dataBlock_sealed :
    (sealedFork.dataBlock sealedExtent 0).eval (sealedDirectory 5) = .ok [⟨64,sealedEntry⟩] := by
  have translated : sealedFork.runOffset 1 0 sealedFork.position = .ok 512 := eq_ok_of_toOption (by decide)
  have read : (sealedFork.readBlock .dataBlock 512).eval (sealedDirectory 5) =
      .ok ((sealedDirectory 5).region 512 512) := Traversal.eval_request _ _ _ _
  have sealed : sealedFork.checkSeal .dataBlock 512 ((sealedDirectory 5).region 512 512) = .ok () := by
    rw [InodeFork.checkSeal,verify_sealedDirectory.1]
    rfl
  have examined : sealedFork.examineDataBlock 512 ((sealedDirectory 5).region 512 512) = .ok [⟨64,sealedEntry⟩] := by
    unfold InodeFork.examineDataBlock InodeFork.examineDataHeader
    rw [sealed]
    exact eq_ok_of_toOption (by decide +kernel)
  unfold InodeFork.dataBlock
  refine Traversal.eval_bind_eq_ok.mpr ⟨512,(Traversal.eval_ofExcept _ _).trans translated,?_⟩
  refine Traversal.eval_bind_eq_ok.mpr ⟨_,read,?_⟩
  exact Traversal.eval_bind_eq_ok.mpr ⟨_,(Traversal.eval_ofExcept _ _).trans examined,rfl⟩

theorem listDirectory_sealed :
    (sealedFork.volume.listDirectory 5).eval (sealedDirectory 5) = .ok [sealedEntry] := by
  have walked : (sealedFork.walk .directory).eval (sealedDirectory 5) = .ok ⟨[sealedExtent],.inline,0⟩ :=
    eq_ok_of_toOption (by decide +kernel)
  have split : Segments.split sealedFork.blockSize [sealedExtent] = ⟨[sealedExtent],[],[]⟩ := by decide
  have indexed : OffsetIndex.build sealedFork.blockSize [sealedExtent] = .ok ⟨#[⟨0,512,sealedExtent⟩]⟩ :=
    eq_ok_of_toOption (by decide)
  have placed : (sealedFork.dataPlaces [sealedExtent]).eval (sealedDirectory 5) = .ok [⟨64,sealedEntry⟩] := by
    rw [InodeFork.dataPlaces_byExtent,indexed]
    refine Traversal.eval_bind_eq_ok.mpr ⟨_,rfl,?_⟩
    refine Traversal.eval_bind_eq_ok.mpr ⟨[⟨64,sealedEntry⟩],?_,rfl⟩
    exact Traversal.eval_bind_eq_ok.mpr ⟨_,dataBlock_sealed,rfl⟩
  refine Traversal.eval_bind_eq_ok.mpr ⟨sealedFork,rfl,?_⟩
  refine Traversal.eval_bind_eq_ok.mpr ⟨_,walked,?_⟩
  dsimp only
  rw [split]
  refine Traversal.eval_bind_eq_ok.mpr ⟨[],rfl,?_⟩
  exact Traversal.eval_bind_eq_ok.mpr ⟨_,placed,rfl⟩

-- Another owner alone breaks the seal, and the seal is what is reported.
theorem tampered_block_rejected_owner :
    let listing := Operation.list.traversal sealedFork.volume 5
    sealedFork.volume.openFork 5 .data = .ok sealedFork ∧ sealedFork.volume.options.verifyChecksums = true ∧
      sealedFork.version = .v5 ∧ listing.eval (sealedDirectory 5) = .ok [sealedEntry] ∧
      firstRole (listing.run (sealedDirectory 5)).reads 512 = some .dataBlock ∧
      (∀ position, sealedFork.position ≤ position → position < sealedFork.position + sealedFork.fork.size.toNat →
        position < 512 ∨ 512 + sealedFork.blockSize.bytes ≤ position) ∧
      Tampered sealedFork.blockSize .dataBlock 512 (sealedDirectory 5) (sealedDirectory 6) ∧
      ∃ stored computed, listing.eval (sealedDirectory 6) =
        .error (.checksumMismatch 512 (.decode (.checksumMismatch BlockRole.dataBlock.subject stored computed))) := by
  intro listing
  have known : sealedFork.volume.openFork 5 (Operation.fork .list) = .ok sealedFork := rfl
  have first : firstRole (listing.run (sealedDirectory 5)).reads 512 = some .dataBlock := by
    decide +kernel
  have outside : ∀ position, sealedFork.position ≤ position →
      position < sealedFork.position + sealedFork.fork.size.toNat →
      position < 512 ∨ 512 + sealedFork.blockSize.bytes ≤ position :=
    fun position _ high => .inl (Nat.lt_of_lt_of_le high (by decide))
  have tampered : Tampered sealedFork.blockSize .dataBlock 512 (sealedDirectory 5) (sealedDirectory 6) := by
    refine ⟨rfl,?_,?_,verify_sealedDirectory.2⟩
    · decide +kernel
    · decide +kernel
  exact ⟨known,rfl,rfl,listDirectory_sealed,first,outside,tampered,
    tampered_block_rejected known rfl rfl listDirectory_sealed first outside tampered⟩

end XfsReader
