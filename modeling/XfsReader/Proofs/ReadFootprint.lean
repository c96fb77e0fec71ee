import XfsReader.Proofs.DirectorySegments

-- A directory is listed and searched by its literal area, its map blocks and the blocks of extents
-- that start below the free index. No other byte of the device has a say in the answer, nor in what
-- is read or warned of on the way.
namespace XfsReader

-- The bytes of a region that are on the device.
def Device.AgreeOn (one other : Device) (offset length : Nat) : Prop :=
  ∀ position < one.size, offset ≤ position → position < offset + length → other.byte position = one.byte position

theorem Device.AgreeOn.answer {one other : Device} {request : ReadRequest} (size : other.size = one.size)
    (agree : one.AgreeOn other request.offset request.length) : other.answer request = one.answer request :=
  Device.read_congr size fun position low high inside => agree position inside low high

-- A run depends on the device by the answers to what it asks.
theorem Traversal.run_congr {one other : Device} {traversal : Traversal α}
    (same : ∀ request ∈ (traversal.run one).reads, other.answer request = one.answer request) :
    traversal.run other = traversal.run one := by
  induction traversal with
  | done value => rfl
  | fail error => rfl
  | warn warning next ih =>
    have rest := ih same
    simp only [run,rest]
  | read request next ih =>
    rw [run] at same ⊢
    cases got : one.answer request with
    | error error =>
      rw [got] at same
      rw [same request List.mem_cons_self,got,run,got]
    | ok found =>
      rw [got] at same
      have rest := ih found fun asked member => same asked (List.mem_cons_of_mem request member)
      rw [same request List.mem_cons_self,got,run,got]
      simp only [rest]

namespace InodeFork

variable {opened : InodeFork} {one other : Device}

-- Where two devices have to agree for a directory. Its map is the one that is walked on the first of
-- them; of the map blocks and the extents nothing is known before.
structure AgreeOnDirectory (opened : InodeFork) (one other : Device) : Prop where
  size : other.size = one.size
  literal : one.AgreeOn other opened.position opened.fork.size.toNat
  mapBlocks : ∀ request ∈ ((opened.walk .directory).run one).reads, request.role = some .mapBlock →
    one.AgreeOn other request.offset request.length
  blocks : ∀ map, (opened.walk .directory).eval one = .ok map →
    ∀ extent ∈ map.extents, extent.startOffset.toNat * opened.blockSize.bytes < freeSegmentStart →
      ∀ index < extent.blockCount.toNat, ∀ offset, opened.ag.runByteOffset extent.startBlock index = .ok offset →
        one.AgreeOn other offset opened.blockSize.bytes

theorem SegmentRead.extent {extents : List Extent} {request : ReadRequest} (read : opened.SegmentRead extents request) :
    ∃ extent ∈ extents, extent.startOffset.toNat * opened.blockSize.bytes < freeSegmentStart ∧
      ∃ index < extent.blockCount.toNat, opened.ag.runByteOffset extent.startBlock index = .ok request.offset ∧
        request.length = opened.blockSize.bytes := by
  have wider : leafSegmentStart ≤ freeSegmentStart := by decide
  rcases read with ⟨member,inside,translated⟩ | ⟨member,inside,translated⟩
  · obtain ⟨known,_,below⟩ := Segments.mem_leaf.mp member
    exact ⟨_,known,below,_,inside,translated,rfl⟩
  · obtain ⟨known,below⟩ := Segments.mem_data.mp member
    exact ⟨_,known,Nat.lt_of_lt_of_le below wider,_,inside,translated,rfl⟩

theorem AgreeOnDirectory.answer (agree : opened.AgreeOnDirectory one other) {request : ReadRequest}
    (read : opened.DirectoryRead one request) : other.answer request = one.answer request := by
  cases read with
  | literal => exact agree.literal.answer agree.size
  | mapBlock asked role => exact (agree.mapBlocks request asked role).answer agree.size
  | segment walked read =>
    obtain ⟨extent,member,below,index,inside,translated,length⟩ := read.extent
    have block := agree.blocks _ walked extent member below index inside _ translated
    rw [← length] at block
    exact block.answer agree.size

end InodeFork

theorem directory_reads_own_segments {volume : Volume} {inode : UInt64} {one other : Device}
    (agree : ∀ opened, volume.openFork inode .data = .ok opened → opened.AgreeOnDirectory one other) :
    (volume.listDirectory inode).run other = (volume.listDirectory inode).run one ∧
      ∀ name, (volume.lookup inode name).run other = (volume.lookup inode name).run one := by
  rw [Volume.listDirectory]
  unfold Volume.lookup
  cases known : volume.openFork inode .data with
  | error error => exact ⟨rfl,fun _ => rfl⟩
  | ok opened =>
    have footprint := agree opened known
    refine ⟨Traversal.run_congr fun request asked => ?_,fun name => Traversal.run_congr fun request asked => ?_⟩
    · exact footprint.answer (InodeFork.listDirectory_reads asked)
    · exact footprint.answer (InodeFork.lookup_reads asked)

-- A directory with three extents in the free index. The first has a block full of one byte, the second
-- lies outside of the device, and the third has no byte offset at all.
def indexedExtents : List Extent :=
  [⟨0,1,1,.normal⟩,⟨0x4000000,2,1,.normal⟩,⟨0x8000000,3,1,.normal⟩,⟨0x8000001,1000,1,.normal⟩,
    ⟨0x8000002,0x7FFFFFFFFFF,1,.normal⟩]

def indexedDirectory (filler : UInt8) : Device :=
  .ofStretches 2048 (
    [(0,indexedExtents.flatMap Extent.encode),
      (512,[0x58,0x44,0x32,0x44]),(528,[0,0,0,0,0,0,0,11,1,0x61,0,0,0,0,0,16]),(544,[0xFF,0xFF,0x01,0xE0]),
      (1024,LeafBlock.encode ⟨⟨0,0,.dirLeaf1,none⟩,0,[⟨0x61,2⟩]⟩)] ++
    [(1536,List.replicate 512 filler)])

def indexedFork : InodeFork where
  volume :=
    { geometry := .ofSizes 512 0xFFFFFFFF 10
      ag := ⟨.smallest,0xFFFFFFFF,10⟩
      forks := ForkTable.empty.insert 5 .data ⟨0,80,.extents 5,.v4⟩
      options := .standard }
  inode := 5
  fork := ⟨0,80,.extents 5,.v4⟩

theorem agreeOnDirectory_indexed : indexedFork.AgreeOnDirectory (indexedDirectory 0) (indexedDirectory 1) := by
  have front : ∀ position < 1536, (indexedDirectory 1).byte position = (indexedDirectory 0).byte position := by
    intro position before
    simp only [indexedDirectory,Device.ofStretches,List.findSome?_append,List.findSome?_singleton,
      Nat.not_le.mpr before,if_false]
  have asked : ((indexedFork.walk .directory).run (indexedDirectory 0)).reads = [⟨none,0,80⟩] := by decide +kernel
  have walked : (indexedFork.walk .directory).eval (indexedDirectory 0) = .ok ⟨indexedExtents,.inline,0⟩ :=
    eq_ok_of_toOption (by decide +kernel)
  have ends : ∀ extent ∈ indexedExtents, extent.startOffset.toNat * 512 < freeSegmentStart →
      (indexedFork.ag.place extent.startBlock + extent.blockCount.toNat) * 512 ≤ 1536 := by decide
  have early {offset length : Nat} (inside : offset + length ≤ 1536) :
      (indexedDirectory 0).AgreeOn (indexedDirectory 1) offset length :=
    fun position _ _ high => front position (Nat.lt_of_lt_of_le high inside)
  refine ⟨rfl,early (by decide),?_,?_⟩
  · intro request member role
    rw [asked] at member
    obtain rfl := List.mem_singleton.mp member
    cases role
  · intro map found extent member below index inside offset translated
    obtain rfl := Except.ok.inj (walked.symm.trans found)
    obtain ⟨_,rfl⟩ := AgGeometry.runByteOffset_eq_ok.mp translated
    refine early ?_
    calc (indexedFork.ag.place extent.startBlock + index) * 512 + 512
        = (indexedFork.ag.place extent.startBlock + (index + 1)) * 512 := by omega
      _ ≤ (indexedFork.ag.place extent.startBlock + extent.blockCount.toNat) * 512 := by omega
      _ ≤ 1536 := ends extent member below

-- What fills the free index, and where it is said to be, makes no difference.
theorem directory_reads_own_segments_indexed :
    (indexedDirectory 1).byte 1536 ≠ (indexedDirectory 0).byte 1536 ∧
      (∀ opened, indexedFork.volume.openFork 5 .data = .ok opened →
        opened.AgreeOnDirectory (indexedDirectory 0) (indexedDirectory 1)) ∧
      (indexedFork.volume.listDirectory 5).run (indexedDirectory 1) =
        (indexedFork.volume.listDirectory 5).run (indexedDirectory 0) ∧
      (indexedFork.volume.lookup 5 [0x61]).run (indexedDirectory 1) =
        (indexedFork.volume.lookup 5 [0x61]).run (indexedDirectory 0) ∧
      (indexedFork.volume.lookup 5 [0x61]).eval (indexedDirectory 0) = .ok (some ⟨[0x61],11,16,16,none⟩) := by
  have agree : ∀ opened, indexedFork.volume.openFork 5 .data = .ok opened →
      opened.AgreeOnDirectory (indexedDirectory 0) (indexedDirectory 1) := by
    intro opened known
    obtain rfl : indexedFork = opened := Except.ok.inj known
    exact agreeOnDirectory_indexed
  obtain ⟨listed,found⟩ := directory_reads_own_segments agree
  exact ⟨by decide +kernel,agree,listed,found [0x61],eq_ok_of_toOption (by decide +kernel)⟩

end XfsReader
