import XfsReader.Proofs.ExtentOrder
import XfsReader.Proofs.ReadSites

-- Extents go to the segment that they start in. In an ordered map this cuts the list in three, and
-- a block lies outside of its extent's segment only where the last extent of that segment runs past
-- its end. Where no extent does so, and only there, each block is in the segment that it is taken for.
namespace XfsReader

-- An extent with bytes on both sides of a limit.
def Extent.Straddles (extent : Extent) (size : BlockSize) (limit : Nat) : Prop :=
  extent.startOffset.toNat * size.bytes < limit ∧ limit < extent.endOffset * size.bytes

namespace Extent

variable {extent : Extent} {size : BlockSize} {limit block : Nat}

theorem segment_data : extent.segment size = .data ↔ extent.startOffset.toNat * size.bytes < leafSegmentStart := by
  unfold segment Segment.ofByte
  grind

theorem segment_leaf :
    extent.segment size = .leaf ↔
      leafSegmentStart ≤ extent.startOffset.toNat * size.bytes ∧
        extent.startOffset.toNat * size.bytes < freeSegmentStart := by
  unfold segment Segment.ofByte
  grind

theorem segment_free : extent.segment size = .free ↔ freeSegmentStart ≤ extent.startOffset.toNat * size.bytes := by
  have wider : leafSegmentStart ≤ freeSegmentStart := by decide
  unfold segment Segment.ofByte
  grind

theorem le_of_containsBlock (starts : limit ≤ extent.startOffset.toNat * size.bytes)
    (inside : extent.containsBlock block) : limit ≤ block * size.bytes :=
  Nat.le_trans starts (Nat.mul_le_mul_right size.bytes (containsBlock_iff.mp inside).1)

theorem lt_or_straddles (starts : extent.startOffset.toNat * size.bytes < limit)
    (inside : extent.containsBlock block) : block * size.bytes < limit ∨ extent.Straddles size limit := by
  refine (Nat.lt_or_ge (block * size.bytes) limit).imp_right fun beyond => ⟨starts,?_⟩
  calc limit ≤ block * size.bytes := beyond
    _ < extent.endOffset * size.bytes :=
      Nat.mul_lt_mul_of_pos_right (containsBlock_iff.mp inside).2 size.bytes_pos

-- An extent that straddles a limit between blocks has a block right at it.
theorem block_at_limit (whole : size.bytes ∣ limit) (straddles : extent.Straddles size limit) :
    ∃ block, extent.containsBlock block ∧ block * size.bytes = limit := by
  obtain ⟨block,rfl⟩ := whole
  obtain ⟨before,past⟩ := straddles
  rw [Nat.mul_comm size.bytes] at before past
  have after : extent.startOffset.toNat < block := Nat.lt_of_mul_lt_mul_right before
  have within : block < extent.endOffset := Nat.lt_of_mul_lt_mul_right past
  exact ⟨block,containsBlock_iff.mpr ⟨Nat.le_of_lt after,within⟩,Nat.mul_comm _ _⟩

end Extent

theorem BlockSize.bytes_dvd_segments (size : BlockSize) :
    size.bytes ∣ leafSegmentStart ∧ size.bytes ∣ freeSegmentStart := by
  have upper := size.upper
  rw [bytes,Nat.one_shiftLeft]
  constructor
  · apply Nat.dvd_trans (Nat.pow_dvd_pow 2 upper)
    decide
  · apply Nat.dvd_trans (Nat.pow_dvd_pow 2 upper)
    decide

namespace Segments

variable {size : BlockSize} {extents : List Extent} {extent : Extent}

theorem mem_data : extent ∈ (split size extents).data ↔
    extent ∈ extents ∧ extent.startOffset.toNat * size.bytes < leafSegmentStart := by
  simp [split,Extent.segment_data]

theorem mem_leaf : extent ∈ (split size extents).leaf ↔
    extent ∈ extents ∧ leafSegmentStart ≤ extent.startOffset.toNat * size.bytes ∧
      extent.startOffset.toNat * size.bytes < freeSegmentStart := by
  simp [split,Extent.segment_leaf]

theorem mem_free : extent ∈ (split size extents).free ↔
    extent ∈ extents ∧ freeSegmentStart ≤ extent.startOffset.toNat * size.bytes := by
  simp [split,Extent.segment_free]

end Segments

namespace Ordered

variable {extents : List Extent} {size : BlockSize}

theorem start_le {extent later : Extent} {rest : List Extent} (ordered : Ordered (extent :: rest))
    (member : later ∈ rest) : extent.startOffset.toNat * size.bytes ≤ later.startOffset.toNat * size.bytes := by
  have apart : extent.endOffset ≤ later.startOffset.toNat := List.rel_of_pairwise_cons ordered member
  exact Nat.mul_le_mul_right size.bytes (Nat.le_trans (Nat.le_add_right _ _) apart)

-- Once one extent starts at or past the limit, so do all that follow.
theorem filter_limit (ordered : Ordered extents) (limit : Nat) :
    extents.filter (fun extent => extent.startOffset.toNat * size.bytes < limit) ++
      extents.filter (fun extent => limit ≤ extent.startOffset.toNat * size.bytes) = extents := by
  induction extents with
  | nil => rfl
  | cons extent rest ih =>
    by_cases starts : extent.startOffset.toNat * size.bytes < limit
    · have whole := ih (List.Pairwise.of_cons ordered)
      simpa [List.filter_cons,starts,Nat.not_le.mpr starts] using whole
    · have later : ∀ other ∈ extent :: rest, limit ≤ other.startOffset.toNat * size.bytes := by
        intro other member
        rcases List.mem_cons.mp member with rfl | follows
        · exact Nat.le_of_not_lt starts
        · exact Nat.le_trans (Nat.le_of_not_lt starts) (ordered.start_le follows)
      rw [List.filter_eq_nil_iff.mpr fun other member => by simpa using later other member,
        List.filter_eq_self.mpr fun other member => by simpa using later other member]
      rfl

theorem split_append (ordered : Ordered extents) :
    (Segments.split size extents).data ++ (Segments.split size extents).leaf ++ (Segments.split size extents).free =
      extents := by
  have wider : leafSegmentStart ≤ freeSegmentStart := by decide
  let beyond := extents.filter fun extent => leafSegmentStart ≤ extent.startOffset.toNat * size.bytes
  have data : (Segments.split size extents).data =
      extents.filter fun extent => extent.startOffset.toNat * size.bytes < leafSegmentStart := by
    simp only [Segments.split,Extent.segment_data]
  have leaf : (Segments.split size extents).leaf =
      beyond.filter fun extent => extent.startOffset.toNat * size.bytes < freeSegmentStart := by
    rw [List.filter_filter]
    exact List.filter_congr fun extent _ => by simp [Extent.segment_leaf,Bool.and_comm]
  have free : (Segments.split size extents).free =
      beyond.filter fun extent => freeSegmentStart ≤ extent.startOffset.toNat * size.bytes := by
    rw [List.filter_filter]
    refine List.filter_congr fun extent _ => ?_
    rw [← Bool.decide_and,decide_eq_decide,Extent.segment_free]
    exact ⟨fun starts => ⟨starts,Nat.le_trans wider starts⟩,And.left⟩
  calc (Segments.split size extents).data ++ (Segments.split size extents).leaf ++ (Segments.split size extents).free
      = (Segments.split size extents).data ++
          ((Segments.split size extents).leaf ++ (Segments.split size extents).free) := List.append_assoc _ _ _
    _ = (Segments.split size extents).data ++ beyond := by
      rw [leaf,free,(ordered.filter _).filter_limit freeSegmentStart]
    _ = extents := by rw [data,ordered.filter_limit leafSegmentStart]

-- What follows a straddling extent starts past the limit.
theorem straddles_last (ordered : Ordered extents) {limit : Nat} {extent : Extent} (member : extent ∈ extents)
    (starts : ∀ other ∈ extents, other.startOffset.toNat * size.bytes < limit)
    (straddles : extent.Straddles size limit) : extents.getLast? = some extent := by
  obtain ⟨front,back,rfl⟩ := List.append_of_mem member
  cases back with
  | nil => exact List.getLast?_concat
  | cons next back =>
    have apart : extent.endOffset ≤ next.startOffset.toNat :=
      List.rel_of_pairwise_cons (List.pairwise_append.mp ordered).2.1 List.mem_cons_self
    have scaled := Nat.mul_le_mul_right size.bytes apart
    have before := starts next (by simp)
    have past := straddles.2
    omega

end Ordered

-- The segments of an ordered list. No extent is lost, doubled or moved, and a block past the end of
-- its extent's segment is in an extent that runs on over that end, with none of the segment after it.
structure SplitByStart (size : BlockSize) (extents : List Extent) (segments : Segments) : Prop where
  whole : segments.data ++ segments.leaf ++ segments.free = extents
  data : ∀ extent ∈ segments.data, ∀ block, extent.containsBlock block →
    block * size.bytes < leafSegmentStart ∨
      extent.Straddles size leafSegmentStart ∧ segments.data.getLast? = some extent
  leaf : ∀ extent ∈ segments.leaf, ∀ block, extent.containsBlock block →
    leafSegmentStart ≤ block * size.bytes ∧
      (block * size.bytes < freeSegmentStart ∨
        extent.Straddles size freeSegmentStart ∧ segments.leaf.getLast? = some extent)
  free : ∀ extent ∈ segments.free, ∀ block, extent.containsBlock block → freeSegmentStart ≤ block * size.bytes

theorem Ordered.splitByStart {extents : List Extent} (ordered : Ordered extents) (size : BlockSize) :
    SplitByStart size extents (Segments.split size extents) where
  whole := ordered.split_append
  data extent member block inside := by
    refine (Extent.lt_or_straddles (Segments.mem_data.mp member).2 inside).imp_right fun straddles => ⟨straddles,?_⟩
    exact (ordered.filter _).straddles_last member (fun other known => (Segments.mem_data.mp known).2) straddles
  leaf extent member block inside := by
    obtain ⟨_,first,last⟩ := Segments.mem_leaf.mp member
    refine ⟨Extent.le_of_containsBlock first inside,?_⟩
    refine (Extent.lt_or_straddles last inside).imp_right fun straddles => ⟨straddles,?_⟩
    exact (ordered.filter _).straddles_last member (fun other known => (Segments.mem_leaf.mp known).2.2) straddles
  free extent member block inside := Extent.le_of_containsBlock (Segments.mem_free.mp member).2 inside

-- Segments of which each block of each extent is in the segment itself.
structure BlockExact (size : BlockSize) (segments : Segments) : Prop where
  data : ∀ extent ∈ segments.data, ∀ block, extent.containsBlock block → block * size.bytes < leafSegmentStart
  leaf : ∀ extent ∈ segments.leaf, ∀ block, extent.containsBlock block →
    leafSegmentStart ≤ block * size.bytes ∧ block * size.bytes < freeSegmentStart
  free : ∀ extent ∈ segments.free, ∀ block, extent.containsBlock block → freeSegmentStart ≤ block * size.bytes

def Uncrossed (size : BlockSize) (extents : List Extent) : Prop :=
  ∀ extent ∈ extents, ¬ extent.Straddles size leafSegmentStart ∧ ¬ extent.Straddles size freeSegmentStart

theorem blockExact_iff {size : BlockSize} {extents : List Extent} :
    BlockExact size (Segments.split size extents) ↔ Uncrossed size extents := by
  obtain ⟨leafWhole,freeWhole⟩ := size.bytes_dvd_segments
  have wider : leafSegmentStart < freeSegmentStart := by decide
  constructor
  · intro split extent member
    have uncrossed : ¬ extent.Straddles size leafSegmentStart := by
      intro straddles
      obtain ⟨block,inside,same⟩ := Extent.block_at_limit leafWhole straddles
      have below := split.data extent (Segments.mem_data.mpr ⟨member,straddles.1⟩) block inside
      omega
    refine ⟨uncrossed,fun straddles => ?_⟩
    -- What starts before the leaves and ends past the limit of the free index straddles both.
    have starts : leafSegmentStart ≤ extent.startOffset.toNat * size.bytes :=
      Nat.le_of_not_lt fun before => uncrossed ⟨before,Nat.lt_trans wider straddles.2⟩
    obtain ⟨block,inside,same⟩ := Extent.block_at_limit freeWhole straddles
    have bounds := split.leaf extent (Segments.mem_leaf.mpr ⟨member,starts,straddles.1⟩) block inside
    omega
  · intro uncrossed
    refine ⟨fun extent member block inside => ?data,fun extent member block inside => ?leaf,
      fun extent member block inside => ?free⟩
    case data =>
      obtain ⟨known,starts⟩ := Segments.mem_data.mp member
      exact (Extent.lt_or_straddles starts inside).resolve_right (uncrossed extent known).1
    case leaf =>
      obtain ⟨known,first,last⟩ := Segments.mem_leaf.mp member
      exact ⟨Extent.le_of_containsBlock first inside,
        (Extent.lt_or_straddles last inside).resolve_right (uncrossed extent known).2⟩
    case free => exact Extent.le_of_containsBlock (Segments.mem_free.mp member).2 inside

-- A read that is allowed, whatever is made of it.
theorem Traversal.request_allowed {allowed : ReadRequest → Prop} {role : Option BlockRole} {offset length : Nat}
    {later : Bytes → Traversal α} (known : allowed ⟨role,offset,length⟩)
    (follows : ∀ found, (later found).Follows fun request _ => allowed request) :
    (request role offset length >>= later).Follows fun request _ => allowed request :=
  ⟨⟨fun _ => none,known,fun _ _ refused => (nomatch refused)⟩,follows⟩

namespace InodeFork
open Traversal

variable {opened : InodeFork}

def literalRead (opened : InodeFork) : ReadRequest := ⟨none,opened.position,opened.fork.size.toNat⟩

-- One block of a list of extents, read in some role.
inductive ExtentRead (opened : InodeFork) (role : BlockRole) (extents : List Extent) : ReadRequest → Prop
  | block {extent index offset} (member : extent ∈ extents) (inside : index < extent.blockCount.toNat)
      (translated : opened.ag.runByteOffset extent.startBlock index = .ok offset) :
      ExtentRead opened role extents ⟨some role,offset,opened.blockSize.bytes⟩

-- What is read of a directory once its map is known: leaf blocks and data blocks, each from the
-- extents of its own segment.
def SegmentRead (opened : InodeFork) (extents : List Extent) (request : ReadRequest) : Prop :=
  opened.ExtentRead .leafBlock (Segments.split opened.blockSize extents).leaf request ∨
    opened.ExtentRead .dataBlock (Segments.split opened.blockSize extents).data request

theorem leafBlocks_reads (extents : List Extent) :
    (opened.leafBlocks extents).Follows fun request _ => opened.ExtentRead .leafBlock extents request := by
  refine forExtents_follows_inside extents fun extent member index inside => ?_
  unfold leafBlock
  cases translated : opened.runOffset extent.startBlock index opened.position with
  | error error => trivial
  | ok offset =>
    refine request_allowed (.block member inside (located_eq_ok.mp translated)) fun block =>
      (ofExcept_follows _).bind fun contents => ?_
    unfold keepLeaf
    split
    · trivial
    · split <;> trivial

theorem dataEntries_reads (extents : List Extent) :
    (opened.dataEntries extents).Follows fun request _ => opened.ExtentRead .dataBlock extents request := by
  have each : (opened.dataPlaces extents).Follows fun request _ => opened.ExtentRead .dataBlock extents request := by
    rw [dataPlaces_byExtent]
    refine (ofExcept_follows _).bind fun _ => forExtents_follows_inside extents fun extent member index inside => ?_
    unfold dataBlock
    cases translated : opened.runOffset extent.startBlock index opened.position with
    | error error => trivial
    | ok offset =>
      exact request_allowed (.block member inside (located_eq_ok.mp translated)) fun block =>
        (ofExcept_follows _).bind fun _ => trivial
  exact each.bind fun _ => trivial

-- The device offset of a logical block, by the extent that it is taken from.
def BlockAt (opened : InodeFork) (extent : Extent) (block offset : Nat) : Prop :=
  extent.containsBlock block ∧ opened.ag.runByteOffset extent.startBlock (block - extent.startOffset.toNat) = .ok offset

-- The block that a slot leads to, in an extent that holds it.
inductive SlotRead (opened : InodeFork) (data : List Extent) (slot : LeafSlot) : ReadRequest → Prop
  | block {extent offset} (member : extent ∈ data)
      (placed : opened.BlockAt extent (opened.blockSize.blockOf slot.byteOffset) offset) :
      SlotRead opened data slot ⟨some .dataBlock,offset,opened.blockSize.bytes⟩

theorem SlotRead.extentRead {data : List Extent} {slot : LeafSlot} {request : ReadRequest}
    (read : opened.SlotRead data slot request) : opened.ExtentRead .dataBlock data request := by
  cases read with
  | @block extent offset member placed =>
    obtain ⟨first,last⟩ := Extent.containsBlock_iff.mp placed.1
    refine .block member ?_ placed.2
    rw [Extent.endOffset] at last
    omega

theorem candidate_asks (data : List Extent) (slot : LeafSlot) :
    (opened.candidate data slot).Follows fun request _ => opened.SlotRead data slot request := by
  unfold candidate logicalOffset
  dsimp only
  cases found : Extent.findBlock? data (opened.blockSize.blockOf slot.byteOffset) with
  | none => trivial
  | some extent =>
    have member : extent ∈ data := List.mem_of_find?_eq_some found
    have inside : extent.containsBlock (opened.blockSize.blockOf slot.byteOffset) := by
      simpa using List.find?_some found
    dsimp only
    cases translated : opened.runOffset extent.startBlock
        (opened.blockSize.blockOf slot.byteOffset - extent.startOffset.toNat) 0 with
    | error error => trivial
    | ok offset =>
      exact request_allowed (.block member ⟨inside,located_eq_ok.mp translated⟩) fun block => ofExcept_follows _

theorem probe_asks (data : List Extent) (name : Name) (slots : List LeafSlot) :
    (opened.probe data name slots).Follows fun request _ => ∃ slot ∈ slots, opened.SlotRead data slot request := by
  induction slots with
  | nil => trivial
  | cons slot slots ih =>
    refine ((candidate_asks data slot).mono fun _ _ read => ⟨slot,List.mem_cons_self,read⟩).bind fun found => ?_
    split
    · trivial
    · exact ih.mono fun _ _ ⟨later,member,asked⟩ => ⟨later,List.mem_cons_of_mem slot member,asked⟩

theorem probe_reads (data : List Extent) (name : Name) (slots : List LeafSlot) :
    (opened.probe data name slots).Follows fun request _ => opened.ExtentRead .dataBlock data request :=
  (probe_asks data name slots).mono fun _ _ ⟨_,_,asked⟩ => asked.extentRead

-- A traversal that walks the map of a directory and then keeps to its two segments.
def ReadsBySegment (opened : InodeFork) (traversal : Traversal α) : Prop :=
  ∃ later : ExtentMap → Traversal α, traversal = opened.walk .directory >>= later ∧
    ∀ map, (later map).Follows fun request _ => opened.SegmentRead map.extents request

theorem listDirectory_bySegment (mapped : opened.fork.layout ≠ .shortform) :
    opened.ReadsBySegment opened.listDirectory :=
  ⟨_,opened.listDirectory_mapped mapped,fun _ =>
    ((leafBlocks_reads _).mono fun _ _ => .inl).bind fun _ => (dataEntries_reads _).mono fun _ _ => .inr⟩

theorem lookup_bySegment (mapped : opened.fork.layout ≠ .shortform) (name : Name) :
    opened.ReadsBySegment (opened.lookup name) := by
  refine ⟨_,opened.lookup_mapped mapped name,fun _ => ((leafBlocks_reads _).mono fun _ _ => .inl).bind fun _ => ?_⟩
  split
  · exact ((dataEntries_reads _).mono fun _ _ => .inr).bind fun _ => trivial
  · exact (probe_reads _ name _).mono fun _ _ => .inr

-- All that listing and lookup read of a device: the literal area, the map blocks that the walk asks
-- for there, and the blocks that the map so found gives to the two segments.
inductive DirectoryRead (opened : InodeFork) (device : Device) : ReadRequest → Prop
  | literal : DirectoryRead opened device opened.literalRead
  | mapBlock {request} (asked : request ∈ ((opened.walk .directory).run device).reads)
      (role : request.role = some .mapBlock) : DirectoryRead opened device request
  | segment {map request} (walked : (opened.walk .directory).eval device = .ok map)
      (read : opened.SegmentRead map.extents request) : DirectoryRead opened device request

theorem ReadsBySegment.reads {traversal : Traversal α} (keeps : opened.ReadsBySegment traversal) {device : Device}
    {request : ReadRequest} (asked : request ∈ (traversal.run device).reads) : opened.DirectoryRead device request := by
  obtain ⟨later,rfl,follows⟩ := keeps
  have walks : (opened.walk .directory).Follows fun request _ =>
      request = opened.literalRead ∨ request.role = some .mapBlock :=
    walk_follows_of .directory (.inl rfl) fun _ _ _ _ => .inr rfl
  rcases asked_of_bind asked with walked | ⟨map,walked,after⟩
  · obtain ⟨_,rfl | role⟩ := walks.reads device walked
    · exact .literal
    · exact .mapBlock walked role
  · obtain ⟨_,kept⟩ := (follows map).reads device after
    exact .segment walked kept

theorem shortformEntries_reads : opened.shortformEntries.Follows fun request _ => request = opened.literalRead :=
  request_allowed rfl fun _ => (ofExcept_follows _).bind fun _ => trivial

variable {device : Device} {request : ReadRequest}

theorem listDirectory_reads (asked : request ∈ (opened.listDirectory.run device).reads) :
    opened.DirectoryRead device request := by
  by_cases layout : opened.fork.layout = .shortform
  · rw [opened.listDirectory_unmapped layout] at asked
    obtain ⟨_,rfl⟩ := shortformEntries_reads.reads device asked
    exact .literal
  · exact (listDirectory_bySegment layout).reads asked

theorem lookup_reads {name : Name} (asked : request ∈ ((opened.lookup name).run device).reads) :
    opened.DirectoryRead device request := by
  by_cases layout : opened.fork.layout = .shortform
  · have follows : (opened.lookup name).Follows fun request _ => request = opened.literalRead := by
      rw [opened.lookup_unmapped layout]
      exact shortformEntries_reads.bind fun _ => trivial
    obtain ⟨_,rfl⟩ := follows.reads device asked
    exact .literal
  · exact (lookup_bySegment layout name).reads asked

theorem ExtentRead.blockAt {role : BlockRole} {extents : List Extent} {request : ReadRequest}
    (read : opened.ExtentRead role extents request) :
    request.role = some role ∧ ∃ extent ∈ extents, ∃ block, opened.BlockAt extent block request.offset := by
  cases read with
  | @block extent index offset member inside translated =>
    refine ⟨rfl,extent,member,extent.startOffset.toNat + index,?_,?_⟩
    · exact Extent.containsBlock_iff.mpr ⟨Nat.le_add_right _ _,Nat.add_lt_add_left inside _⟩
    · rw [Nat.add_sub_cancel_left]
      exact translated

-- How a directory block is judged by the segment of its extent. A block past the limit is taken for
-- one before it only as part of an extent that straddles the limit.
structure DecodedBySegment (opened : InodeFork) (extents : List Extent) (request : ReadRequest) : Prop where
  data : request.role = some .dataBlock →
    ∃ extent ∈ (Segments.split opened.blockSize extents).data, ∃ block, opened.BlockAt extent block request.offset ∧
      (block * opened.blockSize.bytes < leafSegmentStart ∨ extent.Straddles opened.blockSize leafSegmentStart)
  leaf : request.role = some .leafBlock →
    ∃ extent ∈ (Segments.split opened.blockSize extents).leaf, ∃ block, opened.BlockAt extent block request.offset ∧
      leafSegmentStart ≤ block * opened.blockSize.bytes ∧
        (block * opened.blockSize.bytes < freeSegmentStart ∨ extent.Straddles opened.blockSize freeSegmentStart)

theorem SegmentRead.decoded {extents : List Extent} {request : ReadRequest} (ordered : Ordered extents)
    (read : opened.SegmentRead extents request) : opened.DecodedBySegment extents request := by
  have split := ordered.splitByStart opened.blockSize
  rcases read with leaf | data
  · obtain ⟨role,extent,member,block,placed⟩ := leaf.blockAt
    refine ⟨fun other => (nomatch role.symm.trans other),fun _ => ⟨extent,member,block,placed,?_⟩⟩
    exact (split.leaf extent member block placed.1).imp_right fun last => last.imp_right And.left
  · obtain ⟨role,extent,member,block,placed⟩ := data.blockAt
    refine ⟨fun _ => ⟨extent,member,block,placed,?_⟩,fun other => (nomatch role.symm.trans other)⟩
    exact (split.data extent member block placed.1).imp_right And.left

-- The same with no exception: a block is decoded as what the place of it says.
structure DecodedByPlace (opened : InodeFork) (extents : List Extent) (request : ReadRequest) : Prop where
  data : request.role = some .dataBlock →
    ∃ extent ∈ extents, ∃ block, opened.BlockAt extent block request.offset ∧
      block * opened.blockSize.bytes < leafSegmentStart
  leaf : request.role = some .leafBlock →
    ∃ extent ∈ extents, ∃ block, opened.BlockAt extent block request.offset ∧
      leafSegmentStart ≤ block * opened.blockSize.bytes ∧ block * opened.blockSize.bytes < freeSegmentStart

theorem DecodedBySegment.byPlace {extents : List Extent} {request : ReadRequest}
    (decoded : opened.DecodedBySegment extents request) (uncrossed : Uncrossed opened.blockSize extents) :
    opened.DecodedByPlace extents request := by
  refine ⟨fun role => ?data,fun role => ?leaf⟩
  case data =>
    obtain ⟨extent,member,block,placed,before⟩ := decoded.data role
    have known := (Segments.mem_data.mp member).1
    exact ⟨extent,known,block,placed,before.resolve_right (uncrossed extent known).1⟩
  case leaf =>
    obtain ⟨extent,member,block,placed,first,before⟩ := decoded.leaf role
    have known := (Segments.mem_leaf.mp member).1
    exact ⟨extent,known,block,placed,first,before.resolve_right (uncrossed extent known).2⟩

end InodeFork

-- Every ordered list comes apart by where its extents start, and listing decodes the blocks of a
-- directory accordingly. Each block is in the segment that it is taken for if, and only if, no extent runs
-- across the start of a later segment.
theorem segments_split_by_start (size : BlockSize) (extents : List Extent) (volume : Volume) (inode : UInt64)
    (opened : InodeFork) (device : Device) (request : ReadRequest) :
    (Ordered extents → SplitByStart size extents (Segments.split size extents) ∧
      (BlockExact size (Segments.split size extents) ↔ Uncrossed size extents)) ∧
      (volume.openFork inode .data = .ok opened → request ∈ ((volume.listDirectory inode).run device).reads →
        request.role ∈ [none,some .mapBlock] ∨
          ∃ map, (opened.walk .directory).eval device = .ok map ∧ opened.DecodedBySegment map.extents request ∧
            (Uncrossed opened.blockSize map.extents → opened.DecodedByPlace map.extents request)) := by
  refine ⟨fun ordered => ⟨ordered.splitByStart size,blockExact_iff⟩,fun known asked => ?_⟩
  rw [Volume.listDirectory,known] at asked
  cases InodeFork.listDirectory_reads asked with
  | literal => exact .inl List.mem_cons_self
  | mapBlock asked role => exact .inl (role ▸ List.mem_cons_of_mem _ List.mem_cons_self)
  | @segment map _ walked read =>
    have decoded := read.decoded ((opened.walk_ordered .directory).eval walked)
    exact .inr ⟨map,walked,decoded,decoded.byPlace⟩

-- A directory whose one extent starts at the last block below 32 GiB. Its other block, at 32 GiB, is
-- a leaf.
def straddlingExtent : Extent := ⟨0x3FFFFFF,1,2,.normal⟩

def straddlingDirectory : Device :=
  .ofStretches 1536
    [(0,straddlingExtent.encode),
      (512,[0x58,0x44,0x32,0x44]),(528,[0,0,0,0,0,0,0,11,1,0x61,0,0,0,0,0,16]),(544,[0xFF,0xFF,0x01,0xE0]),
      (1024,LeafBlock.encode ⟨⟨0,0,.dirLeaf1,none⟩,0,[⟨0x61,2⟩]⟩)]

def straddlingFork : InodeFork where
  volume :=
    { geometry := .ofSizes 512 100 10
      ag := ⟨.smallest,100,10⟩
      forks := ForkTable.empty.insert 5 .data ⟨0,16,.extents 1,.v4⟩
      options := .standard }
  inode := 5
  fork := ⟨0,16,.extents 1,.v4⟩

theorem walk_straddling :
    (straddlingFork.walk .directory).eval straddlingDirectory = .ok ⟨[straddlingExtent],.inline,0⟩ :=
  eq_ok_of_toOption (by decide +kernel)

theorem blockAt_straddling : straddlingFork.BlockAt straddlingExtent 0x4000000 1024 :=
  ⟨by decide,eq_ok_of_toOption (by decide)⟩

theorem reads_straddling :
    ((straddlingFork.volume.listDirectory 5).run straddlingDirectory).reads =
      [⟨none,0,16⟩,⟨some .dataBlock,512,512⟩,⟨some .dataBlock,1024,512⟩] := by
  decide +kernel

-- So a block that is at 32 GiB is decoded as data after all.
theorem leaf_block_decoded_as_data :
    Ordered [straddlingExtent] ∧
      ¬ (∀ extent ∈ (Segments.split .smallest [straddlingExtent]).data, ∀ block, extent.containsBlock block →
        block * BlockSize.smallest.bytes < leafSegmentStart) ∧
      (straddlingFork.walk .directory).eval straddlingDirectory = .ok ⟨[straddlingExtent],.inline,0⟩ ∧
      straddlingFork.BlockAt straddlingExtent 0x4000000 1024 ∧
      0x4000000 * straddlingFork.blockSize.bytes = leafSegmentStart ∧
      ⟨some .dataBlock,1024,512⟩ ∈ ((straddlingFork.volume.listDirectory 5).run straddlingDirectory).reads := by
  refine ⟨List.pairwise_singleton _ _,?_,walk_straddling,blockAt_straddling,by decide,by rw [reads_straddling]; simp⟩
  intro exact_split
  have below := exact_split straddlingExtent (by decide) 0x4000000 blockAt_straddling.1
  revert below
  decide

-- Extents of all three segments, the first two of which run past the end of theirs.
def straddlingMap : List Extent :=
  [straddlingExtent,⟨0x7FFFFFF,9,4,.normal⟩,⟨0x8000003,20,1,.normal⟩]

-- The same directory once more, with an extent for each of its two blocks.
def uncrossedMap : List Extent := [⟨0x3FFFFFF,1,1,.normal⟩,⟨0x4000000,2,1,.normal⟩]

def uncrossedDirectory : Device :=
  .ofStretches 1536
    [(0,uncrossedMap.flatMap Extent.encode),
      (512,[0x58,0x44,0x32,0x44]),(528,[0,0,0,0,0,0,0,11,1,0x61,0,0,0,0,0,16]),(544,[0xFF,0xFF,0x01,0xE0]),
      (1024,LeafBlock.encode ⟨⟨0,0,.dirLeaf1,none⟩,0,[⟨0x61,2⟩]⟩)]

def uncrossedFork : InodeFork where
  volume := { straddlingFork.volume with forks := ForkTable.empty.insert 5 .data ⟨0,32,.extents 2,.v4⟩ }
  inode := 5
  fork := ⟨0,32,.extents 2,.v4⟩

theorem walk_uncrossed :
    (uncrossedFork.walk .directory).eval uncrossedDirectory = .ok ⟨uncrossedMap,.inline,0⟩ :=
  eq_ok_of_toOption (by decide +kernel)

theorem reads_uncrossed :
    ((uncrossedFork.volume.listDirectory 5).run uncrossedDirectory).reads =
      [⟨none,0,32⟩,⟨some .leafBlock,1024,512⟩,⟨some .dataBlock,512,512⟩] := by
  decide +kernel

theorem segments_split_by_start_straddling :
    Ordered straddlingMap ∧ SplitByStart .smallest straddlingMap (Segments.split .smallest straddlingMap) ∧
      straddlingFork.volume.openFork 5 .data = .ok straddlingFork ∧
      (∃ map, (straddlingFork.walk .directory).eval straddlingDirectory = .ok map ∧
        straddlingFork.DecodedBySegment map.extents ⟨some .dataBlock,1024,512⟩) ∧
      Ordered uncrossedMap ∧ BlockExact .smallest (Segments.split .smallest uncrossedMap) ∧
      uncrossedFork.DecodedByPlace uncrossedMap ⟨some .leafBlock,1024,512⟩ := by
  have ordered : Ordered straddlingMap := ordered_of_firstDisorder? (by decide)
  have asked : ⟨some .dataBlock,1024,512⟩ ∈
      ((straddlingFork.volume.listDirectory 5).run straddlingDirectory).reads := by
    rw [reads_straddling]
    simp
  have known : straddlingFork.volume.openFork 5 .data = .ok straddlingFork := rfl
  have apart : Ordered uncrossedMap := ordered_of_firstDisorder? (by decide)
  have uncrossed : Uncrossed .smallest uncrossedMap := by
    simp only [Uncrossed,uncrossedMap,List.forall_mem_cons,Extent.Straddles]
    decide
  have askedApart : ⟨some .leafBlock,1024,512⟩ ∈
      ((uncrossedFork.volume.listDirectory 5).run uncrossedDirectory).reads := by
    rw [reads_uncrossed]
    simp
  have straddling := segments_split_by_start .smallest straddlingMap straddlingFork.volume 5 straddlingFork
    straddlingDirectory ⟨some .dataBlock,1024,512⟩
  have placed := segments_split_by_start .smallest uncrossedMap uncrossedFork.volume 5 uncrossedFork
    uncrossedDirectory ⟨some .leafBlock,1024,512⟩
  refine ⟨ordered,(straddling.1 ordered).1,known,?straddling,apart,(placed.1 apart).2.mpr uncrossed,?uncrossed⟩
  case straddling =>
    rcases straddling.2 known asked with role | decoded
    · simp at role
    · obtain ⟨map,walked,decoded,_⟩ := decoded
      exact ⟨map,walked,decoded⟩
  case uncrossed =>
    rcases placed.2 rfl askedApart with role | decoded
    · simp at role
    · obtain ⟨map,walked,_,byPlace⟩ := decoded
      obtain rfl : ⟨uncrossedMap,.inline,0⟩ = map := Except.ok.inj (walk_uncrossed.symm.trans walked)
      exact byPlace uncrossed

end XfsReader
