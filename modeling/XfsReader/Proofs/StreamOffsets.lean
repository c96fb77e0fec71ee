import Mathlib.Data.List.Chain
import Mathlib.Data.Set.Function
import Mathlib.Order.Interval.Set.Defs
import Mathlib.Order.UpperLower.Basic
import XfsReader.Proofs.DataBlockOrder
import XfsReader.Proofs.FileOffsets
import XfsReader.Proofs.IndexPartition

-- A mapped byte has an offset in its file, where holes count, and one in the stream of mapped bytes,
-- where they do not. The index is asked for the second and the search by cover for the first. The two
-- go up together, and they are the same number just where there is no hole.
namespace XfsReader

def coveredBytes (size : BlockSize) (extents : List Extent) : Set Nat :=
  {offset | ∃ extent ∈ extents, extent.covers offset size}

-- From an offset in the file to the one in the stream: the bytes of the extents passed over, and the
-- bytes into the extent that covers it.
def streamOffset (size : BlockSize) : List Extent → Nat → Nat
  | [], _ => 0
  | extent :: rest, offset =>
    if extent.covers offset size then offset - extent.startOffset.toNat * size.bytes
    else extent.byteLength size + streamOffset size rest offset

section Stream

variable {size : BlockSize} {extent : Extent} {extents rest front back : List Extent} {offset later : Nat}

theorem mem_coveredBytes_cons :
    offset ∈ coveredBytes size (extent :: rest) ↔ extent.covers offset size ∨ offset ∈ coveredBytes size rest := by
  simp [coveredBytes]

theorem Ordered.covered_after (ordered : Ordered (extent :: rest)) (covered : offset ∈ coveredBytes size rest) :
    extent.endOffset * size.bytes ≤ offset := by
  obtain ⟨other,member,holds⟩ := covered
  calc extent.endOffset * size.bytes
      ≤ other.startOffset.toNat * size.bytes :=
        Nat.mul_le_mul_right size.bytes (List.rel_of_pairwise_cons ordered member)
    _ ≤ offset := (Extent.covers_iff.mp holds).1

theorem streamOffset_first (covered : extent.covers offset size) :
    streamOffset size (extent :: rest) offset = offset - extent.startOffset.toNat * size.bytes :=
  if_pos covered

theorem streamOffset_later (ordered : Ordered (extent :: rest)) (covered : offset ∈ coveredBytes size rest) :
    streamOffset size (extent :: rest) offset = extent.byteLength size + streamOffset size rest offset := by
  apply if_neg
  intro first
  exact Nat.not_lt.mpr (ordered.covered_after covered) (Extent.covers_iff.mp first).2

theorem streamOffset_lt (covered : offset ∈ coveredBytes size extents) :
    streamOffset size extents offset < mappedBytes size extents := by
  induction extents with
  | nil => simp [coveredBytes] at covered
  | cons extent rest ih =>
    rw [streamOffset,mappedBytes]
    split
    · rename_i first
      obtain ⟨starts,ends⟩ := Extent.covers_iff.mp first
      rw [extent.end_bytes] at ends
      omega
    · rename_i other
      exact Nat.add_lt_add_left (ih ((mem_coveredBytes_cons.mp covered).resolve_left other)) _

theorem streamOffset_split (ordered : Ordered (front ++ extent :: back)) (covered : extent.covers offset size) :
    streamOffset size (front ++ extent :: back) offset =
      mappedBytes size front + (offset - extent.startOffset.toNat * size.bytes) := by
  induction front with
  | nil =>
    rw [mappedBytes,Nat.zero_add]
    exact streamOffset_first covered
  | cons first front ih =>
    have held : offset ∈ coveredBytes size (front ++ extent :: back) := ⟨extent,by simp,covered⟩
    rw [List.cons_append] at ordered ⊢
    rw [streamOffset_later ordered held,ih ordered.of_cons,mappedBytes,Nat.add_assoc]

-- By induction on the extents: of two bytes the first extent may cover both, the earlier alone or neither.
theorem streamOffset_strictMonoOn (ordered : Ordered extents) :
    StrictMonoOn (streamOffset size extents) (coveredBytes size extents) := by
  induction extents with
  | nil =>
    intro offset covered
    simp [coveredBytes] at covered
  | cons extent rest ih =>
    intro offset covered later also less
    rcases mem_coveredBytes_cons.mp covered with first | behind
    · obtain ⟨starts,ends⟩ := Extent.covers_iff.mp first
      rw [streamOffset_first first]
      rcases mem_coveredBytes_cons.mp also with same | behind
      · rw [streamOffset_first same]
        omega
      · rw [streamOffset_later ordered behind]
        rw [extent.end_bytes] at ends
        omega
    · have after := ordered.covered_after behind
      have follows : later ∈ coveredBytes size rest := by
        refine (mem_coveredBytes_cons.mp also).resolve_left ?_
        intro first
        have ends := (Extent.covers_iff.mp first).2
        omega
      rw [streamOffset_later ordered behind,streamOffset_later ordered follows]
      exact Nat.add_lt_add_left (ih ordered.of_cons behind follows less) _

theorem streamOffset_surjOn (ordered : Ordered extents) :
    Set.SurjOn (streamOffset size extents) (coveredBytes size extents) (Set.Iio (mappedBytes size extents)) := by
  induction extents with
  | nil =>
    intro mapped inside
    simp [mappedBytes] at inside
  | cons extent rest ih =>
    intro mapped inside
    rw [Set.mem_Iio,mappedBytes] at inside
    rcases Nat.lt_or_ge mapped (extent.byteLength size) with first | behind
    · have covered : extent.covers (extent.startOffset.toNat * size.bytes + mapped) size := by
        rw [Extent.covers_iff,extent.end_bytes]
        omega
      refine ⟨_,mem_coveredBytes_cons.mpr (.inl covered),?_⟩
      rw [streamOffset_first covered]
      omega
    · obtain ⟨offset,covered,same⟩ := ih ordered.of_cons (show mapped - extent.byteLength size ∈ Set.Iio _ from by
        rw [Set.mem_Iio]
        omega)
      refine ⟨offset,mem_coveredBytes_cons.mpr (.inr covered),?_⟩
      rw [streamOffset_later ordered covered,same]
      omega

theorem streamOffset_bijOn (ordered : Ordered extents) :
    Set.BijOn (streamOffset size extents) (coveredBytes size extents) (Set.Iio (mappedBytes size extents)) :=
  ⟨fun _ covered => streamOffset_lt covered,(streamOffset_strictMonoOn ordered).injOn,streamOffset_surjOn ordered⟩

-- No byte stands later in the stream than in its file, and where the covered bytes leave nothing out
-- below them none stands earlier.
theorem streamOffset_le (ordered : Ordered extents) {start : Nat}
    (after : ∀ extent ∈ extents, start ≤ extent.startOffset.toNat * size.bytes)
    (covered : offset ∈ coveredBytes size extents) : start + streamOffset size extents offset ≤ offset := by
  induction extents generalizing start with
  | nil => simp [coveredBytes] at covered
  | cons extent rest ih =>
    have begins := after extent List.mem_cons_self
    rcases mem_coveredBytes_cons.mp covered with first | behind
    · have starts := (Extent.covers_iff.mp first).1
      rw [streamOffset_first first]
      omega
    · have follows := ih ordered.of_cons (fun other member =>
        Nat.mul_le_mul_right size.bytes (List.rel_of_pairwise_cons ordered member)) behind
      rw [extent.end_bytes] at follows
      rw [streamOffset_later ordered behind]
      omega

theorem le_streamOffset (ordered : Ordered extents) (whole : IsLowerSet (coveredBytes size extents))
    (covered : offset ∈ coveredBytes size extents) : offset ≤ streamOffset size extents offset := by
  induction offset with
  | zero => exact Nat.zero_le _
  | succ offset ih =>
    have below : offset ∈ coveredBytes size extents := whole (Nat.le_succ offset) covered
    calc offset + 1 ≤ streamOffset size extents offset + 1 := Nat.succ_le_succ (ih below)
      _ ≤ streamOffset size extents (offset + 1) :=
        streamOffset_strictMonoOn ordered below covered (Nat.lt_succ_self offset)

theorem streamOffset_eqOn (ordered : Ordered extents) (whole : IsLowerSet (coveredBytes size extents)) :
    Set.EqOn (streamOffset size extents) id (coveredBytes size extents) := by
  intro offset covered
  have most := streamOffset_le ordered (fun _ _ => Nat.zero_le _) covered
  rw [Nat.zero_add] at most
  exact Nat.le_antisymm most (le_streamOffset ordered whole covered)

theorem coveredBytes_eq (ordered : Ordered extents) (whole : IsLowerSet (coveredBytes size extents)) :
    coveredBytes size extents = Set.Iio (mappedBytes size extents) := by
  rw [← (streamOffset_bijOn ordered).image_eq,(streamOffset_eqOn ordered whole).image_eq,Set.image_id]

theorem find?_covers_isSome :
    (extents.find? fun extent => extent.covers offset size).isSome ↔ offset ∈ coveredBytes size extents := by
  simp [coveredBytes]

-- Where each extent starts where the one before it ends, the bytes from the first start on to any
-- covered byte are covered too.
theorem covered_below (adjoining : extents.IsChain fun first second => first.endOffset = second.startOffset.toNat)
    (start : ∀ first ∈ extents.head?, first.startOffset.toNat * size.bytes ≤ offset) (below : offset ≤ later)
    (covered : later ∈ coveredBytes size extents) : offset ∈ coveredBytes size extents := by
  induction extents with
  | nil => simp [coveredBytes] at covered
  | cons extent rest ih =>
    have starts : extent.startOffset.toNat * size.bytes ≤ offset := start extent rfl
    obtain ⟨next,adjoining⟩ := List.isChain_cons.mp adjoining
    rcases Nat.lt_or_ge offset (extent.endOffset * size.bytes) with inside | past
    · exact mem_coveredBytes_cons.mpr (.inl (Extent.covers_iff.mpr ⟨starts,inside⟩))
    · apply mem_coveredBytes_cons.mpr
      right
      apply ih adjoining
      · intro second head
        rw [← next second head]
        exact past
      · refine (mem_coveredBytes_cons.mp covered).resolve_left ?_
        intro first
        exact Nat.not_lt.mpr (Nat.le_trans past below) (Extent.covers_iff.mp first).2

theorem isLowerSet_coveredBytes
    (adjoining : extents.IsChain fun first second => first.endOffset = second.startOffset.toNat)
    (start : ∀ first ∈ extents.head?, first.startOffset = 0) : IsLowerSet (coveredBytes size extents) := by
  intro later offset below covered
  refine covered_below adjoining ?_ below covered
  intro first head
  rw [start first head,UInt64.toNat_zero,Nat.zero_mul]
  exact Nat.zero_le offset

end Stream

namespace OffsetIndex

variable {size : BlockSize} {extents front back : List Extent} {extent : Extent} {offset : Nat} {index : OffsetIndex}

-- The window of an extent starts where the bytes before it end.
theorem lookup_streamOffset (ordered : Ordered (front ++ extent :: back))
    (built : build size (front ++ extent :: back) = .ok index) (covered : extent.covers offset size) :
    ∃ window, index.windows[front.length]? = some window ∧ window.extent = extent ∧
      index.lookup (streamOffset size (front ++ extent :: back) offset) = some window ∧
      window.delta (streamOffset size (front ++ extent :: back) offset) =
        offset - extent.startOffset.toNat * size.bytes := by
  obtain ⟨owners,laid⟩ := build_laid built
  obtain ⟨early,late,listed,passed,tail⟩ := List.map_eq_append_iff.mp owners
  obtain ⟨window,later,rfl,rfl,rest⟩ := List.map_eq_cons_iff.mp tail
  have whole : index = ⟨(early ++ window :: later).toArray⟩ := by rw [← listed]
  rw [listed] at laid
  obtain ⟨middle,first,second⟩ := laid.split
  have starts := first.stop_eq
  rw [passed,Nat.zero_add] at starts
  obtain ⟨begins,ends⟩ := Extent.covers_iff.mp covered
  rw [window.extent.end_bytes] at ends
  rw [streamOffset_split ordered covered,whole]
  refine ⟨window,?_,rfl,lookup_eq laid ?_,?_⟩
  · simp [← passed]
  · cases second with
    | cons _ long later =>
      simp only [IndexWindow.contains,Bool.and_eq_true,decide_eq_true_eq]
      omega
  · cases second with
    | cons _ long later =>
      rw [IndexWindow.delta]
      omega

theorem lookup_isSome (built : build size extents = .ok index) (offset : Nat) :
    (index.lookup offset).isSome ↔ offset < mappedBytes size extents := by
  have cut := build_partitions built
  rw [cut.found,cut.mapped]

theorem resolveOffset_eq (built : build size extents = .ok index) (offset : Nat) :
    resolveOffset size extents offset = .ok ((index.lookup offset).map (·.extent)) := by
  rw [resolveOffset,built]

theorem resolveOffset_covers (ordered : Ordered extents) (built : build size extents = .ok index)
    (whole : IsLowerSet (coveredBytes size extents)) (offset : Nat) :
    resolveOffset size extents offset = .ok (extents.find? fun extent => extent.covers offset size) := by
  rw [resolveOffset_eq built]
  cases found : extents.find? fun extent => extent.covers offset size with
  | none =>
    cases searched : index.lookup offset with
    | none => rfl
    | some window =>
      have mapped := (lookup_isSome built offset).mp (by rw [searched]; rfl)
      rw [← Set.mem_Iio,← coveredBytes_eq ordered whole,← find?_covers_isSome,found] at mapped
      cases mapped
  | some extent =>
    have covered : extent.covers offset size := by simpa using List.find?_some found
    have member := List.mem_of_find?_eq_some found
    have same : streamOffset size extents offset = offset := streamOffset_eqOn ordered whole ⟨extent,member,covered⟩
    obtain ⟨front,back,rfl⟩ := List.append_of_mem member
    obtain ⟨window,_,owner,searched,_⟩ := lookup_streamOffset ordered built covered
    rw [same] at searched
    rw [searched,← owner]
    rfl

theorem isLowerSet_of_resolveOffset (built : build size extents = .ok index) (agree : ∀ offset,
    resolveOffset size extents offset = .ok (extents.find? fun extent => extent.covers offset size)) :
    IsLowerSet (coveredBytes size extents) := by
  have covered (offset : Nat) : offset ∈ coveredBytes size extents ↔ offset < mappedBytes size extents := by
    have same := agree offset
    rw [resolveOffset_eq built] at same
    rw [← find?_covers_isSome,← lookup_isSome built,← Except.ok.inj same,Option.isSome_map]
  intro later offset below
  rw [covered,covered]
  exact Nat.lt_of_le_of_lt below

-- Offsets in a file and offsets in its stream of mapped bytes are one to one and in one order, by the
-- index's own windows. Asking for the one with the other finds the same extent always, if and only if
-- the file starts with a mapped byte and has no hole before its last.
theorem stream_offsets_exact (ordered : firstDisorder? extents = none) (built : build size extents = .ok index) :
    (∀ front extent back, extents = front ++ extent :: back → ∀ offset, extent.covers offset size →
      streamOffset size extents offset = mappedBytes size front + (offset - extent.startOffset.toNat * size.bytes) ∧
      ∃ window, index.windows[front.length]? = some window ∧ window.extent = extent ∧
        index.lookup (streamOffset size extents offset) = some window ∧
        window.delta (streamOffset size extents offset) = offset - extent.startOffset.toNat * size.bytes) ∧
    StrictMonoOn (streamOffset size extents) (coveredBytes size extents) ∧
    Set.BijOn (streamOffset size extents) (coveredBytes size extents) (Set.Iio index.mappedLength) ∧
    (IsLowerSet (coveredBytes size extents) ↔ ∀ offset,
      resolveOffset size extents offset = .ok (extents.find? fun extent => extent.covers offset size)) ∧
    (IsLowerSet (coveredBytes size extents) → ∀ ag : AgGeometry, ag.blockSize = size → ∀ offset found,
      mapOffset ag extents offset = .ok found →
        resolveOffset size extents offset = .ok (found.map (·.extent))) := by
  replace ordered := ordered_of_firstDisorder? ordered
  refine ⟨?each,streamOffset_strictMonoOn ordered,?onto,⟨?agree,?whole⟩,?resolved⟩
  case each =>
    rintro front extent back rfl offset covered
    exact ⟨streamOffset_split ordered covered,lookup_streamOffset ordered built covered⟩
  case onto =>
    rw [build_mappedLength built]
    exact streamOffset_bijOn ordered
  case agree => exact resolveOffset_covers ordered built
  case whole => exact isLowerSet_of_resolveOffset built
  case resolved =>
    rintro whole ag rfl offset found mapped
    rw [mapOffset_extent mapped]
    exact resolveOffset_covers ordered built whole offset

-- Past a hole the two kinds of offset are apart by its length, and an empty extent in it changes nothing.
def holedExtents : List Extent := [⟨0,10,2,.normal⟩,⟨3,20,0,.normal⟩,⟨5,30,1,.unwritten⟩]

def wholeExtents : List Extent := [⟨0,10,2,.normal⟩,⟨2,20,0,.normal⟩,⟨2,30,1,.unwritten⟩]

theorem stream_offsets_exact_holed :
    let holed : OffsetIndex :=
      ⟨#[⟨0,1024,⟨0,10,2,.normal⟩⟩,⟨1024,1024,⟨3,20,0,.normal⟩⟩,⟨1024,1536,⟨5,30,1,.unwritten⟩⟩]⟩
    firstDisorder? holedExtents = none ∧ build .smallest holedExtents = .ok holed ∧
      holed.lookup 1124 = some ⟨1024,1536,⟨5,30,1,.unwritten⟩⟩ ∧
      ¬ IsLowerSet (coveredBytes .smallest holedExtents) ∧
      firstDisorder? wholeExtents = none ∧ (∃ index, build .smallest wholeExtents = .ok index) ∧
      ∀ offset, resolveOffset .smallest wholeExtents offset =
        .ok (wholeExtents.find? fun extent => extent.covers offset .smallest) := by
  intro holed
  have apart : firstDisorder? holedExtents = none := by decide
  have indexed : build .smallest holedExtents = .ok holed := rfl
  obtain ⟨each,_,_,agree,_⟩ := stream_offsets_exact apart indexed
  obtain ⟨moved,window,third,_,searched,_⟩ :=
    each [⟨0,10,2,.normal⟩,⟨3,20,0,.normal⟩] ⟨5,30,1,.unwritten⟩ [] rfl 2660 (by decide)
  cases third
  have stream : streamOffset .smallest holedExtents 2660 = 1124 := by
    rw [moved]
    decide
  rw [stream] at searched
  have different : ¬ IsLowerSet (coveredBytes .smallest holedExtents) := by
    intro whole
    have same := agree.mp whole 1124
    rw [resolveOffset_eq indexed,searched] at same
    exact absurd (Except.ok.inj same) (by decide)
  have adjoining : IsLowerSet (coveredBytes .smallest wholeExtents) := by
    refine isLowerSet_coveredBytes ?_ ?_
    · exact .cons_cons rfl (.cons_cons rfl (.singleton _))
    · intro first head
      cases head
      rfl
  have ordered : firstDisorder? wholeExtents = none := by decide
  obtain ⟨index,built⟩ := build_fits (show mappedBytes .smallest wholeExtents < 0x10000000000000000 by decide)
  obtain ⟨_,_,_,equal,_⟩ := stream_offsets_exact ordered built
  exact ⟨apart,indexed,searched,different,ordered,⟨index,built⟩,equal.mp adjoining⟩

end OffsetIndex

end XfsReader
