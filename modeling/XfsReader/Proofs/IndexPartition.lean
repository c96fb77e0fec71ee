import XfsReader.Proofs.DataWindows
import XfsReader.Volume.FileOffset

-- The windows of an index cut the mapped bytes up: every mapped byte lies in one of them alone, and
-- the search by halves gives the window that a look at one after another gives.
namespace XfsReader

-- All that a list of extents maps, whether or not a word can hold it.
def mappedBytes (size : BlockSize) : List Extent → Nat
  | [] => 0
  | extent :: extents => extent.byteLength size + mappedBytes size extents

theorem mappedBytes_dvd (size : BlockSize) (extents : List Extent) : size.bytes ∣ mappedBytes size extents := by
  induction extents with
  | nil => exact Nat.dvd_zero _
  | cons extent extents ih =>
    apply Nat.dvd_add _ ih
    exact Nat.dvd_mul_left _ _

namespace Laid

variable {size : BlockSize} {position stop offset : Nat} {windows : List IndexWindow}

theorem stop_eq (laid : Laid size position windows stop) :
    stop = position + mappedBytes size (windows.map (·.extent)) := by
  induction laid with
  | nil => simp [mappedBytes]
  | cons window long later ih =>
    rw [ih,long]
    simp [mappedBytes,Nat.add_assoc]

theorem countP_before (laid : Laid size position windows stop) (before : offset < position) :
    windows.countP (·.contains offset) = 0 := by
  apply List.countP_eq_zero.mpr
  intro window member
  have bounds := laid.within member
  simp only [IndexWindow.contains,Bool.and_eq_true,decide_eq_true_eq]
  omega

-- By induction on the windows: the one that holds the offset ends past it, and all later ones start
-- past it.
theorem countP_contains (laid : Laid size position windows stop) (reached : position ≤ offset) :
    windows.countP (·.contains offset) = if offset < stop then 1 else 0 := by
  induction laid with
  | nil =>
    rw [if_neg (Nat.not_lt_of_le reached)]
    rfl
  | @cons window rest stop long later ih =>
    by_cases inside : offset < window.stop
    · have here : window.contains offset = true := by simp [IndexWindow.contains,reached,inside]
      have mapped : offset < stop := Nat.lt_of_lt_of_le inside later.le
      rw [List.countP_cons,later.countP_before inside,if_pos here,if_pos mapped]
    · have ended : ¬ window.contains offset = true := by simp [IndexWindow.contains,inside]
      rw [List.countP_cons,if_neg ended]
      exact ih (Nat.le_of_not_lt inside)

end Laid

namespace OffsetIndex

variable {size : BlockSize} {extents : List Extent} {start offset : Nat} {index : OffsetIndex} {window : IndexWindow}

-- A sum that fits has only sums before it that fit.
theorem windowsFrom_fits (fits : start + mappedBytes size extents < 0x10000000000000000) :
    ∃ windows, windowsFrom size start extents = .ok windows := by
  induction extents generalizing start with
  | nil => exact ⟨[],rfl⟩
  | cons extent extents ih =>
    rw [mappedBytes,← Nat.add_assoc] at fits
    have ends : fit64? (start + extent.byteLength size) = some (start + extent.byteLength size) :=
      fit64?_eq_some.mpr ⟨by omega,rfl⟩
    obtain ⟨windows,laid⟩ := ih fits
    exact ⟨⟨start,start + extent.byteLength size,extent⟩ :: windows,by simp [windowsFrom,ends,laid]⟩

theorem windowsFrom_overflows (small : start < 0x10000000000000000)
    (large : 0x10000000000000000 ≤ start + mappedBytes size extents) :
    windowsFrom size start extents = .error (.integerConversion "extent_index_offset") := by
  induction extents generalizing start with
  | nil =>
    rw [mappedBytes] at large
    omega
  | cons extent extents ih =>
    rw [mappedBytes,← Nat.add_assoc] at large
    rw [windowsFrom]
    cases fits : fit64? (start + extent.byteLength size) with
    | none => rfl
    | some stop =>
      obtain ⟨less,rfl⟩ := fit64?_eq_some.mp fits
      simp [ih less large]

theorem build_fits (fits : mappedBytes size extents < 0x10000000000000000) :
    ∃ index, build size extents = .ok index := by
  rw [← Nat.zero_add (mappedBytes size extents)] at fits
  obtain ⟨windows,laid⟩ := windowsFrom_fits fits
  exact ⟨⟨windows.toArray⟩,by simp [build,laid]⟩

theorem build_overflows (large : 0x10000000000000000 ≤ mappedBytes size extents) :
    build size extents = .error (.integerConversion "extent_index_offset") := by
  rw [← Nat.zero_add (mappedBytes size extents)] at large
  simp [build,windowsFrom_overflows (by decide) large]

theorem build_eq_error {error : DecodeError} :
    build size extents = .error error ↔
      0x10000000000000000 ≤ mappedBytes size extents ∧ error = .integerConversion "extent_index_offset" := by
  constructor
  · intro refused
    rcases Nat.lt_or_ge (mappedBytes size extents) 0x10000000000000000 with fits | large
    · obtain ⟨index,built⟩ := build_fits fits
      rw [built] at refused
      cases refused
    · rw [build_overflows large] at refused
      cases refused
      exact ⟨large,rfl⟩
  · rintro ⟨large,rfl⟩
    exact build_overflows large

theorem build_small (built : build size extents = .ok index) : mappedBytes size extents < 0x10000000000000000 := by
  apply Nat.lt_of_not_le
  intro large
  rw [build_overflows large] at built
  cases built

theorem build_laid (built : build size extents = .ok index) :
    index.windows.toList.map (·.extent) = extents ∧
      Laid size 0 index.windows.toList (mappedBytes size extents) := by
  unfold build at built
  split at built
  · cases built
  · rename_i windows laid
    cases built
    obtain ⟨same,stop,follow⟩ := windowsFrom_laid laid
    have ends := follow.stop_eq
    rw [same,Nat.zero_add] at ends
    subst ends
    exact ⟨same,follow⟩

theorem build_mappedLength (built : build size extents = .ok index) :
    index.mappedLength = mappedBytes size extents :=
  mappedLength_eq (build_laid built).2

-- Windows end at whole blocks, and so does the last of them.
theorem mappedLength_whole (built : build size extents = .ok index) :
    size.bytes ∣ index.mappedLength ∧ index.mappedLength < 0x10000000000000000 := by
  rw [build_mappedLength built]
  exact ⟨mappedBytes_dvd size extents,build_small built⟩

theorem lookup_member (found : index.lookup offset = some window) :
    window ∈ index.windows.toList ∧ window.contains offset = true := by
  unfold lookup at found
  split at found
  · cases found
  · rename_i searched
    split at found
    · rename_i inside
      obtain rfl := Option.some.inj found
      have member := Array.mem_of_getElem? searched
      exact ⟨by simpa using member,inside⟩
    · cases found

-- What the scan finds lies somewhere in the list, and there the search finds it too.
theorem lookup_eq_scan {stop : Nat} (laid : Laid size 0 index.windows.toList stop) (offset : Nat) :
    index.lookup offset = index.scan offset := by
  cases scanned : index.scan offset with
  | none =>
    cases found : index.lookup offset with
    | none => rfl
    | some window =>
      obtain ⟨member,inside⟩ := lookup_member found
      have outside := List.find?_eq_none.mp scanned window member
      exact absurd inside outside
  | some window =>
    have inside : window.contains offset := by simpa using List.find?_some scanned
    obtain ⟨front,back,listed⟩ := List.append_of_mem (List.mem_of_find?_eq_some scanned)
    have whole : index = ⟨(front ++ window :: back).toArray⟩ := by rw [← listed]
    rw [listed] at laid
    rw [whole]
    exact lookup_eq laid inside

theorem scan_isSome (index : OffsetIndex) (offset : Nat) :
    (index.scan offset).isSome ↔ 0 < index.windows.toList.countP (·.contains offset) := by
  rw [scan,List.find?_isSome,List.countP_pos_iff]

-- An index over a list of extents: windows for the extents in order, end to end from zero, and every
-- offset either past all of them or in exactly one, the one that both ways of looking find.
structure Partitions (index : OffsetIndex) (size : BlockSize) (extents : List Extent) : Prop where
  owners : index.windows.toList.map (·.extent) = extents
  laid : Laid size 0 index.windows.toList (mappedBytes size extents)
  mapped : index.mappedLength = mappedBytes size extents
  searched : ∀ offset, index.lookup offset = index.scan offset
  found : ∀ offset, (index.lookup offset).isSome ↔ offset < index.mappedLength
  single : ∀ offset,
    index.windows.toList.countP (·.contains offset) = if offset < index.mappedLength then 1 else 0
  resolved : ∀ offset, resolveOffset size extents offset = .ok ((index.scan offset).map (·.extent))

theorem build_partitions (built : build size extents = .ok index) : index.Partitions size extents := by
  obtain ⟨owners,laid⟩ := build_laid built
  have mapped := build_mappedLength built
  have single (offset : Nat) :
      index.windows.toList.countP (·.contains offset) = if offset < index.mappedLength then 1 else 0 := by
    rw [mapped]
    exact laid.countP_contains (Nat.zero_le offset)
  refine ⟨owners,laid,mapped,lookup_eq_scan laid,?_,single,?_⟩
  · intro offset
    rw [lookup_eq_scan laid,scan_isSome,single]
    split <;> simp_all
  · intro offset
    simp [resolveOffset,built,lookup_eq_scan laid]

theorem windows_partition_mapped_bytes (size : BlockSize) (extents : List Extent) :
    (∀ error, build size extents = .error error ↔
      0x10000000000000000 ≤ mappedBytes size extents ∧ error = .integerConversion "extent_index_offset") ∧
    ∀ index, build size extents = .ok index → index.Partitions size extents := by
  constructor
  · intro error
    exact build_eq_error
  · intro index built
    exact build_partitions built

-- An empty window between two others ends where it starts, so the offset there is in the third.
theorem windows_partition_mapped_bytes_empty :
    build .smallest [⟨9,10,2,.normal⟩,⟨0,20,0,.normal⟩,⟨4,30,1,.unwritten⟩] =
        .ok ⟨#[⟨0,1024,⟨9,10,2,.normal⟩⟩,⟨1024,1024,⟨0,20,0,.normal⟩⟩,⟨1024,1536,⟨4,30,1,.unwritten⟩⟩]⟩ ∧
      Partitions ⟨#[⟨0,1024,⟨9,10,2,.normal⟩⟩,⟨1024,1024,⟨0,20,0,.normal⟩⟩,⟨1024,1536,⟨4,30,1,.unwritten⟩⟩]⟩
        .smallest [⟨9,10,2,.normal⟩,⟨0,20,0,.normal⟩,⟨4,30,1,.unwritten⟩] :=
  ⟨rfl,(windows_partition_mapped_bytes _ _).2 _ rfl⟩

end OffsetIndex
end XfsReader
