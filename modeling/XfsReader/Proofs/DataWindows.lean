import XfsReader.Proofs.Traversal
import XfsReader.Volume.Preorder

-- The windows of an index follow one another without a gap, so the search by halves finds the one
-- window that holds a position, and the scan over positions takes each extent's blocks in turn.
namespace XfsReader

-- Windows from a position on, one after another up to where the last one ends.
inductive Laid (size : BlockSize) : Nat → List IndexWindow → Nat → Prop
  | nil {position} : Laid size position [] position
  | cons (window) {rest stop} (long : window.stop = window.start + window.extent.byteLength size)
      (later : Laid size window.stop rest stop) : Laid size window.start (window :: rest) stop

theorem OffsetIndex.windowsFrom_laid {size : BlockSize} {start : Nat} {extents : List Extent}
    {windows : List IndexWindow} (laid : windowsFrom size start extents = .ok windows) :
    windows.map (·.extent) = extents ∧ ∃ stop, Laid size start windows stop := by
  induction extents generalizing start windows with
  | nil => cases laid; exact ⟨rfl,start,.nil⟩
  | cons extent extents ih =>
    rw [windowsFrom] at laid
    cases fits : fit64? (start + extent.byteLength size) with
    | none => simp [fits] at laid
    | some stop =>
      obtain ⟨_,rfl⟩ := fit64?_eq_some.mp fits
      simp only [fits] at laid
      cases later : windowsFrom size (start + extent.byteLength size) extents with
      | error error => simp [later] at laid
      | ok rest =>
        simp only [later,Except.ok.injEq] at laid
        subst laid
        obtain ⟨same,stop,follow⟩ := ih later
        exact ⟨by simp [same],stop,.cons ⟨start,_,extent⟩ rfl follow⟩

namespace Laid

variable {size : BlockSize} {position stop : Nat} {windows front back : List IndexWindow}

theorem le (laid : Laid size position windows stop) : position ≤ stop := by
  induction laid with
  | nil => exact Nat.le_refl _
  | cons window long later ih => omega

theorem split (laid : Laid size position (front ++ back) stop) :
    ∃ middle, Laid size position front middle ∧ Laid size middle back stop := by
  induction front generalizing position with
  | nil => exact ⟨position,.nil,laid⟩
  | cons window front ih =>
    cases laid with
    | cons window long later =>
      obtain ⟨middle,first,second⟩ := ih later
      exact ⟨middle,.cons window long first,second⟩

theorem within (laid : Laid size position windows stop) {window : IndexWindow} (member : window ∈ windows) :
    position ≤ window.start ∧ window.start ≤ window.stop ∧ window.stop ≤ stop := by
  obtain ⟨front,back,rfl⟩ := List.append_of_mem member
  obtain ⟨middle,first,second⟩ := laid.split
  have before := first.le
  cases second with
  | cons _ long later =>
    have after := later.le
    omega

theorem last (laid : Laid size position windows stop) : (windows.getLast?.map (·.stop)).getD position = stop := by
  induction laid with
  | nil => rfl
  | @cons window rest stop long later ih =>
    cases rest with
    | nil => simpa using ih
    | cons next rest =>
      rw [List.getLast?_cons_cons]
      cases ends : (next :: rest).getLast? with
      | none => simp at ends
      | some final => simpa [ends] using ih

end Laid

namespace OffsetIndex

-- The search ends at the one place with only ended windows before it and none from it on.
theorem firstPast_eq {windows : Array IndexWindow} {offset low high target : Nat} (lower : low ≤ target)
    (upper : target ≤ high) (inside : high ≤ windows.size)
    (before : ∀ index window, index < target → windows[index]? = some window → window.stop ≤ offset)
    (after : ∀ index window, target ≤ index → windows[index]? = some window → offset < window.stop) :
    firstPast windows offset low high = target := by
  fun_induction firstPast windows offset low high with
  | case1 low high searching middle missing =>
    have outside := Array.getElem?_eq_none_iff.mp missing
    omega
  | case2 low high searching middle window found ended ih =>
    have left : middle < target := by
      apply Nat.lt_of_not_le
      intro right
      have running := after middle window right found
      omega
    exact ih left upper inside
  | case3 low high searching middle window found running ih =>
    have right : target ≤ middle := by
      apply Nat.le_of_not_lt
      intro left
      exact running (before middle window left found)
    exact ih lower right (by omega)
  | case4 low high closed => omega

variable {size : BlockSize} {front back : List IndexWindow} {window : IndexWindow} {position start stop : Nat}

theorem lookup_eq (laid : Laid size start (front ++ window :: back) stop) (inside : window.contains position) :
    (OffsetIndex.mk (front ++ window :: back).toArray).lookup position = some window := by
  simp only [IndexWindow.contains,Bool.and_eq_true,decide_eq_true_eq] at inside
  obtain ⟨middle,first,second⟩ := laid.split
  have sought : firstPast (front ++ window :: back).toArray position 0 (front ++ window :: back).toArray.size =
      front.length := by
    refine firstPast_eq (Nat.zero_le _) (by simp) (Nat.le_refl _) ?_ ?_
    · intro index other left found
      rw [List.getElem?_toArray,List.getElem?_append_left left] at found
      have ended := (first.within (List.mem_of_getElem? found)).2.2
      cases second with
      | cons _ long later => omega
    · intro index other right found
      rw [List.getElem?_toArray,List.getElem?_append_right right] at found
      cases second with
      | cons _ long later =>
        rcases List.mem_cons.mp (List.mem_of_getElem? found) with rfl | farther
        · exact inside.2
        · have bounds := later.within farther
          omega
  rw [lookup,sought]
  simp [IndexWindow.contains,inside]

theorem mappedLength_eq {windows : List IndexWindow} (laid : Laid size 0 windows stop) :
    (OffsetIndex.mk windows.toArray).mappedLength = stop := by
  simpa [mappedLength] using laid.last

end OffsetIndex

namespace InodeFork

variable {opened : InodeFork} {index : OffsetIndex}

-- From some block of a window on, what is left of its extent comes before all later windows.
theorem scanFrom_window {front back : List IndexWindow} {window : IndexWindow} {stop : Nat}
    (laid : Laid opened.blockSize 0 (front ++ window :: back) stop) (done left : Nat)
    (whole : done + left = window.extent.blockCount.toNat) :
    opened.scanFrom ⟨(front ++ window :: back).toArray⟩ (window.start + done * opened.blockSize.bytes) = do
      let first ← forBlocks (opened.dataBlock window.extent) done left
      let rest ← opened.scanFrom ⟨(front ++ window :: back).toArray⟩ window.stop
      return first ++ rest := by
  obtain ⟨middle,before,after⟩ := laid.split
  have long : window.stop = window.start + window.extent.blockCount.toNat * opened.blockSize.bytes := by
    cases after with
    | cons _ long later => exact long
  induction left generalizing done with
  | zero =>
    have ended : window.start + done * opened.blockSize.bytes = window.stop := by rw [long,← whole,Nat.add_zero]
    rw [ended]
    simp [forBlocks]
  | succ left ih =>
    have stays : window.start + done * opened.blockSize.bytes < window.stop := by
      rw [long,← whole]
      have positive := opened.blockSize.bytes_pos
      have fewer : done < done + (left + 1) := by omega
      have scaled := Nat.mul_lt_mul_of_pos_right fewer positive
      omega
    have mapped : window.stop ≤ stop := (laid.within (by simp)).2.2
    have found : (OffsetIndex.mk (front ++ window :: back).toArray).lookup
        (window.start + done * opened.blockSize.bytes) = some window :=
      OffsetIndex.lookup_eq laid (by simp [IndexWindow.contains,stays])
    have block : opened.blockSize.blockOf (window.delta (window.start + done * opened.blockSize.bytes)) = done := by
      rw [IndexWindow.delta,Nat.add_sub_cancel_left,BlockSize.blockOf]
      exact Nat.mul_div_cancel done opened.blockSize.bytes_pos
    have onward : window.start + done * opened.blockSize.bytes + opened.blockSize.bytes =
        window.start + (done + 1) * opened.blockSize.bytes := by
      rw [Nat.succ_mul,Nat.add_assoc]
    rw [scanFrom,OffsetIndex.mappedLength_eq laid,if_pos (by omega),found]
    simp only [block,onward]
    rw [ih (done + 1) (by omega)]
    simp only [forBlocks,bind_assoc,pure_bind,List.append_assoc]

theorem scanFrom_extents (front : List IndexWindow) {back : List IndexWindow} {position stop : Nat}
    (laid : Laid opened.blockSize 0 (front ++ back) stop) (rest : Laid opened.blockSize position back stop) :
    opened.scanFrom ⟨(front ++ back).toArray⟩ position = forExtents opened.dataBlock (back.map (·.extent)) := by
  induction back generalizing front position with
  | nil =>
    cases rest with
    | nil =>
      rw [scanFrom,OffsetIndex.mappedLength_eq laid,if_neg (Nat.lt_irrefl _)]
      rfl
  | cons window back ih =>
    cases rest with
    | cons _ long later =>
      have regrouped : front ++ window :: back = front ++ [window] ++ back := by simp
      have first := scanFrom_window laid 0 window.extent.blockCount.toNat (Nat.zero_add _)
      rw [Nat.zero_mul,Nat.add_zero] at first
      rw [first,List.map_cons,forExtents]
      congr 1
      funext found
      rw [regrouped] at laid ⊢
      rw [ih (front ++ [window]) laid later]

theorem dataPlaces_byExtent (opened : InodeFork) (extents : List Extent) :
    opened.dataPlaces extents =
      Traversal.ofExcept (located opened.position (OffsetIndex.build opened.blockSize extents)) >>=
        fun _ => opened.dataPlacesByExtent extents := by
  rw [dataPlaces]
  cases built : OffsetIndex.build opened.blockSize extents with
  | error error => rfl
  | ok index =>
    rw [OffsetIndex.build] at built
    cases laid : OffsetIndex.windowsFrom opened.blockSize 0 extents with
    | error error => simp [laid] at built
    | ok windows =>
      simp only [laid,Except.ok.injEq] at built
      subst built
      obtain ⟨same,stop,follow⟩ := OffsetIndex.windowsFrom_laid laid
      change opened.scanFrom ⟨windows.toArray⟩ 0 = opened.dataPlacesByExtent extents
      have scanned := scanFrom_extents [] follow follow
      rw [List.nil_append,same] at scanned
      exact scanned

end InodeFork
end XfsReader
