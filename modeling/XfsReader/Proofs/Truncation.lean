import XfsReader.Proofs.ReadSites

-- A device cut short answers a read as the whole one does or refuses it as truncated. A traversal
-- on it therefore goes on as it would on the whole device, or ends at such a read.
namespace XfsReader

structure Device.Truncated (short full : Device) : Prop where
  size : short.size ≤ full.size
  bytes : ∀ position < short.size, short.byte position = full.byte position

namespace Device

theorem ofBytes_take (image : Bytes) (kept : Nat) : Truncated (ofBytes (image.take kept)) (ofBytes image) := by
  have shorter : (image.take kept).size = min kept image.size := by
    rw [Array.take,Array.size_extract,Nat.sub_zero]
  refine ⟨?_,?_⟩
  · change (image.take kept).size ≤ image.size
    rw [shorter]
    exact Nat.min_le_right kept image.size
  · intro position inside
    change position < (image.take kept).size at inside
    change (image.take kept).getD position 0 = image.getD position 0
    rw [shorter] at inside
    have within : position < image.size := Nat.lt_of_lt_of_le inside (Nat.min_le_right kept image.size)
    simp [inside,within]

theorem read_truncated {short full : Device} (truncated : Truncated short full) (offset length : Nat) :
    short.read offset length = full.read offset length ∨
      short.read offset length = .error (.truncatedRead offset length (short.size - offset)) ∧
        short.size < offset + length := by
  unfold read
  cases fits : fit64? (offset + length) with
  | none => exact .inl rfl
  | some stop =>
    obtain ⟨_,rfl⟩ := fit64?_eq_some.mp fits
    by_cases cut : short.size < offset + length
    · simp only [cut,if_true]
      exact .inr ⟨trivial,trivial⟩
    · have whole : ¬full.size < offset + length := by
        have shorter := truncated.size
        omega
      have same : short.region offset length = full.region offset length := by
        apply region_congr
        intro index inside
        exact truncated.bytes _ (by omega)
      simp only [cut,whole,if_false,same]
      exact .inl trivial

end Device

theorem Traversal.run_truncated {short full : Device} (truncated : Device.Truncated short full)
    (traversal : Traversal α) :
    traversal.run short = traversal.run full ∨
      ∃ offset needed, short.size < offset + needed ∧
        (traversal.run short).result = .error (.truncatedRead offset needed (short.size - offset)) ∧
        (traversal.run short).reads <+: (traversal.run full).reads := by
  induction traversal with
  | done value => exact .inl rfl
  | fail error => exact .inl rfl
  | warn warning next ih =>
    rcases ih with same | ⟨offset,needed,past,ended,asked⟩
    · left
      simp only [run,same]
    · exact .inr ⟨offset,needed,past,ended,asked⟩
  | read request next ih =>
    rcases Device.read_truncated truncated request.offset request.length with same | ⟨refused,past⟩
    · have answered : short.answer request = full.answer request := same
      cases got : full.answer request with
      | error error =>
        left
        simp only [run,answered,got]
      | ok found =>
        rcases ih found with later | ⟨offset,needed,past,ended,asked⟩
        · left
          simp only [run,answered,got,later]
        · right
          refine ⟨offset,needed,past,?_,?_⟩
          · simp only [run,answered,got]
            exact ended
          · simp only [run,answered,got]
            exact List.cons_prefix_cons.mpr ⟨rfl,asked⟩
    · right
      have unanswered : short.answer request =
          .error (.truncatedRead request.offset request.length (short.size - request.offset)) := refused
      refine ⟨request.offset,request.length,past,?_,?_⟩
      · simp only [run,unanswered]
      · simp only [run,unanswered]
        cases full.answer request with
        | error error => exact List.prefix_refl _
        | ok found => exact List.cons_prefix_cons.mpr ⟨rfl,List.nil_prefix⟩

-- Nothing that is asked of a volume comes out otherwise for want of the image's last bytes: where it
-- does not come out the same, the run ends at a read that passes the end of what is left, having
-- asked for nothing that it does not ask of the whole image.
theorem truncated_image_same_or_short (operation : Operation α) (volume : Volume) (inode : UInt64)
    (image : Bytes) (kept : Nat) :
    let short := (operation.traversal volume inode).run (.ofBytes (image.take kept))
    let full := (operation.traversal volume inode).run (.ofBytes image)
    short = full ∨
      ∃ offset needed actual, (image.take kept).size < offset + needed ∧
        short.result = .error (.truncatedRead offset needed actual) ∧ short.reads <+: full.reads := by
  intro short full
  rcases (operation.traversal volume inode).run_truncated (Device.ofBytes_take image kept) with
    same | ⟨offset,needed,past,ended,asked⟩
  · exact .inl same
  · exact .inr ⟨offset,needed,_,past,ended,asked⟩

end XfsReader
