import XfsReader.Decoder
import XfsReader.VolumeError

-- What a decoder makes of a buffer depends on its slices alone: where another buffer gives the same
-- slices, it decodes to the same.
namespace XfsReader

theorem bind_eq_ok {result : Except ε α} {next : α → Except ε β} :
    result >>= next = .ok value ↔ ∃ middle, result = .ok middle ∧ next middle = .ok value := by
  cases result with
  | error error => exact ⟨fun absurd => (nomatch absurd),fun ⟨_,absurd,_⟩ => (nomatch absurd)⟩
  | ok found =>
    refine ⟨fun finished => ⟨found,rfl,finished⟩,?_⟩
    rintro ⟨middle,same,finished⟩
    cases same
    exact finished

theorem eq_ok_of_toOption {result : Except ε α} (finished : result.toOption = some value) : result = .ok value := by
  cases result with
  | error error => cases finished
  | ok found => cases finished; rfl

theorem located_eq_ok {result : Except DecodeError α} : located offset result = .ok value ↔ result = .ok value := by
  cases result <;> simp

namespace Decoder

theorem run_bind_eq_ok {decoder : Decoder α} {next : α → Decoder β} {bytes : Bytes} {value : β} :
    (decoder >>= next).run bytes = .ok value ↔
      ∃ middle, decoder.run bytes = .ok middle ∧ (next middle).run bytes = .ok value := by
  rw [run_bind]
  exact bind_eq_ok

theorem sliceOf_eq_ok {bytes found : Bytes} {offset length : Nat} :
    sliceOf bytes offset length = .ok found ↔
      offset + length < 0x10000000000000000 ∧ offset + length ≤ bytes.size ∧ Bytes.part bytes offset length = found := by
  unfold sliceOf
  cases fits : fit64? (offset + length) with
  | none =>
    have large := fit64?_eq_none.mp fits
    simp only [reduceCtorEq,false_iff]
    omega
  | some stop =>
    obtain ⟨small,rfl⟩ := fit64?_eq_some.mp fits
    by_cases short : bytes.size < offset + length
    · simp only [short,if_true,reduceCtorEq,false_iff]
      omega
    · simp [short,small,Nat.le_of_not_lt short]

-- A slice that is answered lies in the buffer.
theorem slice_eq_ok {offset length : Nat} {next : Bytes → Decoder α} {bytes : Bytes} {value : α}
    (ran : (slice offset length next).run bytes = .ok value) :
    offset + length < 0x10000000000000000 ∧ offset + length ≤ bytes.size ∧
      (next (Bytes.part bytes offset length)).run bytes = .ok value := by
  rw [run] at ran
  cases got : sliceOf bytes offset length with
  | error error => rw [got] at ran; cases ran
  | ok found =>
    obtain ⟨small,inside,rfl⟩ := sliceOf_eq_ok.mp got
    rw [got] at ran
    exact ⟨small,inside,ran⟩

theorem run_slice_inside {offset length : Nat} {next : Bytes → Decoder α} {bytes : Bytes}
    (small : offset + length < 0x10000000000000000) (inside : offset + length ≤ bytes.size) :
    (slice offset length next).run bytes = (next (Bytes.part bytes offset length)).run bytes := by
  rw [run,sliceOf_eq_ok.mpr ⟨small,inside,rfl⟩]

theorem run_slice_short {offset length : Nat} {next : Bytes → Decoder α} {bytes : Bytes}
    (small : offset + length < 0x10000000000000000) (short : bytes.size < offset + length) :
    (slice offset length next).run bytes = .error (.insufficientData length offset (bytes.size - offset)) := by
  rw [run,sliceOf,fit64?_eq_some.mpr ⟨small,rfl⟩]
  simp [short]

theorem run_u8 {offset : Nat} {bytes : Bytes} (small : offset + 1 < 0x10000000000000000)
    (inside : offset + 1 ≤ bytes.size) : (u8 offset).run bytes = .ok (Bytes.byteAt bytes offset) := by
  rw [u8,run_slice_inside small inside,run_done,Bytes.byteAt_part]

theorem run_be16 {offset : Nat} {bytes : Bytes} (small : offset + 2 < 0x10000000000000000)
    (inside : offset + 2 ≤ bytes.size) : (be16 offset).run bytes = .ok (Bytes.be16 bytes offset) := by
  rw [be16,run_slice_inside small inside,run_done,Bytes.be16_part]

theorem run_be32 {offset : Nat} {bytes : Bytes} (small : offset + 4 < 0x10000000000000000)
    (inside : offset + 4 ≤ bytes.size) : (be32 offset).run bytes = .ok (Bytes.be32 bytes offset) := by
  rw [be32,run_slice_inside small inside,run_done,Bytes.be32_part]

theorem run_be64 {offset : Nat} {bytes : Bytes} (small : offset + 8 < 0x10000000000000000)
    (inside : offset + 8 ≤ bytes.size) : (be64 offset).run bytes = .ok (Bytes.be64 bytes offset) := by
  rw [be64,run_slice_inside small inside,run_done,Bytes.be64_part]

theorem run_of_slices {decoder : Decoder α} {one other : Bytes} {value : α}
    (same : ∀ offset length found, sliceOf one offset length = .ok found → sliceOf other offset length = .ok found)
    (ran : decoder.run one = .ok value) : decoder.run other = .ok value := by
  induction decoder with
  | done result => exact ran
  | fail error => cases ran
  | slice offset length next ih =>
    simp only [run] at ran ⊢
    cases got : sliceOf one offset length with
    | error error => simp [got] at ran
    | ok found =>
      rw [got] at ran
      rw [same offset length found got]
      exact ih found ran

theorem run_field {field : Bytes → α} {offset length : Nat} {one other : Bytes} {value : α}
    (ran : (Decoder.slice offset length fun raw => .done (field raw)).run one = .ok value)
    (same : Bytes.part other offset length = Bytes.part one offset length) (long : offset + length ≤ other.size) :
    (Decoder.slice offset length fun raw => .done (field raw)).run other = .ok value := by
  simp only [run] at ran ⊢
  cases got : sliceOf one offset length with
  | error error => simp [got] at ran
  | ok found =>
    obtain ⟨small,_,rfl⟩ := sliceOf_eq_ok.mp got
    rw [got] at ran
    rw [sliceOf_eq_ok.mpr ⟨small,long,same⟩]
    exact ran

-- Bytes after those that a decoder has seen do not matter to it.
theorem run_take {decoder : Decoder α} {block : Bytes} {stop : Nat} {value : α}
    (ran : decoder.run (block.toList.take stop).toArray = .ok value) : decoder.run block = .ok value := by
  refine run_of_slices ?_ ran
  intro offset length found got
  obtain ⟨small,inside,rfl⟩ := sliceOf_eq_ok.mp got
  rw [List.size_toArray,List.length_take,Array.length_toList] at inside
  refine sliceOf_eq_ok.mpr ⟨small,by omega,?_⟩
  apply Array.ext'
  simp only [Bytes.part,Array.toList_extract,List.extract_eq_take_drop]
  rw [List.drop_take,List.take_take]
  congr 1
  omega

theorem be32_inside {offset : Nat} {bytes : Bytes} {value : UInt32} (read : (be32 offset).run bytes = .ok value) :
    offset + 4 ≤ bytes.size := by
  simp only [be32,run] at read
  cases got : sliceOf bytes offset 4 with
  | error error => rw [got] at read; cases read
  | ok found => exact (sliceOf_eq_ok.mp got).2.1

theorem mapM_each {items : List β} {record : β → Decoder α} {bytes : Bytes} {found : List α}
    (ran : (items.mapM record).run bytes = .ok found) {item : β} (member : item ∈ items) :
    ∃ value, (record item).run bytes = .ok value := by
  induction items generalizing found with
  | nil => cases member
  | cons first items ih =>
    rw [List.mapM_cons] at ran
    obtain ⟨value,one,ran⟩ := run_bind_eq_ok.mp ran
    obtain ⟨rest,others,_⟩ := run_bind_eq_ok.mp ran
    rcases List.mem_cons.mp member with rfl | later
    · exact ⟨value,one⟩
    · exact ih others later

-- A table that is read ends inside the buffer, if its records are as wide as their stride.
theorem table_inside {offset stride count : Nat} {record : Nat → Decoder α} {bytes : Bytes} {found : List α}
    (ran : (table offset stride count record).run bytes = .ok found)
    (wide : ∀ place value, (record place).run bytes = .ok value → place + stride ≤ bytes.size) (filled : 0 < count) :
    offset + stride * count ≤ bytes.size := by
  obtain ⟨value,last⟩ := mapM_each ran (List.mem_range.mpr (Nat.sub_one_lt_of_lt filled))
  have inside := wide _ value last
  have whole : stride * (count - 1) + stride = stride * count := by rw [← Nat.mul_succ,Nat.succ_eq_add_one,Nat.sub_add_cancel filled]
  omega

-- Whatever its slices hold, the decoder finishes with such a value and asks for nothing past the limit.
def Finishes (limit : Nat) (post : α → Prop) : Decoder α → Prop
  | .done value => post value
  | .fail _ => False
  | .slice offset length next => offset + length ≤ limit ∧ ∀ found, (next found).Finishes limit post

variable {limit : Nat} {post : α → Prop} {goal : β → Prop}

theorem Finishes.bind {decoder : Decoder α} {next : α → Decoder β} (first : decoder.Finishes limit post)
    (later : ∀ value, post value → (next value).Finishes limit goal) : (decoder >>= next).Finishes limit goal := by
  change (decoder.bind next).Finishes limit goal
  induction decoder with
  | done value => exact later value first
  | fail error => exact first.elim
  | slice offset length rest ih => exact ⟨first.1,fun found => ih found (first.2 found)⟩

theorem Finishes.run {decoder : Decoder α} {bytes : Bytes} (finishes : decoder.Finishes limit post)
    (long : limit ≤ bytes.size) (small : limit < 0x10000000000000000) :
    ∃ value, decoder.run bytes = .ok value ∧ post value := by
  induction decoder with
  | done value => exact ⟨value,rfl,finishes⟩
  | fail error => exact finishes.elim
  | slice offset length next ih =>
    obtain ⟨inside,later⟩ := finishes
    obtain ⟨value,ran,held⟩ := ih _ (later _)
    refine ⟨value,?_,held⟩
    rw [run_slice_inside (by omega) (by omega)]
    exact ran

-- Where such a decoder fails it is for want of bytes.
theorem Finishes.run_or_short {decoder : Decoder α} (finishes : decoder.Finishes limit post)
    (small : limit < 0x10000000000000000) (bytes : Bytes) :
    (∃ value, decoder.run bytes = .ok value) ∨
      ∃ needed offset actual, decoder.run bytes = .error (.insufficientData needed offset actual) := by
  induction decoder with
  | done value => exact .inl ⟨value,rfl⟩
  | fail error => exact finishes.elim
  | slice offset length next ih =>
    obtain ⟨inside,later⟩ := finishes
    rcases Nat.lt_or_ge bytes.size (offset + length) with short | long
    · exact .inr ⟨_,_,_,run_slice_short (by omega) short⟩
    · rw [run_slice_inside (by omega) long]
      exact ih _ (later _)

theorem mapM_finishes {items : List β} {record : β → Decoder α}
    (each : ∀ item, (record item).Finishes limit fun _ => True) :
    (items.mapM record).Finishes limit fun _ => True := by
  induction items with
  | nil => trivial
  | cons item items ih =>
    rw [List.mapM_cons]
    exact (each item).bind fun first _ => ih.bind fun rest _ => trivial

theorem Finishes.yields {decoder : Decoder α} (finishes : decoder.Finishes limit post) : decoder.Yields post := by
  induction decoder with
  | done value => exact finishes
  | fail error => trivial
  | slice offset length next ih => intro found; exact ih found (finishes.2 found)

theorem run_decided {field : Bytes → β} (rest : β → Decoder α) {holds : β → α → Prop} {offset length : Nat}
    {one other : Bytes} {value : α}
    (ran : (Decoder.slice offset length (fun raw => .done (field raw)) >>= rest).run one = .ok value)
    (each : ∀ magic, (rest magic).Finishes limit (holds magic) ∨ (rest magic).Yields fun _ => False)
    (same : Bytes.part other offset length = Bytes.part one offset length) (inside : offset + length ≤ limit)
    (long : limit ≤ other.size) (small : limit < 0x10000000000000000) :
    ∃ magic again, (Decoder.slice offset length (fun raw => .done (field raw)) >>= rest).run other = .ok again ∧
      holds magic value ∧ holds magic again := by
  obtain ⟨magic,read,decoded⟩ := run_bind_eq_ok.mp ran
  rcases each magic with finishes | refuses
  · obtain ⟨again,finished,held⟩ := finishes.run long small
    have reread := run_field read same (Nat.le_trans inside long)
    exact ⟨magic,again,run_bind_eq_ok.mpr ⟨magic,reread,finished⟩,finishes.yields.run decoded,held⟩
  · exact (refuses.run decoded).elim

section Fields

variable {offset : Nat}

theorem u8_finishes (inside : offset + 1 ≤ limit) : (u8 offset).Finishes limit fun _ => True :=
  ⟨inside,fun _ => trivial⟩

theorem bytes_finishes {length : Nat} (inside : offset + length ≤ limit) :
    (bytes offset length).Finishes limit fun _ => True :=
  ⟨inside,fun _ => trivial⟩

theorem be16_finishes (inside : offset + 2 ≤ limit) : (be16 offset).Finishes limit fun _ => True :=
  ⟨inside,fun _ => trivial⟩

theorem be32_finishes (inside : offset + 4 ≤ limit) : (be32 offset).Finishes limit fun _ => True :=
  ⟨inside,fun _ => trivial⟩

theorem be64_finishes (inside : offset + 8 ≤ limit) : (be64 offset).Finishes limit fun _ => True :=
  ⟨inside,fun _ => trivial⟩

theorem le32_finishes (inside : offset + 4 ≤ limit) : (le32 offset).Finishes limit fun _ => True :=
  ⟨inside,fun _ => trivial⟩

theorem fixed16_finishes (inside : offset + 16 ≤ limit) : (fixed16 offset).Finishes limit fun _ => True :=
  ⟨inside,fun _ => trivial⟩

theorem require_finishes {length : Nat} (inside : offset + length ≤ limit) :
    (require offset length).Finishes limit fun _ => True :=
  ⟨inside,fun _ => trivial⟩

end Fields

end Decoder
end XfsReader
