import XfsReader.DecodeError
import XfsReader.Word64

-- A decoder sees its buffer through slices alone: it asks for a stretch of bytes and goes on with
-- what it gets. It never learns the buffer's length, so what lies past its furthest slice cannot
-- matter.
namespace XfsReader

inductive Decoder (α : Type) where
  | done (value : α)
  | fail (error : DecodeError)
  | slice (offset length : Nat) (next : Bytes → Decoder α)

def sliceOf (bytes : Bytes) (offset length : Nat) : Except DecodeError Bytes :=
  match fit64? (offset + length) with
  | none => .error (.invalidField "offset" "overflow")
  | some stop =>
    if bytes.size < stop then .error (.insufficientData length offset (bytes.size - offset))
    else .ok (Bytes.part bytes offset length)

namespace Decoder

def run : Decoder α → Bytes → Except DecodeError α
  | .done value, _ => .ok value
  | .fail error, _ => .error error
  | .slice offset length next, bytes =>
    match sliceOf bytes offset length with
    | .error error => .error error
    | .ok found => (next found).run bytes

protected def bind : Decoder α → (α → Decoder β) → Decoder β
  | .done value, next => next value
  | .fail error, _ => .fail error
  | .slice offset length rest, next => .slice offset length fun found => (rest found).bind next

instance : Monad Decoder where
  pure := .done
  bind := Decoder.bind

theorem bind_done (decoder : Decoder α) : decoder.bind .done = decoder := by
  induction decoder with
  | done value => rfl
  | fail error => rfl
  | slice offset length next ih => simp only [Decoder.bind]; congr 1; funext found; exact ih found

theorem bind_assoc (decoder : Decoder α) (first : α → Decoder β) (second : β → Decoder γ) :
    (decoder.bind first).bind second = decoder.bind fun value => (first value).bind second := by
  induction decoder with
  | done value => rfl
  | fail error => rfl
  | slice offset length next ih => simp only [Decoder.bind]; congr 1; funext found; exact ih found

instance : LawfulMonad Decoder := LawfulMonad.mk' Decoder
  (by intro α decoder; exact bind_done decoder)
  (by intro α β value next; rfl)
  (by intro α β γ decoder first second; exact bind_assoc decoder first second)

@[simp] theorem run_pure (value : α) (bytes : Bytes) : (pure value : Decoder α).run bytes = .ok value := rfl

@[simp] theorem run_done (value : α) (bytes : Bytes) : (Decoder.done value).run bytes = .ok value := rfl

@[simp] theorem run_fail (error : DecodeError) (bytes : Bytes) :
    (Decoder.fail error : Decoder α).run bytes = .error error := rfl

@[simp] theorem run_bind (decoder : Decoder α) (next : α → Decoder β) (bytes : Bytes) :
    (decoder >>= next).run bytes = (decoder.run bytes).bind fun value => (next value).run bytes := by
  change (decoder.bind next).run bytes = _
  induction decoder with
  | done value => rfl
  | fail error => rfl
  | slice offset length rest ih =>
    simp only [Decoder.bind,run]
    cases sliceOf bytes offset length with
    | error error => rfl
    | ok found => exact ih found

def ofExcept : Except DecodeError α → Decoder α
  | .ok value => .done value
  | .error error => .fail error

@[simp] theorem run_ofExcept (result : Except DecodeError α) (bytes : Bytes) :
    (ofExcept result).run bytes = result := by
  cases result <;> rfl

-- Every value the decoder can finish with, whatever its slices hold.
def Yields (post : α → Prop) : Decoder α → Prop
  | .done value => post value
  | .fail _ => True
  | .slice _ _ next => ∀ found, (next found).Yields post

theorem Yields.bind {post : α → Prop} {goal : β → Prop} {decoder : Decoder α} {next : α → Decoder β}
    (first : decoder.Yields post) (later : ∀ value, post value → (next value).Yields goal) :
    (decoder >>= next).Yields goal := by
  change (decoder.bind next).Yields goal
  induction decoder with
  | done value => exact later value first
  | fail error => trivial
  | slice offset length rest ih => intro found; exact ih found (first found)

theorem Yields.any (decoder : Decoder α) : decoder.Yields fun _ => True := by
  induction decoder with
  | done value => trivial
  | fail error => trivial
  | slice offset length next ih => exact ih

theorem Yields.run {post : α → Prop} {decoder : Decoder α} {bytes : Bytes} {value : α}
    (yields : decoder.Yields post) (ran : decoder.run bytes = .ok value) : post value := by
  induction decoder with
  | done value => cases ran; exact yields
  | fail error => cases ran
  | slice offset length next ih =>
    simp only [Decoder.run] at ran
    cases got : sliceOf bytes offset length with
    | error error => simp [got] at ran
    | ok found => exact ih found (yields found) (by simpa [got] using ran)

def u8 (offset : Nat) : Decoder UInt8 :=
  .slice offset 1 fun raw => .done (Bytes.byteAt raw 0)

def be16 (offset : Nat) : Decoder UInt16 :=
  .slice offset 2 fun raw => .done (Bytes.be16 raw 0)

def be32 (offset : Nat) : Decoder UInt32 :=
  .slice offset 4 fun raw => .done (Bytes.be32 raw 0)

def be64 (offset : Nat) : Decoder UInt64 :=
  .slice offset 8 fun raw => .done (Bytes.be64 raw 0)

def le32 (offset : Nat) : Decoder UInt32 :=
  .slice offset 4 fun raw => .done (UInt32.ofNat (littleEndian raw.toList))

def bytes (offset length : Nat) : Decoder (List UInt8) :=
  .slice offset length fun raw => .done raw.toList

def fixed16 (offset : Nat) : Decoder (Vector UInt8 16) :=
  .slice offset 16 fun raw => .done (Vector.ofFn fun index => Bytes.byteAt raw index)

-- Ask for a stretch before its fields, so that a short buffer is reported as lacking the whole
-- stretch.
def require (offset length : Nat) : Decoder Unit :=
  .slice offset length fun _ => .done ()

def table (offset stride count : Nat) (record : Nat → Decoder α) : Decoder (List α) :=
  (List.range count).mapM fun index => record (offset + stride * index)

theorem mapM_yields (items : List α) (record : α → Decoder β) :
    (items.mapM record).Yields fun found => found.length = items.length := by
  induction items with
  | nil => exact rfl
  | cons item items ih =>
    rw [List.mapM_cons]
    refine .bind (.any _) fun first _ => .bind ih fun rest same => ?_
    change (first :: rest).length = (item :: items).length
    simp [same]

theorem table_yields (offset stride count : Nat) (record : Nat → Decoder α) :
    (table offset stride count record).Yields fun found => found.length = count := by
  have listed := mapM_yields (List.range count) fun index => record (offset + stride * index)
  simpa [table] using listed

end Decoder
end XfsReader
