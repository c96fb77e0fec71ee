import XfsReader.BlockRole
import XfsReader.Device

-- A traversal asks the device for regions, one after another, and may give warnings on the way. It
-- holds no device of its own: what it does depends on the answers to its reads and on nothing else.
namespace XfsReader

-- A leaf block counts stale slots otherwise than its header does.
structure StaleCount where
  offset : Nat
  stated : Nat
  counted : Nat
deriving DecidableEq

-- One region asked of the device. A block says what it is read as; a literal area has no role.
structure ReadRequest where
  role : Option BlockRole
  offset : Nat
  length : Nat
deriving DecidableEq

def Device.answer (device : Device) (request : ReadRequest) : Except VolumeError Bytes :=
  device.read request.offset request.length

inductive Traversal (α : Type) where
  | done (value : α)
  | fail (error : VolumeError)
  | read (request : ReadRequest) (next : Bytes → Traversal α)
  | warn (warning : StaleCount) (next : Traversal α)

-- How a run ended, what it asked of the device, and what it warned of. A read that failed is the
-- last one asked for.
structure Outcome (α : Type) where
  result : Except VolumeError α
  reads : List ReadRequest
  warnings : List StaleCount

namespace Traversal

def run (device : Device) : Traversal α → Outcome α
  | .done value => ⟨.ok value,[],[]⟩
  | .fail error => ⟨.error error,[],[]⟩
  | .read request next =>
    match device.answer request with
    | .error error => ⟨.error error,[request],[]⟩
    | .ok found =>
      let rest := (next found).run device
      ⟨rest.result,request :: rest.reads,rest.warnings⟩
  | .warn warning next =>
    let rest := next.run device
    ⟨rest.result,rest.reads,warning :: rest.warnings⟩

def eval (device : Device) (traversal : Traversal α) : Except VolumeError α :=
  (traversal.run device).result

protected def bind : Traversal α → (α → Traversal β) → Traversal β
  | .done value, next => next value
  | .fail error, _ => .fail error
  | .read request rest, next => .read request fun found => (rest found).bind next
  | .warn warning rest, next => .warn warning (rest.bind next)

instance : Monad Traversal where
  pure := .done
  bind := Traversal.bind

theorem bind_done (traversal : Traversal α) : traversal.bind .done = traversal := by
  induction traversal with
  | done value => rfl
  | fail error => rfl
  | read request next ih => simp only [Traversal.bind]; congr 1; funext found; exact ih found
  | warn warning next ih => simp only [Traversal.bind,ih]

theorem bind_assoc (traversal : Traversal α) (first : α → Traversal β)
    (second : β → Traversal γ) :
    (traversal.bind first).bind second = traversal.bind fun value => (first value).bind second := by
  induction traversal with
  | done value => rfl
  | fail error => rfl
  | read request next ih => simp only [Traversal.bind]; congr 1; funext found; exact ih found
  | warn warning next ih => simp only [Traversal.bind,ih]

instance : LawfulMonad Traversal := LawfulMonad.mk' Traversal
  (by intro α traversal; exact bind_done traversal)
  (by intro α β value next; rfl)
  (by intro α β γ traversal first second; exact bind_assoc traversal first second)

def ofExcept : Except VolumeError α → Traversal α
  | .ok value => .done value
  | .error error => .fail error

def request (role : Option BlockRole) (offset length : Nat) : Traversal Bytes :=
  .read ⟨role,offset,length⟩ .done

@[simp] theorem eval_pure (device : Device) (value : α) :
    (pure value : Traversal α).eval device = .ok value := rfl

@[simp] theorem eval_done (device : Device) (value : α) : (Traversal.done value).eval device = .ok value := rfl

@[simp] theorem eval_fail (device : Device) (error : VolumeError) :
    (Traversal.fail error : Traversal α).eval device = .error error := rfl

theorem eval_read (device : Device) (request : ReadRequest) (next : Bytes → Traversal α) :
    (Traversal.read request next).eval device =
      (device.answer request).bind fun found => (next found).eval device := by
  simp only [eval,run]
  cases device.answer request <;> rfl

@[simp] theorem eval_warn (device : Device) (warning : StaleCount) (next : Traversal α) :
    (Traversal.warn warning next).eval device = next.eval device := rfl

theorem run_bind (device : Device) (traversal : Traversal α) (next : α → Traversal β) :
    (traversal >>= next).run device =
      match traversal.run device with
      | ⟨.error error,reads,warnings⟩ => ⟨.error error,reads,warnings⟩
      | ⟨.ok value,reads,warnings⟩ =>
        let rest := (next value).run device
        ⟨rest.result,reads ++ rest.reads,warnings ++ rest.warnings⟩ := by
  change (traversal.bind next).run device = _
  induction traversal with
  | done value => rfl
  | fail error => rfl
  | read request rest ih =>
    simp only [Traversal.bind,run]
    cases device.answer request with
    | error error => rfl
    | ok found =>
      simp only [ih]
      cases (rest found).run device with
      | mk result reads warnings => cases result <;> rfl
  | warn warning rest ih =>
    simp only [Traversal.bind,run,ih]
    cases rest.run device with
    | mk result reads warnings => cases result <;> rfl

@[simp] theorem eval_bind (device : Device) (traversal : Traversal α) (next : α → Traversal β) :
    (traversal >>= next).eval device =
      (traversal.eval device).bind fun value => (next value).eval device := by
  simp only [eval,run_bind]
  cases traversal.run device with
  | mk result reads warnings => cases result <;> rfl

@[simp] theorem eval_ofExcept (device : Device) (result : Except VolumeError α) :
    (ofExcept result).eval device = result := by
  cases result <;> rfl

@[simp] theorem eval_request (device : Device) (role : Option BlockRole) (offset length : Nat) :
    (request role offset length).eval device = device.read offset length := by
  rw [request,eval_read,Device.answer]
  cases device.read offset length <;> rfl

end Traversal
end XfsReader
