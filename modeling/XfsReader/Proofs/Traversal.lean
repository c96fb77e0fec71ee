import XfsReader.Proofs.Decoder
import XfsReader.Traversal

-- What a traversal does whatever its reads are answered, and how a run of two steps comes apart.
namespace XfsReader
namespace Traversal

-- Every value that the traversal can finish with.
def Yields (post : α → Prop) : Traversal α → Prop
  | .done value => post value
  | .fail _ => True
  | .read _ next => ∀ found, (next found).Yields post
  | .warn _ next => next.Yields post

theorem Yields.bind {post : α → Prop} {goal : β → Prop} {traversal : Traversal α} {next : α → Traversal β}
    (first : traversal.Yields post) (later : ∀ value, post value → (next value).Yields goal) :
    (traversal.bind next).Yields goal := by
  induction traversal with
  | done value => exact later value first
  | fail error => trivial
  | read request rest ih => intro found; exact ih found (first found)
  | warn warning rest ih => exact ih first

theorem Yields.any (traversal : Traversal α) : traversal.Yields fun _ => True := by
  induction traversal with
  | done value => trivial
  | fail error => trivial
  | read request next ih => exact ih
  | warn warning next ih => exact ih

theorem ofExcept_yields (result : Except VolumeError α) : (ofExcept result).Yields fun value => result = .ok value := by
  cases result with
  | error error => trivial
  | ok value => exact rfl

theorem Yields.eval {post : α → Prop} {traversal : Traversal α} {device : Device} {value : α}
    (yields : traversal.Yields post) (ran : traversal.eval device = .ok value) : post value := by
  induction traversal with
  | done result => cases ran; exact yields
  | fail error => cases ran
  | read request next ih =>
    rw [eval_read] at ran
    cases got : device.answer request with
    | error error => rw [got] at ran; cases ran
    | ok found => rw [got] at ran; exact ih found (yields found) ran
  | warn warning next ih => exact ih yields ran

theorem Yields.bind_congr {post : α → Prop} {traversal : Traversal α} {one other : α → Traversal β}
    (yields : traversal.Yields post) (same : ∀ value, post value → one value = other value) :
    traversal.bind one = traversal.bind other := by
  induction traversal with
  | done value => exact same value yields
  | fail error => rfl
  | read request rest ih =>
    simp only [Traversal.bind]
    congr 1
    funext found
    exact ih found (yields found)
  | warn warning rest ih => simp only [Traversal.bind,ih yields]

theorem eval_bind_eq_ok {device : Device} {traversal : Traversal α} {next : α → Traversal β} {value : β} :
    (traversal >>= next).eval device = .ok value ↔
      ∃ middle, traversal.eval device = .ok middle ∧ (next middle).eval device = .ok value := by
  rw [eval_bind]
  exact bind_eq_ok

-- What a run of two steps has asked was asked by one of them.
theorem asked_bind {device : Device} {traversal : Traversal α} {next : α → Traversal β} {value : β}
    {request : ReadRequest} (ran : (traversal >>= next).eval device = .ok value)
    (asked : request ∈ ((traversal >>= next).run device).reads) :
    ∃ middle, traversal.eval device = .ok middle ∧ (next middle).eval device = .ok value ∧
      (request ∈ (traversal.run device).reads ∨ request ∈ ((next middle).run device).reads) := by
  obtain ⟨middle,first,second⟩ := eval_bind_eq_ok.mp ran
  refine ⟨middle,first,second,?_⟩
  rw [run_bind] at asked
  rw [eval] at first
  cases ended : traversal.run device with
  | mk result reads warnings =>
    rw [ended] at first asked
    cases first
    exact List.mem_append.mp asked

-- Nor is anything else asked where the run fails.
theorem asked_of_bind {device : Device} {traversal : Traversal α} {next : α → Traversal β} {request : ReadRequest}
    (asked : request ∈ ((traversal >>= next).run device).reads) :
    request ∈ (traversal.run device).reads ∨
      ∃ middle, traversal.eval device = .ok middle ∧ request ∈ ((next middle).run device).reads := by
  rw [run_bind] at asked
  rw [eval]
  cases ended : traversal.run device with
  | mk result reads warnings =>
    rw [ended] at asked
    cases result with
    | error error => exact .inl asked
    | ok middle => exact (List.mem_append.mp asked).imp_right fun later => ⟨middle,rfl,later⟩

theorem asked_request {device : Device} {role : Option BlockRole} {offset length : Nat} {asked : ReadRequest}
    (member : asked ∈ ((request role offset length).run device).reads) : asked = ⟨role,offset,length⟩ := by
  simp only [request,run] at member
  split at member
  · exact List.mem_singleton.mp member
  · exact List.mem_singleton.mp member

theorem ofExcept_bind_ok {device : Device} {result : Except VolumeError α} {next : α → Traversal β} {value : β}
    (ran : (ofExcept result >>= next).eval device = .ok value) :
    ∃ middle, result = .ok middle ∧ ofExcept result >>= next = next middle := by
  cases result with
  | error error => cases ran
  | ok middle => exact ⟨middle,rfl,rfl⟩

end Traversal
end XfsReader
