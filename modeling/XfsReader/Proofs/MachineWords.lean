import XfsReader.Proofs.DecoderReach

-- Arithmetic in machine words. A sum or a product that does not fit its word, a difference below
-- zero, a shift by the width of the word or more, an index and a slice outside of their buffer stop
-- the machine. What a machine computes is said of plain numbers, to which nothing of this happens.
namespace XfsReader

-- None once the machine has stopped itself. A refusal is a result like others.
abbrev Machine (ε α : Type) := ExceptT ε Option α

namespace Machine

def stopped : Machine ε α := ExceptT.mk none

def lift (result : Except ε α) : Machine ε α := ExceptT.mk (some result)

-- A step that stops the machine unless its condition holds.
def demand (condition : Prop) [Decidable condition] (value : α) : Machine ε α :=
  if condition then pure value else stopped

-- Arithmetic that is checked has a refusal ready for what does not fit.
def checked (result : Option α) (refusal : ε) : Machine ε α := result.elim (throw refusal) pure

def add (first second : Nat) : Machine ε Nat := demand (first + second < 0x10000000000000000) (first + second)

def mul (first second : Nat) : Machine ε Nat := demand (first * second < 0x10000000000000000) (first * second)

def sub (first second : Nat) : Machine ε Nat := demand (second ≤ first) (first - second)

-- Bits that are shifted out are lost without further notice.
def shiftLeft (value amount : Nat) : Machine ε Nat := demand (amount < 64) (value <<< amount % 0x10000000000000000)

def shiftRight (value amount : Nat) : Machine ε Nat := demand (amount < 64) (value >>> amount)

-- The same in words of twice the width.
def addWide (first second : Nat) : Machine ε Nat := demand (first + second < 0x100000000000000000000000000000000) (first + second)

def mulWide (first second : Nat) : Machine ε Nat := demand (first * second < 0x100000000000000000000000000000000) (first * second)

def index (items : Array α) (position : Nat) : Machine ε α := (items[position]?).elim stopped pure

def slice (bytes : Bytes) (start stop : Nat) : Machine ε Bytes :=
  demand (start ≤ stop ∧ stop ≤ bytes.size) (bytes.extract start stop)

def divideUp (value unit : Nat) : Nat := (value + (unit - 1)) / unit

def roundTo (value unit : Nat) : Machine ε Nat := mul (divideUp value unit) unit

def located (offset : Nat) (machine : Machine DecodeError α) : Machine VolumeError α :=
  ExceptT.mk (machine.run.map (XfsReader.located offset))

-- The machine is not stopped, and ends as the plain computation does.
def Computes (machine : Machine ε α) (plain : Except ε α) : Prop := machine = lift plain

variable {machine : Machine ε α} {plain : Except ε α} {next : α → Machine ε β} {rest : α → Except ε β}

theorem Computes.pure (value : α) : (Pure.pure value : Machine ε α).Computes (.ok value) := rfl

theorem Computes.throw (error : ε) : (MonadExcept.throw error : Machine ε α).Computes (.error error) := rfl

theorem Computes.lift (result : Except ε α) : (lift result).Computes result := rfl

theorem Computes.ended {result : Except ε α} (computes : machine.Computes plain) (known : plain = result) :
    machine.Computes result := known ▸ computes

-- The second step has only the results of the first to compute with.
theorem Computes.bind (first : machine.Computes plain)
    (later : ∀ value, plain = .ok value → (next value).Computes (rest value)) :
    (machine >>= next).Computes (plain >>= rest) := by
  rw [Computes] at first
  subst first
  cases plain with
  | error error => rfl
  | ok value => exact later value rfl

-- A step that the plain computation does not take.
theorem Computes.step {value : α} {result : Except ε β} (first : machine.Computes (.ok value))
    (later : (next value).Computes result) : (machine >>= next).Computes result := by
  rw [Computes] at first
  subst first
  exact later

theorem Computes.refuse {error : ε} (first : machine.Computes (.error error)) :
    (machine >>= next).Computes (.error error) := by
  rw [Computes] at first
  subst first
  rfl

-- The same where the plain computation is not put together from two steps.
theorem Computes.matched {result : Except ε β} (first : machine.Computes plain)
    (refused : ∀ error, plain = .error error → result = .error error)
    (later : ∀ value, plain = .ok value → (next value).Computes result) : (machine >>= next).Computes result := by
  cases ended : plain with
  | error error =>
    rw [ended] at first
    rw [refused error ended]
    exact .refuse first
  | ok value =>
    rw [ended] at first
    exact .step first (later value ended)

theorem Computes.map {read : α → β} (first : machine.Computes plain) :
    (machine >>= fun value => Pure.pure (read value)).Computes (plain.map read) := by
  rw [Computes] at first
  subst first
  cases plain <;> rfl

theorem Computes.located {machine : Machine DecodeError α} {plain : Except DecodeError α} (offset : Nat)
    (computes : machine.Computes plain) : (machine.located offset).Computes (XfsReader.located offset plain) := by
  rw [Computes] at computes
  subst computes
  rfl

theorem Computes.examined {machine : Machine DecodeError α} {plain : Except DecodeError α} {offset : Nat}
    {next : α → Machine VolumeError β} {result : Except VolumeError β} (first : machine.Computes plain)
    (refused : ∀ error, plain = .error error → result = .error (.ofDecode offset error))
    (later : ∀ value, plain = .ok value → (next value).Computes result) :
    (machine.located offset >>= next).Computes result := by
  refine .matched (first.located offset) (fun error failed => ?_) fun value found => later value (located_eq_ok.mp found)
  cases plain with
  | error cause =>
    cases failed
    exact refused cause rfl
  | ok value => cases failed

theorem demand_computes {condition : Prop} [Decidable condition] (value : α) (held : condition) :
    (demand condition value : Machine ε α).Computes (.ok value) := if_pos held

-- Nothing but its condition stops a step.
theorem demand_stops {condition : Prop} [Decidable condition] {value : α} :
    (demand condition value : Machine ε α) = stopped ↔ ¬ condition := by
  unfold demand
  split
  · rename_i held
    have running : (pure value : Machine ε α) ≠ stopped := Option.some_ne_none _
    exact iff_of_false running (not_not_intro held)
  · exact iff_of_true rfl ‹_›

example : (sub 2 3 : Machine ε Nat) = stopped := rfl

section Steps

variable {first second value amount : Nat}

theorem add_computes (fits : first + second < 0x10000000000000000) :
    (add first second : Machine ε Nat).Computes (.ok (first + second)) := demand_computes _ fits

theorem mul_computes (fits : first * second < 0x10000000000000000) :
    (mul first second : Machine ε Nat).Computes (.ok (first * second)) := demand_computes _ fits

theorem sub_computes (order : second ≤ first) :
    (sub first second : Machine ε Nat).Computes (.ok (first - second)) := demand_computes _ order

theorem shiftRight_computes (short : amount < 64) :
    (shiftRight value amount : Machine ε Nat).Computes (.ok (value >>> amount)) := demand_computes _ short

theorem shiftLeft_computes (short : amount < 64) (kept : value <<< amount < 0x10000000000000000) :
    (shiftLeft value amount : Machine ε Nat).Computes (.ok (value <<< amount)) := by
  rw [shiftLeft,Nat.mod_eq_of_lt kept]
  exact demand_computes _ short

theorem addWide_computes (fits : first + second < 0x100000000000000000000000000000000) :
    (addWide first second : Machine ε Nat).Computes (.ok (first + second)) := demand_computes _ fits

theorem mulWide_computes (fits : first * second < 0x100000000000000000000000000000000) :
    (mulWide first second : Machine ε Nat).Computes (.ok (first * second)) := demand_computes _ fits

theorem index_computes {items : Array α} {item : α} (found : items[first]? = some item) :
    (index items first : Machine ε α).Computes (.ok item) := by
  rw [index,found]
  rfl

theorem slice_computes {bytes : Bytes} {offset length : Nat} (inside : offset + length ≤ bytes.size) :
    (slice bytes offset (offset + length) : Machine ε Bytes).Computes (.ok (Bytes.part bytes offset length)) :=
  demand_computes _ ⟨Nat.le_add_right _ _,inside⟩

theorem roundTo_computes {unit : Nat} (fits : value + unit < 0x10000000000000000) :
    (roundTo value unit : Machine ε Nat).Computes (.ok (XfsReader.roundUp value unit)) := by
  have bound : divideUp value unit * unit ≤ value + (unit - 1) := Nat.div_mul_le_self _ _
  exact mul_computes (by omega)

end Steps

-- Loops over a list, one item after another.
section Lists

theorem mapM_computes {items : List α} {record : α → Machine ε β} {read : α → Except ε β}
    (each : ∀ item ∈ items, (record item).Computes (read item)) :
    (items.mapM record).Computes (items.mapM read) := by
  induction items with
  | nil => rfl
  | cons item items ih =>
    rw [List.mapM_cons,List.mapM_cons]
    refine .bind (each item List.mem_cons_self) fun first _ => ?_
    exact .bind (ih fun other member => each other (List.mem_cons_of_mem item member)) fun _ _ => rfl

theorem mapM_pure_computes {items : List α} {record : α → Machine ε β} {read : α → β}
    (each : ∀ item ∈ items, (record item).Computes (.ok (read item))) :
    (items.mapM record).Computes (.ok (items.map read)) := by
  have listed : items.mapM (fun item => (.ok (read item) : Except ε β)) = .ok (items.map read) := List.mapM_pure
  rw [← listed]
  exact mapM_computes each

def find (test : α → Machine ε Bool) : List α → Machine ε (Option α)
  | [] => return none
  | item :: items => do
    if ← test item then return some item
    else find test items

theorem find_computes {test : α → Machine ε Bool} {holds : α → Bool}
    (each : ∀ item, (test item).Computes (.ok (holds item))) (items : List α) :
    (find test items).Computes (.ok (items.find? holds)) := by
  induction items with
  | nil => rfl
  | cons item items ih =>
    refine .step (each item) ?_
    rw [List.find?_cons]
    cases holds item with
    | true => rfl
    | false => exact ih

-- The first two neighbours for which a test holds, looked for through windows of two items each.
def findNeighbours (test : α → α → Machine ε Bool) : List α → Machine ε (Option (α × α))
  | first :: second :: items => do
    let before ← index #[first,second] 0
    let after ← index #[first,second] 1
    if ← test before after then return some (before,after)
    else findNeighbours test (second :: items)
  | _ => return none

def neighbours? (holds : α → α → Bool) : List α → Option (α × α)
  | first :: second :: items => if holds first second then some (first,second) else neighbours? holds (second :: items)
  | _ => none

theorem findNeighbours_computes {test : α → α → Machine ε Bool} {holds : α → α → Bool}
    (each : ∀ first second, (test first second).Computes (.ok (holds first second))) (items : List α) :
    (findNeighbours test items).Computes (.ok (neighbours? holds items)) := by
  fun_induction neighbours? holds items with
  | case1 first second items held =>
    refine .step (index_computes rfl) (.step (index_computes rfl) (.step (each first second) ?_))
    rw [if_pos held]
    exact .pure _
  | case2 first second items fails ih =>
    refine .step (index_computes rfl) (.step (index_computes rfl) (.step (each first second) ?_))
    rw [if_neg fails]
    exact ih
  | case3 items short =>
    unfold findNeighbours
    split
    · exact (short _ _ _ rfl).elim
    · exact .pure _

end Lists

-- Every byte of a checked slice is then taken by its own index.
def checkedSlice (bytes : Bytes) (offset length : Nat) : Machine DecodeError Bytes :=
  match fit64? (offset + length) with
  | none => throw (.invalidField "offset" "overflow")
  | some stop =>
    if bytes.size < stop then throw (.insufficientData length offset (bytes.size - offset))
    else slice bytes offset stop

theorem checkedSlice_computes (bytes : Bytes) (offset length : Nat) :
    (checkedSlice bytes offset length).Computes (sliceOf bytes offset length) := by
  unfold checkedSlice sliceOf
  cases fits : fit64? (offset + length) with
  | none => exact .throw _
  | some stop =>
    obtain ⟨_,rfl⟩ := fit64?_eq_some.mp fits
    dsimp only
    split
    · exact .throw _
    · exact slice_computes (Nat.le_of_not_lt ‹_›)

theorem indices_compute (raw : Bytes) :
    ((List.range raw.size).mapM fun position => index raw position : Machine ε (List UInt8)).Computes (.ok raw.toList) := by
  have listed : (List.range raw.size).map (fun position => raw.getD position 0) = raw.toList := by
    refine List.ext_getElem (by simp) fun position below _ => ?_
    have inside : position < raw.size := by simpa using below
    simp [inside]
  rw [← listed]
  refine mapM_pure_computes fun position member => index_computes ?_
  have inside := List.mem_range.mp member
  simp [inside]

end Machine

open Machine

def Decoder.onMachine : Decoder α → Bytes → Machine DecodeError α
  | .done value, _ => return value
  | .fail error, _ => throw error
  | .slice offset length next, bytes => do
    let found ← checkedSlice bytes offset length
    let raw ← (List.range length).mapM fun position => index found position
    (next raw.toArray).onMachine bytes

namespace Decoder

theorem run_slice (offset length : Nat) (next : Bytes → Decoder α) (bytes : Bytes) :
    (Decoder.slice offset length next).run bytes = sliceOf bytes offset length >>= fun found => (next found).run bytes := by
  rw [run]
  cases sliceOf bytes offset length <;> rfl

theorem onMachine_computes (decoder : Decoder α) (bytes : Bytes) : (decoder.onMachine bytes).Computes (decoder.run bytes) := by
  induction decoder with
  | done value => rfl
  | fail error => rfl
  | slice offset length next ih =>
    rw [run_slice]
    refine .bind (checkedSlice_computes bytes offset length) fun found got => ?_
    obtain ⟨_,inside,rfl⟩ := sliceOf_eq_ok.mp got
    have whole : (Bytes.part bytes offset length).size = length := by
      rw [Bytes.part,Array.size_extract]
      omega
    have taken : ((List.range (Bytes.part bytes offset length).size).mapM _ : Machine DecodeError _).Computes _ :=
      indices_compute (Bytes.part bytes offset length)
    rw [whole] at taken
    exact .step taken (ih _)

end Decoder
end XfsReader
