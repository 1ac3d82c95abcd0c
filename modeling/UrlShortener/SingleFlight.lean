import Mathlib.Logic.Function.Basic

namespace UrlShortener

/-- How the function given to `do` ends: it returns a value or None, raises an
Exception, or raises a BaseException that is none. -/
inductive Outcome (ν : Type)
  | returned (value : Option ν)
  | raised (error : String)
  | aborted
  deriving DecidableEq

/-- The object `_Call` that a leader shares with its waiters. -/
structure FlightCall (ν : Type) where
  done : Bool := false
  value : Option ν := none
  error : Option String := none

/-- `SingleFlight`. A call object goes by the name of the leader that made it. -/
structure SingleFlight (κ ν : Type) where
  calls : κ → Option Nat := fun _ => none
  object : Nat → FlightCall ν := fun _ => {}

namespace SingleFlight
variable {κ ν : Type}

/-- The guarded lookup of `do`: the call to wait for, or none for a leader. -/
def join [DecidableEq κ] (f : SingleFlight κ ν) (key : κ) (caller : Nat) : Option Nat × SingleFlight κ ν :=
  match f.calls key with
  | none =>
    (none, { f with
      calls := Function.update f.calls key (some caller)
      object := Function.update f.object caller {} })
  | some leader => (some leader, f)

/-- What the leader leaves in its call object; a BaseException leaves nothing. -/
def settle (f : SingleFlight κ ν) (leader : Nat) : Outcome ν → SingleFlight κ ν
  | .returned value =>
    { f with object := Function.update f.object leader { f.object leader with value := value } }
  | .raised error =>
    { f with object := Function.update f.object leader { f.object leader with error := some error } }
  | .aborted => f

/-- The guarded pop. -/
def deregister [DecidableEq κ] (f : SingleFlight κ ν) (key : κ) : SingleFlight κ ν :=
  { f with calls := Function.update f.calls key none }

def release (f : SingleFlight κ ν) (leader : Nat) : SingleFlight κ ν :=
  { f with object := Function.update f.object leader { f.object leader with done := true } }

/-- What a waiter is woken with, if it is. -/
def wake (f : SingleFlight κ ν) (leader : Nat) : Option (Except String (Option ν)) :=
  if (f.object leader).done then
    some (match (f.object leader).error with
      | some error => .error error
      | none => .ok (f.object leader).value)
  else none

variable {f f' : SingleFlight κ ν} {key : κ} {caller leader id : Nat} {value : Option ν}

theorem join_cases [DecidableEq κ] {joined : Option Nat} (h : f.join key caller = (joined, f')) :
    (f.calls key = none ∧ joined = none ∧ f' = { f with
      calls := Function.update f.calls key (some caller)
      object := Function.update f.object caller {} }) ∨
    (∃ leader, f.calls key = some leader ∧ joined = some leader ∧ f' = f) := by
  unfold join at h
  split at h
  · rename_i free
    cases h
    exact Or.inl ⟨free, rfl, rfl⟩
  · rename_i leader taken
    cases h
    exact Or.inr ⟨leader, taken, rfl, rfl⟩

theorem join_calls [DecidableEq κ] (free : f.calls key = none) (caller : Nat) :
    (f.join key caller).2.calls = Function.update f.calls key (some caller) := by
  simp only [join, free]

theorem join_object [DecidableEq κ] (free : f.calls key = none) (caller : Nat) :
    (f.join key caller).2.object = Function.update f.object caller {} := by
  simp only [join, free]

theorem settle_calls (f : SingleFlight κ ν) (leader : Nat) (outcome : Outcome ν) :
    (f.settle leader outcome).calls = f.calls := by
  cases outcome <;> rfl

theorem settle_object_other (outcome : Outcome ν) (different : id ≠ leader) :
    (f.settle leader outcome).object id = f.object id := by
  cases outcome with
  | returned value => exact Function.update_of_ne different ..
  | raised error => exact Function.update_of_ne different ..
  | aborted => rfl

theorem settle_value (outcome : Outcome ν) {v : ν}
    (settled : ((f.settle leader outcome).object leader).value = some v) :
    outcome = .returned (some v) ∨ (f.object leader).value = some v := by
  cases outcome with
  | returned value =>
    simp only [settle, Function.update_self] at settled
    exact Or.inl (congrArg Outcome.returned settled)
  | raised error =>
    simp only [settle, Function.update_self] at settled
    exact Or.inr settled
  | aborted => exact Or.inr settled

theorem release_value (f : SingleFlight κ ν) (leader id : Nat) :
    ((f.release leader).object id).value = (f.object id).value := by
  by_cases same : id = leader
  · subst same
    simp only [release, Function.update_self]
  · simp only [release, Function.update_of_ne same]

theorem wake_value (woken : f.wake leader = some (.ok value)) : (f.object leader).value = value := by
  obtain ⟨_, answer⟩ := Option.ite_none_right_eq_some.mp woken
  split at answer
  · cases answer
  · cases answer
    rfl

end SingleFlight
end UrlShortener
