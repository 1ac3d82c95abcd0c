import UrlShortener.Requests
import UrlShortener.General.Run

namespace UrlShortener
open Transition

/-- `CodeAllocator` without its generator, whose codes come with the attempts. -/
structure CodeAllocator where
  maxAttempts : Nat := 5
  maxAttempts_pos : 1 ≤ maxAttempts := by decide
  deriving DecidableEq

def CodeAllocator.exhausted (a : CodeAllocator) : String :=
  s!"could not allocate a free short code in {a.maxAttempts} attempts; " ++
    "check INSTANCE_ID uniqueness (snowflake) or code length (random)"

inductive AllocationPhase
  | attempting (left : Nat)
  | returned (link : Link)
  /-- The RuntimeError after the last attempt. -/
  | exhausted (error : String)
  /-- The store has raised something other than a KeyError. -/
  | raised
  deriving DecidableEq

/-- One call of `allocate`. -/
structure Allocation where
  allocator : CodeAllocator
  target : String
  ttlSeconds : Option Int
  phase : AllocationPhase
  deriving DecidableEq

namespace Allocation

/-- One round of the loop. A KeyError of the store is a collision. -/
def attempt (a : Allocation) (store : LinkStore) (code : String) (clock : Int) :
    Option (LinkStore × AllocationPhase) :=
  match a.phase with
  | .attempting (left + 1) => some (match store.create code a.target a.ttlSeconds none clock with
      | some (link, store) => (store, .returned link)
      | none => (store, .attempting left))
  | _ => none

/-- The loop is over without a link. -/
def giveUp (a : Allocation) : Option AllocationPhase :=
  match a.phase with
  | .attempting 0 => some (.exhausted a.allocator.exhausted)
  | _ => none

/-- The store fails in a round and publishes nothing. -/
def fail (a : Allocation) : Option AllocationPhase :=
  match a.phase with
  | .attempting (_ + 1) => some .raised
  | _ => none

section
variable (a : Allocation) {store store' : LinkStore} {code : String} {clock : Int} {phase : AllocationPhase}

theorem attempt_cases (h : a.attempt store code clock = some (store', phase)) :
    ∃ left, a.phase = .attempting (left + 1) ∧
      ((∃ link, phase = .returned link ∧
          store.create code a.target a.ttlSeconds none clock = some (link, store')) ∨
        (store' = store ∧ phase = .attempting left)) := by
  unfold attempt at h
  split at h
  · rename_i left here
    refine ⟨left, here, ?_⟩
    split at h
    · rename_i link inserted created
      cases h
      exact Or.inl ⟨link, rfl, created⟩
    · cases h
      exact Or.inr ⟨rfl, rfl⟩
  · cases h

theorem giveUp_cases (h : a.giveUp = some phase) :
    a.phase = .attempting 0 ∧ phase = .exhausted a.allocator.exhausted := by
  unfold giveUp at h
  split at h
  · rename_i here
    cases h
    exact ⟨here, rfl⟩
  · cases h

theorem fail_cases (h : a.fail = some phase) : ∃ left, a.phase = .attempting (left + 1) ∧ phase = .raised := by
  unfold fail at h
  split at h
  · rename_i left here
    cases h
    exact ⟨left, here, rfl⟩
  · cases h

end

end Allocation

/-- What `create_link` makes of a phase of its allocation. -/
def AllocationPhase.inCreate (allocator : CodeAllocator) : AllocationPhase → CreatePhase
  | .attempting left => .attempting left
  | .returned link => .flagging link
  | .exhausted _ => .answered (.exhausted allocator.maxAttempts)
  | .raised => .answered .serverError

/-- The rounds of a create request are those of `allocate`. -/
theorem Create.attempt_eq_allocation {c : Create} {a : Allocation} (target : a.target = c.target)
    (ttlSeconds : a.ttlSeconds = c.ttlSeconds) {left : Nat} (phase : a.phase = .attempting left)
    (phase' : c.phase = .attempting left) (store : LinkStore) (code : String) (clock : Int) :
    c.attempt store code clock =
      (a.attempt store code clock).map fun (store, phase) => (store, phase.inCreate a.allocator) := by
  rw [Create.attempt, Allocation.attempt, phase, phase', target, ttlSeconds]
  cases left with
  | zero => rfl
  | succ left =>
    dsimp only [Option.map_some]
    cases store.create code c.target c.ttlSeconds none clock <;> rfl

/-- Any number of allocators over one store, with their calls. A round is one
step: its INSERT sees what is committed, and publishes its row or nothing. -/
structure Allocations where
  store : LinkStore
  call : Nat → Option Allocation

namespace Allocations

inductive Event
  | allocate (id : Nat) (allocator : CodeAllocator) (target : String) (ttlSeconds : Option Int)
  /-- The generator has produced `code`, and the clock of the store reads `clock`. -/
  | attempt (id : Nat) (code : String) (clock : Int)
  | giveUp (id : Nat)
  | fail (id : Nat)
  deriving DecidableEq

def start (store : LinkStore) : Allocations :=
  ⟨store, fun _ => none⟩

def put (w : Allocations) (id : Nat) (a : Allocation) : Allocations :=
  { w with call := Function.update w.call id (some a) }

def perform (w : Allocations) : Event → Option Allocations
  | .allocate id allocator target ttlSeconds =>
    if w.call id = none then
      some (w.put id ⟨allocator, target, ttlSeconds, .attempting allocator.maxAttempts⟩)
    else none
  | .attempt id code clock => (w.call id).bind fun a =>
    (a.attempt w.store code clock).map fun (store, phase) => { w.put id { a with phase := phase } with store := store }
  | .giveUp id => (w.call id).bind fun a => a.giveUp.map fun phase => w.put id { a with phase := phase }
  | .fail id => (w.call id).bind fun a => a.fail.map fun phase => w.put id { a with phase := phase }

def Step (w : Allocations) (event : Event) (w' : Allocations) : Prop :=
  w.perform event = some w'

def Returned (w : Allocations) (id : Nat) (link : Link) : Prop :=
  ∃ a, w.call id = some a ∧ a.phase = .returned link

end Allocations
end UrlShortener
