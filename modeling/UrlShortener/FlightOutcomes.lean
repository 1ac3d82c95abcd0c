import UrlShortener.FlightCallers
import UrlShortener.Deployment

namespace UrlShortener
open Transition

namespace Outcome
variable {ν : Type}

/-- What the leader's `call.value` and `call.error` hold in the end. -/
def value : Outcome ν → Option ν
  | .returned value => value
  | _ => none

def error : Outcome ν → Option String
  | .raised error => some error
  | _ => none

/-- What the waiters are woken with: after a BaseException as after a `None`. -/
def shared : Outcome ν → Except String (Option ν)
  | .returned value => .ok value
  | .raised error => .error error
  | .aborted => .ok none

end Outcome

namespace SingleFlight
variable {κ ν : Type}

/-- A waiter has left `do` as its leader's function ended: with a value only if
that was returned, and by raising if nothing was. -/
def SharesOutcome (outcome : Outcome ν) (waiter : CallerPhase ν) : Prop :=
  (∀ value, waiter = .returned value → outcome = .returned value) ∧
    ((∀ value, outcome ≠ .returned value) → ∃ error, waiter = .raised error)

theorem shares_iff (outcome : Outcome ν) : SharesOutcome outcome (.ofAnswer outcome.shared) ↔ outcome ≠ .aborted := by
  cases outcome with
  | returned value => simp [SharesOutcome, Outcome.shared, CallerPhase.ofAnswer]
  | raised error => simp [SharesOutcome, Outcome.shared, CallerPhase.ofAnswer]
  | aborted => simp [SharesOutcome, Outcome.shared, CallerPhase.ofAnswer]

/-- How far the history of a call agrees with its phase and its call object. -/
structure Record (trace : List (Event κ ν)) (id : Nat) (phase : Option (CallerPhase ν)) (object : FlightCall ν) :
    Prop where
  fresh : phase = some .running → object = {}
  settled : ∀ outcome, .finish id outcome ∈ trace →
    (phase = some (.deregistering outcome) ∨ phase = some (.releasing outcome) ∨
      phase = some (.ofOutcome outcome)) ∧ object.value = outcome.value ∧ object.error = outcome.error
  pending : ∀ outcome, phase = some (.deregistering outcome) ∨ phase = some (.releasing outcome) →
    .finish id outcome ∈ trace
  done : object.done = true → ∃ outcome, .finish id outcome ∈ trace

namespace Record
variable {trace : List (Event κ ν)} {event : Event κ ν} {id : Nat} {phase phase' : Option (CallerPhase ν)}
  {object object' : FlightCall ν} {outcome : Outcome ν}

theorem later (record : Record trace id phase object) (other : ∀ outcome, event ≠ .finish id outcome) :
    Record (trace ++ [event]) id phase object := by
  have same (outcome : Outcome ν) : .finish id outcome ∈ trace ++ [event] ↔ .finish id outcome ∈ trace := by
    simp [Ne.symm (other outcome)]
  refine ⟨record.fresh, fun outcome => ?_, fun outcome => ?_, ?_⟩
  · rw [same]
    exact record.settled outcome
  · rw [same]
    exact record.pending outcome
  · simp only [same]
    exact record.done

theorem unfinished (record : Record trace id phase object)
    (early : phase = none ∨ phase = some .joining ∨ phase = some .running ∨ ∃ leader, phase = some (.waiting leader))
    (outcome : Outcome ν) : .finish id outcome ∉ trace := by
  intro member
  have stands := (record.settled outcome member).1
  rcases early with rfl | rfl | rfl | ⟨leader, rfl⟩
  all_goals cases outcome <;> simp [CallerPhase.ofOutcome] at stands

/-- A step before the function of the call ends, or of a call that runs none. -/
theorem early (record : Record trace id phase object) (none : ∀ outcome, .finish id outcome ∉ trace)
    (other : ∀ outcome, event ≠ .finish id outcome) (fresh : phase' = some .running → object' = {})
    (open_ : ∀ outcome, phase' ≠ some (.deregistering outcome) ∧ phase' ≠ some (.releasing outcome))
    (kept : object'.done = true → object.done = true) : Record (trace ++ [event]) id phase' object' := by
  have still (outcome : Outcome ν) : .finish id outcome ∉ trace ++ [event] := by
    simp [none outcome, Ne.symm (other outcome)]
  refine ⟨fresh, fun outcome member => absurd member (still outcome), fun outcome stands => ?_, fun done => ?_⟩
  · exact absurd stands (not_or.mpr (open_ outcome))
  · obtain ⟨outcome, member⟩ := record.done (kept done)
    exact absurd member (none outcome)

/-- The leader has written what its function brought. -/
theorem finished (record : Record trace id (some .running) object) (value : object'.value = outcome.value)
    (error : object'.error = outcome.error) :
    Record (trace ++ [.finish id outcome]) id (some (.deregistering outcome)) object' := by
  have none := record.unfinished (Or.inr (Or.inr (Or.inl rfl)))
  have only (other : Outcome ν) (member : .finish id other ∈ trace ++ [.finish id outcome]) : other = outcome := by
    simpa [none other] using member
  refine ⟨by simp, fun other member => ?_, fun other stands => ?_, fun _ => ⟨outcome, by simp⟩⟩
  · cases only other member
    exact ⟨Or.inl rfl, value, error⟩
  · have same : other = outcome := by
      rcases stands with same | wrong
      · cases same
        rfl
      · cases wrong
    rw [same]
    exact List.mem_append_right _ (List.mem_singleton_self _)

/-- The function of a call ends once. -/
theorem unique (record : Record trace id phase object) {other : Outcome ν} (member : .finish id outcome ∈ trace)
    (member' : .finish id other ∈ trace) : other = outcome := by
  have stands := (record.settled outcome member).1
  rcases (record.settled other member').1 with same | same | same
  all_goals
    rw [same] at stands
    rcases stands with equal | equal | equal
  all_goals cases outcome <;> cases other <;> cases equal <;> rfl

/-- A leader whose function has ended goes on towards the end of `do`. -/
theorem leaving (record : Record trace id phase object)
    (before : phase = some (.deregistering outcome) ∨ phase = some (.releasing outcome))
    (other : ∀ outcome, event ≠ .finish id outcome)
    (stands : phase' = some (.releasing outcome) ∨ phase' = some (.ofOutcome outcome))
    (value : object'.value = object.value) (error : object'.error = object.error) :
    Record (trace ++ [event]) id phase' object' := by
  have member := record.pending outcome before
  have kept (ending : Outcome ν) (inside : .finish id ending ∈ trace ++ [event]) : ending = outcome := by
    refine record.unique member ?_
    simpa [Ne.symm (other ending)] using inside
  obtain ⟨_, value', error'⟩ := record.settled outcome member
  refine ⟨fun running => ?_, fun ending inside => ?_, fun ending open_ => ?_,
    fun _ => ⟨outcome, List.mem_append_left _ member⟩⟩
  · rcases stands with same | same
    all_goals
      rw [same] at running
      cases outcome <;> cases running
  · rw [kept ending inside]
    exact ⟨stands.elim (fun same => Or.inr (Or.inl same)) fun same => Or.inr (Or.inr same),
      value.trans value', error.trans error'⟩
  · refine List.mem_append_left _ ?_
    rcases stands with same | same <;> rw [same] at open_
    · rcases open_ with wrong | releasing
      · cases wrong
      · cases releasing
        exact member
    · rcases open_ with wrong | wrong <;> cases outcome <;> cases wrong

end Record

namespace Callers

def Recorded (trace : List (Event κ ν)) (w : Callers κ ν) : Prop :=
  ∀ id, Record trace id ((w.caller id).map Caller.phase) (w.flight.object id)

variable [DecidableEq κ] {w w' : Callers κ ν} {event : Event κ ν} {trace : List (Event κ ν)} {id : Nat}

omit [DecidableEq κ] in
theorem Recorded.own {c : Caller κ ν} (recorded : w.Recorded trace) (known : w.caller id = some c) :
    Record trace id (some c.phase) (w.flight.object id) := by
  have mine := recorded id
  rwa [known] at mine

omit [DecidableEq κ] in
/-- A step of the call `id` leaves the records of all others. -/
theorem Recorded.put {flight : SingleFlight κ ν} {c : Caller κ ν} (recorded : w.Recorded trace)
    (others : ∀ other ≠ id, flight.object other = w.flight.object other ∧ ∀ outcome, event ≠ .finish other outcome)
    (own : Record (trace ++ [event]) id (some c.phase) (flight.object id)) :
    (w.put flight id c).Recorded (trace ++ [event]) := by
  intro other
  by_cases same : other = id
  · subst same
    have here : (w.put flight other c).caller other = some c := Function.update_self ..
    rw [here]
    exact own
  · have there : (w.put flight id c).caller other = w.caller other := Function.update_of_ne same ..
    obtain ⟨object, foreign⟩ := others other same
    rw [there, show (w.put flight id c).flight.object other = w.flight.object other from object]
    exact (recorded other).later foreign

theorem Recorded.step (recorded : w.Recorded trace) (taken : w.Step event w') :
    w'.Recorded (trace ++ [event]) := by
  cases taken.move with
  | @called id key free =>
    have mine := recorded id
    rw [free] at mine
    exact recorded.put (fun _ _ => ⟨rfl, by simp⟩)
      (mine.early (mine.unfinished (Or.inl rfl)) (by simp) (by simp) (by simp) fun done => done)
  | @led id key known free =>
    have mine := recorded.own known
    have object := join_object free id
    refine recorded.put (fun other different => ⟨?_, by simp⟩)
      (mine.early (mine.unfinished (Or.inr (Or.inl rfl))) (by simp) (fun _ => ?_) (by simp) ?_)
    · rw [object, Function.update_of_ne different]
    · rw [object, Function.update_self]
    · rw [object, Function.update_self]
      simp
  | @followed id key leader known entered =>
    have mine := recorded.own known
    exact recorded.put (fun _ _ => ⟨rfl, by simp⟩)
      (mine.early (mine.unfinished (Or.inr (Or.inl rfl))) (by simp) (by simp) (by simp) fun done => done)
  | @finished id key outcome known =>
    have mine := recorded.own known
    have empty := mine.fresh rfl
    refine recorded.put (fun other different => ⟨settle_object_other outcome different, ?_⟩) (mine.finished ?_ ?_)
    · intro ending same
      cases same
      exact different rfl
    · cases outcome <;> simp [settle, empty, Outcome.value]
    · cases outcome <;> simp [settle, empty, Outcome.error]
  | @deregistered id key outcome known =>
    have mine := recorded.own known
    exact recorded.put (fun _ _ => ⟨rfl, by simp⟩)
      (mine.leaving (Or.inl rfl) (by simp) (Or.inl rfl) rfl rfl)
  | @released id key outcome known =>
    have mine := recorded.own known
    refine recorded.put (fun other different => ⟨?_, by simp⟩)
      (mine.leaving (Or.inr rfl) (by simp) (Or.inr rfl) ?_ ?_)
    · simp [release, Function.update_of_ne different]
    · simp [release]
    · simp [release]
  | @woken id key leader answer known woken =>
    have mine := recorded.own known
    refine recorded.put (fun _ _ => ⟨rfl, by simp⟩)
      (mine.early (mine.unfinished (Or.inr (Or.inr (Or.inr ⟨leader, rfl⟩)))) (by simp) ?_ ?_ fun done => done)
    · cases answer <;> simp [CallerPhase.ofAnswer]
    · intro outcome
      cases answer <;> simp [CallerPhase.ofAnswer]

theorem recorded_of_run (run : Run Step (start : Callers κ ν) trace w) : w.Recorded trace := by
  induction run with
  | start => exact fun id => ⟨by simp [start], by simp, by simp [start], by simp [start]⟩
  | next _ taken ih => exact ih.step taken

/-- A waiter that is woken leaves `do` with what the function of its leader has
brought, which is one outcome; it shares it unless that is an abort. -/
theorem waiter_shares_iff {key : κ} {leader : Nat} (run : Run Step (start : Callers κ ν) trace w)
    (waiting : w.caller id = some ⟨key, .waiting leader⟩) (taken : w.Step (.wake id) w') :
    ∃ outcome phase, .finish leader outcome ∈ trace ∧ (∀ other, .finish leader other ∈ trace → other = outcome) ∧
      w'.caller id = some ⟨key, phase⟩ ∧ (SharesOutcome outcome phase ↔ outcome ≠ .aborted) := by
  cases taken.move with
  | @woken _ key' leader' answer known woken =>
    cases known.symm.trans waiting
    obtain ⟨done, same⟩ := Option.ite_none_right_eq_some.mp woken
    have record := recorded_of_run run leader
    obtain ⟨outcome, member⟩ := record.done done
    obtain ⟨stands, value, error⟩ := record.settled outcome member
    have shared : answer = outcome.shared := by
      rw [value, error] at same
      cases outcome <;> exact (Option.some.inj same).symm
    refine ⟨outcome, .ofAnswer answer, member, fun other => record.unique member, Function.update_self .., ?_⟩
    rw [shared]
    exact shares_iff outcome

/-- The leader is interrupted in its function, by a BaseException: its waiter
returns None, and a resolve that waits answers 404 for a link that is stored. -/
theorem aborted_leader_returns_none :
    (∃ w w' : Callers String String,
      Run Step start
        [.call 0 "c", .call 1 "c", .join 0, .join 1, .finish 0 .aborted, .deregister 0, .release 0] w ∧
      w.caller 0 = some ⟨"c", .aborted⟩ ∧ w.Step (.wake 1) w' ∧ w'.caller 1 = some ⟨"c", .returned none⟩) ∧
    ¬ SharesOutcome (.aborted : Outcome String) (.returned none) ∧
    ∃ w, Run (World.Step .lenient) (World.start .lenient)
      [.create 0 0 "https://example.com" none, .attempt 0 "c" 0, .step 0,
        .resolve 1 0 "c" 10, .step 1, .step 1, .step 1, .resolve 2 0 "c" 11, .step 2, .step 2, .step 2,
        .fail 1 .abort, .step 1, .step 1, .step 2, .step 2] w ∧
      w.task 1 = .resolve ⟨0, "c", 10, .aborted⟩ ∧ w.task 2 = .resolve ⟨0, "c", 11, .answered .notFound⟩ ∧
      w.links.get "c" = some ⟨"c", "https://example.com", 0, none⟩ := by
  refine ⟨?_, fun shares => ?_, Run.exists_of_execute (fun _ _ _ done => done) (by decide +kernel)⟩
  · have executed : ∃ w : Callers String String,
        Run Step start
          [.call 0 "c", .call 1 "c", .join 0, .join 1, .finish 0 .aborted, .deregister 0, .release 0] w ∧
        w.caller 0 = some ⟨"c", .aborted⟩ ∧
        (w.perform (.wake 1)).any (fun w' => w'.caller 1 = some ⟨"c", .returned none⟩) = true :=
      Run.exists_of_execute (fun _ _ _ done => done) (by decide +kernel)
    obtain ⟨w, run, aborted, wakes⟩ := executed
    obtain ⟨w', taken, returned⟩ := (Option.any_eq_true _ _).mp wakes
    exact ⟨w, w', run, aborted, taken, of_decide_eq_true returned⟩
  · cases shares.1 none rfl

/-- The function of the leader raises an Exception, and its waiter raises too. -/
theorem waiter_shares_raising :
    ∃ w w' : Callers String String, ∃ phase,
      Run Step start
        [.call 0 "c", .call 1 "c", .join 0, .join 1, .finish 0 (.raised "boom"), .deregister 0, .release 0] w ∧
      w.Step (.wake 1) w' ∧ w'.caller 1 = some ⟨"c", phase⟩ ∧
      (SharesOutcome (.raised "boom" : Outcome String) phase ↔ (.raised "boom" : Outcome String) ≠ .aborted) := by
  have executed : ∃ w : Callers String String,
      Run Step start
        [.call 0 "c", .call 1 "c", .join 0, .join 1, .finish 0 (.raised "boom"), .deregister 0, .release 0] w ∧
      w.caller 1 = some ⟨"c", .waiting 0⟩ ∧ (w.perform (.wake 1)).isSome = true :=
    Run.exists_of_execute (fun _ _ _ done => done) (by decide +kernel)
  obtain ⟨w, run, waiting, wakes⟩ := executed
  obtain ⟨w', taken⟩ := Option.isSome_iff_exists.mp wakes
  obtain ⟨outcome, phase, finished, _, left, shares⟩ := waiter_shares_iff run waiting taken
  have raised : outcome = .raised "boom" := by simpa using finished
  exact ⟨w, w', phase, run, taken, left, raised ▸ shares⟩

end Callers
end SingleFlight
end UrlShortener
