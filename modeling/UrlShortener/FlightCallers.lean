import UrlShortener.SingleFlight
import UrlShortener.General.Run

namespace UrlShortener
namespace SingleFlight
open Transition

/-- Where one call of `do` stands. -/
inductive CallerPhase (ν : Type)
  | joining
  | waiting (leader : Nat)
  | running
  | deregistering (outcome : Outcome ν)
  | releasing (outcome : Outcome ν)
  | returned (value : Option ν)
  | raised (error : String)
  | aborted
  deriving DecidableEq

namespace CallerPhase
variable {ν : Type}

/-- A leader between its insert into the table and its pop. -/
def registered : CallerPhase ν → Bool
  | .running | .deregistering _ => true
  | _ => false

/-- A leader that has not left `do`. -/
def leads : CallerPhase ν → Bool
  | .running | .deregistering _ | .releasing _ => true
  | _ => false

/-- How the leader leaves `do`. -/
def ofOutcome : Outcome ν → CallerPhase ν
  | .returned value => .returned value
  | .raised error => .raised error
  | .aborted => .aborted

/-- How a waiter leaves `do`. -/
def ofAnswer : Except String (Option ν) → CallerPhase ν
  | .ok value => .returned value
  | .error error => .raised error

end CallerPhase

/-- The call has left `do`. -/
def CallerPhase.over {ν : Type} : CallerPhase ν → Bool
  | .returned _ | .raised _ | .aborted => true
  | _ => false

structure Caller (κ ν : Type) where
  key : κ
  phase : CallerPhase ν
  deriving DecidableEq

/-- A flight group and all calls of `do` made on it. -/
structure Callers (κ ν : Type) where
  flight : SingleFlight κ ν
  caller : Nat → Option (Caller κ ν)

inductive Event (κ ν : Type)
  | call (id : Nat) (key : κ)
  | join (id : Nat)
  /-- The function of the leader ends. -/
  | finish (id : Nat) (outcome : Outcome ν)
  | deregister (id : Nat)
  | release (id : Nat)
  | wake (id : Nat)

namespace Callers
variable {κ ν : Type}

def start : Callers κ ν :=
  ⟨{}, fun _ => none⟩

def put (w : Callers κ ν) (flight : SingleFlight κ ν) (id : Nat) (c : Caller κ ν) : Callers κ ν :=
  ⟨flight, Function.update w.caller id (some c)⟩

variable [DecidableEq κ]

def perform (w : Callers κ ν) : Event κ ν → Option (Callers κ ν)
  | .call id key =>
    match w.caller id with
    | none => some (w.put w.flight id ⟨key, .joining⟩)
    | some _ => none
  | .join id => match w.caller id with
    | some ⟨key, .joining⟩ =>
      let (joined, flight) := w.flight.join key id
      some (w.put flight id ⟨key, match joined with
        | some leader => .waiting leader
        | none => .running⟩)
    | _ => none
  | .finish id outcome => match w.caller id with
    | some ⟨key, .running⟩ => some (w.put (w.flight.settle id outcome) id ⟨key, .deregistering outcome⟩)
    | _ => none
  | .deregister id => match w.caller id with
    | some ⟨key, .deregistering outcome⟩ => some (w.put (w.flight.deregister key) id ⟨key, .releasing outcome⟩)
    | _ => none
  | .release id => match w.caller id with
    | some ⟨key, .releasing outcome⟩ => some (w.put (w.flight.release id) id ⟨key, .ofOutcome outcome⟩)
    | _ => none
  | .wake id => match w.caller id with
    | some ⟨key, .waiting leader⟩ => (w.flight.wake leader).map fun answer => w.put w.flight id ⟨key, .ofAnswer answer⟩
    | _ => none

def Step (w : Callers κ ν) (event : Event κ ν) (w' : Callers κ ν) : Prop :=
  w.perform event = some w'

/-- The steps of `do` one by one. -/
inductive Move (w : Callers κ ν) : Event κ ν → Callers κ ν → Prop
  | called {id} (key : κ) : w.caller id = none → Move w (.call id key) (w.put w.flight id ⟨key, .joining⟩)
  | led {id key} : w.caller id = some ⟨key, .joining⟩ → w.flight.calls key = none →
      Move w (.join id) (w.put (w.flight.join key id).2 id ⟨key, .running⟩)
  | followed {id key leader} : w.caller id = some ⟨key, .joining⟩ → w.flight.calls key = some leader →
      Move w (.join id) (w.put w.flight id ⟨key, .waiting leader⟩)
  | finished {id key} (outcome : Outcome ν) : w.caller id = some ⟨key, .running⟩ →
      Move w (.finish id outcome) (w.put (w.flight.settle id outcome) id ⟨key, .deregistering outcome⟩)
  | deregistered {id key outcome} : w.caller id = some ⟨key, .deregistering outcome⟩ →
      Move w (.deregister id) (w.put (w.flight.deregister key) id ⟨key, .releasing outcome⟩)
  | released {id key outcome} : w.caller id = some ⟨key, .releasing outcome⟩ →
      Move w (.release id) (w.put (w.flight.release id) id ⟨key, .ofOutcome outcome⟩)
  | woken {id key leader answer} : w.caller id = some ⟨key, .waiting leader⟩ →
      w.flight.wake leader = some answer → Move w (.wake id) (w.put w.flight id ⟨key, .ofAnswer answer⟩)

section
variable {w w' : Callers κ ν} {event : Event κ ν} {trace : List (Event κ ν)}

theorem Step.move (taken : w.Step event w') : w.Move event w' := by
  unfold Step at taken
  cases event with
  | call id key =>
    simp only [perform] at taken
    split at taken
    · rename_i free
      cases taken
      exact .called key free
    · cases taken
  | join id =>
    simp only [perform] at taken
    split at taken
    · rename_i key here
      have joins : w.flight.join key id = ((w.flight.join key id).1, (w.flight.join key id).2) := rfl
      rcases join_cases joins with ⟨free, joined, _⟩ | ⟨leader, entered, joined, same⟩
      · rw [joined] at taken
        cases taken
        exact .led here free
      · rw [joined, same] at taken
        cases taken
        exact .followed here entered
    · cases taken
  | finish id outcome =>
    simp only [perform] at taken
    split at taken
    · rename_i key here
      cases taken
      exact .finished outcome here
    · cases taken
  | deregister id =>
    simp only [perform] at taken
    split at taken
    · rename_i key outcome here
      cases taken
      exact .deregistered here
    · cases taken
  | release id =>
    simp only [perform] at taken
    split at taken
    · rename_i key outcome here
      cases taken
      exact .released here
    · cases taken
  | wake id =>
    simp only [perform] at taken
    split at taken
    · rename_i key leader here
      obtain ⟨answer, woken, rfl⟩ := Option.map_eq_some_iff.mp taken
      exact .woken here woken
    · cases taken

/-- The table holds the leaders from their insert to their pop, and every
waiter's leader is still to release it or has done so. -/
structure Sound (w : Callers κ ν) : Prop where
  led : ∀ {key leader}, w.flight.calls key = some leader →
    ∃ c, w.caller leader = some c ∧ c.key = key ∧ c.phase.registered = true
  entered : ∀ {id c}, w.caller id = some c → c.phase.registered = true → w.flight.calls c.key = some id
  attended : ∀ {id c leader}, w.caller id = some c → c.phase = .waiting leader →
    ∃ q, w.caller leader = some q ∧ q.key = c.key ∧
      (q.phase.leads = true ∨ (q.phase.over = true ∧ (w.flight.object leader).done = true))

omit [DecidableEq κ] in
/-- What a step of the call `id` has to leave and to bring about. -/
theorem Sound.put {flight : SingleFlight κ ν} {id : Nat} {c : Caller κ ν} (sound : w.Sound)
    (known : ∀ old, w.caller id = some old → old.key = c.key ∧ old.phase.over = false)
    (before : ∀ key other, other ≠ id → (flight.calls key = some other ↔ w.flight.calls key = some other))
    (own : ∀ key, flight.calls key = some id ↔ key = c.key ∧ c.phase.registered = true)
    (done : ∀ other, other ≠ id → (flight.object other).done = (w.flight.object other).done)
    (leads : ∀ old, w.caller id = some old → old.phase.leads = true →
      c.phase.leads = true ∨ (c.phase.over = true ∧ (flight.object id).done = true))
    (waits : ∀ leader, c.phase = .waiting leader → leader ≠ id ∧ w.flight.calls c.key = some leader) :
    (w.put flight id c).Sound := by
  have self : (w.put flight id c).caller id = some c := Function.update_self ..
  have others {other : Nat} (different : other ≠ id) : (w.put flight id c).caller other = w.caller other :=
    Function.update_of_ne different ..
  refine ⟨fun {key leader} held => ?_, fun {other q} held registered => ?_, fun {other q leader} held waiting => ?_⟩
  · by_cases same : leader = id
    · subst same
      obtain ⟨rfl, registered⟩ := (own key).mp held
      exact ⟨c, self, rfl, registered⟩
    · rw [others same]
      exact sound.led ((before key leader same).mp held)
  · by_cases same : other = id
    · subst same
      cases self.symm.trans held
      exact (own c.key).mpr ⟨rfl, registered⟩
    · rw [others same] at held
      exact (before q.key other same).mpr (sound.entered held registered)
  · have leader_moves {q q' : Caller κ ν} (led : w.caller id = some q) (key : q.key = q'.key)
        (stands : q.phase.leads = true ∨ (q.phase.over = true ∧ (w.flight.object id).done = true)) :
        ∃ r, (w.put flight id c).caller id = some r ∧ r.key = q'.key ∧
          (r.phase.leads = true ∨ (r.phase.over = true ∧ (flight.object id).done = true)) := by
      obtain ⟨sameKey, busy⟩ := known q led
      refine ⟨c, self, sameKey.symm.trans key, ?_⟩
      rcases stands with leading | ⟨ended, _⟩
      · exact leads q led leading
      · rw [busy] at ended
        cases ended
    by_cases same : other = id
    · subst same
      cases self.symm.trans held
      obtain ⟨different, entered⟩ := waits leader waiting
      obtain ⟨r, led, key, registered⟩ := sound.led entered
      refine ⟨r, (others different).trans led, key, Or.inl ?_⟩
      cases phase : r.phase <;> simp_all [CallerPhase.registered, CallerPhase.leads]
    · rw [others same] at held
      obtain ⟨r, led, key, stands⟩ := sound.attended held waiting
      by_cases acts : leader = id
      · subst acts
        exact leader_moves led key stands
      · refine ⟨r, (others acts).trans led, key, ?_⟩
        have kept : ((w.put flight id c).flight.object leader).done = (w.flight.object leader).done := done leader acts
        rw [kept]
        exact stands

omit [DecidableEq κ] in
/-- A call that is not registered owns no entry of the table. -/
theorem Sound.unlisted {id : Nat} {c : Caller κ ν} (sound : w.Sound) (known : w.caller id = some c)
    (outside : c.phase.registered = false) (key : κ) : w.flight.calls key ≠ some id := by
  intro entered
  obtain ⟨q, led, _, registered⟩ := sound.led entered
  cases known.symm.trans led
  rw [outside] at registered
  cases registered

omit [DecidableEq κ] in
theorem Sound.listed {id : Nat} {c : Caller κ ν} (sound : w.Sound) (known : w.caller id = some c)
    (inside : c.phase.registered = true) (key : κ) : w.flight.calls key = some id ↔ key = c.key := by
  constructor
  · intro entered
    obtain ⟨q, led, same, _⟩ := sound.led entered
    cases known.symm.trans led
    exact same.symm
  · rintro rfl
    exact sound.entered known inside

theorem Sound.step (sound : w.Sound) (taken : w.Step event w') : w'.Sound := by
  cases taken.move with
  | @called id key free =>
    refine sound.put (by simp [free]) (fun _ _ _ => Iff.rfl) ?_ (fun _ _ => rfl) (by simp [free]) (by simp)
    intro other
    refine ⟨fun entered => ?_, fun wrong => by cases wrong.2⟩
    obtain ⟨q, led, _⟩ := sound.led entered
    cases free.symm.trans led
  | @led id key known free =>
    have calls := join_calls free id
    have object := join_object free id
    refine sound.put (by simp [known, CallerPhase.over]) ?_ ?_ ?_ (by simp [known, CallerPhase.leads]) (by simp)
    · intro other leader different
      rw [calls]
      by_cases same : other = key
      · rw [same, Function.update_self, free]
        simp [Ne.symm different]
      · rw [Function.update_of_ne same]
    · intro other
      rw [calls]
      by_cases same : other = key
      · simp [same, CallerPhase.registered]
      · rw [Function.update_of_ne same]
        simp [same, sound.unlisted known rfl other]
    · intro other different
      rw [object, Function.update_of_ne different]
  | @followed id key leader known entered =>
    refine sound.put (by simp [known, CallerPhase.over]) (fun _ _ _ => Iff.rfl) ?_ (fun _ _ => rfl)
      (by simp [known, CallerPhase.leads]) ?_
    · intro other
      simp [sound.unlisted known rfl other, CallerPhase.registered]
    · intro other waits
      cases waits
      refine ⟨?_, entered⟩
      rintro rfl
      exact sound.unlisted known rfl key entered
  | @finished id key outcome known =>
    refine sound.put (by simp [known, CallerPhase.over]) ?_ ?_ ?_ (by simp [CallerPhase.leads]) (by simp)
    · intro other leader _
      rw [settle_calls]
    · intro other
      rw [settle_calls, sound.listed known rfl]
      simp [CallerPhase.registered]
    · intro other different
      rw [settle_object_other outcome different]
  | @deregistered id key outcome known =>
    refine sound.put (by simp [known, CallerPhase.over]) ?_ ?_ (fun _ _ => rfl) (by simp [CallerPhase.leads]) (by simp)
    · intro other leader different
      by_cases same : other = key
      · have entered := (sound.listed known rfl key).mpr rfl
        simp [deregister, same, entered, Ne.symm different]
      · simp [deregister, Function.update_of_ne same]
    · intro other
      by_cases same : other = key
      · simp [deregister, same, CallerPhase.registered]
      · simp [deregister, CallerPhase.registered, sound.listed known rfl other, same]
  | @released id key outcome known =>
    refine sound.put (by simp [known, CallerPhase.over]) (fun _ _ _ => Iff.rfl) ?_ ?_ ?_ ?_
    · intro other
      have off : (CallerPhase.ofOutcome outcome).registered = false := by cases outcome <;> rfl
      simp [release, sound.unlisted known rfl other, off]
    · intro other different
      simp [release, Function.update_of_ne different]
    · intro old _ _
      refine Or.inr ⟨by cases outcome <;> rfl, ?_⟩
      simp [release]
    · intro leader waits
      cases outcome <;> cases waits
  | @woken id key leader answer known woken =>
    refine sound.put (by simp [known, CallerPhase.over]) (fun _ _ _ => Iff.rfl) ?_ (fun _ _ => rfl)
      (by simp [known, CallerPhase.leads]) ?_
    · intro other
      have off : (CallerPhase.ofAnswer answer).registered = false := by cases answer <;> rfl
      simp [sound.unlisted known rfl other, off]
    · intro other waits
      cases answer <;> cases waits

theorem sound_of_run (run : Run Step (start : Callers κ ν) trace w) : w.Sound := by
  induction run with
  | start =>
    refine ⟨fun held => ?_, fun known => ?_, fun known => ?_⟩
    · cases held
    · cases known
    · cases known
  | next _ taken ih => exact ih.step taken

/-- At most one function runs per key. A call that runs none has joined one
that was still in the table. The table holds a key only while its leader is
between insert and pop, and a waiter is blocked only while its leader is in `do`. -/
theorem single_flight (run : Run Step (start : Callers κ ν) trace w) :
    (∀ a b c d, w.caller a = some c → w.caller b = some d → c.phase = .running → d.phase = .running →
      c.key = d.key → a = b) ∧
    (∀ id c w', w.Step (.join id) w' → w'.caller id = some c → c.phase = .running ∨
      ∃ leader q, c.phase = .waiting leader ∧ w.flight.calls c.key = some leader ∧
        w.caller leader = some q ∧ q.key = c.key ∧ q.phase.registered = true) ∧
    (∀ key leader, w.flight.calls key = some leader →
      ∃ q, w.caller leader = some q ∧ q.key = key ∧ q.phase.registered = true) ∧
    ((∀ id c, w.caller id = some c → c.phase.over = true) → ∀ key, w.flight.calls key = none) ∧
    (∀ id c leader, w.caller id = some c → c.phase = .waiting leader →
      ∃ q, w.caller leader = some q ∧ (q.phase.over = false ∨ (w.flight.wake leader).isSome)) := by
  have sound := sound_of_run run
  refine ⟨?_, ?_, fun key leader entered => sound.led entered, ?_, ?_⟩
  · intro a b c d known known' running running' same
    have entered := sound.entered known (by rw [running]; rfl)
    have entered' := sound.entered known' (by rw [running']; rfl)
    rw [same, entered'] at entered
    exact (Option.some.inj entered).symm
  · intro id c w' taken known
    cases taken.move with
    | led _ _ =>
      cases (Function.update_self ..).symm.trans known
      exact Or.inl rfl
    | @followed _ key leader _ entered =>
      cases (Function.update_self ..).symm.trans known
      obtain ⟨q, led, sameKey, registered⟩ := sound.led entered
      exact Or.inr ⟨leader, q, rfl, entered, led, sameKey, registered⟩
  · intro left key
    cases entered : w.flight.calls key with
    | none => rfl
    | some leader =>
      obtain ⟨q, led, _, registered⟩ := sound.led entered
      have ended := left leader q led
      cases phase : q.phase <;> simp_all [CallerPhase.registered, CallerPhase.over]
  · intro id c leader known waiting
    obtain ⟨q, led, _, stands⟩ := sound.attended known waiting
    refine ⟨q, led, ?_⟩
    rcases stands with leading | ⟨_, done⟩
    · refine Or.inl ?_
      cases phase : q.phase <;> simp_all [CallerPhase.leads, CallerPhase.over]
    · refine Or.inr ?_
      rw [wake, if_pos done]
      rfl

end

/-- A waiter of the first flight is still to be woken when a second one for the
same key is under way. -/
theorem single_flight_overlapping :
    ∃ w : Callers String Nat,
      Run Step start
        [.call 0 "c", .call 1 "c", .call 2 "c", .join 0, .join 1, .finish 0 (.returned (some 7)), .deregister 0,
          .join 2, .release 0] w ∧
      w.caller 1 = some ⟨"c", .waiting 0⟩ ∧ w.caller 2 = some ⟨"c", .running⟩ ∧
      ∃ q, w.caller 0 = some q ∧ (q.phase.over = false ∨ (w.flight.wake 0).isSome) := by
  have executed : ∃ w : Callers String Nat,
      Run Step start
        [.call 0 "c", .call 1 "c", .call 2 "c", .join 0, .join 1, .finish 0 (.returned (some 7)), .deregister 0,
          .join 2, .release 0] w ∧
      w.caller 1 = some ⟨"c", .waiting 0⟩ ∧ w.caller 2 = some ⟨"c", .running⟩ :=
    Run.exists_of_execute (fun _ _ _ done => done) (by decide +kernel)
  obtain ⟨w, run, waiting, running⟩ := executed
  exact ⟨w, run, waiting, running, (single_flight run).2.2.2.2 1 _ 0 waiting rfl⟩

end Callers
end SingleFlight
end UrlShortener
