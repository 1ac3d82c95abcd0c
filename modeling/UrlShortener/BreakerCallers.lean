import UrlShortener.Breaker
import UrlShortener.General.Run

namespace UrlShortener
namespace CircuitBreaker
open Transition

/-- Where one use of the breaker stands, through `call` or `check` alike. -/
inductive Caller
  | idle
  | running
  | refused
  | recorded
  deriving DecidableEq

/-- A breaker and its callers. `clock` is when the last method was evaluated. -/
structure Callers where
  breaker : CircuitBreaker
  caller : Nat → Caller
  clock : ℚ

inductive Event
  /-- `probe` says that the circuit went from open to half-open. -/
  | allow (id : Nat) (now : ℚ) (admitted probe : Bool)
  | success (id : Nat) (now : ℚ)
  | failure (id : Nat) (now : ℚ)
  deriving DecidableEq

def Event.caller : Event → Nat
  | .allow id .. | .success id _ | .failure id _ => id

def Event.time : Event → ℚ
  | .allow _ now _ _ | .success _ now | .failure _ now => now

def Event.records (id : Nat) : Event → Prop
  | .allow .. => False
  | .success other _ | .failure other _ => other = id

/-- Each method runs under the breaker's lock, so it is one step. Between its
two steps a caller runs the protected function for as long as it likes. -/
inductive Step : Callers → Event → Callers → Prop
  | allow {s id now admitted breaker} : s.caller id = .idle →
      s.breaker.allow now = some (admitted, breaker) →
      Step s (.allow id now admitted (admitted && s.breaker.state = .opened))
        ⟨breaker, Function.update s.caller id (if admitted then .running else .refused), now⟩
  | success {s id} (now : ℚ) : s.caller id = .running →
      Step s (.success id now) ⟨s.breaker.recordSuccess, Function.update s.caller id .recorded, now⟩
  | failure {s id} (now : ℚ) : s.caller id = .running →
      Step s (.failure id now) ⟨s.breaker.recordFailure now, Function.update s.caller id .recorded, now⟩

/-- The step an event names, if it is possible. -/
def Callers.perform (s : Callers) : Event → Option Callers
  | .allow id now admitted probe =>
    if s.caller id = .idle then
      match s.breaker.allow now with
      | some (answer, breaker) =>
        if admitted = answer ∧ probe = (answer && s.breaker.state = .opened) then
          some ⟨breaker, Function.update s.caller id (if answer then .running else .refused), now⟩
        else none
      | none => none
    else none
  | .success id now =>
    if s.caller id = .running then
      some ⟨s.breaker.recordSuccess, Function.update s.caller id .recorded, now⟩
    else none
  | .failure id now =>
    if s.caller id = .running then
      some ⟨s.breaker.recordFailure now, Function.update s.caller id .recorded, now⟩
    else none

theorem Step.of_perform (s : Callers) (event : Event) (t : Callers) (done : s.perform event = some t) :
    Step s event t := by
  cases event with
  | allow id now admitted probe =>
    unfold Callers.perform at done
    dsimp only at done
    split at done
    · rename_i idle
      split at done
      · rename_i answer breaker allowed
        obtain ⟨⟨rfl, rfl⟩, same⟩ := Option.ite_none_right_eq_some.mp done
        cases same
        exact .allow idle allowed
      · cases done
    · cases done
  | success id now =>
    obtain ⟨running, same⟩ := Option.ite_none_right_eq_some.mp done
    cases same
    exact .success now running
  | failure id now =>
    obtain ⟨running, same⟩ := Option.ite_none_right_eq_some.mp done
    cases same
    exact .failure now running

/-- A step of callers whose common clock does not run backwards. -/
def Forward (s : Callers) (event : Event) (t : Callers) : Prop :=
  Step s event t ∧ s.clock ≤ t.clock

def Callers.advance (s : Callers) (event : Event) : Option Callers :=
  (s.perform event).filter fun t => s.clock ≤ t.clock

theorem Forward.of_advance (s : Callers) (event : Event) (t : Callers)
    (done : s.advance event = some t) : Forward s event t := by
  obtain ⟨performed, ordered⟩ := Option.filter_eq_some_iff.mp done
  exact ⟨.of_perform s event t performed, of_decide_eq_true ordered⟩

def start (failureThreshold : Nat) (cooldownS clock : ℚ) : Callers :=
  ⟨{ failureThreshold := failureThreshold, cooldownS := cooldownS }, fun _ => .idle, clock⟩

theorem step_of_forward {initial s : Callers} {trace : List Event} (run : Run Forward initial trace s) :
    Run Step initial trace s :=
  run.weaken fun _ _ _ taken => taken.1

/-- The failures recorded since the last recorded success. -/
def failureRun (trace : List Event) : Nat :=
  trace.foldl (fun count event => match event with
    | .allow .. => count
    | .success .. => 0
    | .failure .. => count + 1) 0

/-- The call that was admitted as the most recent probe. -/
def lastProbe (trace : List Event) : Option Nat :=
  trace.foldl (fun probe event => match event with
    | .allow id _ _ true => some id
    | _ => probe) none

theorem failureRun_snoc (trace : List Event) (event : Event) :
    failureRun (trace ++ [event]) = match event with
      | .allow .. => failureRun trace
      | .success .. => 0
      | .failure .. => failureRun trace + 1 := by
  rw [failureRun, List.foldl_append]
  cases event <;> rfl

theorem lastProbe_snoc (trace : List Event) (event : Event) :
    lastProbe (trace ++ [event]) = match event with
      | .allow id _ _ true => some id
      | _ => lastProbe trace := by
  rw [lastProbe, List.foldl_append]
  rfl

section
variable {s t : Callers} {trace : List Event} {event : Event} {id : Nat}

theorem Step.allow_inv {now : ℚ} {admitted probe : Bool} (taken : Step s (.allow id now admitted probe) t) :
    s.caller id = .idle ∧ s.breaker.allow now = some (admitted, t.breaker) ∧
      probe = (admitted && s.breaker.state = .opened) := by
  generalize named : Event.allow id now admitted probe = event at taken
  cases taken with
  | allow idle allowed =>
    obtain ⟨rfl, rfl, rfl, probes⟩ := Event.allow.inj named
    exact ⟨idle, allowed, probes⟩
  | success _ _ => cases named
  | failure _ _ => cases named

theorem Step.running_of_records (taken : Step s event t) (records : event.records id) :
    s.caller id = .running := by
  cases taken with
  | allow _ _ => exact records.elim
  | success _ running => cases records; exact running
  | failure _ running => cases records; exact running

theorem Step.config (taken : Step s event t) :
    t.breaker.failureThreshold = s.breaker.failureThreshold ∧ t.breaker.cooldownS = s.breaker.cooldownS := by
  cases taken with
  | allow _ allowed =>
    rcases allow_cases allowed with ⟨_, _, rfl⟩ | ⟨_, _, _, _, _, rfl⟩ | ⟨_, _, _, _, _, rfl⟩ |
      ⟨_, _, rfl⟩ <;> exact ⟨rfl, rfl⟩
  | success _ _ => exact ⟨rfl, rfl⟩
  | failure now _ => exact s.breaker.recordFailure_config now

theorem config_of_run {initial : Callers} (run : Run Step initial trace s) :
    s.breaker.failureThreshold = initial.breaker.failureThreshold ∧
      s.breaker.cooldownS = initial.breaker.cooldownS := by
  induction run with
  | start => exact ⟨rfl, rfl⟩
  | next _ taken ih => exact ⟨taken.config.1.trans ih.1, taken.config.2.trans ih.2⟩

theorem Step.clock_eq (taken : Step s event t) : t.clock = event.time := by
  cases taken <;> rfl

theorem Step.caller_other (taken : Step s event t) (other : id ≠ event.caller) :
    t.caller id = s.caller id := by
  cases taken <;> exact Function.update_of_ne other ..

theorem Step.recorded_stays (taken : Step s event t) (known : s.caller id = .recorded) :
    t.caller id = .recorded := by
  have other : id ≠ event.caller := by
    rintro rfl
    cases taken with
    | allow idle _ => exact absurd (known.symm.trans idle) (by decide)
    | success _ active => exact absurd (known.symm.trans active) (by decide)
    | failure _ active => exact absurd (known.symm.trans active) (by decide)
  rw [taken.caller_other other, known]

theorem Step.records_caller (taken : Step s event t) (records : event.records id) :
    t.caller id = .recorded := by
  cases taken with
  | allow _ _ => exact records.elim
  | success _ _ => cases records; exact Function.update_self ..
  | failure _ _ => cases records; exact Function.update_self ..

theorem recorded_of_records {initial : Callers} (run : Run Step initial trace s)
    (member : event ∈ trace) (records : event.records id) : s.caller id = .recorded := by
  induction run with
  | start => simp at member
  | next _ taken ih =>
    rcases List.mem_append.mp member with old | new
    · exact taken.recorded_stays (ih old)
    · cases List.mem_singleton.mp new
      exact taken.records_caller records

theorem Step.running_origin (taken : Step s event t) (running : t.caller id = .running) :
    s.caller id = .running ∨ ∃ now probe, event = .allow id now true probe := by
  by_cases other : id = event.caller
  · subst other
    cases taken with
    | @allow id now admitted breaker idle allowed =>
      have answer := (Function.update_self ..).symm.trans running
      cases admitted with
      | true => exact Or.inr ⟨now, _, rfl⟩
      | false => cases answer
    | success _ _ => cases (Function.update_self ..).symm.trans running
    | failure _ _ => cases (Function.update_self ..).symm.trans running
  · exact Or.inl (taken.caller_other other ▸ running)

theorem admitted_of_running {failureThreshold : Nat} {cooldownS clock : ℚ}
    (run : Run Step (start failureThreshold cooldownS clock) trace s) (running : s.caller id = .running) :
    ∃ now probe, .allow id now true probe ∈ trace := by
  induction run with
  | start => cases running
  | next _ taken ih =>
    rcases taken.running_origin running with before | ⟨now, probe, rfl⟩
    · obtain ⟨now, probe, member⟩ := ih before
      exact ⟨now, probe, List.mem_append_left _ member⟩
    · exact ⟨now, probe, List.mem_append_right _ (List.mem_singleton.mpr rfl)⟩

/-- There are always callers that have not come yet. -/
theorem idle_beyond {failureThreshold : Nat} {cooldownS clock : ℚ}
    (run : Run Step (start failureThreshold cooldownS clock) trace s) :
    ∃ bound, ∀ id, bound ≤ id → s.caller id = .idle := by
  induction run with
  | start => exact ⟨0, fun _ _ => rfl⟩
  | @next _ _ event _ _ taken ih =>
    obtain ⟨bound, fresh⟩ := ih
    refine ⟨max bound (event.caller + 1), fun id beyond => ?_⟩
    have other : id ≠ event.caller := by omega
    rw [taken.caller_other other]
    exact fresh id (by omega)

/-- The linked facts of the breaker's fields, and who holds it half-open. -/
structure Sound (trace : List Event) (s : Callers) : Prop where
  positive : 0 < s.breaker.failureThreshold
  failures : s.breaker.consecutiveFailures = failureRun trace
  closed : s.breaker.state = .closed →
    s.breaker.consecutiveFailures < s.breaker.failureThreshold ∧ s.breaker.openedAt = none
  tripped : s.breaker.state ≠ .closed →
    s.breaker.failureThreshold ≤ s.breaker.consecutiveFailures ∧ s.breaker.openedAt.isSome
  probing : s.breaker.state = .halfOpen →
    ∃ id, lastProbe trace = some id ∧ s.caller id = .running

theorem Sound.refused {breaker : CircuitBreaker} {now : ℚ} (sound : Sound trace s)
    (idle : s.caller id = .idle)
    (same : breaker = { s.breaker with shortCircuited := s.breaker.shortCircuited + 1 }) :
    Sound (trace ++ [.allow id now false false])
      ⟨breaker, Function.update s.caller id .refused, now⟩ := by
  subst same
  refine ⟨sound.positive, ?_, sound.closed, sound.tripped, ?_⟩
  · rw [failureRun_snoc]
    exact sound.failures
  · intro halfOpen
    obtain ⟨probe, last, running⟩ := sound.probing halfOpen
    have different : probe ≠ id := by rintro rfl; rw [idle] at running; cases running
    refine ⟨probe, ?_, ?_⟩
    · rw [lastProbe_snoc]
      exact last
    · exact (Function.update_of_ne different ..).trans running

theorem Sound.allow {breaker : CircuitBreaker} {now : ℚ} {admitted : Bool} (sound : Sound trace s)
    (idle : s.caller id = .idle) (allowed : s.breaker.allow now = some (admitted, breaker)) :
    Sound (trace ++ [.allow id now admitted (admitted && s.breaker.state = .opened)])
      ⟨breaker, Function.update s.caller id (if admitted then .running else .refused), now⟩ := by
  rcases allow_cases allowed with ⟨closed, rfl, rfl⟩ | ⟨since, opened, _, _, rfl, rfl⟩ |
    ⟨since, opened, _, _, rfl, same⟩ | ⟨_, rfl, same⟩
  · refine ⟨sound.positive, ?_, sound.closed, sound.tripped, ?_⟩
    · rw [failureRun_snoc]
      exact sound.failures
    · intro halfOpen
      rw [closed] at halfOpen
      cases halfOpen
  · have tripped := sound.tripped (by rw [opened]; decide)
    refine ⟨sound.positive, ?_, fun closed => ?_, fun _ => tripped, fun _ => ⟨id, ?_, ?_⟩⟩
    · rw [failureRun_snoc]
      exact sound.failures
    · cases closed
    · rw [lastProbe_snoc, opened]
      rfl
    · exact Function.update_self ..
  · exact sound.refused idle same
  · exact sound.refused idle same

theorem Sound.success (sound : Sound trace s) (now : ℚ) :
    Sound (trace ++ [.success id now])
      ⟨s.breaker.recordSuccess, Function.update s.caller id .recorded, now⟩ := by
  refine ⟨sound.positive, ?_, fun _ => ⟨sound.positive, rfl⟩, fun tripped => ?_, fun halfOpen => ?_⟩
  · rw [failureRun_snoc]
    rfl
  · exact absurd rfl tripped
  · cases halfOpen

theorem Sound.failure (sound : Sound trace s) (now : ℚ) :
    Sound (trace ++ [.failure id now])
      ⟨s.breaker.recordFailure now, Function.update s.caller id .recorded, now⟩ := by
  have threshold := (s.breaker.recordFailure_config now).1
  rcases s.breaker.recordFailure_cases now with ⟨closed, few, same⟩ | ⟨opened, few, same⟩ |
    ⟨opened, since, count, reason⟩
  · rw [same]
    refine ⟨sound.positive, ?_, fun _ => ⟨few, (sound.closed closed).2⟩, fun tripped => ?_,
      fun halfOpen => ?_⟩
    · rw [failureRun_snoc, ← sound.failures]
    · exact absurd closed tripped
    · rw [closed] at halfOpen
      cases halfOpen
  · have many := (sound.tripped (by rw [opened]; decide)).1
    omega
  · have many : s.breaker.failureThreshold ≤ s.breaker.consecutiveFailures + 1 := by
      rcases reason with halfOpen | many
      · have before := (sound.tripped (by rw [halfOpen]; decide)).1
        omega
      · exact many
    refine ⟨threshold ▸ sound.positive, ?_, fun closed => ?_, fun _ => ⟨?_, ?_⟩, fun halfOpen => ?_⟩
    · rw [failureRun_snoc, ← sound.failures]
      exact count
    · rw [opened] at closed
      cases closed
    · rw [threshold, count]
      exact many
    · rw [since]
      rfl
    · rw [opened] at halfOpen
      cases halfOpen

theorem Sound.step (sound : Sound trace s) (taken : Step s event t) : Sound (trace ++ [event]) t := by
  cases taken with
  | allow idle allowed => exact sound.allow idle allowed
  | success now _ => exact sound.success now
  | failure now _ => exact sound.failure now

theorem Sound.allow_total (sound : Sound trace s) (now : ℚ) : (s.breaker.allow now).isSome := by
  unfold CircuitBreaker.allow
  split
  · rfl
  · rename_i opened
    rw [Option.isSome_map]
    exact (sound.tripped (by rw [opened]; decide)).2
  · rfl

theorem sound_of_run {failureThreshold : Nat} {cooldownS clock : ℚ} (positive : 0 < failureThreshold)
    (run : Run Step (start failureThreshold cooldownS clock) trace s) : Sound trace s := by
  induction run with
  | start =>
    exact ⟨positive, rfl, fun _ => ⟨positive, rfl⟩, fun tripped => absurd rfl tripped,
      fun halfOpen => by cases halfOpen⟩
  | next _ taken ih => exact ih.step taken

/-- A whole `call` is a run of one caller's steps. -/
theorem call_run {α ε : Type} {allowAt recordAt : ℚ} {fn : Except ε α} {result : CallResult α ε}
    {breaker : CircuitBreaker} (idle : s.caller id = .idle)
    (called : s.breaker.call allowAt recordAt fn = some (result, breaker)) :
    ∃ events u, Run Step s events u ∧ u.breaker = breaker ∧ ∀ event ∈ events, event.caller = id := by
  obtain ⟨⟨admitted, allowedBreaker⟩, allowed, rest⟩ := Option.bind_eq_some_iff.mp called
  have first := Step.allow idle allowed
  cases admitted with
  | false =>
    cases rest
    exact ⟨_, _, .single first, rfl, by simp [Event.caller]⟩
  | true =>
    have running : Function.update s.caller id .running id = .running := Function.update_self ..
    cases fn with
    | ok value =>
      cases rest
      exact ⟨_, _, (Run.single first).next (.success recordAt running), rfl, by simp [Event.caller]⟩
    | error error =>
      cases rest
      exact ⟨_, _, (Run.single first).next (.failure recordAt running), rfl, by simp [Event.caller]⟩

/-- The state invariant of the breaker under any clock and any callers, and
that it is half-open only while its latest probe is still out. -/
theorem breaker_invariant {failureThreshold : Nat} {cooldownS clock : ℚ} (positive : 1 ≤ failureThreshold)
    (run : Run Step (start failureThreshold cooldownS clock) trace s) :
    s.breaker.consecutiveFailures = failureRun trace ∧
    (s.breaker.state = .closed →
      s.breaker.consecutiveFailures < failureThreshold ∧ s.breaker.openedAt = none) ∧
    (s.breaker.state = .opened ∨ s.breaker.state = .halfOpen →
      failureThreshold ≤ s.breaker.consecutiveFailures ∧ s.breaker.openedAt.isSome) ∧
    (∀ now, (s.breaker.allow now).isSome) ∧
    (s.breaker.state = .halfOpen → ∃ id, lastProbe trace = some id ∧ s.caller id = .running ∧
      ∀ event ∈ trace, ¬ event.records id) := by
  have sound := sound_of_run positive run
  have threshold : s.breaker.failureThreshold = failureThreshold := (config_of_run run).1
  refine ⟨sound.failures, ?_, ?_, ?_, ?_⟩
  · rw [← threshold]
    exact sound.closed
  · intro tripped
    rw [← threshold]
    exact sound.tripped (by rcases tripped with opened | halfOpen <;> simp [*])
  · exact sound.allow_total
  · intro halfOpen
    obtain ⟨id, last, running⟩ := sound.probing halfOpen
    refine ⟨id, last, running, fun event member records => ?_⟩
    rw [recorded_of_records run member records] at running
    cases running

end

/-- A breaker that trips at once: the third call is the probe, and still out. -/
theorem breaker_invariant_probing :
    ∃ s : Callers, s.breaker.consecutiveFailures =
        failureRun [.allow 0 0 true false, .failure 0 1, .allow 1 2 false false, .allow 2 6 true true] ∧
      ∃ id : Nat, lastProbe [.allow 0 0 true false, .failure 0 1, .allow 1 2 false false,
        .allow 2 6 true true] = some id ∧ s.caller id = .running := by
  have tripped : ∃ t : Callers, Run Step (start 1 5 0) [.allow 0 0 true false, .failure 0 1,
      .allow 1 2 false false, .allow 2 6 true true] t ∧ t.breaker.state = .halfOpen :=
    Run.exists_of_execute Step.of_perform (by decide +kernel)
  obtain ⟨s, run, halfOpen⟩ := tripped
  obtain ⟨failures, _, _, _, probing⟩ := breaker_invariant le_rfl run
  obtain ⟨id, last, running, _⟩ := probing halfOpen
  exact ⟨s, failures, id, last, running⟩

end CircuitBreaker
end UrlShortener
