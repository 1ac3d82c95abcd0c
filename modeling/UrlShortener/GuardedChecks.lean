import UrlShortener.EnforceLimit
import UrlShortener.LimiterWindows

namespace UrlShortener
namespace GuardedChecks
open Machine Transition Allowance SqliteStore

/-- A request, the process that serves it, and what its limiter's clock reads. -/
structure Check extends HttpRequest where
  servedBy : Nat := 0
  nowMs : Int

def Check.owner (check : Check) : String :=
  clientId check.toHttpRequest

def Check.call (config : RateLimiter) (check : Check) : Call :=
  config.check check.owner 1 check.nowMs

/-- How far the guarded check of a request has got. The two counters of a guard
are read and written apart, under no lock. -/
inductive Stage
  | arrived
  | calling
  | failed
  | countingErrors (seen : Nat)
  | bypassed
  | countingOpens (seen : Nat)
  | answered (decision : Decision)
  deriving DecidableEq

/-- All processes, each with a guard of its own, on one limiter database. -/
structure Fleet where
  guards : Nat → BreakerGuardedLimiter
  store : Sessions
  stage : Nat → Stage

inductive Action
  | allow (id : Nat) (now : ℚ) (admitted : Bool)
  | statement (statement : Statement)
  | success (id : Nat)
  | failure (id : Nat) (now : ℚ)
  | readErrors (id : Nat)
  | writeErrors (id : Nat)
  | readOpens (id : Nat)
  | writeOpens (id : Nat)
  deriving DecidableEq

def Action.caller : Action → Nat
  | statement label => label.caller
  | allow id .. | success id | failure id _ | readErrors id | writeErrors id | readOpens id | writeOpens id => id

/-- The request that the action decides without the store. -/
def Action.bypass : Action → Option Nat
  | allow id _ false | failure id _ => some id
  | _ => none

def Action.statement? : Action → Option Statement
  | statement label => some label
  | _ => none

/-- The request that the action decides by its bucket. -/
def Action.metered : Action → Option Nat
  | statement (.commit id) => some id
  | _ => none

def Action.decides (action : Action) : Option Nat :=
  action.metered <|> action.bypass

def start (guards : Nat → BreakerGuardedLimiter) (buckets : Buckets) : Fleet :=
  ⟨guards, .start buckets, fun _ => .arrived⟩

section
variable (checks : Nat → Check)

/-- The guard that a request is checked by. -/
def Fleet.guard (s : Fleet) (id : Nat) : BreakerGuardedLimiter :=
  s.guards (checks id).servedBy

def Fleet.move (s : Fleet) (id : Nat) (guard : BreakerGuardedLimiter) (stage : Stage) : Fleet :=
  { s with
    guards := Function.update s.guards (checks id).servedBy guard
    stage := Function.update s.stage id stage }

variable (config : RateLimiter)

/-- The checks of any number of requests. The methods of a breaker run under
its lock, and the store is called one statement at a time. -/
inductive Step : Fleet → Action → Fleet → Prop
  | allow {s id now admitted breaker} : s.stage id = .arrived →
      (s.guard checks id).breaker.allow now = some (admitted, breaker) →
      Step s (.allow id now admitted)
        (s.move checks id { s.guard checks id with breaker := breaker } (if admitted then .calling else .bypassed))
  | statement {s label store} : s.stage label.caller = .calling →
      SqliteStore.Step (fun id => (checks id).call config) s.store label store →
      Step s (.statement label) { s with store := store }
  | success {s id decision} : s.stage id = .calling → s.store.phase id = .returned decision →
      Step s (.success id)
        (s.move checks id { s.guard checks id with breaker := (s.guard checks id).breaker.recordSuccess }
          (.answered decision))
  | failure {s id} (now : ℚ) : s.stage id = .calling → s.store.phase id = .raised →
      Step s (.failure id now)
        (s.move checks id { s.guard checks id with breaker := (s.guard checks id).breaker.recordFailure now } .failed)
  | readErrors {s id} : s.stage id = .failed →
      Step s (.readErrors id) (s.move checks id (s.guard checks id) (.countingErrors (s.guard checks id).errorCount))
  | writeErrors {s id seen} : s.stage id = .countingErrors seen →
      Step s (.writeErrors id) (s.move checks id { s.guard checks id with errorCount := seen + 1 } .bypassed)
  | readOpens {s id} : s.stage id = .bypassed →
      Step s (.readOpens id) (s.move checks id (s.guard checks id) (.countingOpens (s.guard checks id).failOpenCount))
  | writeOpens {s id seen} : s.stage id = .countingOpens seen →
      Step s (.writeOpens id)
        (s.move checks id { s.guard checks id with failOpenCount := seen + 1 }
          (.answered (s.guard checks id).unguarded))

/-- The step an action names, if it is possible. -/
def Fleet.perform (s : Fleet) : Action → Option Fleet
  | .allow id now admitted =>
    if s.stage id = .arrived then
      ((s.guard checks id).breaker.allow now).bind fun (answer, breaker) =>
        if admitted = answer then
          some (s.move checks id { s.guard checks id with breaker := breaker } (if answer then .calling else .bypassed))
        else none
    else none
  | .statement label =>
    if s.stage label.caller = .calling then
      (s.store.perform (fun id => (checks id).call config) label).map fun store => { s with store := store }
    else none
  | .success id =>
    match s.stage id, s.store.phase id with
    | .calling, .returned decision => some (s.move checks id
        { s.guard checks id with breaker := (s.guard checks id).breaker.recordSuccess } (.answered decision))
    | _, _ => none
  | .failure id now =>
    if s.stage id = .calling ∧ s.store.phase id = .raised then
      some (s.move checks id
        { s.guard checks id with breaker := (s.guard checks id).breaker.recordFailure now } .failed)
    else none
  | .readErrors id =>
    if s.stage id = .failed then
      some (s.move checks id (s.guard checks id) (.countingErrors (s.guard checks id).errorCount))
    else none
  | .writeErrors id =>
    match s.stage id with
    | .countingErrors seen => some (s.move checks id { s.guard checks id with errorCount := seen + 1 } .bypassed)
    | _ => none
  | .readOpens id =>
    if s.stage id = .bypassed then
      some (s.move checks id (s.guard checks id) (.countingOpens (s.guard checks id).failOpenCount))
    else none
  | .writeOpens id =>
    match s.stage id with
    | .countingOpens seen => some (s.move checks id { s.guard checks id with failOpenCount := seen + 1 }
        (.answered (s.guard checks id).unguarded))
    | _ => none

variable {checks config}

theorem Step.of_perform (s : Fleet) (action : Action) (t : Fleet) (done : s.perform checks config action = some t) :
    Step checks config s action t := by
  unfold Fleet.perform at done
  cases action with
  | allow id now admitted =>
    obtain ⟨arrived, answered⟩ := Option.ite_none_right_eq_some.mp done
    obtain ⟨⟨answer, breaker⟩, allowed, same⟩ := Option.bind_eq_some_iff.mp answered
    obtain ⟨rfl, moved⟩ := Option.ite_none_right_eq_some.mp same
    cases moved
    exact .allow arrived allowed
  | statement label =>
    obtain ⟨calling, inner⟩ := Option.ite_none_right_eq_some.mp done
    obtain ⟨store, performed, rfl⟩ := Option.map_eq_some_iff.mp inner
    exact .statement calling (.of_perform performed)
  | success id =>
    dsimp only at done
    split at done
    · rename_i calling returned
      cases done
      exact .success calling returned
    · cases done
  | failure id now =>
    obtain ⟨⟨calling, raised⟩, same⟩ := Option.ite_none_right_eq_some.mp done
    cases same
    exact .failure now calling raised
  | readErrors id =>
    obtain ⟨failed, same⟩ := Option.ite_none_right_eq_some.mp done
    cases same
    exact .readErrors failed
  | writeErrors id =>
    dsimp only at done
    split at done
    · rename_i seen counting
      cases done
      exact .writeErrors counting
    · cases done
  | readOpens id =>
    obtain ⟨bypassed, same⟩ := Option.ite_none_right_eq_some.mp done
    cases same
    exact .readOpens bypassed
  | writeOpens id =>
    dsimp only at done
    split at done
    · rename_i seen counting
      cases done
      exact .writeOpens counting
    · cases done

end

/-- The statements that reached the store. -/
def statements (trace : List Action) : List Statement :=
  trace.filterMap Action.statement?

def bypasses (trace : List Action) : List Nat :=
  trace.filterMap Action.bypass

/-- The requests that were decided, in the order of the decisions. -/
def decided (trace : List Action) : List Nat :=
  trace.filterMap Action.decides

/-- Was this request let through? -/
def Fleet.letsThrough (s : Fleet) (id : Nat) : Bool :=
  match s.stage id with
  | .answered decision => decision.allowed
  | _ => false

variable {checks : Nat → Check} {config : RateLimiter} {guards : Nat → BreakerGuardedLimiter} {buckets : Buckets}
  {trace : List Action} {action : Action} {s t : Fleet} {id : Nat}

@[simp] theorem Fleet.move_self (s : Fleet) (id : Nat) (guard : BreakerGuardedLimiter) (stage : Stage) :
    (s.move checks id guard stage).stage id = stage :=
  Function.update_self ..

theorem Fleet.move_other (s : Fleet) (guard : BreakerGuardedLimiter) (stage : Stage) {other : Nat}
    (different : other ≠ id) : (s.move checks id guard stage).stage other = s.stage other :=
  Function.update_of_ne different ..

@[simp] theorem Fleet.move_store (s : Fleet) (id : Nat) (guard : BreakerGuardedLimiter) (stage : Stage) :
    (s.move checks id guard stage).store = s.store := rfl

/-- The store sees a run of its own. -/
theorem store_run (run : Run (Step checks config) (start guards buckets) trace s) :
    Run (SqliteStore.Step fun id => (checks id).call config) (.start buckets) (statements trace) s.store := by
  refine run.project Fleet.store Action.statement? fun a label b taken => ?_
  cases taken with
  | statement _ inner => exact Or.inl ⟨_, rfl, inner⟩
  | _ => exact Or.inr ⟨rfl, rfl⟩

theorem Step.other (taken : Step checks config s action t) {other : Nat} (different : other ≠ action.caller) :
    t.stage other = s.stage other ∧ t.store.phase other = s.store.phase other := by
  cases taken with
  | statement _ inner => exact ⟨rfl, inner.phase_other different⟩
  | _ => exact ⟨s.move_other _ _ different, rfl⟩

theorem bypasses_snoc (trace : List Action) (action : Action) :
    bypasses (trace ++ [action]) = bypasses trace ++ action.bypass.toList := by
  rw [bypasses, List.filterMap_append, ← bypasses]
  cases found : action.bypass with
  | none => rw [List.filterMap_cons_none found, List.filterMap_nil, Option.toList_none]
  | some id => rw [List.filterMap_cons_some found, List.filterMap_nil, Option.toList_some]

/-- What the stage of a request says of its call and of how it was decided. -/
def Placed (bypassed : Prop) (phase : Phase) : Stage → Prop
  | .arrived => phase = .ready ∧ ¬ bypassed
  | .calling => ¬ bypassed
  | .answered decision => phase = .returned decision ∧ ¬ bypassed ∨ (phase = .ready ∨ phase = .raised) ∧ bypassed
  | _ => (phase = .ready ∨ phase = .raised) ∧ bypassed

theorem bypass_caller (found : action.bypass = some id) : action.caller = id := by
  unfold Action.bypass at found
  split at found
  · exact Option.some.inj found
  · exact Option.some.inj found
  · cases found

theorem Step.placed (taken : Step checks config s action t) (other : Nat) :
    Placed (other ∈ bypasses trace) (s.store.phase other) (s.stage other) →
      Placed (other ∈ bypasses (trace ++ [action])) (t.store.phase other) (t.stage other) := by
  rw [bypasses_snoc, List.mem_append]
  by_cases own : other = action.caller
  · subst own
    cases taken with
    | @allow id now admitted breaker arrived allowed =>
      rw [show (Action.allow id now admitted).caller = id from rfl, s.move_self, arrived, s.move_store]
      rintro ⟨ready, met⟩
      cases admitted with
      | true => exact fun found => found.elim met (by simp [Action.bypass])
      | false => exact ⟨Or.inl ready, Or.inr (by simp [Action.bypass])⟩
    | @statement label store calling inner =>
      rw [show (Action.statement label).caller = label.caller from rfl, calling]
      exact fun met found => found.elim met (by simp [Action.bypass])
    | @success id decision calling returned =>
      rw [show (Action.success id).caller = id from rfl, s.move_self, calling, s.move_store]
      exact fun met => Or.inl ⟨returned, fun found => found.elim met (by simp [Action.bypass])⟩
    | @failure id now calling raised =>
      rw [show (Action.failure id now).caller = id from rfl, s.move_self, calling, s.move_store]
      exact fun _ => ⟨Or.inr raised, Or.inr (by simp [Action.bypass])⟩
    | @readErrors id here =>
      rw [show (Action.readErrors id).caller = id from rfl, s.move_self, here, s.move_store]
      exact fun placed => ⟨placed.1, Or.inl placed.2⟩
    | @writeErrors id seen here =>
      rw [show (Action.writeErrors id).caller = id from rfl, s.move_self, here, s.move_store]
      exact fun placed => ⟨placed.1, Or.inl placed.2⟩
    | @readOpens id here =>
      rw [show (Action.readOpens id).caller = id from rfl, s.move_self, here, s.move_store]
      exact fun placed => ⟨placed.1, Or.inl placed.2⟩
    | @writeOpens id seen here =>
      rw [show (Action.writeOpens id).caller = id from rfl, s.move_self, here, s.move_store]
      exact fun placed => Or.inr ⟨placed.1, Or.inl placed.2⟩
  · obtain ⟨stage, phase⟩ := taken.other own
    have unmoved : other ∉ action.bypass.toList :=
      fun found => own (bypass_caller (Option.mem_toList.mp found)).symm
    rw [stage, phase, or_iff_left unmoved]
    exact id

theorem placed_of_run (run : Run (Step checks config) (start guards buckets) trace s) (id : Nat) :
    Placed (id ∈ bypasses trace) (s.store.phase id) (s.stage id) := by
  induction run with
  | start => exact ⟨rfl, List.not_mem_nil⟩
  | next _ taken ih => exact taken.placed id ih

theorem Step.bypass_new (taken : Step checks config s action t) (found : action.bypass = some id)
    (placed : Placed (id ∈ bypasses trace) (s.store.phase id) (s.stage id)) : id ∉ bypasses trace := by
  cases taken with
  | @allow other now admitted breaker arrived allowed =>
    cases admitted with
    | true => cases found
    | false =>
      cases found
      rw [arrived] at placed
      exact placed.2
  | @failure other now calling raised =>
    cases found
    rw [calling] at placed
    exact placed
  | _ => cases found

theorem bypasses_nodup (run : Run (Step checks config) (start guards buckets) trace s) : (bypasses trace).Nodup := by
  induction run with
  | start => exact .nil
  | @next trace s action t before taken ih =>
    rw [bypasses_snoc]
    cases found : action.bypass with
    | none => rwa [Option.toList_none, List.append_nil]
    | some id =>
      have new := taken.bypass_new found (placed_of_run before id)
      rw [Option.toList_some]
      exact List.nodup_append.mpr ⟨ih, List.pairwise_singleton _ id, fun a member b single => by
        rw [List.mem_singleton.mp single]
        exact ne_of_mem_of_not_mem member new⟩

/-- A request is decided by its bucket, at a COMMIT, or without the store. -/
theorem decided_perm (trace : List Action) :
    (decided trace).Perm (commitOrder (statements trace) ++ bypasses trace) := by
  induction trace with
  | nil => exact .nil
  | cons action rest ih =>
    rw [decided, bypasses, statements]
    cases action with
    | statement label =>
      rw [List.filterMap_cons_some (show (Action.statement label).statement? = some label from rfl),
        List.filterMap_cons_none (show (Action.statement label).bypass = none from rfl)]
      cases label with
      | commit id =>
        rw [List.filterMap_cons_some (show (Action.statement (.commit id)).decides = some id from rfl)]
        exact ih.cons id
      | _ => exact ih
    | allow id now admitted =>
      cases admitted with
      | true => exact ih
      | false => exact (ih.cons id).trans List.perm_middle.symm
    | failure id now => exact (ih.cons id).trans List.perm_middle.symm
    | _ => exact ih

theorem decided_nodup (run : Run (Step checks config) (start guards buckets) trace s) : (decided trace).Nodup := by
  have serial := serial_of_run (store_run run)
  refine (decided_perm trace).nodup_iff.mpr (List.nodup_append.mpr ⟨serial.once, bypasses_nodup run, ?_⟩)
  rintro id committed _ bypassed rfl
  obtain ⟨decision, returned⟩ := (serial.returned id).mpr committed
  have placed := placed_of_run run id
  rw [returned] at placed
  cases stage : s.stage id <;> simp [stage, Placed, bypassed] at placed

/-- An answer to a request was decided, and by the store if it is its decision. -/
theorem decided_of_answered (run : Run (Step checks config) (start guards buckets) trace s) {decision : Decision}
    (answered : s.stage id = .answered decision) : id ∈ decided trace := by
  have placed := placed_of_run run id
  rw [answered] at placed
  refine (decided_perm trace).mem_iff.mpr (List.mem_append.mpr ?_)
  rcases placed with ⟨returned, _⟩ | ⟨_, bypassed⟩
  · exact Or.inl (((serial_of_run (store_run run)).returned id).mp ⟨decision, returned⟩)
  · exact Or.inr bypassed

theorem letsThrough_returned (run : Run (Step checks config) (start guards buckets) trace s) {decision : Decision}
    (returned : s.store.phase id = .returned decision) (through : s.letsThrough id = true) :
    decision.allowed = true := by
  have placed := placed_of_run run id
  unfold Fleet.letsThrough at through
  split at through
  · rename_i answer answered
    rw [answered, returned] at placed
    rcases placed with ⟨same, _⟩ | ⟨other, _⟩
    · rw [Phase.returned.inj same]
      exact through
    · cases other <;> contradiction
  · cases through

/-- What the limiter's clock read for the calls of a client, as they were committed. -/
def readings (checks : Nat → Check) (client : String) (trace : List Action) : List Int :=
  ((commitOrder (statements trace)).filter fun id => (checks id).owner = client).map fun id => (checks id).nowMs

theorem call_key_iff {check : Check} {client : String} :
    (check.call config).key = "rl:" ++ client ↔ check.owner = client := by
  simp [Check.call, RateLimiter.check]

/-- The calls of a client, in the order of their commits. -/
def callsOf (config : RateLimiter) (checks : Nat → Check) (client : String) (trace : List Action) : List Call :=
  ((commitOrder (statements trace)).filter fun id => (checks id).owner = client).map fun id => (checks id).call config

theorem callsOf_key (client : String) (trace : List Action) :
    ((commitOrder (statements trace)).map fun id => (checks id).call config).filter (·.key = "rl:" ++ client) =
      callsOf config checks client trace := by
  rw [List.filter_map, callsOf]
  congr 1
  refine List.filter_congr fun id _ => ?_
  exact decide_eq_decide.mpr call_key_iff

theorem callsOf_uniform (client : String) (trace : List Action) :
    Uniform config.capacity config.refillPerSecond (callsOf config checks client trace) := by
  intro call member
  obtain ⟨id, _, rfl⟩ := List.mem_map.mp member
  exact ⟨rfl, rfl⟩

theorem callsOf_readings (config : RateLimiter) (client : String) (trace : List Action) :
    (callsOf config checks client trace).map Call.nowMs = readings checks client trace :=
  List.map_map

/-- What the store lets through in a part of a run. -/
theorem metered_le (run : Run (Step checks config) (start guards buckets) trace s) (stocked : Stocked buckets)
    (capacity : 0 ≤ config.capacity) (rate : 0 ≤ config.refillPerSecond) (client : String)
    {before window later : List Action} (parts : trace = before ++ window ++ later) :
    (((commitOrder (statements window)).countP fun id => (checks id).owner = client && s.letsThrough id : Nat) : ℚ) ≤
      config.capacity + config.refillPerSecond * climb (readings checks client window) / 1000 := by
  have serial := serial_of_run (store_run run)
  rw [parts, statements, List.filterMap_append, List.filterMap_append] at serial
  have granted (id : Nat) (decision : Decision) (returned : s.store.phase id = .returned decision)
      (through : (decide ((checks id).owner = client) && s.letsThrough id) = true) :
      ((checks id).call config).key = "rl:" ++ client ∧ decision.allowed = true := by
    obtain ⟨own, passed⟩ := Bool.and_eq_true_iff.mp through
    exact ⟨call_key_iff.mpr (of_decide_eq_true own), letsThrough_returned run returned passed⟩
  have counted := countP_le_allowed serial.window granted
  have full : Stocked (after consume buckets ((commitOrder (statements before)).map fun id => (checks id).call config)) :=
    stocked.after fun call member => by
      obtain ⟨id, _, rfl⟩ := List.mem_map.mp member
      exact ⟨capacity, rate⟩
  have uniform : Uniform config.capacity config.refillPerSecond (callsOf config checks client window) :=
    callsOf_uniform client window
  have bounded := admitted_window_le capacity rate uniform (full ("rl:" ++ client))
  rw [callsOf_readings, admitted_unit fun entry member => ?unit] at bounded
  case unit =>
    obtain ⟨id, _, same⟩ := List.mem_map.mp (transcript_mem _ _ member)
    rw [← same]
    rfl
  rw [← callsOf_key, ← keyed_transcript, ← consume_keyed] at bounded
  exact le_trans (by exact_mod_cast counted) bounded

/-- However the checks of all processes interleave, and whatever the store and
its clocks do: in every part of a run a client gets no more than the burst, the
refill of that part, and what was decided there without the store. -/
theorem limit_enforced (run : Run (Step checks config) (start guards buckets) trace s) (stocked : Stocked buckets)
    (capacity : 0 ≤ config.capacity) (rate : 0 ≤ config.refillPerSecond) :
    (∀ id decision, s.stage id = .answered decision → id ∈ decided trace) ∧ (decided trace).Nodup ∧
    ∀ client before window later, trace = before ++ window ++ later →
      (((decided window).countP fun id => (checks id).owner = client && s.letsThrough id : Nat) : ℚ) ≤
        config.capacity + config.refillPerSecond * climb (readings checks client window) / 1000 +
        (bypasses window).countP fun id => (checks id).owner = client := by
  refine ⟨fun id decision => decided_of_answered run, decided_nodup run, fun client before window later parts => ?_⟩
  have metered := metered_le run stocked capacity rate client parts
  have bypassed : (bypasses window).countP (fun id => (checks id).owner = client && s.letsThrough id) ≤
      (bypasses window).countP fun id => (checks id).owner = client :=
    List.countP_mono_left fun id _ through => (Bool.and_eq_true_iff.mp through).1
  have unmetered : (((bypasses window).countP fun id => (checks id).owner = client && s.letsThrough id : Nat) : ℚ) ≤
      (bypasses window).countP fun id => (checks id).owner = client := by
    exact_mod_cast bypassed
  rw [(decided_perm window).countP_eq, List.countP_append]
  push_cast
  linarith

/-- Requests of one client, on two processes in turn. -/
def inTurn (id : Nat) : Check :=
  { headers := [], client := some "a", servedBy := id % 2, nowMs := 1000 }

/-- Guards whose circuit opens at the first failure. -/
def nervous (_ : Nat) : BreakerGuardedLimiter :=
  { breaker := { failureThreshold := 1 } }

/-- One token, while a call fails on the lock of another and opens its circuit. -/
def contended : List Action :=
  [.allow 0 0 true, .statement (.begin 0), .allow 1 0 true, .statement (.fail 1), .statement (.select 0),
    .statement (.rollback 1), .statement (.upsert 0), .failure 1 0, .statement (.commit 0), .readErrors 1, .success 0,
    .writeErrors 1, .allow 3 1 false, .readOpens 1, .readOpens 3, .writeOpens 1, .writeOpens 3, .allow 2 1 true,
    .statement (.begin 2), .statement (.select 2), .statement (.upsert 2), .statement (.commit 2), .success 2]

theorem limit_enforced_contended :
    ∃ s, Run (Step inTurn ⟨1, 10⟩) (start nervous fun _ => none) contended s ∧
      (List.range 4).map s.letsThrough = [true, true, false, true] ∧
      (((decided contended).countP fun id => (inTurn id).owner = "a" && s.letsThrough id : Nat) : ℚ) ≤
        1 + 10 * climb (readings inTurn "a" contended) / 1000 +
          (bypasses contended).countP fun id => (inTurn id).owner = "a" := by
  have executed : ∃ s, Run (Step inTurn ⟨1, 10⟩) (start nervous fun _ => none) contended s ∧
      (List.range 4).map s.letsThrough = [true, true, false, true] :=
    Run.exists_of_execute Step.of_perform (by decide +kernel)
  obtain ⟨s, run, answers⟩ := executed
  have enforced := limit_enforced run (fun _ _ found => by cases found) (by norm_num) (by norm_num)
  exact ⟨s, run, answers, enforced.2.2 "a" [] contended [] (List.append_nil _).symm⟩

end GuardedChecks
end UrlShortener
