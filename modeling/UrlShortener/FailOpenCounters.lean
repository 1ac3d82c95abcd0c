import UrlShortener.General.LostUpdates
import UrlShortener.GuardedChecks

namespace UrlShortener
namespace GuardedChecks
open Transition LostUpdates

/-- The two numbers that a guard counts outside the breaker's lock. -/
inductive Tally
  | errors
  | opens
  deriving DecidableEq

namespace Tally

def count : Tally → BreakerGuardedLimiter → Nat
  | errors, guard => guard.errorCount
  | opens, guard => guard.failOpenCount

/-- What a request has read and is about to write back. -/
def seen : Tally → Stage → Option Nat
  | errors, .countingErrors n => some n
  | opens, .countingOpens n => some n
  | _, _ => none

def access : Tally → Action → Option (Access Nat)
  | errors, .readErrors id => some (.read id)
  | errors, .writeErrors id => some (.write id)
  | opens, .readOpens id => some (.read id)
  | opens, .writeOpens id => some (.write id)
  | _, _ => none

/-- The request that has something to be counted from this action on. -/
def enters : Tally → Action → Option Nat
  | errors, .failure id _ => some id
  | errors, _ => none
  | opens, action => action.bypass

/-- How much of a request is still to be counted. -/
def owes : Tally → Stage → Nat
  | errors, .failed | errors, .countingErrors _ => 1
  | opens, .failed | opens, .countingErrors _ | opens, .bypassed | opens, .countingOpens _ => 1
  | _, _ => 0

/-- The requests of which the tally was written. -/
def written (tally : Tally) (trace : List Action) : List Nat :=
  trace.filterMap fun action => (tally.access action).bind Access.written

/-- The requests that the tally is meant to count. -/
def entered (tally : Tally) (trace : List Action) : List Nat :=
  trace.filterMap tally.enters

/-- The access to a tally in the guard of one process. -/
def accessOf (tally : Tally) (checks : Nat → Check) (process : Nat) (action : Action) : Option (Access Nat) :=
  (tally.access action).filter fun access => (checks access.writer).servedBy = process

end Tally

/-- One tally of one process as the counter that its requests share. -/
def Fleet.counter (s : Fleet) (tally : Tally) (checks : Nat → Check) (process : Nat) : Counter Nat where
  value := tally.count (s.guards process)
  seen id := if (checks id).servedBy = process then tally.seen (s.stage id) else none

/-- A step that reads a counter only while no other request of its process is
about to write that counter. -/
def Calm (checks : Nat → Check) (config : RateLimiter) (s : Fleet) (action : Action) (t : Fleet) : Prop :=
  Step checks config s action t ∧ ∀ (tally : Tally) (id : Nat), tally.access action = some (.read id) →
    ∀ other, (checks other).servedBy = (checks id).servedBy → tally.seen (s.stage other) = none

/-- The request that its breaker keeps from the store. -/
def Action.refusal : Action → Option Nat
  | .allow id _ false => some id
  | _ => none

def refusals (trace : List Action) : List Nat :=
  trace.filterMap Action.refusal

/-- How many of these requests a process serves. -/
def shareOf (checks : Nat → Check) (process : Nat) (ids : List Nat) : Nat :=
  ids.countP fun id => (checks id).servedBy = process

variable {checks : Nat → Check} {config : RateLimiter} {guards : Nat → BreakerGuardedLimiter} {buckets : Buckets}
  {trace : List Action} {action : Action} {s t : Fleet} {process : Nat} {tally : Tally}

theorem Fleet.move_guard (s : Fleet) (id : Nat) (guard : BreakerGuardedLimiter) (stage : Stage) :
    (s.move checks id guard stage).guards process =
      if (checks id).servedBy = process then guard else s.guards process := by
  by_cases own : (checks id).servedBy = process
  · rw [if_pos own, ← own]
    exact Function.update_self ..
  · rw [if_neg own]
    exact Function.update_of_ne (Ne.symm own) ..

/-- A move that neither changes a tally nor what is about to be written of it. -/
theorem Fleet.counter_move (s : Fleet) {id : Nat} {guard : BreakerGuardedLimiter} {stage : Stage}
    (counts : tally.count guard = tally.count (s.guard checks id))
    (sees : tally.seen stage = tally.seen (s.stage id)) :
    (s.move checks id guard stage).counter tally checks process = s.counter tally checks process := by
  have value : tally.count ((s.move checks id guard stage).guards process) = tally.count (s.guards process) := by
    rw [s.move_guard]
    split
    · rename_i own
      rw [counts, Fleet.guard, own]
    · rfl
  have seen : ∀ other, tally.seen ((s.move checks id guard stage).stage other) = tally.seen (s.stage other) := by
    intro other
    by_cases own : other = id
    · rw [own, s.move_self, sees]
    · rw [s.move_other guard stage own]
  rw [counter, counter, value]
  congr 1
  funext other
  rw [seen other]

theorem Fleet.counter_read (s : Fleet) {id : Nat} {stage : Stage} (own : (checks id).servedBy = process)
    (sees : tally.seen stage = some (tally.count (s.guard checks id))) :
    (s.move checks id (s.guard checks id) stage).counter tally checks process =
      (s.counter tally checks process).read id := by
  have value : tally.count ((s.move checks id (s.guard checks id) stage).guards process) =
      tally.count (s.guards process) := by
    rw [s.move_guard, if_pos own, Fleet.guard, own]
  rw [counter, Counter.read, counter, value]
  congr 1
  funext other
  by_cases same : other = id
  · rw [same, Function.update_self, if_pos own, s.move_self, sees, Fleet.guard, own]
  · rw [Function.update_of_ne same, s.move_other _ stage same]

theorem Fleet.counter_write (s : Fleet) {id n : Nat} {guard : BreakerGuardedLimiter} {stage : Stage}
    (own : (checks id).servedBy = process) (counts : tally.count guard = n + 1) (sees : tally.seen stage = none) :
    (s.move checks id guard stage).counter tally checks process = (s.counter tally checks process).write id n := by
  have value : tally.count ((s.move checks id guard stage).guards process) = n + 1 := by
    rw [s.move_guard, if_pos own, counts]
  rw [counter, Counter.write, counter, value]
  congr 1
  funext other
  by_cases same : other = id
  · rw [same, Function.update_self, if_pos own, s.move_self, sees]
  · rw [Function.update_of_ne same, s.move_other guard stage same]

/-- A request of another process is not seen by the counter. -/
theorem Fleet.counter_other (s : Fleet) {id : Nat} (guard : BreakerGuardedLimiter) (stage : Stage)
    (other : (checks id).servedBy ≠ process) :
    (s.move checks id guard stage).counter tally checks process = s.counter tally checks process := by
  rw [counter, counter, s.move_guard, if_neg other]
  congr 1
  funext one
  by_cases same : one = id
  · rw [same, if_neg other, if_neg other]
  · rw [s.move_other guard stage same]

/-- What a step does to a counter: an access to it, or nothing. -/
def Accessed (tally : Tally) (checks : Nat → Check) (process : Nat) (s : Fleet) (action : Action) (t : Fleet) : Prop :=
  (∃ access, tally.accessOf checks process action = some access ∧
    LostUpdates.Step (s.counter tally checks process) access (t.counter tally checks process)) ∨
  tally.accessOf checks process action = none ∧ t.counter tally checks process = s.counter tally checks process

theorem Accessed.quiet (free : tally.access action = none)
    (same : t.counter tally checks process = s.counter tally checks process) :
    Accessed tally checks process s action t :=
  Or.inr ⟨by rw [Tally.accessOf, free, Option.filter_none], same⟩

theorem Accessed.read {id : Nat} {stage : Stage} (reads : tally.access action = some (.read id))
    (before : tally.seen (s.stage id) = none) (sees : tally.seen stage = some (tally.count (s.guard checks id))) :
    Accessed tally checks process s action (s.move checks id (s.guard checks id) stage) := by
  rw [Accessed, Tally.accessOf, reads, Option.filter_some]
  by_cases own : (checks id).servedBy = process
  · refine Or.inl ⟨.read id, if_pos (decide_eq_true own), ?_⟩
    rw [s.counter_read own sees]
    exact .read ((if_pos own).trans before)
  · exact Or.inr ⟨if_neg (by rw [Access.writer, decide_eq_false own]; exact Bool.false_ne_true),
      s.counter_other _ stage own⟩

theorem Accessed.write {id n : Nat} {guard : BreakerGuardedLimiter} {stage : Stage}
    (writes : tally.access action = some (.write id)) (before : tally.seen (s.stage id) = some n)
    (counts : tally.count guard = n + 1) (sees : tally.seen stage = none) :
    Accessed tally checks process s action (s.move checks id guard stage) := by
  rw [Accessed, Tally.accessOf, writes, Option.filter_some]
  by_cases own : (checks id).servedBy = process
  · refine Or.inl ⟨.write id, if_pos (decide_eq_true own), ?_⟩
    rw [s.counter_write own counts sees]
    exact .write ((if_pos own).trans before)
  · exact Or.inr ⟨if_neg (by rw [Access.writer, decide_eq_false own]; exact Bool.false_ne_true),
      s.counter_other guard stage own⟩

theorem Step.accessed (taken : Step checks config s action t) (tally : Tally) (process : Nat) :
    Accessed tally checks process s action t := by
  cases taken with
  | @allow id now admitted breaker arrived _ =>
    refine .quiet (by cases tally <;> rfl) (s.counter_move (by cases tally <;> rfl) ?_)
    rw [arrived]
    cases tally <;> cases admitted <;> rfl
  | statement _ _ => exact .quiet (by cases tally <;> rfl) rfl
  | success calling _ =>
    refine .quiet (by cases tally <;> rfl) (s.counter_move (by cases tally <;> rfl) ?_)
    rw [calling]
    cases tally <;> rfl
  | failure now calling _ =>
    refine .quiet (by cases tally <;> rfl) (s.counter_move (by cases tally <;> rfl) ?_)
    rw [calling]
    cases tally <;> rfl
  | readErrors failed =>
    cases tally with
    | errors => exact .read rfl (by rw [failed]; rfl) rfl
    | opens => exact .quiet rfl (s.counter_move rfl (by rw [failed]; rfl))
  | writeErrors counting =>
    cases tally with
    | errors => exact .write rfl (by rw [counting]; rfl) rfl rfl
    | opens => exact .quiet rfl (s.counter_move rfl (by rw [counting]; rfl))
  | readOpens bypassed =>
    cases tally with
    | errors => exact .quiet rfl (s.counter_move rfl (by rw [bypassed]; rfl))
    | opens => exact .read rfl (by rw [bypassed]; rfl) rfl
  | writeOpens counting =>
    cases tally with
    | errors => exact .quiet rfl (s.counter_move rfl (by rw [counting]; rfl))
    | opens => exact .write rfl (by rw [counting]; rfl) rfl rfl

theorem counter_start (tally : Tally) (process : Nat) : (start guards buckets).counter tally checks process =
    ⟨tally.count (guards process), fun _ => none⟩ := by
  rw [Fleet.counter]
  congr 1
  funext id
  split
  · cases tally <;> rfl
  · rfl

/-- The requests of a process see its counter as the library has it. -/
theorem counter_run (run : Run (Step checks config) (start guards buckets) trace s) (tally : Tally) (process : Nat) :
    Run LostUpdates.Step ⟨tally.count (guards process), fun _ => none⟩
      (trace.filterMap (tally.accessOf checks process)) (s.counter tally checks process) := by
  have base : (start guards buckets).counter tally checks process = _ := counter_start tally process
  rw [← base]
  exact run.project (fun s => s.counter tally checks process) (tally.accessOf checks process)
    fun a label b taken => taken.accessed tally process

theorem Calm.alone (calm : Calm checks config s action t) {access : Access Nat}
    (accessed : tally.accessOf checks process action = some access)
    (taken : LostUpdates.Step (s.counter tally checks process) access (t.counter tally checks process)) :
    LostUpdates.Alone (s.counter tally checks process) access (t.counter tally checks process) := by
  refine ⟨taken, ?_⟩
  rintro reader rfl other
  obtain ⟨reads, own⟩ := Option.filter_eq_some_iff.mp accessed
  have nobody := calm.2 tally reader reads other
  by_cases mine : (checks other).servedBy = process
  · exact (if_pos mine).trans (nobody (mine.trans (of_decide_eq_true own).symm))
  · exact if_neg mine

theorem calm_counter_run (run : Run (Calm checks config) (start guards buckets) trace s) (tally : Tally) (process : Nat) :
    Run LostUpdates.Alone ⟨tally.count (guards process), fun _ => none⟩
      (trace.filterMap (tally.accessOf checks process)) (s.counter tally checks process) := by
  have base : (start guards buckets).counter tally checks process = _ := counter_start tally process
  rw [← base]
  refine run.project (fun s => s.counter tally checks process) (tally.accessOf checks process)
    fun a label b taken => ?_
  rcases taken.1.accessed tally process with ⟨access, accessed, moved⟩ | quiet
  · exact Or.inl ⟨access, accessed, taken.alone accessed moved⟩
  · exact Or.inr quiet

theorem written_length (tally : Tally) (checks : Nat → Check) (process : Nat) (trace : List Action) :
    ((trace.filterMap (tally.accessOf checks process)).filterMap Access.written).length =
      (tally.written trace).countP fun id => (checks id).servedBy = process := by
  induction trace with
  | nil => rfl
  | cons action rest ih =>
    rw [Tally.written] at ih ⊢
    rw [List.filterMap_cons, List.filterMap_cons, Tally.accessOf]
    cases accessed : tally.access action with
    | none => exact ih
    | some access =>
      rw [Option.filter_some, Option.bind_some]
      by_cases own : (checks access.writer).servedBy = process
      · rw [if_pos (decide_eq_true own), List.filterMap_cons]
        cases access with
        | read id => exact ih
        | write id =>
          have mine : (checks id).servedBy = process := own
          dsimp only [Access.written]
          rw [List.length_cons, ih, List.countP_cons, if_pos (decide_eq_true mine)]
      · rw [if_neg (by rw [decide_eq_false own]; exact Bool.false_ne_true)]
        cases access with
        | read id => exact ih
        | write id =>
          have foreign : (checks id).servedBy ≠ process := own
          dsimp only [Access.written]
          rw [ih, List.countP_cons, decide_eq_false foreign, if_neg Bool.false_ne_true, Nat.add_zero]

theorem count_other {found : Option Nat} {id other : Nat} (own : ∀ x, found = some x → x = id) (different : other ≠ id) :
    found.toList.count other = 0 := by
  refine List.count_eq_zero.mpr fun member => different (own other ?_)
  exact Option.mem_toList.mp member

theorem enters_caller (tally : Tally) {id : Nat} (enters : tally.enters action = some id) : id = action.caller := by
  cases tally with
  | errors => cases action <;> cases enters; rfl
  | opens => exact (bypass_caller enters).symm

theorem written_caller (tally : Tally) {id : Nat} (written : (tally.access action).bind Access.written = some id) :
    id = action.caller := by
  cases tally <;> cases action <;> cases written <;> rfl

/-- What a request has to be counted, and what is still owed of it. -/
theorem Step.owed (taken : Step checks config s action t) (tally : Tally) (other : Nat) :
    (tally.enters action).toList.count other + tally.owes (s.stage other) =
      ((tally.access action).bind Access.written).toList.count other + tally.owes (t.stage other) := by
  by_cases own : other = action.caller
  · subst own
    cases taken with
    | @allow id now admitted breaker arrived _ =>
      rw [show (Action.allow id now admitted).caller = id from rfl, s.move_self, arrived]
      cases tally <;> cases admitted <;> simp [Tally.enters, Tally.access, Tally.owes, Action.bypass]
    | statement _ _ => cases tally <;> rfl
    | @success id decision calling _ =>
      rw [show (Action.success id).caller = id from rfl, s.move_self, calling]
      cases tally <;> rfl
    | @failure id now calling _ =>
      rw [show (Action.failure id now).caller = id from rfl, s.move_self, calling]
      cases tally <;> simp [Tally.enters, Tally.access, Tally.owes, Action.bypass]
    | @readErrors id failed =>
      rw [show (Action.readErrors id).caller = id from rfl, s.move_self, failed]
      cases tally <;> rfl
    | @writeErrors id n counting =>
      rw [show (Action.writeErrors id).caller = id from rfl, s.move_self, counting]
      cases tally <;> simp [Tally.enters, Tally.access, Tally.owes, Action.bypass, Access.written]
    | @readOpens id bypassed =>
      rw [show (Action.readOpens id).caller = id from rfl, s.move_self, bypassed]
      cases tally <;> rfl
    | @writeOpens id n counting =>
      rw [show (Action.writeOpens id).caller = id from rfl, s.move_self, counting]
      cases tally <;> simp [Tally.enters, Tally.access, Tally.owes, Action.bypass, Access.written]
  · rw [count_other (fun x enters => enters_caller tally enters) own,
      count_other (fun x written => written_caller tally written) own, (taken.other own).1]

theorem filterMap_snoc_count {label : Action → Option Nat} (trace : List Action) (action : Action) (other : Nat) :
    ((trace ++ [action]).filterMap label).count other =
      (trace.filterMap label).count other + (label action).toList.count other := by
  rw [List.filterMap_append, List.count_append]
  cases found : label action with
  | none => rw [List.filterMap_cons_none found, List.filterMap_nil, Option.toList_none]
  | some id => rw [List.filterMap_cons_some found, List.filterMap_nil, Option.toList_some]

/-- Whatever is to be counted of a request has been, or is still owed. -/
theorem owed_of_run (run : Run (Step checks config) (start guards buckets) trace s) (tally : Tally) (id : Nat) :
    (tally.entered trace).count id = (tally.written trace).count id + tally.owes (s.stage id) := by
  induction run with
  | start => cases tally <;> rfl
  | next _ taken ih =>
    have owed := taken.owed tally id
    rw [Tally.entered, Tally.written] at ih ⊢
    rw [filterMap_snoc_count, filterMap_snoc_count]
    omega

/-- No request is on its way from being decided to being answered. -/
def AtRest (s : Fleet) : Prop :=
  ∀ id, Tally.opens.owes (s.stage id) = 0

theorem AtRest.owes (rest : AtRest s) (tally : Tally) (id : Nat) : tally.owes (s.stage id) = 0 := by
  have opens := rest id
  cases tally with
  | opens => exact opens
  | errors =>
    cases stage : s.stage id <;> rw [stage] at opens <;> first | rfl | cases opens

theorem entered_perm (run : Run (Step checks config) (start guards buckets) trace s) (rest : AtRest s) (tally : Tally) :
    (tally.entered trace).Perm (tally.written trace) := by
  refine List.perm_iff_count.mpr fun id => ?_
  rw [owed_of_run run tally id, rest.owes tally id, Nat.add_zero]

theorem shareOf_snoc {label : Action → Option Nat} (trace : List Action) (action : Action) :
    shareOf checks process ((trace ++ [action]).filterMap label) =
      shareOf checks process (trace.filterMap label) + shareOf checks process (label action).toList := by
  rw [shareOf, List.filterMap_append, List.countP_append]
  cases found : label action with
  | none => rw [List.filterMap_cons_none found, List.filterMap_nil, Option.toList_none]; rfl
  | some id => rw [List.filterMap_cons_some found, List.filterMap_nil, Option.toList_some]; rfl

theorem recordFailure_shortCircuited (b : CircuitBreaker) (now : ℚ) :
    (b.recordFailure now).shortCircuited = b.shortCircuited := by
  unfold CircuitBreaker.recordFailure
  dsimp only
  split_ifs <;> rfl

theorem allow_shortCircuited {b b' : CircuitBreaker} {now : ℚ} {admitted : Bool}
    (allowed : b.allow now = some (admitted, b')) :
    b'.shortCircuited = b.shortCircuited + if admitted then 0 else 1 := by
  rcases CircuitBreaker.allow_cases allowed with
    ⟨_, rfl, rfl⟩ | ⟨_, _, _, _, rfl, rfl⟩ | ⟨_, _, _, _, rfl, rfl⟩ | ⟨_, rfl, rfl⟩ <;> rfl

theorem shareOf_refusal {id : Nat} {now : ℚ} {admitted : Bool} :
    shareOf checks process (Action.allow id now admitted).refusal.toList =
      if (checks id).servedBy = process then (if admitted then 0 else 1) else 0 := by
  cases admitted with
  | true => exact (ite_self 0).symm
  | false =>
    change List.countP _ [id] = _
    rw [List.countP_singleton]
    by_cases own : (checks id).servedBy = process
    · rw [if_pos (decide_eq_true own), if_pos own, if_neg Bool.false_ne_true]
    · rw [decide_eq_false own, if_neg Bool.false_ne_true, if_neg own]

/-- A breaker counts its refusals under its lock. -/
theorem Step.shortCircuited (taken : Step checks config s action t) (process : Nat) :
    (t.guards process).breaker.shortCircuited =
      (s.guards process).breaker.shortCircuited + shareOf checks process action.refusal.toList := by
  have quiet {id : Nat} {guard : BreakerGuardedLimiter} {stage : Stage}
      (same : guard.breaker.shortCircuited = (s.guard checks id).breaker.shortCircuited) :
      ((s.move checks id guard stage).guards process).breaker.shortCircuited =
        (s.guards process).breaker.shortCircuited := by
    rw [s.move_guard]
    split
    · rename_i own
      rw [same, Fleet.guard, own]
    · rfl
  cases taken with
  | @allow id now admitted breaker _ allowed =>
    rw [shareOf_refusal, s.move_guard]
    by_cases own : (checks id).servedBy = process
    · rw [if_pos own, if_pos own, ← own]
      exact allow_shortCircuited allowed
    · rw [if_neg own, if_neg own, Nat.add_zero]
  | statement _ _ => rfl
  | success _ _ => exact quiet rfl
  | failure now _ _ => exact quiet (recordFailure_shortCircuited _ now)
  | _ => exact quiet rfl

theorem shortCircuited_of_run (run : Run (Step checks config) (start guards buckets) trace s) (process : Nat) :
    (s.guards process).breaker.shortCircuited =
      (guards process).breaker.shortCircuited + shareOf checks process (refusals trace) := by
  induction run with
  | start => rfl
  | next _ taken ih =>
    rw [taken.shortCircuited process, ih, refusals, refusals, shareOf_snoc, Nat.add_assoc]

/-- What is let by is what the breaker keeps back and what fails. -/
theorem bypasses_perm (trace : List Action) :
    (Tally.opens.entered trace).Perm (refusals trace ++ Tally.errors.entered trace) := by
  induction trace with
  | nil => exact .nil
  | cons action rest ih =>
    rw [Tally.entered, Tally.entered, refusals] at ih ⊢
    cases action with
    | allow id now admitted =>
      cases admitted with
      | true => exact ih
      | false => exact ih.cons id
    | failure id now => exact (ih.cons id).trans List.perm_middle.symm
    | _ => exact ih

/-- `fail_open_count` and `error_count` can lose updates, but never count too
many nor miss them all; without an overlap they are exact. -/
theorem fail_open_counted (run : Run (Step checks config) (start guards buckets) trace s) (process : Nat) :
    (s.guards process).breaker.shortCircuited =
        (guards process).breaker.shortCircuited + shareOf checks process (refusals trace) ∧
    shareOf checks process (bypasses trace) =
        shareOf checks process (refusals trace) + shareOf checks process (Tally.errors.entered trace) ∧
    (∀ tally : Tally,
      tally.count (guards process) + min 1 (shareOf checks process (tally.written trace)) ≤ tally.count (s.guards process) ∧
      tally.count (s.guards process) ≤ tally.count (guards process) + shareOf checks process (tally.written trace)) ∧
    (AtRest s → ∀ tally : Tally,
      shareOf checks process (tally.written trace) = shareOf checks process (tally.entered trace)) ∧
    (AtRest s → Run (Calm checks config) (start guards buckets) trace s → ∀ tally : Tally,
      tally.count (s.guards process) = tally.count (guards process) + shareOf checks process (tally.entered trace)) := by
  refine ⟨shortCircuited_of_run run process, ?_, fun tally => ?_, fun rest tally => ?_, fun rest calm tally => ?_⟩
  · rw [shareOf, shareOf, shareOf, ← List.countP_append]
    exact (bypasses_perm trace).countP_eq _
  · have kept := (kept_of_run (counter_run run tally process)).value
    rw [written_length] at kept
    exact kept
  · exact ((entered_perm run rest tally).countP_eq _).symm
  · have exactly := (exact_of_run (calm_counter_run calm tally process)).1
    rw [written_length] at exactly
    refine exactly.trans ?_
    rw [shareOf, (entered_perm run rest tally).countP_eq]

/-- Two requests of one process read its `fail_open_count` before either writes. -/
theorem fail_open_counted_contended :
    ∃ s, Run (Step inTurn ⟨1, 10⟩) (start nervous fun _ => none) contended s ∧
      (s.guards 1).failOpenCount = 1 ∧ shareOf inTurn 1 (bypasses contended) = 2 ∧
      (s.guards 1).failOpenCount ≤ 0 + shareOf inTurn 1 (Tally.opens.written contended) ∧
      (s.guards 1).breaker.shortCircuited = 0 + shareOf inTurn 1 (refusals contended) := by
  have executed : ∃ s, Run (Step inTurn ⟨1, 10⟩) (start nervous fun _ => none) contended s ∧
      (s.guards 1).failOpenCount = 1 :=
    Run.exists_of_execute Step.of_perform (by decide +kernel)
  obtain ⟨s, run, once⟩ := executed
  obtain ⟨refused, _, bounds, _⟩ := fail_open_counted run 1
  exact ⟨s, run, once, by decide, (bounds .opens).2, refused⟩

end GuardedChecks
end UrlShortener
