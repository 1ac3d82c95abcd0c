import Mathlib.Data.Rat.Floor
import UrlShortener.General.Percentiles
import UrlShortener.General.Run

namespace UrlShortener
open OrderStatistics Transition

/-- Times are in milliseconds and in exact arithmetic. -/
structure OpenLoopResults where
  latencies : List ℚ := []
  service : List ℚ := []
  drift : List ℚ := []
  statusCounts : List (Nat × Nat) := []
  errors : Nat := 0
  deriving DecidableEq

/-- What a summary of completed requests says. -/
structure OpenLoopSummary where
  requests : Nat
  offeredRate : ℚ
  achievedRate : ℚ
  p50Ms : ℚ
  p95Ms : ℚ
  p99Ms : ℚ
  p999Ms : ℚ
  maxMs : ℚ
  p99ServiceMs : ℚ
  p99ClientDriftMs : ℚ
  clientDriftShareOfP99 : ℚ
  valid : Bool
  statusCounts : List (Nat × Nat)
  errors : Nat

/-- `status_counts[status] = status_counts.get(status, 0) + 1` -/
def countStatus (status : Nat) : List (Nat × Nat) → List (Nat × Nat)
  | [] => [(status, 1)]
  | (other, n) :: rest => if other = status then (other, n + 1) :: rest else (other, n) :: countStatus status rest

namespace OpenLoopResults

def record (r : OpenLoopResults) (latencyMs serviceMs driftMs : ℚ) (status : Nat) : OpenLoopResults :=
  { r with
    latencies := r.latencies ++ [latencyMs]
    service := r.service ++ [serviceMs]
    drift := r.drift ++ [driftMs]
    statusCounts := countStatus status r.statusCounts }

def fail (r : OpenLoopResults) : OpenLoopResults :=
  { r with errors := r.errors + 1 }

/-- `none` stands for "no completed requests". -/
def summary (r : OpenLoopResults) (duration offeredRate : ℚ) : Option OpenLoopSummary :=
  if r.latencies = [] then none
  else
    let driftShare := percentile r.drift 99 / max (percentile r.latencies 99) (1 / 10 ^ 9)
    some {
      requests := r.latencies.length
      offeredRate := offeredRate
      achievedRate := r.latencies.length / duration
      p50Ms := percentile r.latencies 50
      p95Ms := percentile r.latencies 95
      p99Ms := percentile r.latencies 99
      p999Ms := percentile r.latencies (999 / 10)
      maxMs := r.latencies.max?.getD 0
      p99ServiceMs := percentile r.service 99
      p99ClientDriftMs := percentile r.drift 99
      clientDriftShareOfP99 := driftShare
      valid := driftShare < 1 / 4
      statusCounts := r.statusCounts
      errors := r.errors }

/-- Every latency is made of the time until the request was sent and the time
from there on. -/
structure Charged (r : OpenLoopResults) : Prop where
  latencies : r.latencies = List.zipWith (· + ·) r.drift r.service
  aligned : r.drift.length = r.service.length
  service : ∀ ms ∈ r.service, 0 ≤ ms
  drift : ∀ ms ∈ r.drift, 0 ≤ ms
  statuses : (r.statusCounts.map Prod.snd).sum = r.latencies.length

variable {r : OpenLoopResults}

theorem countStatus_sum (status : Nat) (counts : List (Nat × Nat)) :
    ((countStatus status counts).map Prod.snd).sum = (counts.map Prod.snd).sum + 1 := by
  induction counts with
  | nil => rfl
  | cons entry rest ih =>
    rw [countStatus]
    split
    · simp only [List.map_cons, List.sum_cons]
      omega
    · simp only [List.map_cons, List.sum_cons, ih]
      omega

theorem Charged.record (charged : r.Charged) {driftMs serviceMs : ℚ} (late : 0 ≤ driftMs) (served : 0 ≤ serviceMs)
    (status : Nat) : (r.record (driftMs + serviceMs) serviceMs driftMs status).Charged where
  latencies := by
    rw [OpenLoopResults.record, List.zipWith_append charged.aligned, ← charged.latencies]
    rfl
  aligned := by
    rw [OpenLoopResults.record, List.length_append, List.length_append, charged.aligned]
    rfl
  service ms member := by
    rcases List.mem_append.mp member with before | last
    · exact charged.service ms before
    · rwa [List.mem_singleton.mp last]
  drift ms member := by
    rcases List.mem_append.mp member with before | last
    · exact charged.drift ms before
    · rwa [List.mem_singleton.mp last]
  statuses := by
    rw [OpenLoopResults.record, countStatus_sum, charged.statuses, List.length_append]
    rfl

theorem Charged.fail (charged : r.Charged) : r.fail.Charged :=
  ⟨charged.latencies, charged.aligned, charged.service, charged.drift, charged.statuses⟩

theorem forall₂_le_zipWith {drift service : List ℚ} (aligned : drift.length = service.length)
    (served : ∀ ms ∈ service, 0 ≤ ms) : List.Forall₂ (· ≤ ·) drift (List.zipWith (· + ·) drift service) := by
  induction drift generalizing service with
  | nil => exact .nil
  | cons first rest ih =>
    cases service with
    | nil => cases aligned
    | cons ms more =>
      exact .cons (le_add_of_nonneg_right (served ms List.mem_cons_self))
        (ih (Nat.succ.inj aligned) fun other member => served other (List.mem_cons_of_mem _ member))

theorem Charged.drift_le (charged : r.Charged) : List.Forall₂ (· ≤ ·) r.drift r.latencies := by
  rw [charged.latencies]
  exact forall₂_le_zipWith charged.aligned charged.service

theorem Charged.service_le (charged : r.Charged) : List.Forall₂ (· ≤ ·) r.service r.latencies := by
  rw [charged.latencies, List.zipWith_comm_of_comm fun a b => add_comm a b]
  exact forall₂_le_zipWith charged.aligned.symm charged.drift

/-- The figures of a summary are in order. -/
structure Coherent (m : OpenLoopSummary) : Prop where
  statuses : (m.statusCounts.map Prod.snd).sum = m.requests
  p95 : m.p50Ms ≤ m.p95Ms
  p99 : m.p95Ms ≤ m.p99Ms
  p999 : m.p99Ms ≤ m.p999Ms
  largest : m.p999Ms ≤ m.maxMs
  service : 0 ≤ m.p99ServiceMs ∧ m.p99ServiceMs ≤ m.p99Ms
  drift : 0 ≤ m.p99ClientDriftMs ∧ m.p99ClientDriftMs ≤ m.p99Ms
  share : 0 ≤ m.clientDriftShareOfP99 ∧ m.clientDriftShareOfP99 ≤ 1

theorem Charged.coherent (charged : r.Charged) {duration offeredRate : ℚ} {m : OpenLoopSummary}
    (summed : r.summary duration offeredRate = some m) : Coherent m := by
  obtain ⟨completed, same⟩ := Option.ite_none_left_eq_some.mp summed
  have positive := List.length_pos_iff.mpr completed
  have served : r.service ≠ [] := by
    rw [← List.length_pos_iff, charged.service_le.length_eq]
    exact positive
  have drifted : r.drift ≠ [] := by
    rw [← List.length_pos_iff, charged.drift_le.length_eq]
    exact positive
  have service : 0 ≤ percentile r.service 99 ∧ percentile r.service 99 ≤ percentile r.latencies 99 :=
    ⟨le_percentile served (by norm_num) charged.service, percentile_le_percentile served charged.service_le (by norm_num)⟩
  have drift : 0 ≤ percentile r.drift 99 ∧ percentile r.drift 99 ≤ percentile r.latencies 99 :=
    ⟨le_percentile drifted (by norm_num) charged.drift, percentile_le_percentile drifted charged.drift_le (by norm_num)⟩
  have scale : (0 : ℚ) < max (percentile r.latencies 99) (1 / 10 ^ 9) := lt_max_of_lt_right (by norm_num)
  cases same
  refine ⟨charged.statuses, percentile_mono completed (by norm_num) (by norm_num),
    percentile_mono completed (by norm_num) (by norm_num), percentile_mono completed (by norm_num) (by norm_num), ?_,
    service, drift, div_nonneg drift.1 scale.le, ?_⟩
  · refine percentile_le completed (by norm_num) fun ms member => ?_
    cases found : r.latencies.max? with
    | none => exact absurd (List.max?_eq_none_iff.mp found) completed
    | some top =>
      rw [Option.getD_some]
      exact (List.max?_le_iff found).mp le_rfl ms member
  · rw [div_le_one scale]
    exact drift.2.trans (le_max_left ..)

end OpenLoopResults

/-- One `_fire`: when its request was due, when it was sent, and whether it is over. -/
structure Fired where
  scheduledAt : ℚ
  sent : ℚ
  done : Bool
  deriving DecidableEq

/-- `run_open_loop` between the first arrival and the end of `gather`. The tasks
stand in the order of their arrivals; times are in seconds. -/
structure OpenLoop where
  now : ℚ
  tasks : List Fired
  inflight : List Nat
  results : OpenLoopResults
  warm : OpenLoopResults
  gathered : Bool

namespace OpenLoop

inductive Event
  | tick (seconds : ℚ)
  /-- The next arrival is due, and a task is created for it. -/
  | fire
  /-- The response of a task has been read. -/
  | complete (task : Nat) (status : Nat)
  /-- A task ends by an exception. -/
  | fail (task : Nat)
  | gather
  deriving DecidableEq

def start (now : ℚ) : OpenLoop :=
  ⟨now, [], [], {}, {}, false⟩

def isDone (tasks : List Fired) (task : Nat) : Bool :=
  tasks[task]?.any Fired.done

/-- Keeps the list of tasks in flight short. -/
def prune (tasks : List Fired) (inflight : List Nat) : List Nat :=
  if 4096 < inflight.length then inflight.filter fun task => !isDone tasks task else inflight

section
variable (arrivals : List ℚ) (t0 warmup : ℚ)

/-- Hands an outcome to the sink of its request, and ends the task. -/
def finish (s : OpenLoop) (task : Nat) (fired : Fired) (outcome : OpenLoopResults → OpenLoopResults) : OpenLoop :=
  { s with
    tasks := s.tasks.set task { fired with done := true }
    results := if fired.scheduledAt < warmup then s.results else outcome s.results
    warm := if fired.scheduledAt < warmup then outcome s.warm else s.warm }

def perform (s : OpenLoop) : Event → Option OpenLoop
  | .tick seconds => if 0 ≤ seconds then some { s with now := s.now + seconds } else none
  | .fire => (arrivals[s.tasks.length]?).bind fun scheduledAt =>
    -- `_sleep_until` does not return before.
    if t0 + scheduledAt ≤ s.now then
      let tasks := s.tasks ++ [⟨scheduledAt, s.now, false⟩]
      some { s with tasks := tasks, inflight := prune tasks (s.inflight ++ [s.tasks.length]) }
    else none
  | .complete task status => (s.tasks[task]?).bind fun fired =>
    if fired.done then none
    else some (s.finish warmup task fired fun sink =>
      sink.record ((s.now - t0 - fired.scheduledAt) * 1000) ((s.now - fired.sent) * 1000)
        ((fired.sent - t0 - fired.scheduledAt) * 1000) status)
  | .fail task => (s.tasks[task]?).bind fun fired =>
    if fired.done then none else some (s.finish warmup task fired OpenLoopResults.fail)
  | .gather =>
    if s.tasks.length = arrivals.length ∧ s.inflight.all (isDone s.tasks) = true then
      some { s with gathered := true }
    else none

def Step (s : OpenLoop) (event : Event) (t : OpenLoop) : Prop :=
  s.perform arrivals t0 warmup event = some t

end

variable {arrivals : List ℚ} {t0 warmup : ℚ} {s t : OpenLoop} {event : Event}

def total (r : OpenLoopResults) : Nat :=
  r.latencies.length + r.errors

theorem total_record (sink : OpenLoopResults) (latencyMs serviceMs driftMs : ℚ) (status : Nat) :
    total (sink.record latencyMs serviceMs driftMs status) = total sink + 1 := by
  simp only [total, OpenLoopResults.record, List.length_append, List.length_singleton]
  omega

/-- Every request that was sent is in flight, or accounted for in its sink. -/
structure Accounted (arrivals : List ℚ) (t0 warmup : ℚ) (s : OpenLoop) : Prop where
  scheduled : s.tasks.map Fired.scheduledAt = arrivals.take s.tasks.length
  sent : ∀ fired ∈ s.tasks, t0 + fired.scheduledAt ≤ fired.sent ∧ fired.sent ≤ s.now
  held : ∀ task < s.tasks.length, isDone s.tasks task = false → task ∈ s.inflight
  results : total s.results = s.tasks.countP fun fired => fired.done && !decide (fired.scheduledAt < warmup)
  warm : total s.warm = s.tasks.countP fun fired => fired.done && decide (fired.scheduledAt < warmup)
  charged : s.results.Charged ∧ s.warm.Charged
  gathered : s.gathered = true → s.tasks.length = arrivals.length ∧ ∀ fired ∈ s.tasks, fired.done = true

theorem mem_prune {tasks : List Fired} {inflight : List Nat} {task : Nat} (member : task ∈ inflight)
    (running : isDone tasks task = false) : task ∈ prune tasks inflight := by
  rw [prune]
  split
  · exact List.mem_filter.mpr ⟨member, by rw [running]; rfl⟩
  · exact member

theorem Accounted.fire {scheduledAt : ℚ} (accounted : s.Accounted arrivals t0 warmup)
    (next : arrivals[s.tasks.length]? = some scheduledAt) (due : t0 + scheduledAt ≤ s.now) :
    ({ s with
      tasks := s.tasks ++ [⟨scheduledAt, s.now, false⟩]
      inflight := prune (s.tasks ++ [⟨scheduledAt, s.now, false⟩]) (s.inflight ++ [s.tasks.length]) } :
      OpenLoop).Accounted arrivals t0 warmup where
  scheduled := by
    rw [List.map_append, accounted.scheduled, List.length_append, List.length_singleton, List.take_add_one, next]
    rfl
  sent fired member := by
    rcases List.mem_append.mp member with before | last
    · exact accounted.sent fired before
    · rw [List.mem_singleton.mp last]
      exact ⟨due, le_rfl⟩
  held task inside running := by
    refine mem_prune ?_ running
    rw [List.length_append, List.length_singleton] at inside
    rcases Nat.lt_succ_iff_lt_or_eq.mp inside with before | rfl
    · rw [isDone, List.getElem?_append_left before] at running
      exact List.mem_append_left _ (accounted.held task before running)
    · exact List.mem_append_right _ (List.mem_singleton_self _)
  results := by
    rw [List.countP_append, ← accounted.results]
    rfl
  warm := by
    rw [List.countP_append, ← accounted.warm]
    rfl
  charged := accounted.charged
  gathered closed := by
    obtain ⟨all, _⟩ := accounted.gathered closed
    rw [all, List.getElem?_eq_none (le_refl _)] at next
    cases next

section
variable {task : Nat} {fired : Fired} (outcome : OpenLoopResults → OpenLoopResults)

theorem finish_early (early : fired.scheduledAt < warmup) :
    (s.finish warmup task fired outcome).results = s.results ∧
      (s.finish warmup task fired outcome).warm = outcome s.warm :=
  ⟨if_pos early, if_pos early⟩

theorem finish_late (late : ¬ fired.scheduledAt < warmup) :
    (s.finish warmup task fired outcome).results = outcome s.results ∧
      (s.finish warmup task fired outcome).warm = s.warm :=
  ⟨if_neg late, if_neg late⟩

end

theorem Accounted.finish {task : Nat} {fired : Fired} {outcome : OpenLoopResults → OpenLoopResults}
    (accounted : s.Accounted arrivals t0 warmup) (found : s.tasks[task]? = some fired) (running : fired.done = false)
    (counts : ∀ sink, total (outcome sink) = total sink + 1)
    (charges : ∀ sink : OpenLoopResults, sink.Charged → (outcome sink).Charged) :
    (s.finish warmup task fired outcome).Accounted arrivals t0 warmup := by
  obtain ⟨inside, same⟩ := List.getElem?_eq_some_iff.mp found
  have member : fired ∈ s.tasks := List.mem_of_getElem? found
  have tasks : (s.finish warmup task fired outcome).tasks = s.tasks.set task { fired with done := true } := rfl
  refine ⟨?_, fun other inTasks => ?_, fun other within waiting => ?_, ?_, ?_, ?_, fun closed => ?_⟩
  · have kept : (s.tasks.map Fired.scheduledAt).set task fired.scheduledAt = s.tasks.map Fired.scheduledAt := by
      rw [← same, ← List.getElem_map Fired.scheduledAt (h := by rwa [List.length_map]), List.set_getElem_self]
    rw [tasks, List.map_set, List.length_set, kept, accounted.scheduled]
  · rcases List.mem_or_eq_of_mem_set inTasks with before | here
    · exact accounted.sent other before
    · rw [here]
      exact accounted.sent fired member
  · rw [tasks, List.length_set] at within
    rw [tasks, isDone] at waiting
    by_cases own : task = other
    · subst own
      rw [List.getElem?_set_self inside] at waiting
      cases waiting
    · rw [List.getElem?_set_ne own] at waiting
      exact accounted.held other within waiting
  · rw [tasks, List.countP_set inside, same, ← accounted.results]
    by_cases early : fired.scheduledAt < warmup
    · rw [(finish_early outcome early).1]
      simp [running, early]
    · rw [(finish_late outcome early).1, counts]
      simp [running, early]
  · rw [tasks, List.countP_set inside, same, ← accounted.warm]
    by_cases early : fired.scheduledAt < warmup
    · rw [(finish_early outcome early).2, counts]
      simp [running, early]
    · rw [(finish_late outcome early).2]
      simp [running, early]
  · by_cases early : fired.scheduledAt < warmup
    · rw [(finish_early outcome early).1, (finish_early outcome early).2]
      exact ⟨accounted.charged.1, charges _ accounted.charged.2⟩
    · rw [(finish_late outcome early).1, (finish_late outcome early).2]
      exact ⟨charges _ accounted.charged.1, accounted.charged.2⟩
  · rw [(accounted.gathered closed).2 fired member] at running
    cases running

theorem Accounted.step (accounted : s.Accounted arrivals t0 warmup) (taken : s.Step arrivals t0 warmup event t) :
    t.Accounted arrivals t0 warmup := by
  cases event with
  | tick seconds =>
    obtain ⟨forward, same⟩ := Option.ite_none_right_eq_some.mp taken
    cases same
    exact ⟨accounted.scheduled, fun fired member => ⟨(accounted.sent fired member).1,
      (accounted.sent fired member).2.trans (le_add_of_nonneg_right forward)⟩, accounted.held, accounted.results,
      accounted.warm, accounted.charged, accounted.gathered⟩
  | fire =>
    obtain ⟨scheduledAt, next, fired⟩ := Option.bind_eq_some_iff.mp taken
    obtain ⟨due, same⟩ := Option.ite_none_right_eq_some.mp fired
    cases same
    exact accounted.fire next due
  | complete task status =>
    obtain ⟨fired, found, ended⟩ := Option.bind_eq_some_iff.mp taken
    obtain ⟨running, same⟩ := Option.ite_none_left_eq_some.mp ended
    cases same
    obtain ⟨due, sent⟩ := accounted.sent fired (List.mem_of_getElem? found)
    have latency : (s.now - t0 - fired.scheduledAt) * 1000 =
        (fired.sent - t0 - fired.scheduledAt) * 1000 + (s.now - fired.sent) * 1000 := by ring
    rw [latency]
    refine accounted.finish found (eq_false_of_ne_true running) (fun sink => ?_) fun sink charged => ?_
    · exact total_record sink _ _ _ status
    · exact charged.record (by linarith) (by linarith) status
  | fail task =>
    obtain ⟨fired, found, ended⟩ := Option.bind_eq_some_iff.mp taken
    obtain ⟨running, same⟩ := Option.ite_none_left_eq_some.mp ended
    cases same
    exact accounted.finish found (eq_false_of_ne_true running) (fun sink => rfl) fun sink charged => charged.fail
  | gather =>
    obtain ⟨⟨all, closed⟩, same⟩ := Option.ite_none_right_eq_some.mp taken
    cases same
    refine ⟨accounted.scheduled, accounted.sent, accounted.held, accounted.results, accounted.warm, accounted.charged,
      fun _ => ⟨all, fun fired member => ?_⟩⟩
    obtain ⟨task, inside, rfl⟩ := List.getElem_of_mem member
    by_contra running
    have waiting : isDone s.tasks task = false := by
      rw [isDone, List.getElem?_eq_getElem inside, Option.any_some]
      exact eq_false_of_ne_true running
    have ended := List.all_eq_true.mp closed task (accounted.held task inside waiting)
    rw [waiting] at ended
    cases ended

theorem accounted_of_run {now : ℚ} {trace : List Event} (run : Run (Step arrivals t0 warmup) (start now) trace s) :
    s.Accounted arrivals t0 warmup := by
  induction run with
  | start =>
    have empty : OpenLoopResults.Charged {} :=
      ⟨rfl, rfl, fun _ member => absurd member List.not_mem_nil, fun _ member => absurd member List.not_mem_nil, rfl⟩
    exact ⟨rfl, fun _ member => absurd member List.not_mem_nil, fun _ inside => absurd inside (Nat.not_lt_zero _), rfl, rfl,
      ⟨empty, empty⟩, fun closed => absurd closed Bool.false_ne_true⟩
  | next _ taken ih => exact ih.step taken

/-- When an open-loop run is over, nothing is still in flight and each arrival
was counted once, as a latency or an error, on its side of the warmup. Every
latency is charged from the scheduled time, so the figures of the summary are in
order, and neither the service nor the client's own delay exceeds them. -/
theorem open_loop_accounts {now : ℚ} {trace : List Event} (run : Run (Step arrivals t0 warmup) (start now) trace s)
    (closed : s.gathered = true) :
    (∀ fired ∈ s.tasks, fired.done = true ∧ t0 + fired.scheduledAt ≤ fired.sent) ∧
      s.tasks.map Fired.scheduledAt = arrivals ∧
      total s.results = arrivals.countP (fun scheduledAt => !decide (scheduledAt < warmup)) ∧
      total s.warm = arrivals.countP (fun scheduledAt => scheduledAt < warmup) ∧
      s.results.latencies = List.zipWith (· + ·) s.results.drift s.results.service ∧
      ∀ duration offeredRate m, s.results.summary duration offeredRate = some m →
        m.requests + m.errors = total s.results ∧ OpenLoopResults.Coherent m := by
  have accounted := accounted_of_run run
  obtain ⟨all, done⟩ := accounted.gathered closed
  have scheduled := accounted.scheduled
  rw [all, List.take_length] at scheduled
  refine ⟨fun fired member => ⟨done fired member, (accounted.sent fired member).1⟩, scheduled, ?_, ?_,
    accounted.charged.1.latencies, fun duration offeredRate m summed => ?_⟩
  · rw [accounted.results, ← scheduled, List.countP_map]
    refine List.countP_congr fun fired member => ?_
    rw [done fired member, Bool.true_and]
    exact Iff.rfl
  · rw [accounted.warm, ← scheduled, List.countP_map]
    refine List.countP_congr fun fired member => ?_
    rw [done fired member, Bool.true_and]
    exact Iff.rfl
  · have coherent := accounted.charged.1.coherent summed
    obtain ⟨_, same⟩ := Option.ite_none_left_eq_some.mp summed
    cases same
    exact ⟨rfl, coherent⟩

/-- The client is half a second late for the second request, which is charged
to it; the third one fails. -/
theorem open_loop_accounts_late :
    ∃ s, Run (Step [0, 1, 2] 0 1) (start 0)
        [.fire, .complete 0 307, .tick (3 / 2), .fire, .tick (1 / 2), .fire, .tick (1 / 10), .fail 2, .complete 1 307,
          .gather] s ∧
      s.results.latencies = [1100] ∧ s.results.service = [600] ∧
      total s.results = ([0, 1, 2] : List ℚ).countP (fun scheduledAt => !decide (scheduledAt < 1)) ∧
      s.results.latencies = List.zipWith (· + ·) s.results.drift s.results.service := by
  have executed : ∃ s, Run (Step [0, 1, 2] 0 1) (start 0)
      [.fire, .complete 0 307, .tick (3 / 2), .fire, .tick (1 / 2), .fire, .tick (1 / 10), .fail 2, .complete 1 307,
        .gather] s ∧ (s.gathered = true ∧ s.results.latencies = [1100] ∧ s.results.service = [600]) :=
    Run.exists_of_execute (fun _ _ _ done => done) (by decide +kernel)
  obtain ⟨s, run, closed, latencies, service⟩ := executed
  obtain ⟨_, _, total, _, charged, _⟩ := open_loop_accounts run closed
  exact ⟨s, run, latencies, service, total, charged⟩

end OpenLoop

end UrlShortener
