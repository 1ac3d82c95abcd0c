import Mathlib.Data.List.Chain
import Mathlib.Data.List.Induction
import Mathlib.Tactic.FieldSimp
import UrlShortener.General.Machine
import UrlShortener.Breaker

namespace UrlShortener
namespace BreakerGuardedLimiter
open Machine

/-- What the clock reads when a check begins and when it ends. -/
structure Readings where
  allowAt : ℚ
  recordAt : ℚ
  deriving DecidableEq

/-- `check` while every call of the store raises: whether the store was called,
and the decision. The result is `none` where the breaker would raise. -/
def deadCheck (g : BreakerGuardedLimiter) (readings : Readings) :
    Option (Bool × Decision) × BreakerGuardedLimiter :=
  match g.breaker.allow readings.allowAt, g.check readings.allowAt readings.recordAt none with
  | some (called, _), some (decision, g') => (some (called, decision), g')
  | _, _ => (none, g)

/-- The checks that called the store. -/
def storeCalls (g : BreakerGuardedLimiter) (checks : List Readings) : List Readings :=
  ((transcript deadCheck g checks).filter fun entry => entry.2.map Prod.fst = some true).map Prod.fst

/-- One after the other, with a clock that does not go back. -/
def Sequential (checks : List Readings) : Prop :=
  (checks.flatMap fun readings => [readings.allowAt, readings.recordAt]).Pairwise (· ≤ ·)

/-- The seconds from the beginning of the first check to that of the last. -/
def span (checks : List Readings) : ℚ :=
  match checks.head?, checks.getLast? with
  | some first, some last => last.allowAt - first.allowAt
  | _, _ => 0

variable {g : BreakerGuardedLimiter} {readings : Readings}

theorem deadCheck_closed (closed : g.breaker.state = .closed) :
    g.deadCheck readings = (some (true, g.unguarded), { g with
      breaker := g.breaker.recordFailure readings.recordAt
      errorCount := g.errorCount + 1
      failOpenCount := g.failOpenCount + 1 }) := by
  simp only [deadCheck, check, CircuitBreaker.allow_closed closed, Option.bind_eq_bind, Option.bind_some,
    if_true]
  rfl

theorem deadCheck_opened {openedAt : ℚ} (opened : g.breaker.state = .opened)
    (since : g.breaker.openedAt = some openedAt) :
    g.deadCheck readings =
      if g.breaker.cooldownS ≤ readings.allowAt - openedAt then
        (some (true, g.unguarded), { g with
          breaker := { g.breaker with
            openedAt := some readings.recordAt
            consecutiveFailures := g.breaker.consecutiveFailures + 1
            probes := g.breaker.probes + 1 }
          errorCount := g.errorCount + 1
          failOpenCount := g.failOpenCount + 1 })
      else (some (false, g.unguarded), { g with
        breaker := { g.breaker with shortCircuited := g.breaker.shortCircuited + 1 }
        failOpenCount := g.failOpenCount + 1 }) := by
  by_cases cooled : g.breaker.cooldownS ≤ readings.allowAt - openedAt
  · have admits : g.breaker.allow readings.allowAt =
        some (true, { g.breaker with state := .halfOpen, probes := g.breaker.probes + 1 }) := by
      simp only [CircuitBreaker.allow, opened, since, Option.map_some, cooled, if_true]
    simp only [deadCheck, check, admits, cooled, if_true, Option.bind_eq_bind, Option.bind_some]
    simp [CircuitBreaker.recordFailure, opened]
  · have refuses : g.breaker.allow readings.allowAt =
        some (false, { g.breaker with shortCircuited := g.breaker.shortCircuited + 1 }) := by
      simp only [CircuitBreaker.allow, opened, since, Option.map_some, cooled, if_false]
    simp only [deadCheck, check, refuses, cooled, if_false, Option.bind_eq_bind, Option.bind_some]
    rfl

theorem storeCalls_snoc (earlier : List Readings) : storeCalls g (earlier ++ [readings]) =
    storeCalls g earlier ++
      if ((after deadCheck g earlier).deadCheck readings).1.map Prod.fst = some true then [readings]
      else [] := by
  rw [storeCalls, transcript_snoc, List.filter_append, List.map_append, ← storeCalls]
  congr 1
  rw [List.filter_singleton]
  split <;> simp_all

theorem sequential_snoc {earlier : List Readings} (sequential : Sequential (earlier ++ [readings])) :
    Sequential earlier ∧ (∀ before ∈ earlier, before.recordAt ≤ readings.allowAt ∧
      before.allowAt ≤ readings.allowAt) ∧ readings.allowAt ≤ readings.recordAt := by
  rw [Sequential, List.flatMap_append, List.pairwise_append] at sequential
  obtain ⟨first, own, order⟩ := sequential
  refine ⟨first, fun before member => ⟨?_, ?_⟩, by simpa using own⟩
  · exact order _ (List.mem_flatMap.mpr ⟨before, member, by simp⟩) _ (by simp)
  · exact order _ (List.mem_flatMap.mpr ⟨before, member, by simp⟩) _ (by simp)

theorem sequential_own {checks : List Readings} (sequential : Sequential checks)
    (member : readings ∈ checks) : readings.allowAt ≤ readings.recordAt := by
  have own : [readings.allowAt, readings.recordAt].Sublist
      (checks.flatMap fun readings => [readings.allowAt, readings.recordAt]) := by
    obtain ⟨earlier, later, rfl⟩ := List.append_of_mem member
    rw [List.flatMap_append, List.flatMap_cons]
    exact (List.sublist_append_left ..).trans (List.sublist_append_right ..)
  exact List.rel_of_pairwise_cons (sequential.sublist own) (by simp)

theorem head_le {earlier : List Readings} {first : Readings}
    (sequential : Sequential (earlier ++ [readings]))
    (isFirst : (earlier ++ [readings]).head? = some first) : first.allowAt ≤ readings.allowAt := by
  cases earlier with
  | nil =>
    cases isFirst
    exact le_rfl
  | cons _ rest =>
    cases isFirst
    exact ((sequential_snoc sequential).2.1 first (by simp)).2

theorem le_span {checks : List Readings} (sequential : Sequential checks) (member : readings ∈ checks) :
    ∃ first, checks.head? = some first ∧ readings.allowAt - first.allowAt ≤ span checks := by
  induction checks using List.reverseRecOn with
  | nil => cases member
  | append_singleton earlier last _ =>
    obtain ⟨first, isFirst⟩ : ∃ first, (earlier ++ [last]).head? = some first :=
      Option.isSome_iff_exists.mp (by simp)
    refine ⟨first, isFirst, ?_⟩
    have latest : readings.allowAt ≤ last.allowAt := by
      rcases List.mem_append.mp member with inside | here
      · exact ((sequential_snoc sequential).2.1 readings inside).2
      · rw [List.mem_singleton.mp here]
    rw [span, isFirst, List.getLast?_concat]
    exact sub_le_sub_right latest _

theorem span_nonneg {checks : List Readings} (sequential : Sequential checks) : 0 ≤ span checks := by
  cases checks with
  | nil => exact le_rfl
  | cons first rest =>
    obtain ⟨_, isFirst, bound⟩ := le_span sequential (List.mem_cons_self (l := rest))
    cases isFirst
    rwa [sub_self] at bound

/-- What an outage has brought about in a limiter that started as `g`: `calls`
are the checks that called the store. -/
structure Outage (g : BreakerGuardedLimiter) (checks calls : List Readings) (now : BreakerGuardedLimiter) :
    Prop where
  failOpen : now.failOpen = g.failOpen
  threshold : now.breaker.failureThreshold = g.breaker.failureThreshold
  cooldown : now.breaker.cooldownS = g.breaker.cooldownS
  failOpenCount : now.failOpenCount = checks.length
  errorCount : now.errorCount = calls.length
  shortCircuited : now.breaker.shortCircuited + calls.length = checks.length
  among : calls ⊆ checks
  spaced : (calls.drop (g.breaker.failureThreshold - 1)).IsChain fun call next =>
    g.breaker.cooldownS ≤ next.allowAt - call.recordAt
  circuit :
    calls.length < g.breaker.failureThreshold ∧ now.breaker.state = .closed ∧
      now.breaker.consecutiveFailures = calls.length ∧ now.breaker.trips = 0 ∨
    g.breaker.failureThreshold ≤ calls.length ∧ now.breaker.state = .opened ∧ now.breaker.trips = 1 ∧
      ∃ last, calls.getLast? = some last ∧ now.breaker.openedAt = some last.recordAt ∧
        ∀ first, checks.head? = some first →
          ((calls.length - g.breaker.failureThreshold : ℕ) : ℚ) * g.breaker.cooldownS ≤
            last.allowAt - first.allowAt

variable {checks calls : List Readings} {now : BreakerGuardedLimiter}

theorem recordFailure_closed {b : CircuitBreaker} (closed : b.state = .closed) (at_ : ℚ) :
    b.recordFailure at_ =
      if b.failureThreshold ≤ b.consecutiveFailures + 1 then
        { b with
          consecutiveFailures := b.consecutiveFailures + 1
          trips := b.trips + 1
          state := .opened
          openedAt := some at_ }
      else { b with consecutiveFailures := b.consecutiveFailures + 1 } := by
  simp [CircuitBreaker.recordFailure, closed]

theorem isChain_drop_of_length_le {threshold : ℕ} (short : calls.length ≤ threshold)
    (R : Readings → Readings → Prop) : (calls.drop (threshold - 1)).IsChain R := by
  have one : (calls.drop (threshold - 1)).length ≤ 1 := by
    rw [List.length_drop]
    omega
  match calls.drop (threshold - 1), one with
  | [], _ => exact .nil
  | [call], _ => exact .singleton call

/-- One more store call, `last` being the one before it. -/
theorem isChain_drop_snoc {threshold : ℕ} {R : Readings → Readings → Prop} {last : Readings}
    (positive : 0 < threshold) (enough : threshold ≤ calls.length) (ends : calls.getLast? = some last)
    (chain : (calls.drop (threshold - 1)).IsChain R) (next : R last readings) :
    ((calls ++ [readings]).drop (threshold - 1)).IsChain R := by
  rw [List.drop_append_of_le_length (by omega)]
  refine List.isChain_append.mpr ⟨chain, .singleton readings, fun x isLast y isHead => ?_⟩
  rw [List.getLast?_drop, if_neg (by omega), ends] at isLast
  cases isLast
  cases isHead
  exact next

/-- The limiter after one more check which called the store. -/
theorem Outage.called {g' : BreakerGuardedLimiter} (outage : Outage g checks calls now)
    (config : g'.failOpen = now.failOpen ∧ g'.breaker.failureThreshold = now.breaker.failureThreshold ∧
      g'.breaker.cooldownS = now.breaker.cooldownS)
    (counts : g'.failOpenCount = now.failOpenCount + 1 ∧ g'.errorCount = now.errorCount + 1 ∧
      g'.breaker.shortCircuited = now.breaker.shortCircuited)
    (spaced : ((calls ++ [readings]).drop (g.breaker.failureThreshold - 1)).IsChain fun call next =>
      g.breaker.cooldownS ≤ next.allowAt - call.recordAt)
    (circuit : calls.length + 1 < g.breaker.failureThreshold ∧ g'.breaker.state = .closed ∧
        g'.breaker.consecutiveFailures = calls.length + 1 ∧ g'.breaker.trips = 0 ∨
      g.breaker.failureThreshold ≤ calls.length + 1 ∧ g'.breaker.state = .opened ∧ g'.breaker.trips = 1 ∧
        g'.breaker.openedAt = some readings.recordAt ∧
        ∀ first, (checks ++ [readings]).head? = some first →
          ((calls.length + 1 - g.breaker.failureThreshold : ℕ) : ℚ) * g.breaker.cooldownS ≤
            readings.allowAt - first.allowAt) :
    Outage g (checks ++ [readings]) (calls ++ [readings]) g' where
  failOpen := config.1.trans outage.failOpen
  threshold := config.2.1.trans outage.threshold
  cooldown := config.2.2.trans outage.cooldown
  failOpenCount := by rw [counts.1, outage.failOpenCount, List.length_append, List.length_singleton]
  errorCount := by rw [counts.2.1, outage.errorCount, List.length_append, List.length_singleton]
  shortCircuited := by
    have before := outage.shortCircuited
    rw [counts.2.2, List.length_append, List.length_append, List.length_singleton]
    omega
  among := List.append_subset.mpr
    ⟨fun _ member => List.mem_append_left _ (outage.among member), List.subset_append_right ..⟩
  spaced := spaced
  circuit := by
    rw [List.length_append, List.length_singleton]
    rcases circuit with closed | ⟨enough, opened, trips, since, rate⟩
    · exact Or.inl closed
    · exact Or.inr ⟨enough, opened, trips, readings, List.getLast?_concat .., since, rate⟩

/-- One check keeps the record of the outage. -/
theorem Outage.snoc (positive : 0 < g.breaker.failureThreshold) (outage : Outage g checks calls now)
    (sequential : Sequential (checks ++ [readings])) :
    ∃ called, (now.deadCheck readings).1 = some (called, now.unguarded) ∧
      Outage g (checks ++ [readings]) (calls ++ if called then [readings] else [])
        (now.deadCheck readings).2 := by
  obtain ⟨before, order, own⟩ := sequential_snoc sequential
  rcases outage.circuit with ⟨few, closed, failures, trips⟩ | ⟨enough, opened, trips, last, ends, since, rate⟩
  · -- The circuit is closed: the store is called, and the threshold decides.
    rw [deadCheck_closed closed]
    refine ⟨true, rfl, outage.called ?_ ⟨rfl, rfl, ?_⟩ (isChain_drop_of_length_le ?_ _) ?_⟩
    · exact ⟨rfl, CircuitBreaker.recordFailure_config _ _⟩
    · rw [recordFailure_closed closed]
      split <;> rfl
    · rw [List.length_append, List.length_singleton]
      omega
    · rw [recordFailure_closed closed, outage.threshold, failures]
      by_cases trip : g.breaker.failureThreshold ≤ calls.length + 1
      · rw [if_pos trip]
        refine Or.inr ⟨trip, rfl, congrArg (· + 1) trips, rfl, fun first isFirst => ?_⟩
        have exact : calls.length + 1 - g.breaker.failureThreshold = 0 := by omega
        rw [exact, Nat.cast_zero, zero_mul, sub_nonneg]
        exact head_le sequential isFirst
      · rw [if_neg trip]
        exact Or.inl ⟨not_le.mp trip, closed, rfl, trips⟩
  · have member : last ∈ checks := outage.among (List.mem_of_getLast? ends)
    by_cases cooled : now.breaker.cooldownS ≤ readings.allowAt - last.recordAt
    · -- The cooldown is over: the probe fails and starts it again.
      rw [deadCheck_opened opened since, if_pos cooled]
      rw [outage.cooldown] at cooled
      refine ⟨true, rfl, outage.called ⟨rfl, rfl, rfl⟩ ⟨rfl, rfl, rfl⟩
        (isChain_drop_snoc positive enough ends outage.spaced cooled)
        (Or.inr ⟨by omega, opened, trips, rfl, fun first isFirst => ?_⟩)⟩
      have head : checks.head? = some first := by
        rw [← isFirst, List.head?_append_of_ne_nil _ (List.ne_nil_of_mem member)]
      have earlier := rate first head
      have own := sequential_own before member
      have more : calls.length + 1 - g.breaker.failureThreshold =
          (calls.length - g.breaker.failureThreshold) + 1 := by omega
      rw [more, Nat.cast_succ, add_mul, one_mul]
      linarith
    · rw [deadCheck_opened opened since, if_neg cooled]
      refine ⟨false, rfl, ?_⟩
      rw [if_neg Bool.false_ne_true, List.append_nil]
      refine ⟨outage.failOpen, outage.threshold, outage.cooldown, ?_, outage.errorCount, ?_,
        fun _ inside => List.mem_append_left _ (outage.among inside), outage.spaced,
        Or.inr ⟨enough, opened, trips, last, ends, since, fun first isFirst => rate first ?_⟩⟩
      · rw [outage.failOpenCount, List.length_append, List.length_singleton]
      · have counted := outage.shortCircuited
        dsimp only
        rw [List.length_append, List.length_singleton]
        omega
      · rw [← isFirst, List.head?_append_of_ne_nil _ (List.ne_nil_of_mem member)]

/-- A limiter as it is built: circuit closed and no failure recorded. -/
def start (failOpen : Bool) (failureThreshold : ℕ) (cooldownS : ℚ) : BreakerGuardedLimiter :=
  { failOpen := failOpen
    breaker := { failureThreshold := failureThreshold, cooldownS := cooldownS } }

section Outages
variable {failOpen : Bool} {failureThreshold : ℕ} {cooldownS : ℚ}

theorem outage_of_sequential (positive : 0 < failureThreshold) (sequential : Sequential checks) :
    Outage (start failOpen failureThreshold cooldownS) checks
      (storeCalls (start failOpen failureThreshold cooldownS) checks)
      (after deadCheck (start failOpen failureThreshold cooldownS) checks) := by
  induction checks using List.reverseRecOn with
  | nil =>
    refine ⟨rfl, rfl, rfl, rfl, rfl, rfl, List.nil_subset _, ?_, Or.inl ⟨positive, rfl, rfl, rfl⟩⟩
    rw [storeCalls, transcript_nil]
    simp
  | append_singleton earlier last ih =>
    have before := ih (sequential_snoc sequential).1
    obtain ⟨called, answer, next⟩ := before.snoc positive sequential
    rw [storeCalls_snoc, after_snoc, answer]
    simpa using next

theorem deadCheck_answers (positive : 0 < failureThreshold) (sequential : Sequential checks) :
    ∀ entry ∈ transcript deadCheck (start failOpen failureThreshold cooldownS) checks,
      ∃ called decision, entry.2 = some (called, decision) ∧ decision.allowed = failOpen := by
  induction checks using List.reverseRecOn with
  | nil => simp
  | append_singleton earlier last ih =>
    have before := (sequential_snoc sequential).1
    have outage := @outage_of_sequential earlier failOpen failureThreshold cooldownS positive before
    obtain ⟨called, answer, _⟩ := outage.snoc positive sequential
    rw [transcript_snoc]
    intro entry member
    rcases List.mem_append.mp member with inside | here
    · exact ih before entry inside
    · cases List.mem_singleton.mp here
      exact ⟨called, _, answer, outage.failOpen⟩

/-- The load on a dead store is bounded by the threshold and the cooldown. -/
theorem outage_load (positive : 0 < failureThreshold) (cooling : 0 < cooldownS)
    (sequential : Sequential checks) :
    ((storeCalls (start failOpen failureThreshold cooldownS) checks).length : ℚ) ≤
      failureThreshold + span checks / cooldownS := by
  have outage := @outage_of_sequential checks failOpen failureThreshold cooldownS positive sequential
  have spanned : 0 ≤ span checks / cooldownS := div_nonneg (span_nonneg sequential) cooling.le
  rcases outage.circuit with ⟨few, _⟩ | ⟨enough, _, _, last, ends, _, rate⟩
  · have below : ((storeCalls (start failOpen failureThreshold cooldownS) checks).length : ℚ) ≤
        failureThreshold := by exact_mod_cast few.le
    linarith
  · obtain ⟨first, isFirst, latest⟩ := le_span sequential (outage.among (List.mem_of_getLast? ends))
    have probes := (le_div_iff₀ cooling).mpr ((rate first isFirst).trans latest)
    rw [Nat.cast_sub enough] at probes
    change _ - (failureThreshold : ℚ) ≤ _ at probes
    linarith

/-- An outage costs the threshold and one call for each cooldown: every decision
is the configured one, store calls after the first trip keep the cooldown
between them, and the counters tell the calls made, spared and let through. -/
theorem outage_bounded (positive : 1 ≤ failureThreshold) (cooling : 0 < cooldownS)
    (sequential : Sequential checks) :
    (∀ entry ∈ transcript deadCheck (start failOpen failureThreshold cooldownS) checks,
      ∃ called decision, entry.2 = some (called, decision) ∧ decision.allowed = failOpen) ∧
    ((storeCalls (start failOpen failureThreshold cooldownS) checks).drop (failureThreshold - 1)).IsChain
      (fun call next => cooldownS ≤ next.allowAt - call.recordAt) ∧
    ((storeCalls (start failOpen failureThreshold cooldownS) checks).length : ℚ) ≤
      failureThreshold + span checks / cooldownS ∧
    (after deadCheck (start failOpen failureThreshold cooldownS) checks).errorCount =
      (storeCalls (start failOpen failureThreshold cooldownS) checks).length ∧
    (after deadCheck (start failOpen failureThreshold cooldownS) checks).breaker.shortCircuited +
      (storeCalls (start failOpen failureThreshold cooldownS) checks).length = checks.length ∧
    (after deadCheck (start failOpen failureThreshold cooldownS) checks).failOpenCount = checks.length ∧
    (after deadCheck (start failOpen failureThreshold cooldownS) checks).breaker.trips =
      if (storeCalls (start failOpen failureThreshold cooldownS) checks).length < failureThreshold
      then 0 else 1 := by
  have outage := @outage_of_sequential checks failOpen failureThreshold cooldownS positive sequential
  refine ⟨deadCheck_answers positive sequential, outage.spaced, outage_load positive cooling sequential,
    outage.errorCount, outage.shortCircuited, outage.failOpenCount, ?_⟩
  rcases outage.circuit with ⟨few, _, _, trips⟩ | ⟨enough, _, trips, _⟩
  · rw [trips, if_pos (show _ < failureThreshold from few)]
  · rw [trips, if_neg (not_lt.mpr (show failureThreshold ≤ _ from enough))]

end Outages

/-- A threshold of two and a cooldown of five seconds. -/
def checksOfOutage : List Readings :=
  [⟨0, 1⟩, ⟨1, 2⟩, ⟨3, 3⟩, ⟨7, 8⟩, ⟨12, 12⟩, ⟨13, 14⟩]

theorem outage_bounded_probing :
    (∀ entry ∈ transcript deadCheck (start true 2 5) checksOfOutage,
      ∃ called decision, entry.2 = some (called, decision) ∧ decision.allowed = true) ∧
    ((storeCalls (start true 2 5) checksOfOutage).drop (2 - 1)).IsChain
      (fun call next => 5 ≤ next.allowAt - call.recordAt) ∧
    ((storeCalls (start true 2 5) checksOfOutage).length : ℚ) ≤ (2 : ℕ) + span checksOfOutage / 5 ∧
    (after deadCheck (start true 2 5) checksOfOutage).errorCount =
      (storeCalls (start true 2 5) checksOfOutage).length ∧
    (after deadCheck (start true 2 5) checksOfOutage).breaker.shortCircuited +
      (storeCalls (start true 2 5) checksOfOutage).length = checksOfOutage.length ∧
    (after deadCheck (start true 2 5) checksOfOutage).failOpenCount = checksOfOutage.length ∧
    (after deadCheck (start true 2 5) checksOfOutage).breaker.trips =
      if (storeCalls (start true 2 5) checksOfOutage).length < 2 then 0 else 1 :=
  outage_bounded (by decide) (by norm_num) (by unfold Sequential; decide +kernel)

example : storeCalls (start true 2 5) checksOfOutage = [⟨0, 1⟩, ⟨1, 2⟩, ⟨7, 8⟩, ⟨13, 14⟩] := by
  decide +kernel

end BreakerGuardedLimiter
end UrlShortener
