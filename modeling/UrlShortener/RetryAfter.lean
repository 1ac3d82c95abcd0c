import Mathlib
import UrlShortener.EnforceLimit

namespace UrlShortener
open Machine

/-- The same call made at another time. -/
def Call.again (call : Call) (nowMs : Int) : Call :=
  { call with nowMs := nowMs }

namespace SqliteStore
variable {buckets : Buckets} {call : Call}

/-- What the wait told to a denied call promises. While no other call touches
the key, a finite wait is when the call gets through and not before; after an
infinite one calls like it never do. -/
structure ExactWait (buckets : Buckets) (call : Call) : Prop where
  finite : ∀ wait : ℚ, (consume buckets call).1.retryAfterS = wait →
    ∀ others : List Call, (∀ other ∈ others, other.key ≠ call.key) → ∀ nowMs ≥ call.nowMs,
      ((consume (after consume (consume buckets call).2 others) (call.again nowMs)).1.allowed = true ↔
        call.nowMs + 1000 * wait ≤ nowMs)
  infinite : (consume buckets call).1.retryAfterS = ⊤ →
    ∀ later : List Call, (∀ next ∈ later, next.key = call.key →
        next.capacity = call.capacity ∧ next.rate = call.rate ∧ next.cost = call.cost) →
      ∀ entry ∈ transcript consume (consume buckets call).2 later,
        entry.1.key = call.key → entry.2.allowed = false

theorem consume_denied : (consume buckets call).1.allowed = false ↔
    refilled call (buckets call.key) < call.cost := by
  simp [consume, consumeRow]

theorem after_others {others : List Call} {key : String} (elsewhere : ∀ other ∈ others, other.key ≠ key) :
    after consume buckets others key = buckets key := by
  have none : others.filter (·.key = key) = [] :=
    List.filter_eq_nil_iff.mpr fun other member => by simpa using elsewhere other member
  rw [after_cell, none, after_nil]

theorem refilled_le_capacity (call : Call) (row : Option Bucket) : refilled call row ≤ call.capacity :=
  min_le_left _ _

/-- A denied call leaves what it found, stamped with its own time. -/
theorem row_of_denied (denied : (consume buckets call).1.allowed = false) :
    (consume buckets call).2 call.key = some ⟨refilled call (buckets call.key), call.nowMs⟩ := by
  have short := consume_denied.mp denied
  simp [consume, consumeRow, not_le.mpr short]

theorem retryAfterS_of_denied (denied : (consume buckets call).1.allowed = false) :
    (consume buckets call).1.retryAfterS = if call.rate ≤ 0 then ⊤
      else (((call.cost - refilled call (buckets call.key)) / call.rate : ℚ) : WithTop ℚ) := by
  have short := consume_denied.mp denied
  simp only [consume, consumeRow, retryAfter, not_le.mpr short, decide_false, Bool.false_eq_true, if_false]
  split
  · rfl
  · rename_i positive
    have waits : 0 ≤ (call.cost - refilled call (buckets call.key)) / call.rate :=
      div_nonneg (by linarith) (le_of_lt (not_le.mp positive))
    rw [max_eq_left waits]

/-- When the call that was denied gets through if it is made again. -/
theorem again_allowed_iff (denied : (consume buckets call).1.allowed = false)
    (positive : 0 < call.rate) (fits : call.cost ≤ call.capacity) {later : Buckets}
    (kept : later call.key = (consume buckets call).2 call.key) {nowMs : Int} (after : call.nowMs ≤ nowMs) :
    (consume later (call.again nowMs)).1.allowed = true ↔
      call.nowMs + 1000 * ((call.cost - refilled call (buckets call.key)) / call.rate) ≤ nowMs := by
  have elapsed : max 0 (nowMs - call.nowMs) = nowMs - call.nowMs := by omega
  change (consumeRow (call.again nowMs) (later call.key)).1.allowed = true ↔ _
  rw [consumeRow_allowed, kept, row_of_denied denied, refilled_some]
  simp only [Call.again, elapsed, le_min_iff, fits, true_and, Int.cast_sub]
  have scaled : 1000 * ((call.cost - refilled call (buckets call.key)) / call.rate) * call.rate =
      1000 * (call.cost - refilled call (buckets call.key)) := by
    field_simp
  constructor
  · intro enough
    have product : 1000 * ((call.cost - refilled call (buckets call.key)) / call.rate) * call.rate ≤
        ((nowMs : ℚ) - call.nowMs) * call.rate := by
      rw [scaled]
      linarith
    have waited := le_of_mul_le_mul_right product positive
    linarith
  · intro waited
    have product := mul_le_mul_of_nonneg_right
      (show 1000 * ((call.cost - refilled call (buckets call.key)) / call.rate) ≤ (nowMs : ℚ) - call.nowMs by
        linarith) positive.le
    rw [scaled] at product
    linarith

/-- A bucket that does not refill and is short of a cost stays short of it. -/
theorem stays_short {rate cost : ℚ} (drained : rate ≤ 0) {bucket : Bucket}
    (short : bucket.tokens < cost) {calls : List Call}
    (alike : ∀ next ∈ calls, next.rate = rate ∧ next.cost = cost) :
    ∀ entry ∈ transcript consumeCell (some bucket) calls, entry.2.allowed = false := by
  induction calls generalizing bucket with
  | nil => simp
  | cons next rest ih =>
    obtain ⟨ownRate, ownCost⟩ := alike next (by simp)
    have elapsed : (0 : ℚ) ≤ ((max 0 (next.nowMs - bucket.updatedMs) : Int) : ℚ) / 1000 :=
      div_nonneg (by exact_mod_cast le_max_left 0 (next.nowMs - bucket.updatedMs)) (by norm_num)
    have lower : refilled next (some bucket) < cost := by
      have gain := mul_nonpos_of_nonneg_of_nonpos elapsed drained
      rw [refilled_some, ownRate]
      exact lt_of_le_of_lt (min_le_right _ _) (by linarith)
    have denied : (consumeRow next (some bucket)).1.allowed = false := by
      rw [← Bool.not_eq_true, consumeRow_allowed, ownCost]
      exact not_le.mpr lower
    have left : (consumeRow next (some bucket)).2.tokens < cost := by
      rw [consumeRow_tokens, taken, denied]
      simpa using lower
    intro entry member
    rcases List.mem_cons.mp member with rfl | later
    · exact denied
    · exact ih left (fun c inside => alike c (List.mem_cons_of_mem _ inside)) entry later

/-- The wait of a denied call is exact unless the bucket, though it refills,
is too small for the cost. -/
theorem exactWait_iff (denied : (consume buckets call).1.allowed = false) :
    ExactWait buckets call ↔ call.rate ≤ 0 ∨ call.cost ≤ call.capacity := by
  have told := retryAfterS_of_denied denied
  constructor
  · intro exact
    by_contra neither
    push Not at neither
    obtain ⟨positive, small⟩ := neither
    rw [if_neg (not_le.mpr positive)] at told
    obtain ⟨moment, later, reached⟩ : ∃ moment : Int, call.nowMs ≤ moment ∧
        call.nowMs + 1000 * ((call.cost - refilled call (buckets call.key)) / call.rate) ≤ moment :=
      ⟨max call.nowMs _, le_max_left _ _, (Int.le_ceil _).trans (by exact_mod_cast le_max_right _ _)⟩
    -- The promised moment comes, and the bucket is full before it holds the cost.
    have allowed := (exact.finite _ told [] (by simp) moment later).mpr reached
    have enough : call.cost ≤ call.capacity :=
      (consumeRow_allowed.mp allowed).trans (refilled_le_capacity (call.again moment) _)
    exact not_le.mpr small enough
  · intro condition
    refine ⟨fun wait finite others elsewhere nowMs later => ?_, fun infinite later alike entry member own => ?_⟩
    · have positive : 0 < call.rate := by
        by_contra drained
        rw [if_pos (not_lt.mp drained), finite] at told
        cases told
      have fits : call.cost ≤ call.capacity := condition.resolve_left (not_le.mpr positive)
      rw [if_neg (not_le.mpr positive), finite] at told
      rw [WithTop.coe_inj.mp told]
      exact again_allowed_iff denied positive fits (after_others elsewhere) later
    · have drained : call.rate ≤ 0 := by
        by_contra positive
        rw [if_neg positive, infinite] at told
        cases told
      have inCell : entry ∈ ledgerOf (consume buckets call).2 call.key later :=
        List.mem_filter.mpr ⟨member, by simpa using own⟩
      rw [ledgerOf_cell, row_of_denied denied] at inCell
      have short : (⟨refilled call (buckets call.key), call.nowMs⟩ : Bucket).tokens < call.cost :=
        consume_denied.mp denied
      refine stays_short drained short (fun next inside => ?_) entry inCell
      obtain ⟨inLater, ownKey⟩ := List.mem_filter.mp inside
      exact (alike next inLater (by simpa using ownKey)).2

/-- A cost above the capacity: told to wait, and never let through. -/
theorem hopeless_wait :
    ¬ ExactWait (fun _ => none) ⟨"rl:a", 1, 1, 2, 0⟩ ∧
    (consume (fun _ => none) ⟨"rl:a", 1, 1, 2, 0⟩).1 = ⟨false, some 1, (1 : ℚ)⟩ ∧
    ∀ nowMs : Int, (consume (consume (fun _ => none) ⟨"rl:a", 1, 1, 2, 0⟩).2
      ⟨"rl:a", 1, 1, 2, nowMs⟩).1.allowed = false := by
  have first : (consume (fun _ => none) ⟨"rl:a", 1, 1, 2, 0⟩).1 = ⟨false, some 1, (1 : ℚ)⟩ := by
    decide +kernel
  have refused (nowMs : Int) : (consume (consume (fun _ => none) ⟨"rl:a", 1, 1, 2, 0⟩).2
      ⟨"rl:a", 1, 1, 2, nowMs⟩).1.allowed = false := by
    rw [consume_denied]
    exact lt_of_le_of_lt (refilled_le_capacity _ _) one_lt_two
  refine ⟨fun exact => ?_, first, refused⟩
  have promised := exact.finite 1 (by rw [first]) [] (by simp) 1000 (by norm_num)
  have allowed := promised.mpr (by norm_num)
  exact Bool.false_ne_true ((refused 1000).symm.trans allowed)

theorem exactWait_of_one_token :
    ExactWait (consume (fun _ => none) ⟨"rl:a", 1, 2/3, 1, 0⟩).2 ⟨"rl:a", 1, 2/3, 1, 0⟩ ↔
      (2/3 : ℚ) ≤ 0 ∨ (1 : ℚ) ≤ 1 :=
  exactWait_iff (by decide +kernel)

end SqliteStore

theorem truncated_of_nonneg {x : ℚ} (nonneg : 0 ≤ x) : truncated x = ⌊x⌋ := by
  have numerator : 0 ≤ x.num := Rat.num_nonneg.mpr nonneg
  rw [truncated, Int.tdiv_eq_ediv_of_nonneg numerator, Rat.floor_def']

/-- What the client reads out of the header of a finite wait. -/
theorem retryAfterHeader_toInt {wait : ℚ} (nonneg : 0 ≤ wait) :
    (retryAfterHeader wait).toInt? = some (min (max ⌊wait⌋ 1) 60) := by
  rw [retryAfterHeader, if_pos WithTop.coe_ne_top, WithTop.untopD_coe, truncated_of_nonneg nonneg]
  exact Int.toInt?_repr _

/-- Of waits up to a minute, whole seconds cover those below one second, which
are rounded up, and whole ones, which are not rounded. -/
theorem le_header_iff {wait : ℚ} (positive : 0 < wait) (short : wait ≤ 60) :
    wait ≤ ((min (max ⌊wait⌋ 1) 60 : Int) : ℚ) ↔ wait ≤ 1 ∨ ∃ n : ℕ, wait = n := by
  have below : ⌊wait⌋ ≤ 60 := by
    have floor := (Int.floor_le wait).trans short
    exact_mod_cast floor
  have nonneg : 0 ≤ ⌊wait⌋ := Int.floor_nonneg.mpr positive.le
  rw [min_eq_left (by omega : max ⌊wait⌋ 1 ≤ 60)]
  constructor
  · intro covered
    by_cases small : ⌊wait⌋ ≤ 1
    · rw [max_eq_right small] at covered
      exact Or.inl (by exact_mod_cast covered)
    · rw [max_eq_left (by omega)] at covered
      have whole : wait = (⌊wait⌋ : ℚ) := le_antisymm covered (Int.floor_le wait)
      have natural : ((⌊wait⌋.toNat : ℕ) : ℚ) = (⌊wait⌋ : ℚ) := by
        exact_mod_cast Int.toNat_of_nonneg nonneg
      exact Or.inr ⟨⌊wait⌋.toNat, whole.trans natural.symm⟩
  · rintro (small | ⟨n, rfl⟩)
    · exact small.trans (by exact_mod_cast le_max_right ⌊wait⌋ 1)
    · rw [Int.floor_natCast]
      exact_mod_cast le_max_left (n : Int) 1

namespace Limiters
variable {enabled : Bool} {config : RateLimiter} {s : Limiters} {arrival : Arrival}

/-- The seconds until the bucket of a request holds a token again. -/
def trueWait (s : Limiters) (config : RateLimiter) (arrival : Arrival) : ℚ :=
  (1 - SqliteStore.refilled (arrival.call config) (s.buckets (arrival.call config).key)) /
    config.refillPerSecond

theorem after_frame (others : List Arrival) :
    (∀ n, ((after (serve enabled config) s others).guards n).failOpen = (s.guards n).failOpen) ∧
      ∀ key, (∀ other ∈ others, (other.call config).key ≠ key) →
        (after (serve enabled config) s others).buckets key = s.buckets key := by
  induction others generalizing s with
  | nil => exact ⟨fun _ => rfl, fun _ _ => rfl⟩
  | cons other rest ih =>
    obtain ⟨failOpen, buckets⟩ := serve_frame enabled config s other
    obtain ⟨laterOpen, laterBuckets⟩ := ih (s := (s.serve enabled config other).2)
    refine ⟨fun n => (laterOpen n).trans (failOpen n), fun key elsewhere => ?_⟩
    rw [after_cons, laterBuckets key fun c member => elsewhere c (List.mem_cons_of_mem _ member)]
    exact buckets key (elsewhere other (by simp)).symm

/-- A request passes if the store is not asked, or if the store allows it. -/
theorem not_refused_iff (failOpen : (s.guards arrival.servedBy).failOpen = true) :
    (∀ exception, (s.serve true config arrival).1 ≠ some (.error exception)) ↔
      ¬ s.Reaches arrival ∨ (SqliteStore.consume s.buckets (arrival.call config)).1.allowed = true := by
  constructor
  · intro never
    by_cases reaches : s.Reaches arrival
    · refine Or.inr ?_
      by_contra denied
      have raised : (SqliteStore.consume s.buckets (arrival.call config)).1.verdict =
          .error (tooManyRequests _) := if_neg denied
      exact never _ ((serve_of_reaches reaches).trans (congrArg some raised))
    · exact Or.inl reaches
  · intro condition exception refused
    obtain ⟨_, reaches, denied, _⟩ := refused_cases failOpen refused
    rcases condition with unreached | allowed
    · exact unreached reaches
    · exact Bool.false_ne_true (denied.symm.trans allowed)

/-- A client that waits as long as the header of its 429 says is not refused
again exactly if the retry is not decided by the store, or the wait was at most
one second or a whole number of seconds. -/
theorem obedient_served_iff {others : List Arrival} {retry : Arrival} {exception : HTTPException}
    {header : String} {seconds : Int} (refill : 0 < config.refillPerSecond) (capacity : 1 ≤ config.capacity)
    (failOpen : ∀ n, (s.guards n).failOpen = true)
    (refused : (s.serve enabled config arrival).1 = some (.error exception))
    (told : exception.headers.lookup "Retry-After" = some header) (read : header.toInt? = some seconds)
    (short : s.trueWait config arrival ≤ 60)
    (elsewhere : ∀ other ∈ others, clientId other.toHttpRequest ≠ clientId arrival.toHttpRequest)
    (same : clientId retry.toHttpRequest = clientId arrival.toHttpRequest)
    (obeys : retry.nowMs = arrival.nowMs + 1000 * seconds) :
    (∀ again, ((after (serve enabled config) (s.serve enabled config arrival).2 others).serve
        enabled config retry).1 ≠ some (.error again)) ↔
      ¬ (after (serve enabled config) (s.serve enabled config arrival).2 others).Reaches retry ∨
        s.trueWait config arrival ≤ 1 ∨ ∃ n : ℕ, s.trueWait config arrival = n := by
  obtain ⟨rfl, _, denied, rfl, moved⟩ := refused_cases (failOpen arrival.servedBy) refused
  have lacking := SqliteStore.consume_denied.mp denied
  have positive : 0 < s.trueWait config arrival := div_pos (sub_pos.mpr lacking) refill
  have wait : (SqliteStore.consume s.buckets (arrival.call config)).1.retryAfterS =
      (s.trueWait config arrival : WithTop ℚ) := by
    rw [SqliteStore.retryAfterS_of_denied denied, if_neg (not_le.mpr (show 0 < (arrival.call config).rate from refill))]
    rfl
  have value : header = retryAfterHeader (s.trueWait config arrival) := by
    rw [← wait]
    exact (Option.some.inj told).symm
  rw [value, retryAfterHeader_toInt positive.le] at read
  have number : min (max ⌊s.trueWait config arrival⌋ 1) 60 = seconds := Option.some.inj read
  rw [← le_header_iff positive short, number]
  obtain ⟨laterOpen, laterBuckets⟩ := @after_frame true config (s.serve true config arrival).2 others
  generalize after (serve true config) (s.serve true config arrival).2 others = later at *
  have openAgain : (later.guards retry.servedBy).failOpen = true := by
    rw [laterOpen, (serve_frame true config s arrival).1, failOpen]
  -- The bucket is as the refusal left it, and the retry is the same call again.
  have kept : later.buckets (arrival.call config).key =
      (SqliteStore.consume s.buckets (arrival.call config)).2 (arrival.call config).key := by
    rw [laterBuckets _ fun other member => ?_, moved]
    exact fun shared => elsewhere other member (Arrival.call_key_eq_iff.mp shared)
  have again : retry.call config = (arrival.call config).again retry.nowMs := by
    simp only [Arrival.call, RateLimiter.check, Call.again, same]
  have onTime : (SqliteStore.consume later.buckets (retry.call config)).1.allowed = true ↔
      s.trueWait config arrival ≤ seconds := by
    have before : (arrival.call config).nowMs ≤ retry.nowMs := by
      change arrival.nowMs ≤ retry.nowMs
      omega
    rw [again, SqliteStore.again_allowed_iff denied refill capacity kept before, obeys]
    change (arrival.nowMs : ℚ) + 1000 * s.trueWait config arrival ≤ _ ↔ _
    push_cast
    constructor <;> intro bound <;> linarith
  rw [← onTime]
  exact not_refused_iff openAgain

/-- The limiters at the start of a deployment, as `app` builds them. -/
def fresh : Limiters :=
  ⟨fun _ => { breaker := {} }, fun _ => none⟩

/-- A request without headers. -/
def fromPeer (host : String) (nowMs : Int) : Arrival :=
  { client := some host, nowMs := nowMs }

/-- Two tokens every three seconds: the second request at time 0 has to wait
1.5 seconds, is told one, and is refused again when it obeys. -/
theorem obedient_refused :
    (transcript (serve true ⟨1, 2/3⟩) fresh
        [fromPeer "10.0.0.1" 0, fromPeer "10.0.0.1" 0, fromPeer "10.0.0.1" 1000]).map Prod.snd =
      [some (.ok ()), some (.error ⟨429, "rate limit exceeded", [("Retry-After", "1")]⟩),
        some (.error ⟨429, "rate limit exceeded", [("Retry-After", "1")]⟩)] ∧
    (after (serve true ⟨1, 2/3⟩) fresh [fromPeer "10.0.0.1" 0]).trueWait ⟨1, 2/3⟩
      (fromPeer "10.0.0.1" 0) = 3/2 := by
  decide +kernel

/-- One token a second, with a request of another client in between. -/
theorem obedient_served :
    (∀ again, ((after (serve true ⟨1, 1⟩)
        ((after (serve true ⟨1, 1⟩) fresh [fromPeer "10.0.0.1" 0]).serve true ⟨1, 1⟩
          (fromPeer "10.0.0.1" 0)).2 [fromPeer "10.0.0.2" 500]).serve true ⟨1, 1⟩
            (fromPeer "10.0.0.1" 1000)).1 ≠ some (.error again)) ↔
      ¬ (after (serve true ⟨1, 1⟩)
        ((after (serve true ⟨1, 1⟩) fresh [fromPeer "10.0.0.1" 0]).serve true ⟨1, 1⟩
          (fromPeer "10.0.0.1" 0)).2 [fromPeer "10.0.0.2" 500]).Reaches (fromPeer "10.0.0.1" 1000) ∨
        (after (serve true ⟨1, 1⟩) fresh [fromPeer "10.0.0.1" 0]).trueWait ⟨1, 1⟩
          (fromPeer "10.0.0.1" 0) ≤ 1 ∨
        ∃ n : ℕ, (after (serve true ⟨1, 1⟩) fresh [fromPeer "10.0.0.1" 0]).trueWait ⟨1, 1⟩
          (fromPeer "10.0.0.1" 0) = n :=
  @obedient_served_iff true ⟨1, 1⟩ _ (fromPeer "10.0.0.1" 0) [fromPeer "10.0.0.2" 500]
    (fromPeer "10.0.0.1" 1000) ⟨429, "rate limit exceeded", [("Retry-After", "1")]⟩ "1" 1
    (by norm_num) (by norm_num)
    (fun n => by rw [(after_frame _).1]; rfl) (by decide +kernel) (by decide) (Int.toInt?_repr 1)
    (by decide +kernel) (by decide) (by decide) (by decide)

end Limiters
end UrlShortener
