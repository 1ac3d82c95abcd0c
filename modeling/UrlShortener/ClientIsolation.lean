import UrlShortener.RetryAfter

namespace UrlShortener
open Machine

/-- The request carries the header, with whatever value. -/
def HttpRequest.Keyed (request : HttpRequest) : Prop :=
  request.headers.lookup "x-api-key" ≠ none

/-- The request comes from `host` and does not carry the header. -/
def HttpRequest.Bare (host : String) (request : HttpRequest) : Prop :=
  request.headers.lookup "x-api-key" = none ∧ request.client = some host

instance (request : HttpRequest) : Decidable request.Keyed :=
  inferInstanceAs (Decidable (¬ _))

instance (host : String) (request : HttpRequest) : Decidable (request.Bare host) :=
  inferInstanceAs (Decidable (_ ∧ _))

variable {config : RateLimiter} {host : String} {arrival : Arrival} {run : List Arrival}

theorem HttpRequest.Bare.clientId {request : HttpRequest} (bare : request.Bare host) :
    clientId request = host := by
  simp [UrlShortener.clientId, bare.1, bare.2]

/-- `RateLimiter.check` on the shared store, for a request. -/
def limited (config : RateLimiter) (buckets : Buckets) (arrival : Arrival) : Decision × Buckets :=
  SqliteStore.consume buckets (arrival.call config)

/-- The limiter's decisions on the requests of a run that come from `host`
without an API key, in order. -/
def decisionsFor (config : RateLimiter) (buckets : Buckets) (host : String) (run : List Arrival) :
    List Decision :=
  ((transcript (limited config) buckets run).filter (·.1.toHttpRequest.Bare host)).map Prod.snd

/-- The run without the requests that carry the header. -/
def unkeyed (run : List Arrival) : List Arrival :=
  run.filter fun arrival => ¬ arrival.toHttpRequest.Keyed

/-- What `host` is told does not depend on the requests that carry the header. -/
def Isolated (config : RateLimiter) (buckets : Buckets) (host : String) (run : List Arrival) : Prop :=
  decisionsFor config buckets host run = decisionsFor config buckets host (unkeyed run)

/-- Processes whose breakers are closed decide as the limiter does, as long as
the store answers. -/
theorem serve_transcript {s : Limiters} (closed : ∀ n, (s.guards n).breaker.state = .closed)
    (answers : ∀ arrival ∈ run, arrival.storeAnswers = true) :
    transcript (Limiters.serve true config) s run =
      (transcript (limited config) s.buckets run).map fun entry => (entry.1, some entry.2.verdict) := by
  induction run generalizing s with
  | nil => rfl
  | cons arrival rest ih =>
    have reaches := Limiters.reaches_of_closed (closed arrival.servedBy) (answers arrival (by simp))
    obtain ⟨guard, checked, guardClosed, _⟩ := Limiters.check_of_reaches config reaches
    have served : s.serve true config arrival = (some (limited config s.buckets arrival).1.verdict,
        ⟨Function.update s.guards arrival.servedBy guard, (limited config s.buckets arrival).2⟩) := by
      simp only [Limiters.serve, Limiters.enforceLimit, checked, if_true, Option.bind_eq_bind,
        Option.bind_some]
      rfl
    have stillClosed (n : Nat) :
        (Function.update s.guards arrival.servedBy guard n).breaker.state = .closed := by
      by_cases own : n = arrival.servedBy
      · rw [own, Function.update_self, guardClosed]
      · rw [Function.update_of_ne own, closed n]
    rw [transcript_cons, transcript_cons, List.map_cons, served]
    exact congrArg _ (ih stillClosed fun later member => answers later (List.mem_cons_of_mem _ member))

section OneBucket

/-- One bucket and the requests that draw on it. -/
def limitedCell (config : RateLimiter) (row : Option Bucket) (arrival : Arrival) :
    Decision × Option Bucket :=
  SqliteStore.consumeCell row (arrival.call config)

theorem limited_keyed :
    limited config = keyed (limitedCell config) (fun arrival => (arrival.call config).key) := rfl

/-- The requests that draw on the bucket of `host`. -/
def sharing (host : String) (run : List Arrival) : List Arrival :=
  run.filter fun arrival => clientId arrival.toHttpRequest = host

theorem call_key_iff : (arrival.call config).key = "rl:" ++ host ↔ clientId arrival.toHttpRequest = host := by
  simp [Arrival.call, RateLimiter.check]

theorem decisionsFor_cell (buckets : Buckets) : decisionsFor config buckets host run =
    ((transcript (limitedCell config) (buckets ("rl:" ++ host)) (sharing host run)).filter
      (·.1.toHttpRequest.Bare host)).map Prod.snd := by
  have own := keyed_transcript (limitedCell config) (fun arrival => (arrival.call config).key) buckets run
    ("rl:" ++ host)
  simp only [call_key_iff] at own
  rw [sharing, ← own, List.filter_filter, decisionsFor, limited_keyed]
  congr 1
  refine List.filter_congr fun entry _ => ?_
  by_cases bare : entry.1.toHttpRequest.Bare host
  · simp [bare, bare.clientId]
  · simp [bare]

theorem sharing_unkeyed : sharing host (unkeyed run) = unkeyed (sharing host run) := by
  simp only [sharing, unkeyed, List.filter_filter, Bool.and_comm]

theorem after_cell (buckets : Buckets) : after (limited config) buckets run ("rl:" ++ host) =
    after (limitedCell config) (buckets ("rl:" ++ host)) (sharing host run) := by
  rw [limited_keyed, keyed_after]
  simp only [call_key_iff, sharing]

/-- A request takes its token from a bucket that holds one. -/
theorem taken_eq (row : Option Bucket) :
    SqliteStore.taken (arrival.call config, (limitedCell config row arrival).1) =
      if 1 ≤ SqliteStore.refilled (arrival.call config) row then 1 else 0 := by
  simp only [SqliteStore.taken, limitedCell, SqliteStore.consumeCell, SqliteStore.consumeRow_allowed]
  rfl

/-- What is left of a quota that started full. -/
theorem quota_level (capacity : ℕ) (earlier : List Arrival) (arrival : Arrival) :
    SqliteStore.refilled (arrival.call ⟨capacity, 0⟩) (after (limitedCell ⟨capacity, 0⟩) none earlier) =
      ((capacity - earlier.length : ℕ) : ℚ) := by
  induction earlier using List.reverseRecOn generalizing arrival with
  | nil => exact SqliteStore.refilled_none _
  | append_singleton earlier last ih =>
    have written : SqliteStore.refilled (arrival.call ⟨capacity, 0⟩)
        (after (limitedCell ⟨capacity, 0⟩) none (earlier ++ [last])) =
          min (capacity : ℚ) ((capacity - earlier.length : ℕ) -
            if (1 : ℚ) ≤ (capacity - earlier.length : ℕ) then 1 else 0) := by
      rw [after_snoc, ← ih last, ← taken_eq]
      change min (capacity : ℚ) ((SqliteStore.consumeRow _ _).2.tokens + _ * 0) = _
      rw [SqliteStore.consumeRow_tokens, mul_zero, add_zero]
      rfl
    rw [written, List.length_append, List.length_singleton]
    by_cases left : earlier.length < capacity
    · have enough : (1 : ℚ) ≤ (capacity - earlier.length : ℕ) := by
        exact_mod_cast (by omega : 1 ≤ capacity - earlier.length)
      have fewer : ((capacity - earlier.length : ℕ) : ℚ) - 1 = (capacity - (earlier.length + 1) : ℕ) := by
        rw [← Nat.sub_sub, Nat.cast_pred (by omega)]
      rw [if_pos enough, fewer]
      exact min_eq_right (by exact_mod_cast Nat.sub_le ..)
    · have empty : capacity - earlier.length = 0 := by omega
      have still : capacity - (earlier.length + 1) = 0 := by omega
      rw [empty, still, Nat.cast_zero, if_neg (by norm_num), sub_zero]
      exact min_eq_right (Nat.cast_nonneg capacity)

end OneBucket

/-- No request that carries the header and has `host` for its client id comes
before one that `host` sends without the header. -/
def Unmixed (host : String) (run : List Arrival) : Prop :=
  run.Pairwise fun earlier later => earlier.toHttpRequest.Keyed → clientId earlier.toHttpRequest = host →
    ¬ later.toHttpRequest.Bare host

theorem no_decisions {row : Option Bucket} (none : ∀ arrival ∈ run, ¬ arrival.toHttpRequest.Bare host) :
    (transcript (limitedCell config) row run).filter (·.1.toHttpRequest.Bare host) = [] :=
  List.filter_eq_nil_iff.mpr fun _ member => by simpa using none _ (transcript_mem _ _ member)

theorem isolated_of_unmixed {buckets : Buckets} (unmixed : Unmixed host run) :
    Isolated config buckets host run := by
  rw [Isolated, decisionsFor_cell, decisionsFor_cell, sharing_unkeyed]
  congr 1
  have own := unmixed.sublist (List.filter_sublist (p := fun arrival => clientId arrival.toHttpRequest = host))
  change Unmixed host (sharing host run) at own
  have shared : ∀ arrival ∈ sharing host run, clientId arrival.toHttpRequest = host :=
    fun arrival member => by simpa using (List.mem_filter.mp member).2
  generalize buckets ("rl:" ++ host) = row
  generalize sharing host run = calls at own shared
  induction calls generalizing row with
  | nil => rfl
  | cons arrival rest ih =>
    obtain ⟨here, later⟩ := List.pairwise_cons.mp own
    have tail (row : Option Bucket) :=
      ih row later fun next member => shared next (List.mem_cons_of_mem _ member)
    by_cases keyed : arrival.toHttpRequest.Keyed
    · -- From the first such request on, nothing is asked without the header.
      have noneLater (next : Arrival) (member : next ∈ arrival :: rest) : ¬ next.toHttpRequest.Bare host := by
        rcases List.mem_cons.mp member with rfl | member
        · exact fun bare => keyed bare.1
        · exact here next member keyed (shared arrival (by simp))
      have noneLeft (next : Arrival) (member : next ∈ unkeyed (arrival :: rest)) :
          ¬ next.toHttpRequest.Bare host := noneLater next (List.mem_of_mem_filter member)
      rw [no_decisions noneLater, no_decisions noneLeft]
    · have kept : unkeyed (arrival :: rest) = arrival :: unkeyed rest := by
        simp [unkeyed, keyed]
      rw [kept, transcript_cons, transcript_cons, List.filter_cons, List.filter_cons, tail]

theorem decisionsFor_append (buckets : Buckets) (earlier later : List Arrival) :
    decisionsFor config buckets host (earlier ++ later) = decisionsFor config buckets host earlier ++
      decisionsFor config (after (limited config) buckets earlier) host later := by
  rw [decisionsFor, transcript_append, List.filter_append, List.map_append]
  rfl

theorem decisionsFor_length (buckets : Buckets) : (decisionsFor config buckets host run).length =
    (run.filter (·.toHttpRequest.Bare host)).length := by
  have bare := congrArg (List.filter (·.toHttpRequest.Bare host))
    (transcript_inputs (limited config) buckets run)
  rw [List.filter_map] at bare
  rw [← bare, List.length_map, decisionsFor, List.length_map]
  rfl

theorem bare_unkeyed : (unkeyed run).filter (·.toHttpRequest.Bare host) =
    run.filter (·.toHttpRequest.Bare host) := by
  rw [unkeyed, List.filter_filter]
  refine List.filter_congr fun arrival _ => ?_
  by_cases bare : arrival.toHttpRequest.Bare host
  · simp [bare, HttpRequest.Keyed, bare.1]
  · simp [bare]

theorem limited_allowed {buckets : Buckets} : (limited config buckets arrival).1.allowed = true ↔
    1 ≤ SqliteStore.refilled (arrival.call config) (buckets (arrival.call config).key) :=
  SqliteStore.consumeRow_allowed

/-- A quota allows a request as long as fewer have drawn on its bucket. -/
theorem quota_allowed (bare : arrival.toHttpRequest.Bare host) (capacity : ℕ) (earlier : List Arrival) :
    (limited ⟨capacity, 0⟩ (after (limited ⟨capacity, 0⟩) (fun _ => none) earlier) arrival).1.allowed = true ↔
      (sharing host earlier).length < capacity := by
  rw [limited_allowed, call_key_iff.mpr bare.clientId, after_cell, quota_level, Nat.one_le_cast]
  omega

theorem decisionsFor_cons (bare : arrival.toHttpRequest.Bare host) (buckets : Buckets) :
    decisionsFor config buckets host (arrival :: run) = (limited config buckets arrival).1 ::
      decisionsFor config (limited config buckets arrival).2 host run := by
  simp [decisionsFor, bare]

/-- A quota with just enough tokens for what comes without the header refuses
a request of `host` after a request with its name for a key. -/
theorem not_isolated {earlier later : List Arrival} {named : Arrival} (member : named ∈ earlier)
    (keyed : named.toHttpRequest.Keyed) (sameId : clientId named.toHttpRequest = host)
    (bare : arrival.toHttpRequest.Bare host) :
    ∃ capacity : ℕ, ¬ Isolated ⟨capacity, 0⟩ (fun _ => none) host (earlier ++ arrival :: later) := by
  have shares : named ∈ sharing host earlier := List.mem_filter.mpr ⟨member, by simpa using sameId⟩
  have fewer : (unkeyed (sharing host earlier)).length < (sharing host earlier).length :=
    List.length_filter_lt_length_iff_exists.mpr ⟨named, shares, by simpa using keyed⟩
  refine ⟨(unkeyed (sharing host earlier)).length + 1, fun isolated => ?_⟩
  have kept : unkeyed (earlier ++ arrival :: later) = unkeyed earlier ++ arrival :: unkeyed later := by
    simp [unkeyed, HttpRequest.Keyed, bare.1]
  rw [Isolated, kept, decisionsFor_append, decisionsFor_append, decisionsFor_cons bare,
    decisionsFor_cons bare] at isolated
  have aligned := List.append_inj isolated (by rw [decisionsFor_length, decisionsFor_length, bare_unkeyed])
  have same := congrArg Decision.allowed (List.cons.inj aligned.2).1
  have alone := (quota_allowed bare ((unkeyed (sharing host earlier)).length + 1) (unkeyed earlier)).mpr
    (by rw [sharing_unkeyed]; exact Nat.lt_succ_self _)
  have shared := (quota_allowed bare _ earlier).mp (same.trans alone)
  omega

/-- The decisions of a host that sends no API key are its own for every
configuration of the limiter exactly if no API key that equals it is used
before one of its requests. -/
theorem isolated_iff : (∀ config, Isolated config (fun _ => none) host run) ↔ Unmixed host run := by
  refine ⟨fun isolated => ?_, fun unmixed _ => isolated_of_unmixed unmixed⟩
  refine List.pairwise_iff_getElem.mpr fun i j hi hj before keyed sameId bare => ?_
  have member : run[i] ∈ run.take j := List.mem_take_iff_getElem.mpr ⟨i, by omega, rfl⟩
  obtain ⟨capacity, mixed⟩ := @not_isolated host run[j] (run.take j) (run.drop (j + 1)) run[i]
    member keyed sameId bare
  rw [← List.drop_eq_getElem_cons hj, List.take_append_drop] at mixed
  exact mixed (isolated _)

/-- A request from elsewhere whose API key is the address of another client. -/
def borrowed : Arrival :=
  { headers := [("x-api-key", "10.0.0.1")], client := some "10.9.9.9", nowMs := 0 }

theorem key_spends_host_bucket :
    ¬ Isolated ⟨1, 0⟩ (fun _ => none) "10.0.0.1" [borrowed, Limiters.fromPeer "10.0.0.1" 0] ∧
    (transcript (Limiters.serve true ⟨1, 0⟩) Limiters.fresh
        [borrowed, Limiters.fromPeer "10.0.0.1" 0]).map Prod.snd =
      [some (.ok ()), some (.error ⟨429, "rate limit exceeded", [("Retry-After", "60")]⟩)] ∧
    (transcript (Limiters.serve true ⟨1, 0⟩) Limiters.fresh
        [Limiters.fromPeer "10.0.0.1" 0]).map Prod.snd = [some (.ok ())] := by
  refine ⟨?_, by decide +kernel, by decide +kernel⟩
  unfold Isolated
  decide +kernel

end UrlShortener
