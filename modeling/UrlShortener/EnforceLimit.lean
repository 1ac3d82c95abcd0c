import UrlShortener.Breaker
import UrlShortener.LimiterPolicy

namespace UrlShortener
open Function (update)

/-- What `client_id` reads of a request: the headers under their lower-case
names, and the host of the peer where the server knows one. -/
structure HttpRequest where
  headers : List (String × String) := []
  client : Option String
  deriving DecidableEq

/-- `client_id`: an API key that is not empty, else the peer. -/
def clientId (request : HttpRequest) : String :=
  let peer := request.client.getD "anonymous"
  match request.headers.lookup "x-api-key" with
  | some key => if key = "" then peer else key
  | none => peer

/-- A request with the process that serves it, what the clocks of its breaker
and its limiter read, and whether the limiter's store answers meanwhile. -/
structure Arrival extends HttpRequest where
  servedBy : Nat := 0
  allowAt : ℚ := 0
  recordAt : ℚ := 0
  nowMs : Int
  storeAnswers : Bool := true
  deriving DecidableEq

/-- The `consume` that the limiter makes for a request. -/
def Arrival.call (config : RateLimiter) (arrival : Arrival) : Call :=
  config.check (clientId arrival.toHttpRequest) 1 arrival.nowMs

/-- Two requests share a bucket exactly if they have one client id. -/
theorem Arrival.call_key_eq_iff {config : RateLimiter} {a b : Arrival} :
    (a.call config).key = (b.call config).key ↔
      clientId a.toHttpRequest = clientId b.toHttpRequest := by
  simp [Arrival.call, RateLimiter.check]

/-- The limiters of all processes: a guard in each, one store for them all. -/
structure Limiters where
  guards : Nat → BreakerGuardedLimiter
  buckets : Buckets

structure HTTPException where
  statusCode : Nat
  detail : String
  headers : List (String × String)
  deriving DecidableEq

/-- `int(x)` of a float: the part before the point. -/
def truncated (x : ℚ) : Int :=
  x.num.tdiv x.den

/-- The value of the `Retry-After` header. -/
def retryAfterHeader (retryAfterS : WithTop ℚ) : String :=
  if retryAfterS ≠ ⊤ then toString (min (max (truncated (retryAfterS.untopD 0)) 1) 60) else "60"

def tooManyRequests (decision : Decision) : HTTPException :=
  ⟨429, "rate limit exceeded", [("Retry-After", retryAfterHeader decision.retryAfterS)]⟩

/-- How `enforce_limit` ends on a decision: it returns, or raises the 429. -/
def Decision.verdict (decision : Decision) : Except HTTPException Unit :=
  if decision.allowed then .ok () else .error (tooManyRequests decision)

namespace Limiters

/-- `limiter.check` in the process that serves the request. The store is only
called if the breaker admits it, and a call that raises is rolled back. -/
def check (s : Limiters) (config : RateLimiter) (arrival : Arrival) : Option (Decision × Limiters) := do
  let guard := s.guards arrival.servedBy
  let (admitted, _) ← guard.breaker.allow arrival.allowAt
  let (decision, buckets) := SqliteStore.consume s.buckets (arrival.call config)
  let (answer, guard) ← guard.check arrival.allowAt arrival.recordAt
    (if arrival.storeAnswers then some decision else none)
  pure (answer, ⟨update s.guards arrival.servedBy guard,
    if admitted && arrival.storeAnswers then buckets else s.buckets⟩)

/-- `enforce_limit`. The result is `none` where the breaker would raise. -/
def enforceLimit (s : Limiters) (limiterEnabled : Bool) (config : RateLimiter) (arrival : Arrival) :
    Option (Except HTTPException Unit × Limiters) :=
  if limiterEnabled then do
    let (decision, s) ← s.check config arrival
    pure (decision.verdict, s)
  else some (.ok (), s)

/-- `enforce_limit` as a machine; a breaker that raises has changed nothing. -/
def serve (limiterEnabled : Bool) (config : RateLimiter) (s : Limiters) (arrival : Arrival) :
    Option (Except HTTPException Unit) × Limiters :=
  match s.enforceLimit limiterEnabled config arrival with
  | some (verdict, s') => (some verdict, s')
  | none => (none, s)

/-- The breaker admits the request and the store behind it answers. -/
def Reaches (s : Limiters) (arrival : Arrival) : Prop :=
  ((s.guards arrival.servedBy).breaker.allow arrival.allowAt).map Prod.fst = some true ∧
    arrival.storeAnswers = true

instance (s : Limiters) (arrival : Arrival) : Decidable (s.Reaches arrival) :=
  inferInstanceAs (Decidable (_ ∧ _))

variable {config : RateLimiter} {s s' : Limiters} {arrival : Arrival} {decision : Decision}

/-- A request that reaches the store gets the store's decision. -/
theorem check_of_reaches (config : RateLimiter) (reaches : s.Reaches arrival) :
    ∃ guard, s.check config arrival =
      some ((SqliteStore.consume s.buckets (arrival.call config)).1,
        ⟨update s.guards arrival.servedBy guard,
          (SqliteStore.consume s.buckets (arrival.call config)).2⟩) ∧
      guard.breaker.state = .closed ∧ guard.failOpen = (s.guards arrival.servedBy).failOpen := by
  obtain ⟨admits, answers⟩ := reaches
  obtain ⟨⟨admitted, breaker⟩, allowed, same⟩ := Option.map_eq_some_iff.mp admits
  cases (show admitted = true from same)
  refine ⟨{ s.guards arrival.servedBy with breaker := breaker.recordSuccess }, ?_, rfl, rfl⟩
  simp only [check, BreakerGuardedLimiter.check, allowed, answers, Option.bind_eq_bind, Option.bind_some,
    if_true, Bool.and_self]
  rfl

/-- All that `check` can do: any other request is decided by `fail_open` alone
and leaves every bucket. -/
theorem check_cases (checked : s.check config arrival = some (decision, s')) :
    (∃ guard : BreakerGuardedLimiter, guard.failOpen = (s.guards arrival.servedBy).failOpen ∧
      s'.guards = update s.guards arrival.servedBy guard) ∧
    ((s.Reaches arrival ∧ decision = (SqliteStore.consume s.buckets (arrival.call config)).1 ∧
        s'.buckets = (SqliteStore.consume s.buckets (arrival.call config)).2) ∨
      (¬ s.Reaches arrival ∧ decision = (s.guards arrival.servedBy).unguarded ∧
        s'.buckets = s.buckets)) := by
  by_cases reaches : s.Reaches arrival
  · obtain ⟨guard, answered, _, failOpen⟩ := check_of_reaches config reaches
    rw [answered] at checked
    cases checked
    exact ⟨⟨guard, failOpen, rfl⟩, Or.inl ⟨reaches, rfl, rfl⟩⟩
  unfold check BreakerGuardedLimiter.check at checked
  cases allowed : (s.guards arrival.servedBy).breaker.allow arrival.allowAt with
  | none => simp [allowed] at checked
  | some answer =>
    obtain ⟨admitted, breaker⟩ := answer
    simp only [allowed, Option.bind_eq_bind, Option.bind_some] at checked
    cases admitted with
    | false =>
      cases checked
      exact ⟨⟨{ s.guards arrival.servedBy with
        breaker := breaker, failOpenCount := _ }, rfl, rfl⟩, Or.inr ⟨reaches, rfl, rfl⟩⟩
    | true =>
      have silent : arrival.storeAnswers = false := by
        cases known : arrival.storeAnswers with
        | false => rfl
        | true => exact absurd ⟨by rw [allowed]; rfl, known⟩ reaches
      rw [silent] at checked
      cases checked
      exact ⟨⟨{ s.guards arrival.servedBy with
        breaker := breaker.recordFailure arrival.recordAt, errorCount := _, failOpenCount := _ },
        rfl, rfl⟩, Or.inr ⟨reaches, rfl, rfl⟩⟩

theorem reaches_of_closed (closed : (s.guards arrival.servedBy).breaker.state = .closed)
    (answers : arrival.storeAnswers = true) : s.Reaches arrival :=
  ⟨by rw [CircuitBreaker.allow_closed closed]; rfl, answers⟩

/-- A request moves the limiters by one `check` and is answered by its
decision, or it leaves them as they are and no 429 is raised. -/
theorem serve_cases (enabled : Bool) (config : RateLimiter) (s : Limiters) (arrival : Arrival) :
    (∃ decision s', enabled = true ∧ s.check config arrival = some (decision, s') ∧
      s.serve enabled config arrival = (some decision.verdict, s')) ∨
    (s.serve enabled config arrival).2 = s ∧
      ∀ exception, (s.serve enabled config arrival).1 ≠ some (.error exception) := by
  cases enabled with
  | false => exact Or.inr ⟨rfl, by simp [serve, enforceLimit]⟩
  | true =>
    cases checked : s.check config arrival with
    | none => exact Or.inr (by simp [serve, enforceLimit, checked])
    | some answer => exact Or.inl ⟨answer.1, answer.2, rfl, rfl, by simp [serve, enforceLimit, checked]⟩

/-- With `fail_open`, a 429 was decided by the store. -/
theorem refused_cases {enabled : Bool} {exception : HTTPException}
    (failOpen : (s.guards arrival.servedBy).failOpen = true)
    (refused : (s.serve enabled config arrival).1 = some (.error exception)) :
    enabled = true ∧ s.Reaches arrival ∧
      (SqliteStore.consume s.buckets (arrival.call config)).1.allowed = false ∧
      exception = tooManyRequests (SqliteStore.consume s.buckets (arrival.call config)).1 ∧
      (s.serve enabled config arrival).2.buckets =
        (SqliteStore.consume s.buckets (arrival.call config)).2 := by
  rcases serve_cases enabled config s arrival with ⟨decision, s', on, checked, served⟩ | ⟨_, never⟩
  · rw [served] at refused ⊢
    have raised : decision.verdict = .error exception := Option.some.inj refused
    unfold Decision.verdict at raised
    split at raised
    · cases raised
    · rename_i denied
      cases raised
      rcases (check_cases checked).2 with ⟨reaches, rfl, kept⟩ | ⟨_, rfl, _⟩
      · exact ⟨on, reaches, eq_false_of_ne_true denied, rfl, kept⟩
      · exact absurd failOpen denied
  · exact absurd refused (never exception)

theorem serve_of_reaches (reaches : s.Reaches arrival) :
    (s.serve true config arrival).1 =
      some (SqliteStore.consume s.buckets (arrival.call config)).1.verdict := by
  obtain ⟨guard, answered, _⟩ := check_of_reaches config reaches
  simp only [serve, enforceLimit, answered, if_true, Option.bind_eq_bind, Option.bind_some]
  rfl

/-- What any request leaves as it is: `fail_open`, and the buckets of others. -/
theorem serve_frame (enabled : Bool) (config : RateLimiter) (s : Limiters) (arrival : Arrival) :
    (∀ n, ((s.serve enabled config arrival).2.guards n).failOpen = (s.guards n).failOpen) ∧
      ∀ key ≠ (arrival.call config).key,
        (s.serve enabled config arrival).2.buckets key = s.buckets key := by
  rcases serve_cases enabled config s arrival with ⟨decision, s', _, checked, served⟩ | ⟨same, _⟩
  · obtain ⟨⟨guard, failOpen, guards⟩, moved⟩ := check_cases checked
    rw [served]
    constructor
    · intro n
      rw [guards]
      by_cases own : n = arrival.servedBy
      · rw [own, Function.update_self, failOpen]
      · rw [Function.update_of_ne own]
    · intro key other
      rcases moved with ⟨_, _, consumed⟩ | ⟨_, _, kept⟩
      · rw [consumed]
        exact Function.update_of_ne other ..
      · rw [kept]
  · rw [same]
    exact ⟨fun _ => rfl, fun _ _ => rfl⟩

end Limiters
end UrlShortener
