import UrlShortener.Limiter

namespace UrlShortener

inductive CircuitState
  | closed
  | opened
  | halfOpen
  deriving DecidableEq

structure CircuitBreaker where
  failureThreshold : Nat := 5
  cooldownS : ℚ := 5
  state : CircuitState := .closed
  consecutiveFailures : Nat := 0
  openedAt : Option ℚ := none
  shortCircuited : Nat := 0
  trips : Nat := 0
  probes : Nat := 0
  deriving DecidableEq

namespace CircuitBreaker

/-- `allow` at the clock reading `now`. The result is `none` where the source
would subtract a missing `opened_at` and raise a TypeError. -/
def allow (b : CircuitBreaker) (now : ℚ) : Option (Bool × CircuitBreaker) :=
  match b.state with
  | .closed => some (true, b)
  | .opened => b.openedAt.map fun openedAt =>
      if b.cooldownS ≤ now - openedAt then
        (true, { b with state := .halfOpen, probes := b.probes + 1 })
      else (false, { b with shortCircuited := b.shortCircuited + 1 })
  | .halfOpen => some (false, { b with shortCircuited := b.shortCircuited + 1 })

def recordSuccess (b : CircuitBreaker) : CircuitBreaker :=
  { b with consecutiveFailures := 0, state := .closed, openedAt := none }

def recordFailure (b : CircuitBreaker) (now : ℚ) : CircuitBreaker :=
  let b := { b with consecutiveFailures := b.consecutiveFailures + 1 }
  if b.state = .halfOpen then { b with state := .opened, openedAt := some now }
  else if b.failureThreshold ≤ b.consecutiveFailures then
    { b with
      trips := if b.state ≠ .opened then b.trips + 1 else b.trips
      state := .opened
      openedAt := some now }
  else b

/-- How `call` ends: with the function's own result or exception, or refused. -/
inductive CallResult (α ε : Type)
  | value (result : α)
  | raised (error : ε)
  | circuitOpen
  deriving DecidableEq

/-- `call`, with the two clock readings and what the protected function does. -/
def call {α ε : Type} (b : CircuitBreaker) (allowAt recordAt : ℚ) (fn : Except ε α) :
    Option (CallResult α ε × CircuitBreaker) := do
  let (admitted, b) ← b.allow allowAt
  if admitted then
    match fn with
    | .ok result => pure (.value result, b.recordSuccess)
    | .error error => pure (.raised error, b.recordFailure recordAt)
  else pure (.circuitOpen, b)

end CircuitBreaker

structure BreakerGuardedLimiter where
  failOpen : Bool := true
  breaker : CircuitBreaker
  failOpenCount : Nat := 0
  errorCount : Nat := 0
  deriving DecidableEq

namespace BreakerGuardedLimiter

/-- The decision taken without the limiter's help. -/
def unguarded (g : BreakerGuardedLimiter) : Decision :=
  ⟨g.failOpen, none, 0⟩

/-- `check`, with the two clock readings and what the wrapped limiter does;
`none` for a limiter that raises. -/
def check (g : BreakerGuardedLimiter) (allowAt recordAt : ℚ) (limiter : Option Decision) :
    Option (Decision × BreakerGuardedLimiter) := do
  let (admitted, breaker) ← g.breaker.allow allowAt
  if admitted then
    match limiter with
    | some decision => pure (decision, { g with breaker := breaker.recordSuccess })
    | none => pure (g.unguarded, { g with
        breaker := breaker.recordFailure recordAt
        errorCount := g.errorCount + 1
        failOpenCount := g.failOpenCount + 1 })
  else pure (g.unguarded, { g with breaker := breaker, failOpenCount := g.failOpenCount + 1 })

end BreakerGuardedLimiter

namespace CircuitBreaker
variable {b b' : CircuitBreaker} {now : ℚ} {admitted : Bool}

/-- All that `allow` can do. -/
theorem allow_cases (h : b.allow now = some (admitted, b')) :
    (b.state = .closed ∧ admitted = true ∧ b' = b) ∨
    (∃ openedAt, b.state = .opened ∧ b.openedAt = some openedAt ∧ b.cooldownS ≤ now - openedAt ∧
      admitted = true ∧ b' = { b with state := .halfOpen, probes := b.probes + 1 }) ∨
    (∃ openedAt, b.state = .opened ∧ b.openedAt = some openedAt ∧ now - openedAt < b.cooldownS ∧
      admitted = false ∧ b' = { b with shortCircuited := b.shortCircuited + 1 }) ∨
    (b.state = .halfOpen ∧ admitted = false ∧
      b' = { b with shortCircuited := b.shortCircuited + 1 }) := by
  unfold allow at h
  split at h
  · rename_i closed
    cases h
    exact Or.inl ⟨closed, rfl, rfl⟩
  · rename_i opened
    obtain ⟨openedAt, since, same⟩ := Option.map_eq_some_iff.mp h
    split at same
    · rename_i cooled
      cases same
      exact Or.inr (Or.inl ⟨openedAt, opened, since, cooled, rfl, rfl⟩)
    · rename_i hot
      cases same
      exact Or.inr (Or.inr (Or.inl ⟨openedAt, opened, since, not_le.mp hot, rfl, rfl⟩))
  · rename_i halfOpen
    cases h
    exact Or.inr (Or.inr (Or.inr ⟨halfOpen, rfl, rfl⟩))

theorem allow_closed (closed : b.state = .closed) : b.allow now = some (true, b) := by
  simp only [allow, closed]

/-- A failure either leaves a closed circuit closed, below its threshold, or
opens the circuit as of now. -/
theorem recordFailure_cases (b : CircuitBreaker) (now : ℚ) :
    (b.state = .closed ∧ b.consecutiveFailures + 1 < b.failureThreshold ∧
      b.recordFailure now = { b with consecutiveFailures := b.consecutiveFailures + 1 }) ∨
    (b.state = .opened ∧ b.consecutiveFailures + 1 < b.failureThreshold ∧
      b.recordFailure now = { b with consecutiveFailures := b.consecutiveFailures + 1 }) ∨
    ((b.recordFailure now).state = .opened ∧ (b.recordFailure now).openedAt = some now ∧
      (b.recordFailure now).consecutiveFailures = b.consecutiveFailures + 1 ∧
      (b.state = .halfOpen ∨ b.failureThreshold ≤ b.consecutiveFailures + 1)) := by
  unfold recordFailure
  dsimp only
  by_cases probing : b.state = .halfOpen
  · rw [if_pos probing]
    exact Or.inr (Or.inr ⟨rfl, rfl, rfl, Or.inl probing⟩)
  · rw [if_neg probing]
    by_cases many : b.failureThreshold ≤ b.consecutiveFailures + 1
    · rw [if_pos many]
      exact Or.inr (Or.inr ⟨rfl, rfl, rfl, Or.inr many⟩)
    · rw [if_neg many]
      cases known : b.state with
      | closed => exact Or.inl ⟨rfl, not_le.mp many, by simp⟩
      | opened => exact Or.inr (Or.inl ⟨rfl, not_le.mp many, by simp⟩)
      | halfOpen => exact absurd known probing

theorem recordFailure_config (b : CircuitBreaker) (now : ℚ) :
    (b.recordFailure now).failureThreshold = b.failureThreshold ∧
      (b.recordFailure now).cooldownS = b.cooldownS := by
  unfold recordFailure
  dsimp only
  split
  · exact ⟨rfl, rfl⟩
  · split <;> exact ⟨rfl, rfl⟩

end CircuitBreaker

/-- `check` drives the breaker as `call` does. -/
theorem BreakerGuardedLimiter.check_breaker (g : BreakerGuardedLimiter) (allowAt recordAt : ℚ)
    (limiter : Option Decision) :
    (g.check allowAt recordAt limiter).map (fun checked => checked.2.breaker) =
      (g.breaker.call allowAt recordAt (limiter.elim (.error ()) .ok)).map (fun called => called.2) := by
  unfold check CircuitBreaker.call
  cases allowed : g.breaker.allow allowAt with
  | none => rfl
  | some answer =>
    obtain ⟨admitted, breaker⟩ := answer
    cases admitted with
    | false => rfl
    | true => cases limiter <;> rfl

end UrlShortener
