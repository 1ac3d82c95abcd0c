namespace UrlShortener

/-- A row of the table `invalidations`. -/
structure Invalidation where
  seq : Nat
  code : String
  reason : String
  deriving DecidableEq

namespace InvalidationBus

/-- `COALESCE(MAX(seq), 0)`. -/
def head (log : List Invalidation) : Nat :=
  log.foldl (fun seq row => max seq row.seq) 0

/-- `publish`. Rows are never deleted, so AUTOINCREMENT continues from the head. -/
def publish (log : List Invalidation) (code reason : String) : Nat × List Invalidation :=
  (head log + 1, log ++ [⟨head log + 1, code, reason⟩])

/-- Where one `poll` stands. -/
inductive Poll
  | starting
  | selecting (cursor : Nat)
  | applying (rows rest : List Invalidation)
  | finished (applied : Nat)
  | raised
  deriving DecidableEq

def Poll.done : Poll → Bool
  | .finished _ | .raised => true
  | _ => false

/-- The next step of `poll`: it reads the cursor, reads the log, applies one
row after another and writes the cursor. The log stands in the order of `seq`. -/
def Poll.advance {σ : Type} (apply : String → σ → σ) (log : List Invalidation) (state : σ)
    (cursor : Nat) : Poll → Option (σ × Nat × Poll)
  | .starting => some (state, cursor, .selecting cursor)
  | .selecting known =>
    let rows := log.filter fun row => known < row.seq
    some (state, cursor, if rows = [] then .finished 0 else .applying rows rows)
  | .applying rows (row :: rest) => some (apply row.code state, cursor, .applying rows rest)
  | .applying rows [] =>
    some (state, (rows.getLast?.map Invalidation.seq).getD cursor, .finished rows.length)
  | .finished _ | .raised => none

/-- All that a step does to the state is apply one code. -/
theorem Poll.advance_state {σ : Type} {apply : String → σ → σ} {log : List Invalidation}
    {state state' : σ} {cursor cursor' : Nat} {poll poll' : Poll}
    (h : poll.advance apply log state cursor = some (state', cursor', poll')) :
    state' = state ∨ ∃ code, state' = apply code state := by
  cases poll with
  | starting => cases h; exact Or.inl rfl
  | selecting known => cases h; exact Or.inl rfl
  | applying rows rest =>
    cases rest with
    | nil => cases h; exact Or.inl rfl
    | cons row rest => cases h; exact Or.inr ⟨row.code, rfl⟩
  | finished applied => cases h
  | raised => cases h

end InvalidationBus
end UrlShortener
