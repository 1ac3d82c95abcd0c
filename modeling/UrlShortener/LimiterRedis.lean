import UrlShortener.LimiterClocks

namespace UrlShortener
namespace RedisStore
open Machine SqliteStore Allowance

/-- `consume` in a deployment whose Redis server and instances share one clock. -/
def synced (expiry : KeyExpiry) (db : RedisDb) (call : Call) : Decision × RedisDb :=
  consume expiry call.nowMs db call

/-- `synced` on one stored hash. -/
def syncedCell (expiry : KeyExpiry) (stored : Option RedisHash) (call : Call) :
    Decision × Option RedisHash :=
  ((consumeHash expiry call.nowMs call stored).1, some (consumeHash expiry call.nowMs call stored).2)

theorem synced_keyed (expiry : KeyExpiry) : synced expiry = keyed (syncedCell expiry) Call.key := rfl

/-- A decision with the tokens that `tostring` prints, from which the wait is
computed as well. -/
def printed (call : Call) (decision : Decision) : Decision :=
  match decision.tokensRemaining with
  | some tokens =>
    ⟨decision.allowed, some (luaToString tokens),
      retryAfter decision.allowed call.cost (luaToString tokens) call.rate⟩
  | none => decision

theorem printed_allowed (call : Call) (decision : Decision) : (printed call decision).allowed = decision.allowed := by
  unfold printed
  split <;> rfl

theorem abs_luaToString_sub_le (x : ℚ) : |luaToString x - x| ≤ |x| / (2 * 10 ^ 13) := by
  have error := Rounding.abs_float_sub_le_mul (b := 10) (by norm_num) 14 x
  rw [luaToString]
  norm_num at error ⊢
  linarith

theorem luaTokenBucket_eq (call : Call) (hash : Option Bucket) :
    luaTokenBucket hash call.capacity call.rate call.nowMs call.cost =
      (⟨(consumeRow call hash).1.allowed, luaToString (consumeRow call hash).2.tokens⟩, (consumeRow call hash).2,
        luaFormatD (luaTtlMs call.capacity call.rate)) := by
  cases hash <;> rfl

/-- The script takes the decision and writes the bucket of the SQLite
transaction on whatever hash the server still holds. -/
theorem consumeHash_eq (expiry : KeyExpiry) (serverMs : Int) (call : Call) (stored : Option RedisHash) :
    consumeHash expiry serverMs call stored =
      (printed call (consumeRow call (live expiry serverMs stored)).1,
        ⟨(consumeRow call (live expiry serverMs stored)).2,
          serverMs + luaFormatD (luaTtlMs call.capacity call.rate)⟩) := by
  unfold consumeHash
  rw [luaTokenBucket_eq]
  rfl

theorem luaFormatD_eq {n : Int} (nonneg : 0 ≤ n) (fits : n < 2 ^ 63) : luaFormatD n = n :=
  if_pos ⟨by omega, fits⟩

theorem luaTtlMs_nonneg {capacity rate : ℚ} (capacityNonneg : 0 ≤ capacity) : 0 ≤ luaTtlMs capacity rate := by
  unfold luaTtlMs
  split
  · rename_i ratePos
    have refill : 0 ≤ ⌈capacity / rate * 1000⌉ := Int.ceil_nonneg (by positivity)
    omega
  · norm_num

/-- The TTL that PEXPIRE is given, and the deadlines that a server makes of it at
the times of the calls, are of 64 bits. -/
structure Expires (capacity rate : ℚ) (times : List Int) : Prop where
  ttl : luaTtlMs capacity rate < 2 ^ 63
  deadline : ∀ t ∈ times, t + luaTtlMs capacity rate < 2 ^ 63

theorem consumeRow_congr {call : Call} {row row' : Option Bucket}
    (same : refilled call row = refilled call row') : consumeRow call row = consumeRow call row' := by
  unfold consumeRow
  rw [same]

/-- By the time its key may have expired, a bucket would be full again. -/
theorem refilled_of_expired {capacity rate : ℚ} (rateNonneg : 0 < rate) {call : Call} {bucket : Bucket}
    (own : call.capacity = capacity ∧ call.rate = rate) (stocked : 0 ≤ bucket.tokens)
    (late : bucket.updatedMs + luaTtlMs capacity rate ≤ call.nowMs) :
    refilled call (some bucket) = call.capacity := by
  rw [luaTtlMs, if_pos rateNonneg] at late
  have ceiling := Int.le_ceil (capacity / rate * 1000)
  have late' : (bucket.updatedMs : ℚ) + (⌈capacity / rate * 1000⌉ + 10000) ≤ call.nowMs := by
    exact_mod_cast late
  have elapsed : (call.nowMs : ℚ) - bucket.updatedMs ≤
      (max 0 (call.nowMs - bucket.updatedMs) : Int) := by
    exact_mod_cast le_max_right ..
  have whole : capacity / rate * rate = capacity := div_mul_cancel₀ _ rateNonneg.ne'
  have long : capacity / rate ≤ ((max 0 (call.nowMs - bucket.updatedMs) : Int) : ℚ) / 1000 := by
    linarith
  have regained := mul_le_mul_of_nonneg_right long rateNonneg.le
  rw [refilled_some, own.1, own.2, min_eq_left]
  linarith

/-- A stored hash mirrors a SQLite row. It was written with the row, when its
deadline was set, and no call is still to come from before that time. -/
structure Mirrors (capacity rate : ℚ) (calls : List Call) (stored : Option RedisHash)
    (row : Option Bucket) : Prop where
  hash : stored = row.map fun bucket => ⟨bucket, bucket.updatedMs + luaTtlMs capacity rate⟩
  stocked : ∀ bucket ∈ row, 0 ≤ bucket.tokens
  past : ∀ bucket ∈ row, ∀ call ∈ calls, bucket.updatedMs ≤ call.nowMs

theorem Mirrors.refilled_live {capacity rate : ℚ} {expiry : KeyExpiry} {calls : List Call}
    {stored : Option RedisHash} {row : Option Bucket} {call : Call}
    (mirrors : Mirrors capacity rate (call :: calls) stored row) (rateNonneg : 0 < rate)
    (own : call.capacity = capacity ∧ call.rate = rate) :
    refilled call (live expiry call.nowMs stored) = refilled call row := by
  rw [mirrors.hash]
  cases row with
  | none => rfl
  | some bucket =>
    simp only [live, Option.map_some, Option.bind_some]
    split
    · rename_i gone
      have late : bucket.updatedMs + luaTtlMs capacity rate ≤ call.nowMs := by
        by_contra early
        have kept := expiry.kept _ _ (not_le.mp early)
        rw [gone] at kept
        cases kept
      rw [refilled_none, refilled_of_expired rateNonneg own (mirrors.stocked bucket rfl) late]
    · rfl

theorem transcript_printed (expiry : KeyExpiry) {capacity rate : ℚ} (capacityNonneg : 0 ≤ capacity)
    (ratePos : 0 < rate) {calls : List Call} (uniform : Uniform capacity rate calls)
    (ordered : Ordered calls) (fits : luaTtlMs capacity rate < 2 ^ 63) :
    transcript (synced expiry) (fun _ => none) calls =
      (transcript SqliteStore.consume (fun _ => none) calls).map fun entry => (entry.1, printed entry.1 entry.2) := by
  refine transcript_of_simulation printed
    (fun rest db buckets => Uniform capacity rate rest ∧ Ordered rest ∧
      ∀ key, Mirrors capacity rate rest (db key) (buckets key)) ?_
    ⟨uniform, ordered, fun _ => ⟨rfl, by simp, by simp⟩⟩
  rintro call rest db buckets ⟨uniform, ordered, mirrors⟩
  have own := uniform call (by simp)
  have same : consumeRow call (live expiry call.nowMs (db call.key)) = consumeRow call (buckets call.key) :=
    consumeRow_congr ((mirrors call.key).refilled_live ratePos own)
  have written := consumeHash_eq expiry call.nowMs call (db call.key)
  rw [same] at written
  have full : 0 ≤ refilled call (buckets call.key) := by
    cases row : buckets call.key with
    | none => rw [refilled_none, own.1]; exact capacityNonneg
    | some bucket =>
      exact refilled_nonneg (own.1 ▸ capacityNonneg) (own.2 ▸ ratePos.le)
        ((mirrors call.key).stocked bucket row)
  have sorted := List.pairwise_cons.mp ordered
  refine ⟨?_, fun c member => uniform c (List.mem_cons_of_mem _ member), sorted.2, ?_⟩
  · exact congrArg Prod.fst written
  · intro key
    by_cases touched : call.key = key
    · subst touched
      rw [synced_keyed, consume_keyed, keyed_self, keyed_self]
      refine ⟨?_, ?_, ?_⟩
      · simp only [syncedCell, consumeCell, written, own.1, own.2,
          luaFormatD_eq (luaTtlMs_nonneg capacityNonneg) fits]
        rfl
      · intro bucket here
        cases Option.some.inj here
        rw [consumeRow_tokens]
        exact sub_nonneg.mpr (taken_le_refilled full)
      · intro bucket here later member
        cases Option.some.inj here
        exact sorted.1 _ (List.mem_map_of_mem member)
    · rw [synced_keyed, consume_keyed, keyed_other _ _ touched, keyed_other _ _ touched]
      obtain ⟨hash, stocked, past⟩ := mirrors key
      exact ⟨hash, stocked, fun b here c member => past b here c (List.mem_cons_of_mem _ member)⟩

/-- The two backends admit the same calls, and the tokens that Redis reports are
those of SQLite to 14 digits. A Redis key that expires is one whose bucket had
refilled in the meantime. -/
theorem backends_agree (expiry : KeyExpiry) {capacity rate : ℚ} (capacityNonneg : 0 ≤ capacity)
    (ratePos : 0 < rate) {calls : List Call} (uniform : Uniform capacity rate calls)
    (ordered : Ordered calls) (expires : Expires capacity rate (calls.map Call.nowMs)) :
    transcript (synced expiry) (fun _ => none) calls =
        (transcript SqliteStore.consume (fun _ => none) calls).map (fun entry => (entry.1, printed entry.1 entry.2)) ∧
      (transcript (synced expiry) (fun _ => none) calls).map (·.2.allowed) =
        (transcript SqliteStore.consume (fun _ => none) calls).map (·.2.allowed) ∧
      ∀ tokens, |luaToString tokens - tokens| ≤ |tokens| / (2 * 10 ^ 13) := by
  have answers := transcript_printed expiry capacityNonneg ratePos uniform ordered expires.ttl
  refine ⟨answers, ?_, abs_luaToString_sub_le⟩
  rw [answers, List.map_map]
  exact List.map_congr_left fun entry _ => printed_allowed entry.1 entry.2

/-- A client that comes back after its key has expired, and one that has asked
for a third of a token in between. -/
theorem backends_agree_returning :
    transcript (synced .afterDeadline) (fun _ => none)
        [⟨"rl:a", 1, 1, 1, 0⟩, ⟨"rl:b", 1, 1, 1 / 3, 400⟩, ⟨"rl:a", 1, 1, 1, 500⟩, ⟨"rl:a", 1, 1, 1, 20000⟩] =
      (transcript SqliteStore.consume (fun _ => none)
        [⟨"rl:a", 1, 1, 1, 0⟩, ⟨"rl:b", 1, 1, 1 / 3, 400⟩, ⟨"rl:a", 1, 1, 1, 500⟩, ⟨"rl:a", 1, 1, 1, 20000⟩]).map
        fun entry => (entry.1, printed entry.1 entry.2) :=
  (@backends_agree .afterDeadline 1 1 (by norm_num) (by norm_num) _
    (by simp [Uniform]) (by simp [Ordered]) ⟨by decide +kernel, by decide +kernel⟩).1

/-- A small cost leaves a number of more than 14 digits, and with a slow refill
the TTL is too large for 64 bits, so the key is gone at once. -/
theorem backends_disagree :
    (¬ ∀ (expiry : KeyExpiry) (capacity rate : ℚ) (calls : List Call), 0 ≤ capacity → 0 < rate →
      Uniform capacity rate calls → (∀ call ∈ calls, 0 ≤ call.cost) → Ordered calls →
      (transcript (synced expiry) (fun _ => none) calls).map (·.2.tokensRemaining) =
        (transcript SqliteStore.consume (fun _ => none) calls).map (·.2.tokensRemaining)) ∧
    ¬ ∀ (expiry : KeyExpiry) (capacity rate : ℚ) (calls : List Call), 0 ≤ capacity → 0 < rate →
      Uniform capacity rate calls → (∀ call ∈ calls, 0 ≤ call.cost) → Ordered calls →
      (transcript (synced expiry) (fun _ => none) calls).map (·.2.allowed) =
        (transcript SqliteStore.consume (fun _ => none) calls).map (·.2.allowed) := by
  constructor
  · intro same
    have answers := same .afterDeadline 1 1 [⟨"rl:a", 1, 1, 1 / 2 ^ 16, 0⟩] zero_le_one one_pos
      (by simp [Uniform]) (by simp) (by simp [Ordered])
    revert answers
    decide +kernel
  · intro same
    have answers := same .afterDeadline 1 (1 / 10 ^ 16) [⟨"rl:a", 1, 1 / 10 ^ 16, 1, 0⟩, ⟨"rl:a", 1, 1 / 10 ^ 16, 1, 1⟩]
      zero_le_one (by norm_num) (by simp [Uniform]) (by simp) (by simp [Ordered])
    revert answers
    decide +kernel

end RedisStore
end UrlShortener
