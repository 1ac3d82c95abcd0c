import Mathlib.Order.WithBot
import UrlShortener.General.Machine
import UrlShortener.General.Rounding

namespace UrlShortener

/-- The answer of a limiter. `tokensRemaining` is `none` for the NaN of a
decision taken without asking the store, and `retryAfterS` is `⊤` for the
infinite wait of a quota that never refills. -/
structure Decision where
  allowed : Bool
  tokensRemaining : Option ℚ
  retryAfterS : WithTop ℚ
  deriving DecidableEq

/-- `_retry_after`: seconds until `cost` tokens are available again. -/
def retryAfter (allowed : Bool) (cost tokens rate : ℚ) : WithTop ℚ :=
  if allowed then 0
  else if rate ≤ 0 then ⊤
  else ((max ((cost - tokens) / rate) 0 : ℚ) : WithTop ℚ)

/-- The arguments of one `consume`. -/
structure Call where
  key : String
  capacity : ℚ
  rate : ℚ
  cost : ℚ
  nowMs : Int
  deriving DecidableEq

/-- A row of the `buckets` table. -/
structure Bucket where
  tokens : ℚ
  updatedMs : Int
  deriving DecidableEq

abbrev Buckets := String → Option Bucket

namespace SqliteStore

/-- The tokens a call finds after the lazy refill of the row it selected. -/
def refilled (call : Call) (row : Option Bucket) : ℚ :=
  let bucket := row.getD ⟨call.capacity, call.nowMs⟩
  let elapsed : ℚ := (max 0 (call.nowMs - bucket.updatedMs) : Int) / 1000
  min call.capacity (bucket.tokens + elapsed * call.rate)

/-- What `consume` decides on the selected row, and the row it writes back. -/
def consumeRow (call : Call) (row : Option Bucket) : Decision × Bucket :=
  let allowed := decide (call.cost ≤ refilled call row)
  let tokens := if allowed then refilled call row - call.cost else refilled call row
  (⟨allowed, some tokens, retryAfter allowed call.cost tokens call.rate⟩, ⟨tokens, call.nowMs⟩)

/-- `SqliteStore.consume` as one transaction that succeeds. -/
def consume (buckets : Buckets) (call : Call) : Decision × Buckets :=
  let (decision, row) := consumeRow call (buckets call.key)
  (decision, Function.update buckets call.key (some row))

end SqliteStore

/-- What the Lua script returns: the `allowed` flag and the tokens it prints. -/
structure LuaReply where
  allowed : Bool
  tokens : ℚ
  deriving DecidableEq

/-- What `tostring` of a number reads as: its 14 leading digits, half to even. -/
def luaToString (x : ℚ) : ℚ :=
  Rounding.float 10 14 x

/-- `string.format('%d', n)` casts to 64 bits, which makes the least of them out
of every number beyond. -/
def luaFormatD (n : Int) : Int :=
  if -2 ^ 63 ≤ n ∧ n < 2 ^ 63 then n else -2 ^ 63

/-- `ttl_ms`: the time to refill from empty plus slack, and a fixed hour for a
quota that never refills. -/
def luaTtlMs (capacity rate : ℚ) : Int :=
  if 0 < rate then ⌈capacity / rate * 1000⌉ + 10000 else 3600000

/-- `LUA_TOKEN_BUCKET`: the reply, the hash written by HMSET and the TTL given
to PEXPIRE. A missing hash reads as a full bucket. HMSET is given the number
itself, and only the reply what `tostring` prints of it. -/
def luaTokenBucket (hash : Option Bucket) (capacity rate : ℚ) (nowMs : Int) (cost : ℚ) :
    LuaReply × Bucket × Int :=
  let tokens := match hash with
    | none => capacity
    | some bucket => bucket.tokens
  let updated := match hash with
    | none => nowMs
    | some bucket => bucket.updatedMs
  let elapsed : ℚ := (max 0 (nowMs - updated) : Int) / 1000
  let tokens := min capacity (tokens + elapsed * rate)
  let allowed := decide (cost ≤ tokens)
  let tokens := if allowed then tokens - cost else tokens
  (⟨allowed, luaToString tokens⟩, ⟨tokens, nowMs⟩, luaFormatD (luaTtlMs capacity rate))

/-- When a key with a TTL disappears from a Redis server: `gone deadline now`
at the server's clock `now`. What happens in the very millisecond of the
deadline is left open. -/
structure KeyExpiry where
  gone : Int → Int → Bool
  kept : ∀ deadline now, now < deadline → gone deadline now = false
  dropped : ∀ deadline now, deadline < now → gone deadline now = true

/-- The rule of the Redis server itself, which keeps a key through its deadline. -/
def KeyExpiry.afterDeadline : KeyExpiry where
  gone deadline now := decide (deadline < now)
  kept _ _ early := decide_eq_false (by omega)
  dropped _ _ late := decide_eq_true late

/-- A hash stored by Redis with the server time at which it expires. -/
structure RedisHash where
  bucket : Bucket
  deadline : Int
  deriving DecidableEq

abbrev RedisDb := String → Option RedisHash

namespace RedisStore

/-- What HMGET sees of a key. -/
def live (expiry : KeyExpiry) (serverMs : Int) (stored : Option RedisHash) : Option Bucket :=
  stored.bind fun hash => if expiry.gone hash.deadline serverMs then none else some hash.bucket

/-- One execution of the script on the stored hash, at the server's clock. -/
def consumeHash (expiry : KeyExpiry) (serverMs : Int) (call : Call) (stored : Option RedisHash) :
    Decision × RedisHash :=
  let (reply, bucket, ttlMs) :=
    luaTokenBucket (live expiry serverMs stored) call.capacity call.rate call.nowMs call.cost
  (⟨reply.allowed, some reply.tokens, retryAfter reply.allowed call.cost reply.tokens call.rate⟩,
    ⟨bucket, serverMs + ttlMs⟩)

/-- `RedisStore.consume` against a server whose clock reads `serverMs`. -/
def consume (expiry : KeyExpiry) (serverMs : Int) (db : RedisDb) (call : Call) : Decision × RedisDb :=
  let (decision, hash) := consumeHash expiry serverMs call (db call.key)
  (decision, Function.update db call.key (some hash))

end RedisStore

/-- The configuration of a `RateLimiter`. -/
structure RateLimiter where
  capacity : ℚ := 60
  refillPerSecond : ℚ := 10

/-- The `consume` call that `RateLimiter.check` makes at its clock's reading. -/
def RateLimiter.check (limiter : RateLimiter) (clientId : String) (cost : ℚ) (nowMs : Int) : Call :=
  ⟨"rl:" ++ clientId, limiter.capacity, limiter.refillPerSecond, cost, nowMs⟩

namespace SqliteStore

/-- `consume` on one row of the table. -/
def consumeCell (row : Option Bucket) (call : Call) : Decision × Option Bucket :=
  ((consumeRow call row).1, some (consumeRow call row).2)

theorem consume_keyed : consume = Machine.keyed consumeCell Call.key := rfl

/-- What an admitted call takes from its bucket; a denied call takes nothing. -/
def taken (entry : Call × Decision) : ℚ :=
  if entry.2.allowed then entry.1.cost else 0

end SqliteStore

/-- The total cost admitted over a list of calls with their decisions. -/
def admitted (ledger : List (Call × Decision)) : ℚ :=
  (ledger.map SqliteStore.taken).sum

end UrlShortener
