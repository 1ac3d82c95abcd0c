import UrlShortener.General.Rounding
import UrlShortener.Store

namespace UrlShortener
open Rounding

/-- A number as Python's float holds it. -/
def float64 (x : ℚ) : ℚ :=
  float 2 53 x

/-- `int(x)`. -/
def truncate (x : ℚ) : Int :=
  if 0 ≤ x then ⌊x⌋ else ⌈x⌉

/-- An aware datetime, by its microseconds since the epoch; so the database
keeps it, too. -/
structure Datetime where
  micros : Int
  deriving DecidableEq

/-- `datetime.fromtimestamp`: the fraction is rounded to microseconds, half to even. -/
def Datetime.fromTimestamp (seconds : ℚ) : Datetime :=
  let whole := truncate seconds
  ⟨whole * 1000000 + nearestEven (float64 ((seconds - whole) * 1000000))⟩

def Datetime.timestamp (dt : Datetime) : ℚ :=
  float64 (dt.micros / 1000000)

/-- `_dt` of a number. -/
def dtOf (ms : Int) : Datetime :=
  .fromTimestamp (float64 (float64 ms / 1000))

/-- `_ms` of a datetime. -/
def msOf (dt : Datetime) : Int :=
  truncate (float64 (dt.timestamp * 1000))

section
variable {ms n : Int} {x : ℚ}

theorem abs_sub_truncate_lt (x : ℚ) : |x - truncate x| < 1 := by
  unfold truncate
  rw [abs_lt]
  split
  · have low := Int.floor_le x
    have high := Int.lt_floor_add_one x
    constructor <;> linarith
  · have low := Int.ceil_lt_add_one x
    have high := Int.le_ceil x
    constructor <;> linarith

theorem truncate_near (nonneg : 0 ≤ n) (near : |x - n| < 1) : truncate x = n ∨ truncate x = n - 1 := by
  obtain ⟨low, high⟩ := abs_lt.mp near
  unfold truncate
  split
  · have below : n - 1 ≤ ⌊x⌋ := Int.le_floor.mpr (by push_cast; linarith)
    have above : ⌊x⌋ < n + 1 := Int.floor_lt.mpr (by push_cast; linarith)
    omega
  · rename_i negative
    -- Between -1 and 0 only the ceiling 0 is left.
    have small : (n : ℚ) < 1 := by linarith
    have zero : n = 0 := by
      have := Int.cast_lt.mp (by push_cast; exact small : (n : ℚ) < (1 : Int))
      omega
    subst zero
    left
    refine Int.ceil_eq_iff.mpr ⟨?_, ?_⟩ <;> push_cast at low ⊢ <;> linarith

theorem truncate_intCast (nonneg : 0 ≤ n) : truncate n = n := by
  rw [truncate, if_pos (Int.cast_nonneg nonneg), Int.floor_intCast]

/-- Seconds up to the year 2242, as a float. -/
theorem abs_seconds_sub_le (nonneg : 0 ≤ ms) (bound : ms < 1000 * 2 ^ 33) :
    |float64 ((ms : ℚ) / 1000) - ms / 1000| ≤ 2 ^ (-21 : ℤ) := by
  have low : (0 : ℚ) ≤ ms := Int.cast_nonneg nonneg
  have high : (ms : ℚ) < 1000 * 2 ^ 33 := by exact_mod_cast bound
  have below : |(ms : ℚ) / 1000| < 2 ^ (33 : ℤ) := by
    rw [abs_of_nonneg (by positivity)]
    norm_num at high ⊢
    linarith
  have error := abs_float_sub_le_of_lt (p := 53) Nat.one_lt_two below
  norm_num at error ⊢
  exact error

theorem float64_ms (nonneg : 0 ≤ ms) (bound : ms < 1000 * 2 ^ 33) : float64 ms = ms :=
  float_intCast Nat.one_lt_two (by rw [abs_of_nonneg nonneg]; omega)

/-- The datetime of a whole millisecond is exact, so the database compares the
instants as they were given. -/
theorem dtOf_eq (nonneg : 0 ≤ ms) (bound : ms < 1000 * 2 ^ 33) : dtOf ms = ⟨ms * 1000⟩ := by
  have seconds := abs_seconds_sub_le nonneg bound
  rw [dtOf, float64_ms nonneg bound, Datetime.fromTimestamp]
  generalize float64 ((ms : ℚ) / 1000) = t at seconds ⊢
  have fraction : |(t - truncate t) * 1000000| < 2 ^ (20 : ℤ) := by
    have part := abs_sub_truncate_lt t
    rw [abs_mul, abs_of_pos (by norm_num : (0 : ℚ) < 1000000)]
    norm_num
    linarith
  have product := abs_float_sub_le_of_lt (p := 53) Nat.one_lt_two fraction
  have near : |float64 ((t - truncate t) * 1000000) - (ms * 1000 - truncate t * 1000000 : Int)| < 1 / 2 := by
    rw [float64]
    rw [abs_le] at product seconds
    rw [abs_lt]
    norm_num at product seconds ⊢
    constructor <;> linarith [product.1, product.2, seconds.1, seconds.2]
  rw [nearestEven_eq near]
  congr 1
  omega

theorem timestamp_dtOf (nonneg : 0 ≤ ms) (bound : ms < 1000 * 2 ^ 33) :
    (dtOf ms).timestamp = float64 ((ms : ℚ) / 1000) := by
  rw [dtOf_eq nonneg bound, Datetime.timestamp]
  congr 1
  push_cast
  ring

/-- What is read back is the millisecond that was stored, or the one before it. -/
theorem msOf_dtOf_near (nonneg : 0 ≤ ms) (bound : ms < 1000 * 2 ^ 33) : msOf (dtOf ms) = ms ∨ msOf (dtOf ms) = ms - 1 := by
  have seconds := abs_seconds_sub_le nonneg bound
  rw [msOf, timestamp_dtOf nonneg bound]
  generalize float64 ((ms : ℚ) / 1000) = t at seconds ⊢
  have low : (0 : ℚ) ≤ ms := Int.cast_nonneg nonneg
  have high : (ms : ℚ) < 1000 * 2 ^ 33 := by exact_mod_cast bound
  rw [abs_le] at seconds
  have below : |t * 1000| < 2 ^ (44 : ℤ) := by
    rw [abs_lt]
    norm_num at seconds high ⊢
    constructor <;> linarith [seconds.1, seconds.2]
  have product := abs_float_sub_le_of_lt (p := 53) Nat.one_lt_two below
  refine truncate_near nonneg ?_
  rw [abs_le] at product
  rw [abs_lt, float64]
  norm_num at product seconds ⊢
  constructor <;> linarith [product.1, product.2, seconds.1, seconds.2]

/-- Where the product has as many binary digits before the point as the
millisecond, the error of the seconds is less than half a unit of it. -/
theorem msOf_dtOf_exact {e : Nat} (small : e ≤ 32) (low : 1024 * 2 ^ e < ms) (high : ms < 2000 * 2 ^ e) :
    msOf (dtOf ms) = ms := by
  have nonneg : 0 ≤ ms := le_of_lt (lt_of_le_of_lt (by positivity) low)
  have power : (2 : Int) ^ e ≤ 2 ^ 32 := pow_le_pow_right₀ (by norm_num) small
  have bound : ms < 1000 * 2 ^ 33 := by omega
  have one : (1 : ℚ) ≤ 2 ^ e := one_le_pow₀ (by norm_num)
  have most : (2 : ℚ) ^ e ≤ 2 ^ 32 := pow_le_pow_right₀ (by norm_num) small
  have low' : 1024 * (2 : ℚ) ^ e + 1 ≤ ms := by exact_mod_cast low
  have high' : (ms : ℚ) < 2000 * 2 ^ e := by exact_mod_cast high
  have below : |(ms : ℚ) / 1000| < 2 ^ ((e : ℤ) + 1) := by
    rw [abs_of_nonneg (by linarith), zpow_add₀ (by norm_num), zpow_natCast, zpow_one]
    linarith
  have seconds := abs_float_sub_le_of_lt (p := 53) Nat.one_lt_two below
  rw [msOf, timestamp_dtOf nonneg bound, float64, float64]
  generalize float 2 53 ((ms : ℚ) / 1000) = t at seconds ⊢
  have unit : ((2 : Nat) : ℚ) ^ ((e : ℤ) + 1 - (53 : Nat)) = 2 ^ e / 2 ^ 52 := by
    rw [Nat.cast_two, show (e : ℤ) + 1 - (53 : Nat) = (e : ℤ) - (52 : Nat) by push_cast; ring, zpow_sub₀ (by norm_num), zpow_natCast,
      zpow_natCast]
  rw [unit, abs_le] at seconds
  norm_num at seconds most
  have binade : ulp 2 53 (t * 1000) = 2 ^ e / 2 ^ 42 := by
    rw [ulp_eq Nat.one_lt_two (k := (e : ℤ) + 10)]
    · rw [Nat.cast_two, show (e : ℤ) + 10 + 1 - (53 : Nat) = (e : ℤ) - (42 : Nat) by push_cast; ring, zpow_sub₀ (by norm_num),
        zpow_natCast, zpow_natCast]
    · rw [Nat.cast_two, zpow_add₀ (by norm_num), zpow_natCast, abs_of_nonneg (by linarith [seconds.1])]
      norm_num
      linarith [seconds.1]
    · rw [Nat.cast_two, zpow_add₀ (by norm_num), zpow_add₀ (by norm_num), zpow_natCast, abs_of_nonneg (by linarith [seconds.1])]
      norm_num
      linarith [seconds.2]
  have grid : (ms : ℚ) = (ms * 2 ^ (42 - e) : Int) * ulp 2 53 (t * 1000) := by
    have split : (2 : ℚ) ^ (42 - e) * 2 ^ e = 2 ^ 42 := by rw [← pow_add, Nat.sub_add_cancel (by omega)]
    rw [binade]
    push_cast
    rw [mul_assoc, mul_div_assoc', split, div_self (by positivity), mul_one]
  have rounded : float 2 53 (t * 1000) = (ms * 2 ^ (42 - e) : Int) * ulp 2 53 (t * 1000) := by
    refine float_eq Nat.one_lt_two ?_
    rw [← grid, binade, abs_lt]
    norm_num
    constructor <;> linarith [seconds.1, seconds.2]
  rw [rounded, ← grid, truncate_intCast nonneg]

end

/-- The milliseconds up to the year 2242. -/
def Storable (ms : Int) : Prop :=
  0 ≤ ms ∧ ms < 1000 * 2 ^ 33

/-- From November 2004 to January 2038. -/
def Current (ms : Int) : Prop :=
  1024 * 2 ^ 30 < ms ∧ ms < 1000 * 2 ^ 31

/-- What `get` makes of the row that `create` has written for the link. -/
def Link.readBack (link : Link) : Link :=
  { link with
    createdMs := msOf (dtOf link.createdMs)
    expiresMs := link.expiresMs.map fun ms => msOf (dtOf ms) }

/-- The condition of `purge_expired` on that row, at `now_ms`. -/
def Link.purgedAt (link : Link) (nowMs : Int) : Bool :=
  link.expiresMs.any fun expiresMs => (dtOf expiresMs).micros ≤ (dtOf nowMs).micros

/-- A sweep sees a link expire at the millisecond it was given. Readers see it
expire then or a millisecond earlier, never later, and a link of the years 2005
to 2037 is read back as it was created. -/
theorem expiry_kept (link : Link) (nowMs : Int) (storable : ∀ ms ∈ link.expiresMs, Storable ms) (clock : Storable nowMs) :
    link.purgedAt nowMs = link.isExpired nowMs ∧
      (link.isExpired nowMs = true → link.readBack.isExpired nowMs = true) ∧
      (link.readBack.isExpired nowMs = true → link.isExpired (nowMs + 1) = true) ∧
      (Current link.createdMs → (∀ ms ∈ link.expiresMs, Current ms) → link.readBack = link) := by
  have exact {ms : Int} (current : Current ms) : msOf (dtOf ms) = ms :=
    msOf_dtOf_exact (e := 30) (by norm_num) current.1 (by have := current.2; omega)
  obtain ⟨code, target, createdMs, expiresMs⟩ := link
  cases expiresMs with
  | none =>
    refine ⟨rfl, nofun, nofun, fun created _ => ?_⟩
    rw [Link.readBack, exact created, Option.map_none]
  | some ms =>
    obtain ⟨nonneg, bound⟩ := storable ms rfl
    have kept := msOf_dtOf_near nonneg bound
    refine ⟨?_, fun expired => ?_, fun expired => ?_, fun created current => ?_⟩
    · rw [Link.purgedAt, Link.isExpired, Option.any_some, Option.any_some, decide_eq_decide, dtOf_eq nonneg bound,
        dtOf_eq clock.1 clock.2]
      exact Int.mul_le_mul_right (by norm_num)
    · simp only [Link.readBack, Link.isExpired, Option.map_some, Option.any_some, decide_eq_true_eq] at expired ⊢
      omega
    · simp only [Link.readBack, Link.isExpired, Option.map_some, Option.any_some, decide_eq_true_eq] at expired ⊢
      omega
    · rw [Link.readBack, Option.map_some, exact created, exact (current ms rfl)]

/-- Two milliseconds into the next era of the clock, a reader is early. -/
theorem expiry_kept_2038 :
    (Link.readBack ⟨"c", "https://example.com", 1800000000000, some (1000 * 2 ^ 31 + 2)⟩).expiresMs =
        some (1000 * 2 ^ 31 + 1) ∧
      Link.isExpired ⟨"c", "https://example.com", 1800000000000, some (1000 * 2 ^ 31 + 2)⟩ (1000 * 2 ^ 31 + 1 + 1) = true := by
  refine ⟨by decide +kernel, (expiry_kept _ (1000 * 2 ^ 31 + 1) ?_ ?_).2.2.1 (by decide +kernel)⟩
  · rintro ms member
    cases member
    exact ⟨by decide, by decide⟩
  · exact ⟨by decide, by decide⟩

end UrlShortener
