import UrlShortener.LimiterPolicy

namespace UrlShortener
namespace SqliteStore
open Machine Allowance

theorem taken_le_refilled {call : Call} {row : Option Bucket} (stocked : 0 ≤ refilled call row) :
    taken (call, (consumeRow call row).1) ≤ refilled call row := by
  unfold taken
  split
  · rename_i allowed
    exact consumeRow_allowed.mp allowed
  · exact stocked

theorem refilled_nonneg {call : Call} {bucket : Bucket} (capacity : 0 ≤ call.capacity)
    (rate : 0 ≤ call.rate) (stocked : 0 ≤ bucket.tokens) : 0 ≤ refilled call (some bucket) := by
  rw [refilled_some]
  have elapsed : (0 : ℚ) ≤ ((max 0 (call.nowMs - bucket.updatedMs) : Int) : ℚ) := by
    exact_mod_cast le_max_left ..
  exact le_min capacity (by positivity)

theorem refilled_le {call : Call} {bucket : Bucket} :
    refilled call (some bucket) ≤ bucket.tokens +
      ((max 0 (call.nowMs - bucket.updatedMs) : Int) : ℚ) / 1000 * call.rate := by
  rw [refilled_some]
  exact min_le_right ..

/-- A stocked bucket gives away at most its tokens and the refill for every
forward movement of the clock, each backward movement being forgotten. -/
theorem admitted_le_climb {capacity rate : ℚ} (capacityNonneg : 0 ≤ capacity) (rateNonneg : 0 ≤ rate)
    {calls : List Call} (uniform : Uniform capacity rate calls) {bucket : Bucket}
    (stocked : 0 ≤ bucket.tokens) :
    admitted (transcript consumeCell (some bucket) calls) ≤
      bucket.tokens + rate * climb (bucket.updatedMs :: calls.map Call.nowMs) / 1000 := by
  induction calls generalizing bucket with
  | nil => simpa [admitted, climb] using stocked
  | cons call rest ih =>
    have own := uniform call (by simp)
    have full : 0 ≤ refilled call (some bucket) :=
      refilled_nonneg (own.1 ▸ capacityNonneg) (own.2 ▸ rateNonneg) stocked
    have left : 0 ≤ (consumeRow call (some bucket)).2.tokens := by
      rw [consumeRow_tokens]
      exact sub_nonneg.mpr (taken_le_refilled full)
    have tail := ih (fun c member => uniform c (List.mem_cons_of_mem _ member)) left
    have head := @refilled_le call bucket
    rw [consumeRow_tokens, consumeRow_updatedMs] at tail
    rw [own.2] at head
    rw [transcript_cons, List.map_cons, climb_cons_cons]
    change taken (call, (consumeRow call (some bucket)).1) +
      admitted (transcript consumeCell (some (consumeRow call (some bucket)).2) rest) ≤ _
    push_cast at head ⊢
    linarith

/-- From an absent bucket the first call only fixes where the clock starts. -/
theorem admitted_absent_le_climb {capacity rate : ℚ} (capacityNonneg : 0 ≤ capacity)
    (rateNonneg : 0 ≤ rate) {calls : List Call} (uniform : Uniform capacity rate calls) :
    admitted (transcript consumeCell none calls) ≤
      capacity + rate * climb (calls.map Call.nowMs) / 1000 := by
  cases calls with
  | nil => simpa [admitted, climb] using capacityNonneg
  | cons call rest =>
    have own := uniform call (by simp)
    have full : 0 ≤ refilled call none := by rw [refilled_none, own.1]; exact capacityNonneg
    have left : 0 ≤ (consumeRow call none).2.tokens := by
      rw [consumeRow_tokens]
      exact sub_nonneg.mpr (taken_le_refilled full)
    have tail := admitted_le_climb capacityNonneg rateNonneg
      (fun c member => uniform c (List.mem_cons_of_mem _ member)) left
    rw [consumeRow_tokens, consumeRow_updatedMs, refilled_none, own.1] at tail
    change taken (call, (consumeRow call none).1) +
      admitted (transcript consumeCell (some (consumeRow call none).2) rest) ≤ _
    rw [List.map_cons]
    linarith

/-- Calls that ask, at each reading, for exactly what the refill since the
reading before may have given. -/
def draining (key : String) (capacity : ℚ) : Int → List Int → List Call
  | _, [] => []
  | t, u :: rest => ⟨key, capacity, 1000, (max 0 (u - t) : Int), u⟩ :: draining key capacity u rest

theorem draining_spec (key : String) (capacity : ℚ) (t : Int) (times : List Int) :
    (draining key capacity t times).map Call.nowMs = times ∧
      ∀ call ∈ draining key capacity t times,
        call.key = key ∧ call.capacity = capacity ∧ call.rate = 1000 ∧ 0 ≤ call.cost := by
  induction times generalizing t with
  | nil => simp [draining]
  | cons u rest ih =>
    obtain ⟨shown, own⟩ := ih u
    refine ⟨by rw [draining, List.map_cons, shown], ?_⟩
    intro call member
    rcases List.mem_cons.mp member with rfl | later
    · exact ⟨rfl, rfl, rfl, Int.cast_nonneg (le_max_left ..)⟩
    · exact own call later

/-- An empty bucket that is drained at every reading pays out the whole climb. -/
theorem admitted_draining {key : String} {capacity : ℚ} {t : Int} {times : List Int}
    (room : (climb (t :: times) : ℚ) ≤ capacity) :
    admitted (transcript consumeCell (some ⟨0, t⟩) (draining key capacity t times)) =
      climb (t :: times) := by
  induction times generalizing t with
  | nil => rfl
  | cons u rest ih =>
    have later : (0 : ℚ) ≤ climb (u :: rest) := by exact_mod_cast climb_nonneg _
    have earlier : (0 : ℚ) ≤ (max 0 (u - t) : Int) := by exact_mod_cast le_max_left ..
    rw [climb_cons_cons] at room ⊢
    push_cast at room earlier ⊢
    have full : refilled ⟨key, capacity, 1000, (max 0 (u - t) : Int), u⟩ (some ⟨0, t⟩) =
        (max 0 (u - t) : Int) := by
      rw [refilled_some]
      push_cast
      rw [min_eq_right (by linarith)]
      ring
    have taking : consumeCell (some ⟨0, t⟩) ⟨key, capacity, 1000, (max 0 (u - t) : Int), u⟩ =
        (⟨true, some 0, 0⟩, some ⟨0, u⟩) := by
      simp only [consumeCell, consumeRow, full, le_refl, decide_true, if_true, sub_self, retryAfter]
    rw [draining, transcript_cons, taking, admitted, List.map_cons, List.sum_cons]
    change _ + admitted _ = _
    rw [ih (by linarith)]
    simp [taken]

/-- A first call that empties the bucket, then the draining ones. The burst is
as large as the whole climb, so that no refill is ever capped. -/
def exhausting (t : Int) (times : List Int) : List Call :=
  ⟨"", climb (t :: times), 1000, climb (t :: times), t⟩ :: draining "" (climb (t :: times)) t times

theorem exhausting_spec (t : Int) (times : List Int) :
    (exhausting t times).map Call.nowMs = t :: times ∧
      ∀ call ∈ exhausting t times,
        call.key = "" ∧ call.capacity = climb (t :: times) ∧ call.rate = 1000 ∧ 0 ≤ call.cost := by
  obtain ⟨shown, own⟩ := draining_spec "" (climb (t :: times)) t times
  refine ⟨by rw [exhausting, List.map_cons, shown], ?_⟩
  intro call member
  rcases List.mem_cons.mp member with rfl | later
  · exact ⟨rfl, rfl, rfl, Int.cast_nonneg (climb_nonneg _)⟩
  · exact own call later

theorem exhausting_own (t : Int) (times : List Int) :
    (exhausting t times).filter (·.key = "") = exhausting t times :=
  List.filter_eq_self.mpr fun call member =>
    decide_eq_true ((exhausting_spec t times).2 call member).1

theorem admitted_exhausting (t : Int) (times : List Int) :
    admitted (transcript consumeCell none (exhausting t times)) =
      climb (t :: times) + climb (t :: times) := by
  have first : consumeCell none ⟨"", climb (t :: times), 1000, climb (t :: times), t⟩ =
      (⟨true, some 0, 0⟩, some ⟨0, t⟩) := by
    simp only [consumeCell, consumeRow, refilled_none, le_refl, decide_true, if_true, sub_self,
      retryAfter]
  have rest := @admitted_draining "" _ t times le_rfl
  rw [exhausting, transcript_cons, first, admitted, List.map_cons, List.sum_cons]
  change (climb (t :: times) : ℚ) + admitted _ = _
  rw [rest]

theorem budget_of_climb_le {buckets : Buckets} {key : String} {capacity rate : ℚ} {calls : List Call}
    (absent : buckets key = none) (capacityNonneg : 0 ≤ capacity) (rateNonneg : 0 ≤ rate)
    (uniform : Uniform capacity rate (calls.filter (·.key = key)))
    (within : climb ((calls.filter (·.key = key)).map Call.nowMs) ≤
      spread ((calls.filter (·.key = key)).map Call.nowMs)) :
    admitted (ledgerOf buckets key calls) ≤
      capacity + rate * spread ((calls.filter (·.key = key)).map Call.nowMs) / 1000 := by
  have bound := admitted_absent_le_climb capacityNonneg rateNonneg uniform
  rw [ledgerOf_cell, absent]
  have within' : (climb ((calls.filter (·.key = key)).map Call.nowMs) : ℚ) ≤
      spread ((calls.filter (·.key = key)).map Call.nowMs) := by exact_mod_cast within
  have scaled := mul_le_mul_of_nonneg_left within' rateNonneg
  linarith

/-- With clocks that agree, the budget of a key is bounded as it should be. -/
theorem ordered_budget {buckets : Buckets} {key : String} {capacity rate : ℚ} {calls : List Call}
    (absent : buckets key = none) (capacityNonneg : 0 ≤ capacity) (rateNonneg : 0 ≤ rate)
    (uniform : Uniform capacity rate (calls.filter (·.key = key)))
    (ordered : Ordered (calls.filter (·.key = key))) :
    admitted (ledgerOf buckets key calls) ≤
      capacity + rate * spread ((calls.filter (·.key = key)).map Call.nowMs) / 1000 :=
  budget_of_climb_le absent capacityNonneg rateNonneg uniform (climb_le_spread ordered)

/-- The readings of a key bound its budget exactly when, falls not counted,
they climb no further than from the smallest of them to the largest. -/
theorem skewed_budget_iff (times : List Int) :
    (∀ (buckets : Buckets) (key : String) (capacity rate : ℚ) (calls : List Call),
      buckets key = none → 0 ≤ capacity → 0 ≤ rate →
      Uniform capacity rate (calls.filter (·.key = key)) →
      (∀ call ∈ calls.filter (·.key = key), 0 ≤ call.cost) →
      (calls.filter (·.key = key)).map Call.nowMs = times →
      admitted (ledgerOf buckets key calls) ≤ capacity + rate * spread times / 1000) ↔
    climb times ≤ spread times := by
  constructor
  · intro bounded
    by_contra above
    cases times with
    | nil => exact above le_rfl
    | cons t rest =>
      obtain ⟨shown, own⟩ := exhausting_spec t rest
      have bound := bounded (fun _ => none) "" (climb (t :: rest)) 1000 (exhausting t rest) rfl
        (Int.cast_nonneg (climb_nonneg _)) (by norm_num)
        (fun call member => by
          rw [exhausting_own] at member
          exact ⟨(own call member).2.1, (own call member).2.2.1⟩)
        (fun call member => by
          rw [exhausting_own] at member
          exact (own call member).2.2.2)
        (by rw [exhausting_own, shown])
      rw [ledgerOf_cell, exhausting_own, admitted_exhausting] at bound
      have above' : (spread (t :: rest) : ℚ) < climb (t :: rest) := by
        exact_mod_cast not_le.mp above
      linarith
  · intro within buckets key capacity rate calls absent capacityNonneg rateNonneg uniform _ shown
    subst shown
    exact budget_of_climb_le absent capacityNonneg rateNonneg uniform within

/-- One instance's clock falling a second behind and back mints a token. -/
theorem skewed_clock_mints :
    ¬ ∀ (buckets : Buckets) (key : String) (capacity rate : ℚ) (calls : List Call),
      buckets key = none → 0 ≤ capacity → 0 ≤ rate →
      Uniform capacity rate (calls.filter (·.key = key)) →
      (∀ call ∈ calls.filter (·.key = key), 0 ≤ call.cost) →
      admitted (ledgerOf buckets key calls) ≤
        capacity + rate * spread ((calls.filter (·.key = key)).map Call.nowMs) / 1000 := by
  intro bounded
  have bound := bounded (fun _ => none) "rl:a" 1 1
    [⟨"rl:a", 1, 1, 1, 0⟩, ⟨"rl:a", 1, 1, 1, 1000⟩, ⟨"rl:a", 1, 1, 1, 0⟩, ⟨"rl:a", 1, 1, 1, 1000⟩]
    rfl (by norm_num) (by norm_num) (by simp [Uniform]) (by simp)
  revert bound
  decide +kernel

end SqliteStore
end UrlShortener
