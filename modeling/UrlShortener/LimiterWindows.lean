import UrlShortener.LimiterClocks
import UrlShortener.LimiterTransactions

namespace UrlShortener
namespace SqliteStore
open Machine Allowance

/-- The step a statement names, if it is possible. -/
def Sessions.perform (call : Nat → Call) (s : Sessions) : Statement → Option Sessions
  | .begin id =>
    if s.phase id = .ready ∧ s.db.writer.isNone then some (s.advance id (s.db.begin id) .begun) else none
  | .select id =>
    if s.phase id = .begun then some (s.advance id s.db (.selected (s.db.view id (call id).key))) else none
  | .upsert id =>
    match s.phase id with
    | .selected row => some (s.advance id
        (s.db.write id fun buckets => Function.update buckets (call id).key (some (consumeRow (call id) row).2))
        (.upserted (consumeRow (call id) row).1))
    | _ => none
  | .commit id =>
    match s.phase id with
    | .upserted decision => some (s.advance id (s.db.commit id) (.returned decision))
    | _ => none
  | .fail id =>
    match s.phase id with
    | .ready | .begun | .selected _ | .upserted _ => some (s.advance id s.db .failing)
    | _ => none
  | .rollback id => if s.phase id = .failing then some (s.advance id (s.db.rollback id) .raised) else none

variable {call : Nat → Call} {s : Sessions}

theorem Step.of_perform {label : Statement} {t : Sessions} (done : s.perform call label = some t) :
    Step call s label t := by
  cases label with
  | «begin» id =>
    obtain ⟨⟨ready, free⟩, same⟩ := Option.ite_none_right_eq_some.mp done
    cases same
    exact .begin ready (Option.isNone_iff_eq_none.mp free)
  | select id =>
    obtain ⟨begun, same⟩ := Option.ite_none_right_eq_some.mp done
    cases same
    exact .select begun
  | upsert id =>
    unfold Sessions.perform at done
    dsimp only at done
    split at done
    · rename_i row selected
      cases done
      exact .upsert selected
    · cases done
  | commit id =>
    unfold Sessions.perform at done
    dsimp only at done
    split at done
    · rename_i decision upserted
      cases done
      exact .commit upserted
    · cases done
  | fail id =>
    unfold Sessions.perform at done
    dsimp only at done
    split at done
    · rename_i ready
      cases done
      exact .failBegin ready
    · rename_i begun
      cases done
      exact .failSelect begun
    · rename_i row selected
      cases done
      exact .failUpsert selected
    · rename_i decision upserted
      cases done
      exact .failCommit upserted
    · cases done
  | rollback id =>
    obtain ⟨failing, same⟩ := Option.ite_none_right_eq_some.mp done
    cases same
    exact .rollback failing

/-- The calls that were committed in a part of a run were answered as if they
had run alone, in the table of that time. -/
theorem Serial.window {buckets : Buckets} {before window later : List Statement}
    (serial : Serial call buckets (before ++ window ++ later) s) :
    List.Forall₂ (fun id entry => entry.1 = call id ∧ s.phase id = .returned entry.2) (commitOrder window)
      (transcript consume (after consume buckets ((commitOrder before).map call)) ((commitOrder window).map call)) := by
  have whole := serial.answers
  rw [commitOrder, List.filterMap_append, List.filterMap_append] at whole
  exact forall₂_window consume buckets whole

/-- Requests that the store let through show up in the ledger of their bucket. -/
theorem countP_le_allowed {key : String} {through : Nat → Bool} {ids : List Nat} {entries : List (Call × Decision)}
    (answers : List.Forall₂ (fun id entry => entry.1 = call id ∧ s.phase id = .returned entry.2) ids entries)
    (granted : ∀ id decision, s.phase id = .returned decision → through id = true →
      (call id).key = key ∧ decision.allowed = true) :
    ids.countP through ≤ (entries.filter (·.1.key = key)).countP (·.2.allowed) := by
  induction answers with
  | nil => exact le_rfl
  | @cons id entry ids entries known _ ih =>
    rw [List.countP_cons]
    cases passed : through id with
    | false =>
      rw [if_neg Bool.false_ne_true, Nat.add_zero]
      refine ih.trans (List.Sublist.countP_le ?_)
      exact (List.sublist_cons_self ..).filter _
    | true =>
      obtain ⟨own, allowed⟩ := granted id entry.2 known.2 passed
      rw [List.filter_cons_of_pos (by rw [known.1, own, decide_eq_true rfl]), List.countP_cons, allowed, if_pos rfl]
      exact Nat.add_le_add_right ih 1

theorem admitted_unit {entries : List (Call × Decision)} (unit : ∀ entry ∈ entries, entry.1.cost = 1) :
    admitted entries = entries.countP (·.2.allowed) := by
  induction entries with
  | nil => rfl
  | cons entry rest ih =>
    rw [admitted, List.map_cons, List.sum_cons, ← admitted,
      ih fun e member => unit e (List.mem_cons_of_mem _ member), List.countP_cons, taken, unit entry (List.mem_cons_self ..)]
    push_cast
    ring

/-- Whatever a bucket holds, it gives away no more than the burst and the
refill from the first call of a window on. -/
theorem admitted_window_le {capacity rate : ℚ} (capacityNonneg : 0 ≤ capacity) (rateNonneg : 0 ≤ rate)
    {calls : List Call} (uniform : Uniform capacity rate calls) {row : Option Bucket}
    (stocked : ∀ bucket, row = some bucket → 0 ≤ bucket.tokens) :
    admitted (transcript consumeCell row calls) ≤ capacity + rate * climb (calls.map Call.nowMs) / 1000 := by
  cases calls with
  | nil => simpa [admitted, climb] using capacityNonneg
  | cons call rest =>
    have own := uniform call (List.mem_cons_self ..)
    have full : 0 ≤ refilled call row ∧ refilled call row ≤ capacity := by
      refine ⟨?_, own.1 ▸ min_le_left ..⟩
      cases row with
      | none => rw [refilled_none, own.1]; exact capacityNonneg
      | some bucket => exact refilled_nonneg (own.1 ▸ capacityNonneg) (own.2 ▸ rateNonneg) (stocked bucket rfl)
    have left : 0 ≤ (consumeRow call row).2.tokens := by
      rw [consumeRow_tokens]
      exact sub_nonneg.mpr (taken_le_refilled full.1)
    have tail := admitted_le_climb capacityNonneg rateNonneg
      (fun c member => uniform c (List.mem_cons_of_mem _ member)) left
    rw [consumeRow_tokens, consumeRow_updatedMs] at tail
    change taken (call, (consumeRow call row).1) +
      admitted (transcript consumeCell (some (consumeRow call row).2) rest) ≤ _
    rw [List.map_cons]
    linarith [full.2]

/-- No bucket is in debt. -/
def Stocked (buckets : Buckets) : Prop :=
  ∀ key bucket, buckets key = some bucket → 0 ≤ bucket.tokens

theorem Stocked.consume {buckets : Buckets} (stocked : Stocked buckets) {c : Call} (capacity : 0 ≤ c.capacity)
    (rate : 0 ≤ c.rate) : Stocked (consume buckets c).2 := by
  intro key bucket found
  by_cases own : key = c.key
  · subst own
    have written : (consumeRow c (buckets c.key)).2 = bucket :=
      Option.some.inj ((Function.update_self c.key _ buckets).symm.trans found)
    rw [← written, consumeRow_tokens]
    refine sub_nonneg.mpr (taken_le_refilled ?_)
    cases row : buckets c.key with
    | none =>
      rw [refilled_none]
      exact capacity
    | some bucket => exact refilled_nonneg capacity rate (stocked _ bucket row)
  · exact stocked key bucket ((Function.update_of_ne own _ buckets).symm.trans found)

theorem Stocked.after {buckets : Buckets} (stocked : Stocked buckets) {calls : List Call}
    (sane : ∀ c ∈ calls, 0 ≤ c.capacity ∧ 0 ≤ c.rate) : Stocked (after SqliteStore.consume buckets calls) := by
  induction calls generalizing buckets with
  | nil => exact stocked
  | cons c rest ih =>
    obtain ⟨capacity, rate⟩ := sane c (List.mem_cons_self ..)
    exact ih (stocked.consume capacity rate) fun d member => sane d (List.mem_cons_of_mem _ member)

end SqliteStore
end UrlShortener
