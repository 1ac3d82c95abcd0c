import Mathlib.Data.List.Induction
import UrlShortener.General.Allowance
import UrlShortener.Limiter

namespace UrlShortener
namespace SqliteStore
open Machine Allowance

@[simp] theorem consumeRow_allowed {call : Call} {row : Option Bucket} :
    (consumeRow call row).1.allowed = true ↔ call.cost ≤ refilled call row := by
  simp [consumeRow]

/-- The row written back is the refilled one less what the call took. -/
theorem consumeRow_tokens (call : Call) (row : Option Bucket) :
    (consumeRow call row).2.tokens = refilled call row - taken (call, (consumeRow call row).1) := by
  by_cases enough : call.cost ≤ refilled call row
  · simp [consumeRow, taken, enough]
  · simp [consumeRow, taken, enough]

@[simp] theorem consumeRow_updatedMs (call : Call) (row : Option Bucket) :
    (consumeRow call row).2.updatedMs = call.nowMs := rfl

theorem refilled_none (call : Call) : refilled call none = call.capacity := by
  simp [refilled]

theorem refilled_some (call : Call) (bucket : Bucket) :
    refilled call (some bucket) = min call.capacity
      (bucket.tokens + ((max 0 (call.nowMs - bucket.updatedMs) : Int) : ℚ) / 1000 * call.rate) := rfl

/-- The calls are made on one bucket configured once. -/
def Uniform (capacity rate : ℚ) (calls : List Call) : Prop :=
  ∀ call ∈ calls, call.capacity = capacity ∧ call.rate = rate

def Ordered (calls : List Call) : Prop :=
  (calls.map Call.nowMs).Pairwise (· ≤ ·)

/-- Times in seconds with what was let through, as windows count them. -/
def grants (ledger : List (Call × Decision)) : List (ℚ × ℚ) :=
  ledger.map fun entry => ((entry.1.nowMs : ℚ) / 1000, taken entry)

theorem grants_snoc (row : Option Bucket) (earlier : List Call) (last : Call) :
    grants (transcript consumeCell row (earlier ++ [last])) =
      grants (transcript consumeCell row earlier) ++
        [((last.nowMs : ℚ) / 1000, taken (last, (consumeRow last (after consumeCell row earlier)).1))] := by
  rw [transcript_snoc, grants, List.map_append]
  rfl

/-- The level of the one stored cell is the least room left by any window of
its history. The next call may be at any time not before the last one. -/
theorem le_refilled_iff_fits {capacity rate x : ℚ} {earlier : List Call} {call : Call}
    (uniform : Uniform capacity rate (earlier ++ [call])) (ordered : Ordered (earlier ++ [call])) :
    x ≤ refilled call (after consumeCell none earlier) ↔
      Fits capacity rate (grants (transcript consumeCell none earlier)) ((call.nowMs : ℚ) / 1000) x := by
  -- From the end of the history, as the cell only remembers its last call.
  induction earlier using List.reverseRecOn generalizing call x with
  | nil =>
    have own := (uniform call (by simp)).1
    rw [after_nil, refilled_none, own]
    exact fits_nil.symm
  | append_singleton earlier last ih =>
    have own := uniform call (by simp)
    have before : Uniform capacity rate (earlier ++ [last]) :=
      fun c member => uniform c (List.mem_append_left _ member)
    have sorted := List.pairwise_append.mp (by simpa only [Ordered, List.map_append] using ordered)
    have forward : last.nowMs ≤ call.nowMs := sorted.2.2 last.nowMs (by simp) call.nowMs (by simp)
    have elapsed : max 0 (call.nowMs - last.nowMs) = call.nowMs - last.nowMs := by omega
    have split := ih (x := x + taken (last, (consumeRow last (after consumeCell none earlier)).1) -
      rate * ((call.nowMs : ℚ) / 1000 - (last.nowMs : ℚ) / 1000)) before
      (by simpa only [Ordered, List.map_append] using sorted.1)
    rw [after_snoc, grants_snoc, fits_snoc, ← split]
    simp only [consumeCell, refilled_some, le_min_iff, consumeRow_tokens, consumeRow_updatedMs,
      elapsed, own.1, own.2]
    push_cast
    constructor
    · rintro ⟨burst, room⟩
      exact ⟨burst, by linarith⟩
    · rintro ⟨burst, room⟩
      exact ⟨burst, by linarith⟩

/-- The calls of one key with their decisions, as a store made them. -/
def ledgerOf (buckets : Buckets) (key : String) (calls : List Call) : List (Call × Decision) :=
  (transcript consume buckets calls).filter (·.1.key = key)

theorem ledgerOf_cell (buckets : Buckets) (key : String) (calls : List Call) :
    ledgerOf buckets key calls = transcript consumeCell (buckets key) (calls.filter (·.key = key)) :=
  keyed_transcript consumeCell Call.key buckets calls key

theorem after_cell (buckets : Buckets) (key : String) (calls : List Call) :
    after consume buckets calls key = after consumeCell (buckets key) (calls.filter (·.key = key)) :=
  keyed_after consumeCell Call.key buckets calls key

/-- When the window from the `j`-th call of a ledger on begins; past the last
call that is the time of the call now being decided. -/
def windowStart (ledger : List (Call × Decision)) (call : Call) (j : Nat) : Int :=
  (ledger[j]?.map (·.1.nowMs)).getD call.nowMs

theorem fits_grants_iff {capacity rate : ℚ} {ledger : List (Call × Decision)} {call : Call} :
    Fits capacity rate (grants ledger) ((call.nowMs : ℚ) / 1000) call.cost ↔
      ∀ j ≤ ledger.length, admitted (ledger.drop j) + call.cost ≤
        capacity + rate * ((call.nowMs : ℚ) - windowStart ledger call j) / 1000 := by
  have opens (j : Nat) : opensAt (grants ledger) ((call.nowMs : ℚ) / 1000) j =
      (windowStart ledger call j : ℚ) / 1000 := by
    rw [opensAt, windowStart, grants, List.getElem?_map]
    cases ledger[j]? <;> rfl
  have amounts (j : Nat) : (((grants ledger).drop j).map Prod.snd).sum = admitted (ledger.drop j) := by
    rw [grants, ← List.map_drop, List.map_map, admitted]
    rfl
  have room (start : ℚ) : rate * ((call.nowMs : ℚ) / 1000 - start / 1000) =
      rate * ((call.nowMs : ℚ) - start) / 1000 := by ring
  have length : (grants ledger).length = ledger.length := List.length_map ..
  simp only [Fits, opens, amounts, room, length]

/-- The lazily refilled bucket decides exactly as the token-bucket policy does
on the whole history of its key, whatever happens on other keys. -/
theorem consume_allowed_iff_windows {buckets : Buckets} {capacity rate : ℚ} {earlier : List Call}
    {call : Call} (absent : buckets call.key = none)
    (uniform : Uniform capacity rate ((earlier ++ [call]).filter (·.key = call.key)))
    (ordered : Ordered ((earlier ++ [call]).filter (·.key = call.key))) :
    ((consume (after consume buckets earlier) call).1.allowed = true ↔
      ∀ j ≤ (ledgerOf buckets call.key earlier).length,
        admitted ((ledgerOf buckets call.key earlier).drop j) + call.cost ≤
          capacity + rate * ((call.nowMs : ℚ) -
            windowStart (ledgerOf buckets call.key earlier) call j) / 1000) ∧
    (consume (after consume buckets earlier) call).1 =
      (consume (after consume buckets (earlier.filter (·.key = call.key))) call).1 := by
  have own : (earlier ++ [call]).filter (·.key = call.key) =
      earlier.filter (·.key = call.key) ++ [call] := by
    rw [List.filter_append]
    simp
  rw [own] at uniform ordered
  constructor
  · change (consumeRow call (after consume buckets earlier call.key)).1.allowed = true ↔ _
    rw [consumeRow_allowed, after_cell, ledgerOf_cell, absent, le_refilled_iff_fits uniform ordered,
      fits_grants_iff]
  · change (consumeRow call (after consume buckets earlier call.key)).1 =
      (consumeRow call (after consume buckets _ call.key)).1
    rw [after_cell, after_cell, List.filter_filter]
    simp only [Bool.and_self]

/-- Two calls of client `a` with one of client `b` in between. -/
def mixedCalls : List Call :=
  [⟨"rl:a", 2, 1, 2, 0⟩, ⟨"rl:b", 9, 0, 4, 700⟩, ⟨"rl:a", 2, 1, 1, 500⟩]

theorem mixedCalls_windows :
    ((consume (after consume (fun _ => none) mixedCalls) ⟨"rl:a", 2, 1, 1, 1000⟩).1.allowed = true ↔
      ∀ j ≤ (ledgerOf (fun _ => none) "rl:a" mixedCalls).length,
        admitted ((ledgerOf (fun _ => none) "rl:a" mixedCalls).drop j) + 1 ≤
          2 + 1 * (((1000 : Int) : ℚ) -
            windowStart (ledgerOf (fun _ => none) "rl:a" mixedCalls) ⟨"rl:a", 2, 1, 1, 1000⟩ j) / 1000) ∧
    (consume (after consume (fun _ => none) mixedCalls) ⟨"rl:a", 2, 1, 1, 1000⟩).1 =
      (consume (after consume (fun _ => none) (mixedCalls.filter (·.key = "rl:a")))
        ⟨"rl:a", 2, 1, 1, 1000⟩).1 :=
  consume_allowed_iff_windows rfl (by simp [Uniform, mixedCalls]) (by simp [Ordered, mixedCalls])

end SqliteStore
end UrlShortener
