import UrlShortener.HitCounter

namespace UrlShortener
open Transition

namespace HitCounter

/-- `flush` with a store that does not fail. -/
def flush (c : HitCounter) (hits : LinkHits) (now : ℚ) : HitCounter × LinkHits :=
  let (batch, c) := c.swap now
  if batch = 0 then (c, hits) else ({ c with flushes := c.flushes + 1 }, hits.recordHitsBulk batch)

/-- `record` as a whole. -/
def recordHit (c : HitCounter) (hits : LinkHits) (code : String) (now : ℚ) : HitCounter × LinkHits :=
  let (pending, c) := c.record code
  if c.due pending now then c.flush hits now else (c, hits)

end HitCounter

/-- A counter over its store as time goes by, with all hits so far and when
they were recorded. -/
structure HitHistory where
  counter : HitCounter
  hits : LinkHits
  clock : ℚ
  recorded : List (String × ℚ) := []

namespace HitHistory

/-- Time passes between the calls. -/
inductive Call
  | wait (until' : ℚ)
  | record (code : String)
  | flush
  deriving DecidableEq

/-- A counter as it is constructed, over a table that may have hits. -/
def start (flushInterval : ℚ) (maxPending : Nat) (created : ℚ) (stored : LinkHits) : HitHistory where
  counter := { flushInterval := flushInterval, maxPending := maxPending, lastFlush := created }
  hits := stored
  clock := created

def perform (h : HitHistory) : Call → Option HitHistory
  | .wait until' => if h.clock ≤ until' then some { h with clock := until' } else none
  | .record code =>
    let called := h.counter.recordHit h.hits code h.clock
    some { h with counter := called.1, hits := called.2, recorded := h.recorded ++ [(code, h.clock)] }
  | .flush =>
    let called := h.counter.flush h.hits h.clock
    some { h with counter := called.1, hits := called.2 }

def Step (h : HitHistory) (call : Call) (h' : HitHistory) : Prop :=
  h.perform call = some h'

/-- The call writes what is pending. -/
def flushes (h : HitHistory) : Call → Bool
  | .wait _ => false
  | .record code => (h.counter.record code).2.due (h.counter.record code).1 h.clock
  | .flush => true

/-- Hits recorded an interval ago or earlier are in the store, over those it began with. -/
def Durable (stored : LinkHits) (h : HitHistory) : Prop :=
  ∀ code, stored code + h.recorded.countP (fun hit => hit.1 = code ∧ hit.2 ≤ h.clock - h.counter.flushInterval) ≤
    h.hits code

/-- One of the calls from `h` on writes what is pending. -/
def Flushed (h : HitHistory) (calls : List Call) : Prop :=
  ∃ before call after u, calls = before ++ call :: after ∧ Run Step h before u ∧ u.flushes call = true

/-- By the time an interval has passed since a hit, a call has flushed. -/
def Attended (start : HitHistory) (trace : List Call) : Prop :=
  ∀ front code back, front ++ .record code :: back <+: trace → ∀ h u, Run Step start front h →
    Run Step h (.record code :: back) u → h.clock + h.counter.flushInterval ≤ u.clock → h.Flushed (.record code :: back)

/-- The hit that a call records. -/
def Call.adds (now : ℚ) : Call → List (String × ℚ)
  | .record code => [(code, now)]
  | _ => []

end HitHistory

theorem LinkHits.recordHitsBulk_zero (hits : LinkHits) : hits.recordHitsBulk 0 = hits := by
  funext code
  rw [LinkHits.recordHitsBulk, Multiset.count_zero, Nat.add_zero]

theorem HitCounter.flush_spec (c : HitCounter) (hits : LinkHits) (now : ℚ) :
    (c.flush hits now).1.counts = 0 ∧ (c.flush hits now).1.flushInterval = c.flushInterval ∧
      (c.flush hits now).2 = hits.recordHitsBulk c.counts := by
  by_cases empty : c.counts = 0
  · simp only [flush, swap, empty, if_true, LinkHits.recordHitsBulk_zero, and_self]
  · simp only [flush, swap, empty, if_false, and_self]

namespace HitHistory
variable {h h' u : HitHistory} {call : Call} {stored : LinkHits} {calls trace : List Call}

/-- What one call does: it flushes all that is pending with its own hit, or it
writes nothing. -/
structure Effect (h : HitHistory) (call : Call) (h' : HitHistory) : Prop where
  interval : h'.counter.flushInterval = h.counter.flushInterval
  clock : h.clock ≤ h'.clock
  recorded : h'.recorded = h.recorded ++ call.adds h.clock
  written : h.flushes call = true → h'.counter.counts = 0 ∧
    h'.hits = h.hits.recordHitsBulk (h.counter.counts + ↑((call.adds h.clock).map Prod.fst))
  pending : h.flushes call = false → h'.hits = h.hits ∧
    h'.counter.counts = h.counter.counts + ↑((call.adds h.clock).map Prod.fst)

theorem Step.effect (taken : h.Step call h') : h.Effect call h' := by
  cases call with
  | wait until' =>
    obtain ⟨later, same⟩ := Option.ite_none_right_eq_some.mp taken
    cases same
    refine ⟨rfl, later, (List.append_nil _).symm, fun flushes => ?_, fun _ => ⟨rfl, (add_zero _).symm⟩⟩
    cases flushes
  | record code =>
    obtain rfl := Option.some.inj taken
    have added : (h.counter.record code).2.counts = h.counter.counts + ↑([(code, h.clock)].map Prod.fst) := by
      show code ::ₘ h.counter.counts = h.counter.counts + {code}
      rw [← Multiset.singleton_add, add_comm]
    obtain ⟨empty, interval, hits⟩ := (h.counter.record code).2.flush_spec h.hits h.clock
    by_cases due : (h.counter.record code).2.due (h.counter.record code).1 h.clock = true
    · have called : h.counter.recordHit h.hits code h.clock = (h.counter.record code).2.flush h.hits h.clock := if_pos due
      refine ⟨?_, le_refl _, rfl, fun _ => ?_, fun silent => ?_⟩
      · rw [called, interval]
        rfl
      · rw [called, empty, hits, added]
        exact ⟨rfl, rfl⟩
      · rw [flushes, due] at silent
        cases silent
    · have called : h.counter.recordHit h.hits code h.clock = ((h.counter.record code).2, h.hits) := if_neg due
      refine ⟨?_, le_refl _, rfl, fun loud => absurd loud due, fun _ => ?_⟩
      · rw [called]
        rfl
      · rw [called]
        exact ⟨rfl, added⟩
  | flush =>
    obtain rfl := Option.some.inj taken
    obtain ⟨empty, interval, hits⟩ := h.counter.flush_spec h.hits h.clock
    refine ⟨interval, le_refl _, (List.append_nil _).symm, fun _ => ⟨empty, ?_⟩, fun silent => ?_⟩
    · show (h.counter.flush h.hits h.clock).2 = h.hits.recordHitsBulk (h.counter.counts + 0)
      rw [hits, add_zero]
    · cases silent

/-- Calls without a flush write nothing. -/
theorem unflushed_run (run : Run Step h calls u) (silent : ¬ h.Flushed calls) : u.hits = h.hits := by
  induction run with
  | start => rfl
  | @next before s call u run taken ih =>
    have earlier : ¬ h.Flushed before := by
      rintro ⟨front, last, back, v, rfl, reached, flushes⟩
      exact silent ⟨front, last, back ++ [call], v, by rw [List.append_assoc, List.cons_append], reached, flushes⟩
    have quiet : s.flushes call = false :=
      eq_false_of_ne_true fun flushes => silent ⟨before, call, [], s, rfl, run, flushes⟩
    rw [(taken.effect.pending quiet).1, ih earlier]

theorem Call.time_of_adds {now : ℚ} {hit : String × ℚ} (member : hit ∈ call.adds now) : hit.2 = now := by
  cases call with
  | wait => cases member
  | record code => exact List.mem_singleton.mp member ▸ rfl
  | flush => cases member

/-- The hits of a run come one after another, none of them later than the clock. -/
theorem recorded_of_run (run : Run Step h calls u) : ∃ more, u.recorded = h.recorded ++ more ∧
    h.clock ≤ u.clock ∧ u.counter.flushInterval = h.counter.flushInterval ∧ ∀ hit ∈ more, hit.2 ≤ u.clock := by
  induction run with
  | start => exact ⟨[], (List.append_nil _).symm, le_refl _, rfl, fun hit member => by cases member⟩
  | @next before s call u run taken ih =>
    obtain ⟨more, same, later, interval, past⟩ := ih
    have effect := taken.effect
    refine ⟨more ++ call.adds s.clock, ?_, later.trans effect.clock, effect.interval.trans interval, ?_⟩
    · rw [effect.recorded, same, List.append_assoc]
    · intro hit member
      rcases List.mem_append.mp member with old | new
      · exact (past hit old).trans effect.clock
      · exact (Call.time_of_adds new).trans_le effect.clock

/-- Every hit is in the store or pending; a pending one was recorded by a call
after which none has flushed. -/
def Accounted (stored : LinkHits) (start : HitHistory) (trace : List Call) (h : HitHistory) : Prop :=
  ∃ written waiting, h.recorded = written ++ waiting ∧ h.counter.counts = ↑(waiting.map Prod.fst) ∧
    (∀ code, h.hits code = stored code + (written.map Prod.fst).count code) ∧
    ∀ hit ∈ waiting, ∃ front code back s, trace = front ++ .record code :: back ∧ hit = (code, s.clock) ∧
      Run Step start front s ∧ Run Step s (.record code :: back) h ∧ ¬ s.Flushed (.record code :: back)

theorem not_flushed_nil : ¬ h.Flushed [] := by
  rintro ⟨before, call, after, _, same, _⟩
  exact absurd same.symm (List.append_ne_nil_of_right_ne_nil _ (List.cons_ne_nil _ _))

theorem flushed_snoc (run : Run Step h calls u) (flushed : h.Flushed (calls ++ [call])) :
    h.Flushed calls ∨ u.flushes call = true := by
  obtain ⟨before, last, after, v, same, reached, flushes⟩ := flushed
  rcases List.eq_nil_or_concat after with rfl | ⟨after, final, rfl⟩
  · obtain ⟨rfl, single⟩ := List.append_inj' same rfl
    cases single
    have unique := run.unique (fun _ _ _ _ first second => Option.some.inj (first.symm.trans second)) reached
    exact Or.inr (unique ▸ flushes)
  · refine Or.inl ⟨before, last, after, v, ?_, reached, flushes⟩
    rw [List.concat_eq_append, ← List.cons_append, ← List.append_assoc] at same
    exact (List.append_inj' same rfl).1

theorem Accounted.step {start : HitHistory} (accounted : Accounted stored start trace h) (run : Run Step start trace h)
    (taken : h.Step call h') : Accounted stored start (trace ++ [call]) h' := by
  obtain ⟨written, waiting, whole, counts, hits, origin⟩ := accounted
  have effect := taken.effect
  by_cases flushes : h.flushes call = true
  · obtain ⟨empty, stores⟩ := effect.written flushes
    refine ⟨h'.recorded, [], (List.append_nil _).symm, empty, fun code => ?_, fun hit member => by cases member⟩
    rw [stores, LinkHits.recordHitsBulk, hits, counts, effect.recorded, whole]
    simp only [Multiset.coe_add, Multiset.coe_count, List.map_append, List.count_append]
    omega
  · obtain ⟨kept, grown⟩ := effect.pending (eq_false_of_ne_true flushes)
    refine ⟨written, waiting ++ call.adds h.clock, ?_, ?_, fun code => by rw [kept, hits], ?_⟩
    · rw [effect.recorded, whole, List.append_assoc]
    · rw [grown, counts, List.map_append, Multiset.coe_add]
    · intro hit member
      rcases List.mem_append.mp member with old | new
      · obtain ⟨front, code, back, s, rfl, same, first, later, silent⟩ := origin hit old
        refine ⟨front, code, back ++ [call], s, ?_, same, first, later.next taken, fun flushed => ?_⟩
        · rw [List.append_assoc, List.cons_append]
        · rcases flushed_snoc later flushed with before | now
          · exact silent before
          · exact flushes now
      · cases call with
        | wait => cases new
        | flush => cases new
        | record code =>
          refine ⟨trace, code, [], h, rfl, List.mem_singleton.mp new, run, .single taken, fun flushed => ?_⟩
          rcases flushed_snoc (.start : Run Step h [] h) flushed with before | now
          · exact not_flushed_nil before
          · exact flushes now

section
variable {flushInterval created : ℚ} {maxPending : Nat}

theorem accounted_of_run (run : Run Step (start flushInterval maxPending created stored) trace h) :
    Accounted stored (start flushInterval maxPending created stored) trace h := by
  induction run with
  | start => exact ⟨[], [], rfl, rfl, fun _ => rfl, fun hit member => by cases member⟩
  | next before taken ih => exact ih.step before taken

theorem countP_le_count (recorded : List (String × ℚ)) (code : String) (bound : ℚ) :
    recorded.countP (fun hit => hit.1 = code ∧ hit.2 ≤ bound) ≤ (recorded.map Prod.fst).count code := by
  rw [List.count, List.countP_map]
  refine List.countP_mono_left fun hit _ counted => ?_
  exact beq_iff_eq.mpr (of_decide_eq_true counted).1

theorem durable_of_attended (run : Run Step (start flushInterval maxPending created stored) trace h)
    (attended : Attended (start flushInterval maxPending created stored) trace) : h.Durable stored := by
  intro code
  obtain ⟨written, waiting, whole, _, hits, origin⟩ := accounted_of_run run
  have recent : waiting.countP (fun hit => hit.1 = code ∧ hit.2 ≤ h.clock - h.counter.flushInterval) = 0 := by
    refine List.countP_eq_zero.mpr fun hit member counted => ?_
    obtain ⟨front, other, back, s, rfl, rfl, first, later, silent⟩ := origin hit member
    obtain ⟨_, _, _, interval, _⟩ := recorded_of_run later
    have old : s.clock ≤ h.clock - h.counter.flushInterval := (of_decide_eq_true counted).2
    rw [interval] at old
    exact silent (attended front other back (List.prefix_refl _) s h first later (le_sub_iff_add_le.mp old))
  have bound := countP_le_count written code (h.clock - h.counter.flushInterval)
  rw [whole, List.countP_append, recent, hits]
  omega

theorem attended_of_durable
    (durable : ∀ front h, front <+: trace → Run Step (start flushInterval maxPending created stored) front h →
      h.Durable stored) : Attended (start flushInterval maxPending created stored) trace := by
  intro front code back inside h u first later old
  by_contra silent
  have kept := unflushed_run later silent
  obtain ⟨written, waiting, whole, _, hits, _⟩ := accounted_of_run first
  obtain ⟨more, same, _, _, past⟩ := recorded_of_run first
  have split : ∃ more', u.recorded = h.recorded ++ (code, h.clock) :: more' := by
    obtain ⟨s, recording, rest⟩ := Run.split (show Run Step h ([.record code] ++ back) u from later)
    obtain ⟨more', grown, _⟩ := recorded_of_run rest
    obtain ⟨middle, none, taken⟩ := Run.snoc_inv (show Run Step h ([] ++ [.record code]) s from recording)
    cases none.unique (fun _ _ _ _ one other => Option.some.inj (one.symm.trans other)) .start
    exact ⟨more', by rw [grown, taken.effect.recorded, List.append_assoc]; rfl⟩
  obtain ⟨more', grown⟩ := split
  obtain ⟨_, _, _, interval, _⟩ := recorded_of_run later
  have before : h.clock ≤ u.clock - u.counter.flushInterval := by
    rw [interval]
    exact le_sub_iff_add_le.mpr old
  have all : h.recorded.countP (fun hit => hit.1 = code ∧ hit.2 ≤ u.clock - u.counter.flushInterval) =
      (h.recorded.map Prod.fst).count code := by
    rw [List.count, List.countP_map]
    refine List.countP_congr fun hit member => ?_
    have past : hit.2 ≤ h.clock := by
      rw [same] at member
      exact past hit member
    simp only [decide_eq_true_eq, past.trans before, and_true, Function.comp_apply, beq_iff_eq]
  have new : (((code, h.clock) :: more').countP fun hit => hit.1 = code ∧ hit.2 ≤ u.clock - u.counter.flushInterval) =
      (more'.countP fun hit => hit.1 = code ∧ hit.2 ≤ u.clock - u.counter.flushInterval) + 1 :=
    List.countP_cons_of_pos (decide_eq_true ⟨rfl, before⟩)
  have bound := durable _ u inside (first.append later) code
  rw [kept, hits, grown, List.countP_append, all, new, whole, List.map_append, List.count_append] at bound
  omega

/-- Every hit is in the store an interval after it was recorded, at all times of
a run, if some call has flushed by then whenever an interval has passed since a hit. -/
theorem durable_iff_attended (trace : List Call) :
    (∀ front h, front <+: trace → Run Step (start flushInterval maxPending created stored) front h →
      h.Durable stored) ↔ Attended (start flushInterval maxPending created stored) trace := by
  constructor
  · exact attended_of_durable
  · intro attended front h inside run
    refine durable_of_attended run fun earlier code back prior => ?_
    exact attended earlier code back (prior.trans inside)

end

/-- A hit and then silence: after a thousand seconds it is still not in the store. -/
theorem hit_pending_in_silence :
    ∃ h : HitHistory, Run Step (start 2 10000 0 fun _ => 0) [.wait 1, .record "abc", .wait 1000] h ∧
      h.recorded = [("abc", 1)] ∧ h.clock = 1000 ∧ h.hits "abc" = 0 ∧ ¬ h.Durable fun _ => 0 := by
  have executed : ∃ h : HitHistory, Run Step (start 2 10000 0 fun _ => 0) [.wait 1, .record "abc", .wait 1000] h ∧
      h.recorded = [("abc", 1)] ∧ h.clock = 1000 ∧ h.hits "abc" = 0 ∧ h.counter.flushInterval = 2 :=
    Run.exists_of_execute (fun _ _ _ taken => taken) (by decide +kernel)
  obtain ⟨h, run, recorded, clock, hits, interval⟩ := executed
  refine ⟨h, run, recorded, clock, hits, fun durable => ?_⟩
  have bound := durable "abc"
  rw [recorded, clock, hits, interval] at bound
  exact absurd bound (by decide +kernel)

end HitHistory
end UrlShortener
