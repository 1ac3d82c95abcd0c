import Mathlib.Algebra.Order.Ring.Rat
import Mathlib.Data.Finset.Card
import UrlShortener.General.Conservation

namespace UrlShortener
open Transition Conservation

/-- The table `link_hits`; a code without a row has no hits. -/
abbrev LinkHits := String → Nat

/-- `record_hits_bulk` as one transaction that succeeds. -/
def LinkHits.recordHitsBulk (hits : LinkHits) (batch : Multiset String) : LinkHits :=
  fun code => hits code + batch.count code

/-- `HitCounter`. The `Counter` of its pending hits is a multiset of codes. -/
structure HitCounter where
  flushInterval : ℚ := 2
  maxPending : Nat := 10000
  counts : Multiset String := 0
  lastFlush : ℚ
  flushes : Nat := 0
  recorded : Nat := 0

namespace HitCounter

/-- The guarded part of `record`, with the number of pending codes. -/
def record (c : HitCounter) (code : String) : Nat × HitCounter :=
  let counts := code ::ₘ c.counts
  (counts.toFinset.card, { c with counts := counts, recorded := c.recorded + 1 })

/-- Whether `record` goes on to flush. -/
def due (c : HitCounter) (pending : Nat) (now : ℚ) : Bool :=
  c.maxPending ≤ pending || c.flushInterval ≤ now - c.lastFlush

/-- The guarded part of `flush`, with the batch it takes. -/
def swap (c : HitCounter) (now : ℚ) : Multiset String × HitCounter :=
  (c.counts, { c with counts := 0, lastFlush := now })

/-- `_counts.update(batch)` after a failed write. -/
def merge (c : HitCounter) (batch : Multiset String) : HitCounter :=
  { c with counts := c.counts + batch }

end HitCounter

/-- What a thread does with some counter. -/
inductive HitPhase (κ : Type)
  | idle
  | recorded (k : κ) (pending : Nat)
  | flushing (k : κ)
  | writing (k : κ) (batch : Multiset String)
  | merging (k : κ) (batch : Multiset String)
  | flushed (written : Nat)

def HitPhase.free {κ : Type} : HitPhase κ → Bool
  | .idle | .flushed _ => true
  | _ => false

/-- The batch a thread has taken out of a counter. -/
def HitPhase.batch {κ : Type} : HitPhase κ → Multiset String
  | .writing _ batch | .merging _ batch => batch
  | _ => 0

theorem HitPhase.batch_of_free {κ : Type} {phase : HitPhase κ} (free : phase.free = true) : phase.batch = 0 := by
  cases phase with
  | idle => rfl
  | flushed written => rfl
  | _ => cases free

/-- Any number of counters over one store, and of threads that use them. The
store writes a batch as a whole or not at all. -/
structure HitCounting (κ τ : Type) where
  hits : LinkHits
  counter : κ → HitCounter
  thread : τ → HitPhase κ

namespace HitCounting
variable {κ τ : Type}

inductive Event (κ τ : Type)
  | record (t : τ) (k : κ) (code : String)
  /-- A thread that has recorded a hit looks whether a flush is due. -/
  | trigger (t : τ) (now : ℚ)
  | flush (t : τ) (k : κ)
  | swap (t : τ) (k : κ) (now : ℚ)
  /-- The store adds the batch. -/
  | write (t : τ)
  /-- The store raises and adds nothing. -/
  | reject (t : τ)
  | merge (t : τ)

/-- The calls `record(code)`. -/
def Event.records (code : String) : Event κ τ → Bool
  | .record _ _ other => other = code
  | _ => false

/-- Steps of flushes that succeed. -/
def Event.flushes : Event κ τ → Bool
  | .record .. | .reject _ => false
  | _ => true

/-- Counters as they are constructed, over an empty table. -/
def start (flushInterval : κ → ℚ) (maxPending : κ → Nat) (created : κ → ℚ) : HitCounting κ τ where
  hits _ := 0
  counter k := { flushInterval := flushInterval k, maxPending := maxPending k, lastFlush := created k }
  thread _ := .idle

variable [DecidableEq κ] [DecidableEq τ]

def put (w : HitCounting κ τ) (k : κ) (c : HitCounter) (t : τ) (phase : HitPhase κ) : HitCounting κ τ :=
  { w with counter := Function.update w.counter k c, thread := Function.update w.thread t phase }

def turn (w : HitCounting κ τ) (t : τ) (phase : HitPhase κ) : HitCounting κ τ :=
  { w with thread := Function.update w.thread t phase }

def perform (w : HitCounting κ τ) : Event κ τ → Option (HitCounting κ τ)
  | .record t k code =>
    if (w.thread t).free then
      let (pending, c) := (w.counter k).record code
      some (w.put k c t (.recorded k pending))
    else none
  | .trigger t now => match w.thread t with
    | .recorded k pending => some (w.turn t (if (w.counter k).due pending now then .flushing k else .idle))
    | _ => none
  | .flush t k => if (w.thread t).free then some (w.turn t (.flushing k)) else none
  | .swap t k now => match w.thread t with
    | .flushing j =>
      if j = k then
        let (batch, c) := (w.counter k).swap now
        some (w.put k c t (if batch = 0 then .flushed 0 else .writing k batch))
      else none
    | _ => none
  | .write t => match w.thread t with
    | .writing k batch =>
      let c := w.counter k
      some { w.put k { c with flushes := c.flushes + 1 } t (.flushed batch.toFinset.card) with
        hits := w.hits.recordHitsBulk batch }
    | _ => none
  | .reject t => match w.thread t with
    | .writing k batch => some (w.turn t (.merging k batch))
    | _ => none
  | .merge t => match w.thread t with
    | .merging k batch => some (w.put k ((w.counter k).merge batch) t (.flushed 0))
    | _ => none

def Step (w : HitCounting κ τ) (event : Event κ τ) (w' : HitCounting κ τ) : Prop :=
  w.perform event = some w'

/-- The steps one by one. -/
inductive Move (w : HitCounting κ τ) : Event κ τ → HitCounting κ τ → Prop
  | recorded {t} (k : κ) (code : String) : (w.thread t).free = true →
      Move w (.record t k code)
        (w.put k ((w.counter k).record code).2 t (.recorded k ((w.counter k).record code).1))
  | triggered {t k pending} (now : ℚ) {phase} : w.thread t = .recorded k pending → phase.batch = 0 →
      (∀ j batch, phase ≠ .merging j batch) → Move w (.trigger t now) (w.turn t phase)
  | begun {t} (k : κ) : (w.thread t).free = true → Move w (.flush t k) (w.turn t (.flushing k))
  | swapped {t k} (now : ℚ) {phase} : w.thread t = .flushing k → phase.batch = (w.counter k).counts →
      (∀ j batch, phase ≠ .merging j batch) →
      Move w (.swap t k now) (w.put k ((w.counter k).swap now).2 t phase)
  | written {t k batch} : w.thread t = .writing k batch →
      Move w (.write t) { w.put k { w.counter k with flushes := (w.counter k).flushes + 1 } t
        (.flushed batch.toFinset.card) with hits := w.hits.recordHitsBulk batch }
  | rejected {t k batch} : w.thread t = .writing k batch → Move w (.reject t) (w.turn t (.merging k batch))
  | merged {t k batch} : w.thread t = .merging k batch →
      Move w (.merge t) (w.put k ((w.counter k).merge batch) t (.flushed 0))

section
variable {w w' : HitCounting κ τ} {event : Event κ τ} {trace : List (Event κ τ)}

theorem Step.move (taken : w.Step event w') : w.Move event w' := by
  unfold Step at taken
  cases event with
  | record t k code =>
    obtain ⟨free, same⟩ := Option.ite_none_right_eq_some.mp taken
    cases same
    exact .recorded k code free
  | trigger t now =>
    simp only [perform] at taken
    split at taken
    · rename_i k pending here
      cases taken
      refine .triggered now here ?_ ?_
      · split <;> rfl
      · intro j batch
        split <;> simp
    · cases taken
  | flush t k =>
    obtain ⟨free, same⟩ := Option.ite_none_right_eq_some.mp taken
    cases same
    exact .begun k free
  | swap t k now =>
    simp only [perform] at taken
    split at taken
    · rename_i j here
      obtain ⟨rfl, same⟩ := Option.ite_none_right_eq_some.mp taken
      cases same
      refine .swapped now here ?_ ?_
      · split
        · rename_i empty
          exact empty.symm
        · rfl
      · intro i batch
        split <;> simp
    · cases taken
  | write t =>
    simp only [perform] at taken
    split at taken
    · rename_i k batch here
      cases taken
      exact .written here
    · cases taken
  | reject t =>
    simp only [perform] at taken
    split at taken
    · rename_i k batch here
      cases taken
      exact .rejected here
    · cases taken
  | merge t =>
    simp only [perform] at taken
    split at taken
    · rename_i k batch here
      cases taken
      exact .merged here
    · cases taken

end

section
variable [Fintype κ] [Fintype τ]

/-- The pending hits of a code, over all counters. -/
def pending (w : HitCounting κ τ) (code : String) : Nat :=
  ∑ k, (w.counter k).counts.count code

/-- The hits of a code in the batches that are being flushed. -/
def inFlight (w : HitCounting κ τ) (code : String) : Nat :=
  ∑ t, (w.thread t).batch.count code

def total (w : HitCounting κ τ) (code : String) : Nat :=
  w.hits code + w.pending code + w.inFlight code

variable {w w' : HitCounting κ τ} {event : Event κ τ} {trace : List (Event κ τ)} {code : String}

/-- What one counter and one thread exchange with the store. -/
theorem total_of_cells {k : κ} {c : HitCounter} {t : τ} {phase : HitPhase κ} {added : Nat}
    (counter : w'.counter = Function.update w.counter k c) (thread : w'.thread = Function.update w.thread t phase)
    (moved : w'.hits code + c.counts.count code + phase.batch.count code =
      w.hits code + (w.counter k).counts.count code + (w.thread t).batch.count code + added) :
    w'.total code = w.total code + added := by
  have pending : w'.pending code + (w.counter k).counts.count code = w.pending code + c.counts.count code := by
    rw [HitCounting.pending, counter]
    exact sum_update (fun c : HitCounter => c.counts.count code) w.counter k c
  have inFlight : w'.inFlight code + (w.thread t).batch.count code = w.inFlight code + phase.batch.count code := by
    rw [HitCounting.inFlight, thread]
    exact sum_update (fun phase : HitPhase κ => phase.batch.count code) w.thread t phase
  rw [total, total]
  omega

omit [DecidableEq κ] in
theorem total_turn {t : τ} {phase : HitPhase κ} (same : phase.batch = (w.thread t).batch) :
    (w.turn t phase).total code = w.total code := by
  have inFlight : (w.turn t phase).inFlight code = w.inFlight code := by
    have count : phase.batch.count code = (w.thread t).batch.count code := by rw [same]
    exact @sum_update_of_eq τ (HitPhase κ) _ _ (fun phase => phase.batch.count code) w.thread t phase count
  have pending : (w.turn t phase).pending code = w.pending code := rfl
  have hits : (w.turn t phase).hits = w.hits := rfl
  rw [total, total, inFlight, pending, hits]

/-- Every step moves hits about, or adds the one it records. -/
theorem Step.conserves (code : String) (taken : w.Step event w') :
    w'.total code = w.total code + if event.records code = true then 1 else 0 := by
  cases taken.move with
  | @recorded t k other free =>
    have counted : ((w.counter k).record other).2.counts.count code =
        (w.counter k).counts.count code + if other = code then 1 else 0 := by
      simp only [HitCounter.record, Multiset.count_cons, eq_comm]
    have empty := HitPhase.batch_of_free free
    refine total_of_cells rfl rfl ?_
    rw [counted, empty]
    simp only [put, HitPhase.batch, Event.records, decide_eq_true_eq]
    omega
  | @triggered t k pending now phase here empty _ =>
    refine total_turn ?_
    rw [here, empty]
    rfl
  | @begun t k free =>
    refine total_turn ?_
    rw [HitPhase.batch_of_free free]
    rfl
  | @swapped t k now phase here batch _ =>
    refine total_of_cells rfl rfl ?_
    rw [here, batch]
    simp only [put, HitCounter.swap, HitPhase.batch, Multiset.count_zero, Event.records, Bool.false_eq_true, if_false]
    omega
  | @written t k batch here =>
    refine total_of_cells rfl rfl ?_
    rw [here]
    simp only [LinkHits.recordHitsBulk, HitPhase.batch, Multiset.count_zero, Event.records, Bool.false_eq_true,
      if_false]
    omega
  | @rejected t k batch here =>
    refine total_turn ?_
    rw [here]
    rfl
  | @merged t k batch here =>
    refine total_of_cells rfl rfl ?_
    rw [here]
    simp only [put, HitCounter.merge, HitPhase.batch, Multiset.count_add, Multiset.count_zero, Event.records,
      Bool.false_eq_true, if_false]
    omega

end

section
variable {w w' : HitCounting κ τ} {event : Event κ τ} {later : List (Event κ τ)}

/-- No batch waits to be merged back. -/
def Settled (w : HitCounting κ τ) : Prop :=
  ∀ t k batch, w.thread t = .merging k batch → batch = 0

omit [DecidableEq κ] in
theorem Settled.update (settled : w.Settled) {t : τ} {phase : HitPhase κ}
    (thread : w'.thread = Function.update w.thread t phase) (merging : ∀ k batch, phase ≠ .merging k batch) :
    w'.Settled := by
  intro s k batch here
  rw [thread] at here
  by_cases own : s = t
  · rw [own, Function.update_self] at here
    exact absurd here (merging k batch)
  · rw [Function.update_of_ne own] at here
    exact settled s k batch here

theorem Step.settled (settled : w.Settled) (taken : w.Step event w') (flushes : event.flushes = true) :
    w'.Settled := by
  cases taken.move with
  | recorded k code free => cases flushes
  | rejected here => cases flushes
  | triggered now here empty writes => exact settled.update rfl writes
  | begun k free => exact settled.update rfl (by simp)
  | swapped now here batch writes => exact settled.update rfl writes
  | written here => exact settled.update rfl (by simp)
  | merged here => exact settled.update rfl (by simp)

/-- A swap empties its counter, and no flush that succeeds fills it again. -/
theorem Step.drained (settled : w.Settled) (taken : w.Step event w') (flushes : event.flushes = true) {k : κ}
    (drained : (w.counter k).counts = 0 ∨ ∃ t now, event = .swap t k now) : (w'.counter k).counts = 0 := by
  have update {j : κ} {c : HitCounter} (own : k = j → c.counts = 0) (other : k ≠ j → (w.counter k).counts = 0) :
      (Function.update w.counter j c k).counts = 0 := by
    by_cases same : k = j
    · rw [same, Function.update_self]
      exact own same
    · rw [Function.update_of_ne same]
      exact other same
  cases taken.move with
  | recorded j code free => cases flushes
  | rejected here => cases flushes
  | triggered now here empty writes => exact drained.resolve_right (by simp)
  | begun j free => exact drained.resolve_right (by simp)
  | @swapped t j now phase here batch writes =>
    refine update (fun _ => rfl) fun different => ?_
    refine drained.resolve_right ?_
    rintro ⟨s, later, same⟩
    cases same
    exact different rfl
  | written here =>
    have before := drained.resolve_right (by simp)
    refine update ?_ fun _ => before
    rintro rfl
    exact before
  | @merged t j batch here =>
    have before := drained.resolve_right (by simp)
    have nothing := settled t j batch here
    refine update ?_ fun _ => before
    rintro rfl
    rw [HitCounter.merge, before, nothing, add_zero]

theorem Settled.run (settled : w.Settled) (run : Run Step w later w')
    (flushes : ∀ event ∈ later, event.flushes = true) :
    w'.Settled ∧ ∀ k t now, .swap t k now ∈ later → (w'.counter k).counts = 0 := by
  induction run with
  | start =>
    refine ⟨settled, fun k t now member => ?_⟩
    cases member
  | @next trace s label u _ taken ih =>
    obtain ⟨before, drained⟩ := ih fun event member => flushes event (List.mem_append_left _ member)
    have own := flushes label (List.mem_append_right _ (List.mem_singleton_self label))
    refine ⟨taken.settled before own, fun k t now member => taken.drained before own ?_⟩
    rcases List.mem_append.mp member with earlier | last
    · exact Or.inl (drained k t now earlier)
    · exact Or.inr ⟨t, now, (List.mem_singleton.mp last).symm⟩

end

section
variable [Fintype κ] [Fintype τ] {flushInterval : κ → ℚ} {maxPending : κ → Nat} {created : κ → ℚ}
  {w : HitCounting κ τ} {trace : List (Event κ τ)}

theorem conserved_of_run (run : Run Step (start flushInterval maxPending created) trace w) (code : String) :
    w.total code = trace.countP (Event.records code) := by
  have balance := balance_of_run (fun s label t (taken : Step s label t) => taken.conserves code) run
  have empty : (start flushInterval maxPending created : HitCounting κ τ).total code = 0 := by
    simp [total, pending, inFlight, start, HitPhase.batch]
  rw [balance, empty, Nat.zero_add]

/-- No hit is lost or counted twice: it is in the store, pending in a counter
or in a batch. Once every counter has been flushed and no batch is under way,
all hits are in the store. -/
theorem hits_conserved (run : Run Step (start flushInterval maxPending created) trace w) (code : String) :
    w.hits code + ∑ k, (w.counter k).counts.count code + ∑ t, (w.thread t).batch.count code =
      trace.countP (Event.records code) ∧
    ∀ later u, Run Step w later u → (∀ event ∈ later, event.flushes = true) →
      (∀ t, (w.thread t).batch = 0) → (∀ k, ∃ t now, .swap t k now ∈ later) → (∀ t, (u.thread t).batch = 0) →
        u.hits code = trace.countP (Event.records code) := by
  refine ⟨conserved_of_run run code, fun later u rest flushes idle flushed done => ?_⟩
  have settled : w.Settled := by
    intro t k batch here
    have nothing := idle t
    rw [here] at nothing
    exact nothing
  have drained (k : κ) : (u.counter k).counts = 0 := by
    obtain ⟨t, now, member⟩ := flushed k
    exact (settled.run rest flushes).2 k t now member
  have recordless : later.countP (Event.records code) = 0 := by
    refine List.countP_eq_zero.mpr fun event member records => ?_
    have own := flushes event member
    cases event with
    | record => cases own
    | _ => cases records
  have whole := conserved_of_run (run.append rest) code
  have pending : u.pending code = 0 :=
    Finset.sum_eq_zero fun k _ => by rw [drained k, Multiset.count_zero]
  have inFlight : u.inFlight code = 0 :=
    Finset.sum_eq_zero fun t _ => by rw [done t, Multiset.count_zero]
  rw [List.countP_append, recordless, total, pending, inFlight] at whole
  omega

end

/-- A batch is rejected while the other counter and the other thread go on; a
later flush of both counters brings all three hits to the store. -/
theorem hits_conserved_rejected :
    ∃ w u : HitCounting Bool Bool,
      Run Step (start (fun _ => 2) (fun _ => 1) fun _ => 0)
        [.record true true "c", .trigger true 0, .swap true true 0, .record false true "c", .reject true,
          .merge true, .record true false "c", .trigger false 0, .trigger true 0] w ∧
      Run Step w [.swap false true 1, .write false, .swap true false 1, .write true] u ∧ u.hits "c" = 3 := by
  have executed : ∃ w : HitCounting Bool Bool,
      Run Step (start (fun _ => 2) (fun _ => 1) fun _ => 0)
        [.record true true "c", .trigger true 0, .swap true true 0, .record false true "c", .reject true,
          .merge true, .record true false "c", .trigger false 0, .trigger true 0] w ∧
      (∀ t, (w.thread t).batch = 0) ∧
      (execute perform w [.swap false true 1, .write false, .swap true false 1, .write true]).any (fun u =>
        ∀ t, (u.thread t).batch = 0) = true :=
    Run.exists_of_execute (fun _ _ _ done => done) (by decide +kernel)
  obtain ⟨w, run, idle, more⟩ := executed
  obtain ⟨u, continued, done⟩ := (Option.any_eq_true _ _).mp more
  have rest : Run Step w [.swap false true 1, .write false, .swap true false 1, .write true] u :=
    .of_execute (fun _ _ _ taken => taken) continued
  refine ⟨w, u, run, rest, ?_⟩
  refine (hits_conserved run "c").2 _ u rest ?_ idle ?_ (of_decide_eq_true done)
  · intro event member
    simp only [List.mem_cons, List.not_mem_nil, or_false] at member
    rcases member with rfl | rfl | rfl | rfl <;> rfl
  · intro k
    cases k with
    | true => exact ⟨false, 1, by simp⟩
    | false => exact ⟨true, 1, by simp⟩

end HitCounting
end UrlShortener
