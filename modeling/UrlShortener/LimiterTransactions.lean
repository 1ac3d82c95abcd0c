import UrlShortener.General.Run
import UrlShortener.General.SingleWriter
import UrlShortener.LimiterPolicy

namespace UrlShortener
namespace SqliteStore
open Machine Transition SingleWriter

/-- How far one `consume` has got. -/
inductive Phase
  | ready
  | begun
  | selected (row : Option Bucket)
  | upserted (decision : Decision)
  | returned (decision : Decision)
  /-- A statement raised; the handler's ROLLBACK comes next. -/
  | failing
  | raised
  deriving DecidableEq

/-- The database file and the calls made on it by all processes, each on a
connection of its own. -/
structure Sessions where
  db : Store Nat Buckets
  phase : Nat → Phase

inductive Statement
  | begin (id : Nat)
  | select (id : Nat)
  | upsert (id : Nat)
  | commit (id : Nat)
  | fail (id : Nat)
  | rollback (id : Nat)
  deriving DecidableEq

def Statement.caller : Statement → Nat
  | begin id | select id | upsert id | commit id | fail id | rollback id => id

def Sessions.advance (s : Sessions) (id : Nat) (db : Store Nat Buckets) (phase : Phase) : Sessions :=
  { db := db, phase := Function.update s.phase id phase }

def Sessions.start (buckets : Buckets) : Sessions :=
  { db := { committed := buckets }, phase := fun _ => .ready }

/-- Any statement may raise instead of taking effect, BEGIN and COMMIT too. The
connection is closed on the way out, so a transaction is over after the handler
even where ROLLBACK itself raises. -/
inductive Step (call : Nat → Call) : Sessions → Statement → Sessions → Prop
  | begin {s id} : s.phase id = .ready → s.db.writer = none →
      Step call s (.begin id) (s.advance id (s.db.begin id) .begun)
  | select {s id} : s.phase id = .begun →
      Step call s (.select id) (s.advance id s.db (.selected (s.db.view id (call id).key)))
  | upsert {s id row} : s.phase id = .selected row →
      Step call s (.upsert id) (s.advance id
        (s.db.write id fun buckets =>
          Function.update buckets (call id).key (some (consumeRow (call id) row).2))
        (.upserted (consumeRow (call id) row).1))
  | commit {s id decision} : s.phase id = .upserted decision →
      Step call s (.commit id) (s.advance id (s.db.commit id) (.returned decision))
  | failBegin {s id} : s.phase id = .ready → Step call s (.fail id) (s.advance id s.db .failing)
  | failSelect {s id} : s.phase id = .begun → Step call s (.fail id) (s.advance id s.db .failing)
  | failUpsert {s id row} : s.phase id = .selected row →
      Step call s (.fail id) (s.advance id s.db .failing)
  | failCommit {s id decision} : s.phase id = .upserted decision →
      Step call s (.fail id) (s.advance id s.db .failing)
  | rollback {s id} : s.phase id = .failing →
      Step call s (.rollback id) (s.advance id (s.db.rollback id) .raised)

@[simp] theorem Sessions.advance_db (s : Sessions) (id : Nat) (db : Store Nat Buckets) (phase : Phase) :
    (s.advance id db phase).db = db := rfl

@[simp] theorem Sessions.advance_self (s : Sessions) (id : Nat) (db : Store Nat Buckets) (phase : Phase) :
    (s.advance id db phase).phase id = phase :=
  Function.update_self ..

theorem Sessions.advance_other (s : Sessions) {id other : Nat} (db : Store Nat Buckets) (phase : Phase)
    (different : other ≠ id) : (s.advance id db phase).phase other = s.phase other :=
  Function.update_of_ne different ..

/-- The calls in the order of their commits. -/
def commitOrder (trace : List Statement) : List Nat :=
  trace.filterMap fun
    | .commit id => some id
    | _ => none

/-- What a call inside its transaction knows: it holds the lock, and its copy
is the committed table with its own write, if it has made it. -/
def Holds (call : Nat → Call) (db : Store Nat Buckets) (id : Nat) : Phase → Prop
  | .begun => db.writer = some (id, db.committed)
  | .selected row => db.writer = some (id, db.committed) ∧ row = db.committed (call id).key
  | .upserted decision => db.writer = some (id, (consume db.committed (call id)).2) ∧
      decision = (consume db.committed (call id)).1
  | _ => True

def Locked (call : Nat → Call) (s : Sessions) : Prop :=
  ∀ id, Holds call s.db id (s.phase id)

section Steps
variable {call : Nat → Call} {s t : Sessions} {label : Statement}

/-- Nobody touches the database under somebody else's transaction. -/
theorem Step.db_of_held (taken : Step call s label t) (locked : Locked call s) {other : Nat}
    {working : Buckets} (held : s.db.writer = some (other, working)) (different : other ≠ label.caller) :
    t.db = s.db := by
  cases taken with
  | begin _ free => rw [held] at free; cases free
  | select _ => rfl
  | @upsert id row here =>
    have own := locked id
    rw [here, Holds, held] at own
    exact absurd (congrArg Prod.fst (Option.some.inj own.1)) different
  | @commit id decision here =>
    have own := locked id
    rw [here, Holds, held] at own
    exact absurd (congrArg Prod.fst (Option.some.inj own.1)) different
  | failBegin _ => rfl
  | failSelect _ => rfl
  | failUpsert _ => rfl
  | failCommit _ => rfl
  | rollback _ => exact rollback_writer_other different held

theorem Holds.frame {db db' : Store Nat Buckets} {id : Nat} {phase : Phase}
    (holds : Holds call db id phase)
    (same : ∀ working, db.writer = some (id, working) → db' = db) : Holds call db' id phase := by
  cases phase with
  | begun => rw [same _ holds]; exact holds
  | selected row => rw [same _ holds.1]; exact holds
  | upserted decision => rw [same _ holds.1]; exact holds
  | _ => trivial

theorem Step.phase_other (taken : Step call s label t) {other : Nat} (different : other ≠ label.caller) :
    t.phase other = s.phase other := by
  cases taken <;> exact s.advance_other _ _ different

theorem Step.locked (taken : Step call s label t) (locked : Locked call s) : Locked call t := by
  intro other
  by_cases own : other = label.caller
  · subst own
    cases taken with
    | @begin id _ _ => rw [Statement.caller, s.advance_self]; rfl
    | @select id here =>
      have held := locked id
      rw [here] at held
      rw [Statement.caller, s.advance_self, view_writer held]
      exact ⟨held, rfl⟩
    | @upsert id row here =>
      have held := locked id
      rw [here] at held
      rw [Statement.caller, s.advance_self, s.advance_db, write_writer held.1, held.2]
      exact ⟨rfl, rfl⟩
    | _ => rw [Statement.caller, s.advance_self]; trivial
  · rw [taken.phase_other own]
    exact (locked other).frame fun working held => taken.db_of_held locked held own

/-- All a statement can do: a COMMIT publishes its call as if it had run alone
on the committed table, and nothing else is seen by anybody. -/
theorem Step.effect (taken : Step call s label t) (locked : Locked call s) :
    (∃ id decision, label = .commit id ∧ s.phase id = .upserted decision ∧
      t = s.advance id { committed := (consume s.db.committed (call id)).2 }
        (.returned (consume s.db.committed (call id)).1)) ∨
    ((∀ id, label ≠ .commit id) ∧ t.db.committed = s.db.committed ∧
      ∀ id decision, t.phase id = .returned decision ↔ s.phase id = .returned decision) := by
  have quiet {id : Nat} {db : Store Nat Buckets} {old new : Phase} (here : s.phase id = old)
      (before : ∀ decision, old ≠ .returned decision) (after : ∀ decision, new ≠ .returned decision)
      (other : Nat) (decision : Decision) :
      (s.advance id db new).phase other = .returned decision ↔ s.phase other = .returned decision := by
    by_cases same : other = id
    · subst same
      rw [s.advance_self, here]
      exact iff_of_false (after decision) (before decision)
    · rw [s.advance_other _ _ same]
  cases taken with
  | @commit id decision here =>
    have held := locked id
    rw [here] at held
    refine Or.inl ⟨id, decision, rfl, here, ?_⟩
    rw [commit_writer held.1, held.2]
  | begin here _ => exact Or.inr ⟨by simp, rfl, quiet here (by simp) (by simp)⟩
  | select here => exact Or.inr ⟨by simp, rfl, quiet here (by simp) (by simp)⟩
  | upsert here => exact Or.inr ⟨by simp, write_committed, quiet here (by simp) (by simp)⟩
  | failBegin here => exact Or.inr ⟨by simp, rfl, quiet here (by simp) (by simp)⟩
  | failSelect here => exact Or.inr ⟨by simp, rfl, quiet here (by simp) (by simp)⟩
  | failUpsert here => exact Or.inr ⟨by simp, rfl, quiet here (by simp) (by simp)⟩
  | failCommit here => exact Or.inr ⟨by simp, rfl, quiet here (by simp) (by simp)⟩
  | rollback here => exact Or.inr ⟨by simp, rollback_committed, quiet here (by simp) (by simp)⟩

end Steps

/-- The committed table and the returned decisions are those of the committed
calls run one after another. -/
structure Serial (call : Nat → Call) (buckets : Buckets) (trace : List Statement) (s : Sessions) : Prop where
  locked : Locked call s
  table : s.db.committed = after consume buckets ((commitOrder trace).map call)
  answers : List.Forall₂ (fun id entry => entry.1 = call id ∧ s.phase id = .returned entry.2)
    (commitOrder trace) (transcript consume buckets ((commitOrder trace).map call))
  returned : ∀ id, (∃ decision, s.phase id = .returned decision) ↔ id ∈ commitOrder trace
  once : (commitOrder trace).Nodup

theorem commitOrder_commit (trace : List Statement) (id : Nat) :
    commitOrder (trace ++ [.commit id]) = commitOrder trace ++ [id] := by
  rw [commitOrder, List.filterMap_append]
  rfl

theorem commitOrder_other {trace : List Statement} {label : Statement}
    (other : ∀ id, label ≠ .commit id) : commitOrder (trace ++ [label]) = commitOrder trace := by
  rw [commitOrder, List.filterMap_append]
  cases label with
  | commit id => exact absurd rfl (other id)
  | _ => exact List.append_nil _

section Runs
variable {call : Nat → Call} {buckets : Buckets} {trace : List Statement} {s t : Sessions}

theorem Serial.commit {id : Nat} {decision : Decision} (serial : Serial call buckets trace s)
    (here : s.phase id = .upserted decision)
    (locked : Locked call (s.advance id { committed := (consume s.db.committed (call id)).2 }
      (.returned (consume s.db.committed (call id)).1))) :
    Serial call buckets (trace ++ [.commit id])
      (s.advance id { committed := (consume s.db.committed (call id)).2 }
        (.returned (consume s.db.committed (call id)).1)) := by
  have fresh : id ∉ commitOrder trace := by
    intro earlier
    obtain ⟨old, returned⟩ := (serial.returned id).mpr earlier
    rw [here] at returned
    cases returned
  refine ⟨locked, ?_, ?_, ?_, ?_⟩
  · rw [commitOrder_commit, List.map_append, List.map_singleton, after_snoc, ← serial.table]
    rfl
  · rw [commitOrder_commit, List.map_append, List.map_singleton, transcript_snoc, ← serial.table]
    refine List.rel_append ?_ (.cons ⟨rfl, s.advance_self ..⟩ .nil)
    refine serial.answers.imp fun other entry known => ⟨known.1, ?_⟩
    have different : other ≠ id := by
      rintro rfl
      rw [here] at known
      cases known.2
    rw [s.advance_other _ _ different]
    exact known.2
  · intro other
    rw [commitOrder_commit, List.mem_append, List.mem_singleton, ← serial.returned other]
    by_cases same : other = id
    · subst same
      exact iff_of_true ⟨_, s.advance_self ..⟩ (Or.inr rfl)
    · rw [s.advance_other _ _ same]
      exact ⟨Or.inl, fun known => known.resolve_right same⟩
  · rw [commitOrder_commit]
    exact List.nodup_append.mpr ⟨serial.once, by simp,
      fun a member b single => by
        rw [List.mem_singleton.mp single]
        exact ne_of_mem_of_not_mem member fresh⟩

theorem Serial.quiet {label : Statement} (serial : Serial call buckets trace s) (locked : Locked call t)
    (other : ∀ id, label ≠ .commit id) (table : t.db.committed = s.db.committed)
    (returned : ∀ id decision, t.phase id = .returned decision ↔ s.phase id = .returned decision) :
    Serial call buckets (trace ++ [label]) t := by
  refine ⟨locked, ?_, ?_, ?_, ?_⟩ <;> rw [commitOrder_other other]
  · rw [table, serial.table]
  · exact serial.answers.imp fun id entry known => ⟨known.1, (returned id entry.2).mpr known.2⟩
  · intro id
    rw [← serial.returned id]
    exact exists_congr (returned id)
  · exact serial.once

theorem serial_of_run (run : Run (Step call) (.start buckets) trace s) :
    Serial call buckets trace s := by
  induction run with
  | start => exact ⟨fun _ => trivial, rfl, .nil, by simp [Sessions.start, commitOrder], .nil⟩
  | @next trace s label t _ taken ih =>
    have locked := taken.locked ih.locked
    rcases taken.effect ih.locked with ⟨id, decision, rfl, here, rfl⟩ | ⟨other, table, returned⟩
    · exact ih.commit here locked
    · exact ih.quiet locked other table returned

/-- A call that raised in the end has at no step changed a bucket. -/
theorem raised_quiet {before rest : List Statement} {label : Statement} {a b : Sessions}
    (first : Run (Step call) (.start buckets) before a) (taken : Step call a label b)
    (later : Run (Step call) b rest s) (raised : s.phase label.caller = .raised) :
    b.db.committed = a.db.committed := by
  rcases taken.effect (serial_of_run first).locked with ⟨id, decision, rfl, _, _⟩ | ⟨_, table, _⟩
  · have whole := serial_of_run (first.append (Run.cons taken later))
    have committed : id ∈ commitOrder (before ++ .commit id :: rest) := by
      rw [commitOrder, List.mem_filterMap]
      exact ⟨.commit id, by simp, rfl⟩
    obtain ⟨old, returned⟩ := (whole.returned id).mpr committed
    rw [Statement.caller, returned] at raised
    cases raised
  · exact table

end Runs

/-- Was this call admitted? -/
def Sessions.admits (s : Sessions) (id : Nat) : Bool :=
  match s.phase id with
  | .returned decision => decision.allowed
  | _ => false

theorem refilled_quota {call : Call} {bucket : Bucket} (rate : call.rate = 0)
    (room : bucket.tokens ≤ call.capacity) : refilled call (some bucket) = bucket.tokens := by
  rw [refilled_some, rate, mul_zero, add_zero, min_eq_right room]

/-- A stocked quota admits unit calls until less than one token is left. -/
theorem quota_count {capacity : ℚ} {bucket : Bucket} {calls : List Call}
    (unit : ∀ call ∈ calls, call.capacity = capacity ∧ call.rate = 0 ∧ call.cost = 1)
    (room : bucket.tokens ≤ capacity) :
    (transcript consumeCell (some bucket) calls).countP (·.2.allowed) =
      min calls.length ⌊bucket.tokens⌋₊ := by
  induction calls generalizing bucket with
  | nil => simp
  | cons call rest ih =>
    obtain ⟨full, rate, cost⟩ := unit call (by simp)
    have level : refilled call (some bucket) = bucket.tokens := refilled_quota rate (full ▸ room)
    have later : ∀ c ∈ rest, c.capacity = capacity ∧ c.rate = 0 ∧ c.cost = 1 :=
      fun c member => unit c (List.mem_cons_of_mem _ member)
    rw [transcript_cons, List.countP_cons, List.length_cons]
    by_cases enough : 1 ≤ bucket.tokens
    · have step : consumeCell (some bucket) call =
          (⟨true, some (bucket.tokens - 1), 0⟩, some ⟨bucket.tokens - 1, call.nowMs⟩) := by
        simp only [consumeCell, consumeRow, level, cost, enough, decide_true, if_true, retryAfter]
      have floor := Nat.floor_sub_one bucket.tokens
      have positive : 0 < ⌊bucket.tokens⌋₊ := Nat.floor_pos.mpr enough
      rw [step, ih later (by dsimp only; linarith), if_pos rfl, floor]
      omega
    · have step : consumeCell (some bucket) call =
          (⟨false, some bucket.tokens, ⊤⟩, some ⟨bucket.tokens, call.nowMs⟩) := by
        simp only [consumeCell, consumeRow, level, cost, rate, enough, decide_false,
          Bool.false_eq_true, if_false, retryAfter, le_refl, if_true]
      have empty : ⌊bucket.tokens⌋₊ = 0 := Nat.floor_eq_zero.mpr (not_le.mp enough)
      have tail := @ih ⟨bucket.tokens, call.nowMs⟩ later room
      rw [step, tail, if_neg Bool.false_ne_true]
      simp only [empty, Nat.min_zero, Nat.add_zero]

theorem quota_count_absent {capacity : ℚ} {calls : List Call}
    (unit : ∀ call ∈ calls, call.capacity = capacity ∧ call.rate = 0 ∧ call.cost = 1) :
    (transcript consumeCell none calls).countP (·.2.allowed) = min calls.length ⌊capacity⌋₊ := by
  cases calls with
  | nil => simp
  | cons call rest =>
    obtain ⟨full, _⟩ := unit call (by simp)
    have stocked : consumeCell (some ⟨capacity, call.nowMs⟩) call = consumeCell none call := by
      have level : refilled call (some ⟨capacity, call.nowMs⟩) = refilled call none := by
        simp [refilled, full]
      simp only [consumeCell, consumeRow, level]
    have count := @quota_count capacity ⟨capacity, call.nowMs⟩ _ unit le_rfl
    rw [transcript_cons, stocked] at count
    exact count

/-- The calls of one key among the committed ones. -/
def callsOf (call : Nat → Call) (key : String) (trace : List Statement) : List Nat :=
  (commitOrder trace).filter fun id => (call id).key = key

/-- Serialisability of a run of interleaved `consume` statements. -/
structure Serialisable (call : Nat → Call) (buckets : Buckets) (trace : List Statement)
    (s : Sessions) : Prop where
  /-- The calls that returned are exactly those in the commit order, each once. -/
  returned : ∀ id, (∃ decision, s.phase id = .returned decision) ↔ id ∈ commitOrder trace
  once : (commitOrder trace).Nodup
  /-- Their decisions and the table are those of running them one after another. -/
  answers : List.Forall₂ (fun id entry => entry.1 = call id ∧ s.phase id = .returned entry.2)
    (commitOrder trace) (transcript consume buckets ((commitOrder trace).map call))
  table : s.db.committed = after consume buckets ((commitOrder trace).map call)
  /-- No step of a call that raised has changed the table. -/
  raised : ∀ before rest label a b, trace = before ++ label :: rest →
    Run (Step call) (.start buckets) before a → Step call a label b → Run (Step call) b rest s →
    s.phase label.caller = .raised → b.db.committed = a.db.committed
  /-- Unit calls on a hard quota are admitted as often as it has whole tokens. -/
  quota : ∀ key capacity, buckets key = none →
    (∀ id ∈ callsOf call key trace,
      (call id).capacity = capacity ∧ (call id).rate = 0 ∧ (call id).cost = 1) →
    (callsOf call key trace).countP s.admits = min (callsOf call key trace).length ⌊capacity⌋₊

theorem Serial.quota {call : Nat → Call} {buckets : Buckets} {trace : List Statement} {s : Sessions}
    (serial : Serial call buckets trace s) {key : String} {capacity : ℚ} (absent : buckets key = none)
    (unit : ∀ id ∈ callsOf call key trace,
      (call id).capacity = capacity ∧ (call id).rate = 0 ∧ (call id).cost = 1) :
    (callsOf call key trace).countP s.admits =
      min (callsOf call key trace).length ⌊capacity⌋₊ := by
  have counted {ids : List Nat} {entries : List (Call × Decision)}
      (answers : List.Forall₂ (fun id entry => entry.1 = call id ∧ s.phase id = .returned entry.2)
        ids entries) :
      (ids.filter fun id => (call id).key = key).countP s.admits =
        (entries.filter (·.1.key = key)).countP (·.2.allowed) := by
    induction answers with
    | nil => rfl
    | @cons id entry ids entries known _ ih =>
      have admits : s.admits id = entry.2.allowed := by
        rw [Sessions.admits, known.2]
      by_cases own : (call id).key = key
      · simp only [List.filter_cons, known.1, own, decide_true, if_true, List.countP_cons, ih, admits]
      · simp only [List.filter_cons, known.1, own, decide_false, Bool.false_eq_true, if_false, ih]
  have own : ((commitOrder trace).map call).filter (·.key = key) =
      (callsOf call key trace).map call := by
    rw [List.filter_map]
    rfl
  have cell := keyed_transcript consumeCell Call.key buckets ((commitOrder trace).map call) key
  rw [← consume_keyed, own, absent] at cell
  rw [callsOf, counted serial.answers, cell, ← callsOf, quota_count_absent, List.length_map]
  intro c member
  obtain ⟨id, inside, rfl⟩ := List.mem_map.mp member
  exact unit id inside

theorem consume_serialisable {call : Nat → Call} {buckets : Buckets} {trace : List Statement}
    {s : Sessions} (run : Run (Step call) (.start buckets) trace s) :
    Serialisable call buckets trace s := by
  have serial := serial_of_run run
  refine ⟨serial.returned, serial.once, serial.answers, serial.table, ?_, ?_⟩
  · intro before rest label a b _ first taken later raised
    exact raised_quiet first taken later raised
  · intro key capacity absent unit
    exact serial.quota absent unit

/-- One unit at a time of a quota of one. -/
def lastToken (_ : Nat) : Call :=
  ⟨"rl:a", 1, 0, 1, 1000⟩

/-- The lock makes one call fail at BEGIN while another holds it. A third fails after
its upsert, and its ROLLBACK lets a fourth begin. -/
theorem lastToken_serialisable :
    ∃ s, Run (Step lastToken) (.start fun _ => none)
        [.begin 0, .fail 1, .select 0, .rollback 1, .upsert 0, .commit 0, .begin 2, .select 2, .upsert 2,
          .fail 2, .rollback 2, .begin 3, .select 3, .upsert 3, .commit 3] s ∧
      s.phase 1 = .raised ∧ s.phase 2 = .raised ∧ Serialisable lastToken (fun _ => none)
        [.begin 0, .fail 1, .select 0, .rollback 1, .upsert 0, .commit 0, .begin 2, .select 2, .upsert 2,
          .fail 2, .rollback 2, .begin 3, .select 3, .upsert 3, .commit 3] s := by
  have executed : ∃ s, Run (Step lastToken) (.start fun _ => none)
      [.begin 0, .fail 1, .select 0, .rollback 1, .upsert 0, .commit 0, .begin 2, .select 2, .upsert 2,
        .fail 2, .rollback 2, .begin 3, .select 3, .upsert 3, .commit 3] s ∧
      s.phase 1 = .raised ∧ s.phase 2 = .raised :=
    ⟨_, .cons (.begin rfl rfl) <| .cons (.failBegin rfl) <| .cons (.select rfl) <| .cons (.rollback rfl) <|
      .cons (.upsert rfl) <| .cons (.commit rfl) <| .cons (.begin rfl rfl) <| .cons (.select rfl) <|
      .cons (.upsert rfl) <| .cons (.failCommit rfl) <| .cons (.rollback rfl) <| .cons (.begin rfl rfl) <|
      .cons (.select rfl) <| .cons (.upsert rfl) <| .single (.commit rfl), rfl, rfl⟩
  obtain ⟨s, run, first, second⟩ := executed
  exact ⟨s, run, first, second, consume_serialisable run⟩

end SqliteStore
end UrlShortener
