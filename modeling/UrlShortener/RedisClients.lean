import UrlShortener.LimiterRedis
import UrlShortener.LimiterWindows

namespace UrlShortener
namespace RedisStore
open Machine Transition Allowance SqliteStore

/-- How far one submission of the script has got. Its reply may be lost. -/
inductive Submission
  | ready
  | executed (decision : Decision)
  | returned (decision : Decision)
  | raised
  deriving DecidableEq

/-- One server, and the submissions of the script by all processes. -/
structure Clients where
  db : RedisDb
  phase : Nat → Submission

inductive Exchange
  /-- The server runs the script, which nothing interrupts, when its clock reads `serverMs`. -/
  | execute (id : Nat) (serverMs : Int)
  | reply (id : Nat)
  | fail (id : Nat)
  deriving DecidableEq

def Clients.start : Clients := ⟨fun _ => none, fun _ => .ready⟩

def Clients.advance (s : Clients) (id : Nat) (db : RedisDb) (phase : Submission) : Clients :=
  ⟨db, Function.update s.phase id phase⟩

section
variable (expiry : KeyExpiry) (call : Nat → Call)

/-- The call raises where the server is not reached, and where its reply is lost. -/
def Clients.perform (s : Clients) : Exchange → Option Clients
  | .execute id serverMs => match s.phase id with
    | .ready =>
      let (decision, db) := consume expiry serverMs s.db (call id)
      some (s.advance id db (.executed decision))
    | _ => none
  | .reply id => match s.phase id with
    | .executed decision => some (s.advance id s.db (.returned decision))
    | _ => none
  | .fail id => match s.phase id with
    | .ready | .executed _ => some (s.advance id s.db .raised)
    | _ => none

def Step (s : Clients) (label : Exchange) (t : Clients) : Prop :=
  s.perform expiry call label = some t

/-- The steps one by one. -/
inductive Move (s : Clients) : Exchange → Clients → Prop
  | executed {id serverMs} : s.phase id = .ready →
      Move s (.execute id serverMs) (s.advance id (consume expiry serverMs s.db (call id)).2
        (.executed (consume expiry serverMs s.db (call id)).1))
  | replied {id decision} : s.phase id = .executed decision →
      Move s (.reply id) (s.advance id s.db (.returned decision))
  | failed {id} : (s.phase id = .ready ∨ ∃ decision, s.phase id = .executed decision) →
      Move s (.fail id) (s.advance id s.db .raised)

variable {expiry call} {s t : Clients} {label : Exchange}

theorem Step.move (taken : Step expiry call s label t) : Move expiry call s label t := by
  unfold Step at taken
  cases label with
  | execute id serverMs =>
    simp only [Clients.perform] at taken
    split at taken
    · rename_i ready
      cases taken
      exact .executed ready
    · cases taken
  | reply id =>
    simp only [Clients.perform] at taken
    split at taken
    · rename_i decision executed
      cases taken
      exact .replied executed
    · cases taken
  | fail id =>
    simp only [Clients.perform] at taken
    split at taken
    · rename_i ready
      cases taken
      exact .failed (Or.inl ready)
    · rename_i decision executed
      cases taken
      exact .failed (Or.inr ⟨decision, executed⟩)
    · cases taken

end

/-- The submissions in the order in which the server ran them. -/
def executions (trace : List Exchange) : List Nat :=
  trace.filterMap fun
    | .execute id _ => some id
    | _ => none

theorem executions_append (earlier later : List Exchange) :
    executions (earlier ++ later) = executions earlier ++ executions later :=
  List.filterMap_append ..

theorem executions_execute (id : Nat) (serverMs : Int) : executions [.execute id serverMs] = [id] := rfl

/-- Seen from the server's clock, the clocks of the instances stay in a band as
wide as the slack of the TTL. -/
def Synchronised (offset : Int) (call : Nat → Call) (trace : List Exchange) : Prop :=
  ∀ id serverMs, .execute id serverMs ∈ trace →
    serverMs + offset ≤ (call id).nowMs ∧ (call id).nowMs ≤ serverMs + offset + 10000

section
variable {expiry : KeyExpiry} {call : Nat → Call} {offset : Int} {capacity rate : ℚ}

/-- A bucket that was left alone for as long as it takes to fill it is full. -/
theorem refilled_of_rested (ratePos : 0 < rate) {c : Call} {bucket : Bucket}
    (own : c.capacity = capacity ∧ c.rate = rate) (stocked : 0 ≤ bucket.tokens)
    (late : bucket.updatedMs + ⌈capacity / rate * 1000⌉ ≤ c.nowMs) : refilled c (some bucket) = c.capacity := by
  have ceiling := Int.le_ceil (capacity / rate * 1000)
  have late' : (bucket.updatedMs : ℚ) + ⌈capacity / rate * 1000⌉ ≤ c.nowMs := by exact_mod_cast late
  have elapsed : (c.nowMs : ℚ) - bucket.updatedMs ≤ (max 0 (c.nowMs - bucket.updatedMs) : Int) := by
    exact_mod_cast le_max_right ..
  have whole : capacity / rate * rate = capacity := div_mul_cancel₀ _ ratePos.ne'
  have long : capacity / rate ≤ ((max 0 (c.nowMs - bucket.updatedMs) : Int) : ℚ) / 1000 := by linarith
  have regained := mul_le_mul_of_nonneg_right long ratePos.le
  rw [refilled_some, own.1, own.2, min_eq_left]
  linarith

/-- A stored hash is the row of the SQLite table, with a deadline so late that
the bucket is full again when an instance comes to see it expired. -/
structure Reflects (offset : Int) (capacity rate : ℚ) (stored : Option RedisHash) (row : Option Bucket) : Prop where
  bucket : stored.map RedisHash.bucket = row
  stocked : ∀ b ∈ row, 0 ≤ b.tokens
  rested : ∀ hash ∈ stored, hash.bucket.updatedMs + luaTtlMs capacity rate ≤ hash.deadline + offset + 10000

theorem Reflects.refilled_live {stored : Option RedisHash} {row : Option Bucket} {c : Call} {serverMs : Int}
    (reflects : Reflects offset capacity rate stored row) (ratePos : 0 < rate)
    (own : c.capacity = capacity ∧ c.rate = rate) (early : serverMs + offset ≤ c.nowMs) :
    refilled c (live expiry serverMs stored) = refilled c row := by
  rw [← reflects.bucket]
  cases stored with
  | none => rfl
  | some hash =>
    simp only [live, Option.map_some, Option.bind_some]
    split
    · rename_i gone
      have passed : hash.deadline ≤ serverMs := by
        by_contra still
        have kept := expiry.kept _ _ (not_le.mp still)
        rw [gone] at kept
        cases kept
      have rested := reflects.rested hash rfl
      rw [luaTtlMs, if_pos ratePos] at rested
      have stocked := reflects.stocked hash.bucket (by rw [← reflects.bucket]; rfl)
      rw [refilled_none, refilled_of_rested ratePos own stocked (by omega)]
    · rfl

theorem refilled_row_nonneg {row : Option Bucket} {c : Call} (capacityNonneg : 0 ≤ c.capacity) (rateNonneg : 0 ≤ c.rate)
    (stocked : ∀ b ∈ row, 0 ≤ b.tokens) : 0 ≤ refilled c row := by
  cases row with
  | none => rwa [refilled_none]
  | some bucket => exact refilled_nonneg capacityNonneg rateNonneg (stocked bucket rfl)

/-- The script decides as the SQLite transaction does, prints the tokens, and
leaves a reflection of the row that one writes. -/
theorem Reflects.consume {stored : Option RedisHash} {row : Option Bucket} {c : Call} {serverMs : Int}
    (reflects : Reflects offset capacity rate stored row) (capacityNonneg : 0 ≤ capacity) (ratePos : 0 < rate)
    (fits : luaTtlMs capacity rate < 2 ^ 63) (own : c.capacity = capacity ∧ c.rate = rate)
    (early : serverMs + offset ≤ c.nowMs) (late : c.nowMs ≤ serverMs + offset + 10000) :
    (consumeHash expiry serverMs c stored).1 = printed c (consumeRow c row).1 ∧
      Reflects offset capacity rate (some (consumeHash expiry serverMs c stored).2) (some (consumeRow c row).2) := by
  have same : consumeRow c (live expiry serverMs stored) = consumeRow c row :=
    consumeRow_congr (reflects.refilled_live ratePos own early)
  rw [consumeHash_eq, same]
  refine ⟨rfl, rfl, ?_, ?_⟩
  · intro b written
    cases Option.some.inj written
    have full := refilled_row_nonneg (own.1 ▸ capacityNonneg) (own.2 ▸ ratePos.le) reflects.stocked
    rw [consumeRow_tokens]
    exact sub_nonneg.mpr (taken_le_refilled full)
  · intro hash written
    cases Option.some.inj written
    rw [own.1, own.2, luaFormatD_eq (luaTtlMs_nonneg capacityNonneg) fits]
    show c.nowMs + _ ≤ serverMs + _ + offset + 10000
    omega

/-- What is known of a decision by the one who asked for it. -/
def Submission.Told : Submission → Decision → Prop
  | .ready, _ => False
  | .executed decision, made | .returned decision, made => decision = made
  | .raised, _ => True

/-- The rows that SQLite would have after the calls the server ran. -/
def mirrored (call : Nat → Call) (trace : List Exchange) : Buckets :=
  after SqliteStore.consume (fun _ => none) ((executions trace).map call)

/-- The decisions that SQLite would have taken on them, one after another. -/
def ledger (call : Nat → Call) (trace : List Exchange) : List (Call × Decision) :=
  transcript SqliteStore.consume (fun _ => none) ((executions trace).map call)

/-- What is known after a run of exchanges with the server. -/
structure Replayed (offset : Int) (capacity rate : ℚ) (call : Nat → Call) (trace : List Exchange) (s : Clients) :
    Prop where
  answers : List.Forall₂ (fun id entry => entry.1 = call id ∧ (s.phase id).Told (printed entry.1 entry.2))
    (executions trace) (ledger call trace)
  once : (executions trace).Nodup
  fresh : ∀ id, s.phase id = .ready → id ∉ executions trace
  told : ∀ id made, (s.phase id).Told made → id ∈ executions trace ∨ s.phase id = .raised
  rows : ∀ key, Reflects offset capacity rate (s.db key) (mirrored call trace key)

variable {s t : Clients} {label : Exchange} {trace : List Exchange}

@[simp] theorem Clients.advance_self (s : Clients) (id : Nat) (db : RedisDb) (phase : Submission) :
    (s.advance id db phase).phase id = phase :=
  Function.update_self ..

theorem Clients.advance_other (s : Clients) {id other : Nat} (db : RedisDb) (phase : Submission)
    (different : other ≠ id) : (s.advance id db phase).phase other = s.phase other :=
  Function.update_of_ne different ..

/-- What was decided stays decided. -/
theorem Move.told (move : Move expiry call s label t) {other : Nat} {made : Decision}
    (told : (s.phase other).Told made) : (t.phase other).Told made := by
  cases move with
  | @executed id serverMs ready =>
    by_cases own : other = id
    · rw [own, ready] at told
      exact told.elim
    · rwa [s.advance_other _ _ own]
  | @replied id decision executed =>
    by_cases own : other = id
    · rw [own, executed] at told
      rw [own, s.advance_self]
      exact told
    · rwa [s.advance_other _ _ own]
  | @failed id here =>
    by_cases own : other = id
    · rw [own, s.advance_self]
      trivial
    · rwa [s.advance_other _ _ own]

theorem ledger_execute (trace : List Exchange) (id : Nat) (serverMs : Int) :
    ledger call (trace ++ [.execute id serverMs]) =
      ledger call trace ++ [(call id, (SqliteStore.consume (mirrored call trace) (call id)).1)] := by
  rw [ledger, executions_append, executions_execute, List.map_append]
  exact transcript_snoc ..

theorem mirrored_execute (trace : List Exchange) (id : Nat) (serverMs : Int) :
    mirrored call (trace ++ [.execute id serverMs]) = (SqliteStore.consume (mirrored call trace) (call id)).2 := by
  rw [mirrored, executions_append, executions_execute, List.map_append]
  exact after_snoc ..

theorem Replayed.execute {id : Nat} {serverMs : Int} (replayed : Replayed offset capacity rate call trace s)
    (capacityNonneg : 0 ≤ capacity) (ratePos : 0 < rate) (fits : luaTtlMs capacity rate < 2 ^ 63)
    (own : (call id).capacity = capacity ∧ (call id).rate = rate)
    (near : serverMs + offset ≤ (call id).nowMs ∧ (call id).nowMs ≤ serverMs + offset + 10000)
    (ready : s.phase id = .ready) :
    Replayed offset capacity rate call (trace ++ [.execute id serverMs])
      (s.advance id (RedisStore.consume expiry serverMs s.db (call id)).2
        (.executed (RedisStore.consume expiry serverMs s.db (call id)).1)) := by
  have move : Move expiry call s (.execute id serverMs) _ := .executed ready
  have new := replayed.fresh id ready
  have same : (consumeHash expiry serverMs (call id) (s.db (call id).key)).1 =
      printed (call id) (consumeRow (call id) (mirrored call trace (call id).key)).1 :=
    ((replayed.rows (call id).key).consume capacityNonneg ratePos fits own near.1 near.2).1
  have reflects : Reflects offset capacity rate
      (some (consumeHash expiry serverMs (call id) (s.db (call id).key)).2)
      (some (consumeRow (call id) (mirrored call trace (call id).key)).2) :=
    ((replayed.rows (call id).key).consume capacityNonneg ratePos fits own near.1 near.2).2
  constructor
  · rw [ledger_execute, executions_append, executions_execute]
    refine List.rel_append (replayed.answers.imp fun other entry known => ⟨known.1, move.told known.2⟩) ?_
    refine .cons ⟨rfl, ?_⟩ .nil
    rw [s.advance_self]
    exact same
  · rw [executions_append, executions_execute]
    exact List.nodup_append.mpr ⟨replayed.once, List.pairwise_singleton _ id, fun a member b single => by
      rw [List.mem_singleton.mp single]
      exact ne_of_mem_of_not_mem member new⟩
  · intro other still
    have different : other ≠ id := by
      rintro rfl
      rw [s.advance_self] at still
      cases still
    rw [s.advance_other _ _ different] at still
    rw [executions_append, executions_execute, List.mem_append, List.mem_singleton, not_or]
    exact ⟨replayed.fresh other still, different⟩
  · intro other made told
    rw [executions_append, executions_execute, List.mem_append, List.mem_singleton]
    by_cases mine : other = id
    · exact Or.inl (Or.inr mine)
    · rw [s.advance_other _ _ mine] at told ⊢
      exact (replayed.told other made told).imp_left Or.inl
  · intro key
    rw [mirrored_execute]
    by_cases touched : key = (call id).key
    · subst touched
      show Reflects offset capacity rate (Function.update s.db (call id).key _ (call id).key)
        (Function.update (mirrored call trace) (call id).key _ (call id).key)
      rw [Function.update_self, Function.update_self]
      exact reflects
    · show Reflects offset capacity rate (Function.update s.db (call id).key _ key)
        (Function.update (mirrored call trace) (call id).key _ key)
      rw [Function.update_of_ne touched, Function.update_of_ne touched]
      exact replayed.rows key

/-- A reply, or its loss, changes nothing on the server. -/
theorem Replayed.answer {id : Nat} {phase : Submission} (replayed : Replayed offset capacity rate call trace s)
    (move : Move expiry call s label (s.advance id s.db phase)) (silent : executions [label] = [])
    (settled : phase ≠ .ready) (own : ∀ made, phase.Told made → id ∈ executions trace ∨ phase = .raised) :
    Replayed offset capacity rate call (trace ++ [label]) (s.advance id s.db phase) := by
  have same : executions (trace ++ [label]) = executions trace := by
    rw [executions_append, silent, List.append_nil]
  constructor
  · rw [ledger, same]
    exact replayed.answers.imp fun other entry known => ⟨known.1, move.told known.2⟩
  · rw [same]
    exact replayed.once
  · intro other still
    rw [same]
    by_cases mine : other = id
    · rw [mine, s.advance_self] at still
      exact absurd still settled
    · rw [s.advance_other _ _ mine] at still
      exact replayed.fresh other still
  · intro other made told
    rw [same]
    by_cases mine : other = id
    · rw [mine, s.advance_self] at told ⊢
      exact own made told
    · rw [s.advance_other _ _ mine] at told ⊢
      exact replayed.told other made told
  · rw [mirrored, same]
    exact replayed.rows

theorem replayed_of_run (run : Run (Step expiry call) .start trace s) (capacityNonneg : 0 ≤ capacity)
    (ratePos : 0 < rate) (fits : luaTtlMs capacity rate < 2 ^ 63)
    (own : ∀ id, (call id).capacity = capacity ∧ (call id).rate = rate) (near : Synchronised offset call trace) :
    Replayed offset capacity rate call trace s := by
  induction run with
  | start => exact ⟨.nil, .nil, fun _ _ => List.not_mem_nil, fun _ _ => False.elim, fun _ => ⟨rfl, nofun, nofun⟩⟩
  | @next trace s label t _ taken ih =>
    have replayed := ih fun id serverMs member => near id serverMs (List.mem_append_left _ member)
    have move := taken.move
    cases move with
    | @executed id serverMs ready =>
      have now := near id serverMs (List.mem_append_right _ (List.mem_singleton_self _))
      exact replayed.execute capacityNonneg ratePos fits (own id) now ready
    | @replied id decision executed =>
      refine replayed.answer taken.move rfl nofun fun made told => ?_
      refine (replayed.told id decision (by rw [executed]; rfl)).imp_right fun raised => ?_
      rw [executed] at raised
      cases raised
    | failed here => exact replayed.answer taken.move rfl nofun fun _ _ => Or.inr rfl

/-- Was this submission answered with a permission? -/
def Clients.granted (s : Clients) (id : Nat) : Bool :=
  match s.phase id with
  | .returned decision => decision.allowed
  | _ => false

/-- The submissions on a key in a part of a run. -/
def submitted (call : Nat → Call) (key : String) (window : List Exchange) : List Nat :=
  (executions window).filter fun id => (call id).key = key

theorem admitted_cons (entry : Call × Decision) (rest : List (Call × Decision)) :
    admitted (entry :: rest) = taken entry + admitted rest := by
  rw [admitted, List.map_cons, List.sum_cons, admitted]

/-- A permission that arrived was given, and one that was given may be lost. -/
theorem granted_le_admitted {key : String} {ids : List Nat} {entries : List (Call × Decision)}
    (answers : List.Forall₂ (fun id entry => entry.1 = call id ∧ (s.phase id).Told (printed entry.1 entry.2)) ids entries)
    (costs : ∀ id ∈ ids, 0 ≤ (call id).cost) :
    (((ids.filter fun id => (call id).key = key).filter s.granted).map fun id => (call id).cost).sum ≤
      admitted (entries.filter (·.1.key = key)) := by
  induction answers with
  | nil => exact le_rfl
  | @cons id entry ids entries known _ ih =>
    have rest := ih fun other member => costs other (List.mem_cons_of_mem _ member)
    have cost := costs id (List.mem_cons_self ..)
    by_cases own : (call id).key = key
    · have kept : (id :: ids).filter (fun id => (call id).key = key) = id :: ids.filter fun id => (call id).key = key :=
        List.filter_cons_of_pos (decide_eq_true own)
      have counted : (entry :: entries).filter (·.1.key = key) = entry :: entries.filter (·.1.key = key) :=
        List.filter_cons_of_pos (decide_eq_true (known.1 ▸ own))
      rw [kept, counted, admitted_cons]
      by_cases granted : s.granted id = true
      · have given : taken entry = (call id).cost := by
          have told := known.2
          unfold Clients.granted at granted
          split at granted
          · rename_i decision returned
            rw [returned] at told
            rw [taken, ← printed_allowed entry.1, ← told, granted, if_pos rfl, known.1]
          · cases granted
        rw [List.filter_cons_of_pos granted, List.map_cons, List.sum_cons, given]
        exact add_le_add_right rest _
      · have given : 0 ≤ taken entry := by
          unfold taken
          split
          · rwa [known.1]
          · exact le_rfl
        rw [List.filter_cons_of_neg granted]
        exact le_add_of_nonneg_of_le given rest
    · have passed : (id :: ids).filter (fun id => (call id).key = key) = ids.filter fun id => (call id).key = key :=
        List.filter_cons_of_neg (by simpa using own)
      have skipped : (entry :: entries).filter (·.1.key = key) = entries.filter (·.1.key = key) :=
        List.filter_cons_of_neg (by rw [known.1]; simpa using own)
      rw [passed, skipped]
      exact rest

theorem Replayed.window {key : String} {before window later : List Exchange}
    (replayed : Replayed offset capacity rate call (before ++ window ++ later) s) (capacityNonneg : 0 ≤ capacity)
    (ratePos : 0 < rate) (own : ∀ id, (call id).capacity = capacity ∧ (call id).rate = rate)
    (costs : ∀ id ∈ executions window, 0 ≤ (call id).cost) :
    (((submitted call key window).filter s.granted).map fun id => (call id).cost).sum ≤
      capacity + rate * climb ((submitted call key window).map fun id => (call id).nowMs) / 1000 := by
  have whole := replayed.answers
  rw [ledger, executions_append, executions_append] at whole
  have granted : (((submitted call key window).filter s.granted).map fun id => (call id).cost).sum ≤
      admitted ((transcript SqliteStore.consume (mirrored call before) ((executions window).map call)).filter
        (·.1.key = key)) :=
    granted_le_admitted (forall₂_window SqliteStore.consume _ whole) costs
  have stocked : Stocked (mirrored call before) := by
    refine Stocked.after (fun _ _ found => by cases found) fun c member => ?_
    obtain ⟨id, _, rfl⟩ := List.mem_map.mp member
    obtain ⟨capacityOwn, rateOwn⟩ := own id
    exact ⟨capacityOwn ▸ capacityNonneg, rateOwn ▸ ratePos.le⟩
  have mine : ((executions window).map call).filter (·.key = key) = (submitted call key window).map call := by
    rw [List.filter_map, submitted]
    rfl
  have uniform : Uniform capacity rate ((submitted call key window).map call) := by
    intro c member
    obtain ⟨id, _, rfl⟩ := List.mem_map.mp member
    exact own id
  have bounded := admitted_window_le capacityNonneg ratePos.le uniform (stocked key)
  rw [List.map_map, ← mine, ← keyed_transcript, ← consume_keyed] at bounded
  exact granted.trans bounded

/-- The clock of the server at each execution. -/
def serverTimes (trace : List Exchange) : List Int :=
  trace.filterMap fun
    | .execute _ serverMs => some serverMs
    | _ => none

/-- The slack of the TTL pays for clocks that differ: while the instances' stay
in a band of ten seconds beside the server's, no expiry can be observed, and
what is lost on the way costs the client that asked for it. -/
theorem skew_tolerated (run : Run (Step expiry call) .start trace s) (capacityNonneg : 0 ≤ capacity)
    (ratePos : 0 < rate) (own : ∀ id, (call id).capacity = capacity ∧ (call id).rate = rate)
    (near : Synchronised offset call trace) (expires : Expires capacity rate (serverTimes trace)) :
    (executions trace).Nodup ∧ (∀ id decision, s.phase id = .returned decision → id ∈ executions trace) ∧
    List.Forall₂ (fun id entry => entry.1 = call id ∧ (s.phase id).Told (printed entry.1 entry.2)) (executions trace)
      (transcript SqliteStore.consume (fun _ => none) ((executions trace).map call)) ∧
    ∀ key before window later, trace = before ++ window ++ later → (∀ id ∈ executions window, 0 ≤ (call id).cost) →
      (((submitted call key window).filter s.granted).map fun id => (call id).cost).sum ≤
        capacity + rate * climb ((submitted call key window).map fun id => (call id).nowMs) / 1000 := by
  have replayed := replayed_of_run run capacityNonneg ratePos expires.ttl own near
  refine ⟨replayed.once, fun id decision returned => ?_, replayed.answers, ?_⟩
  · refine (replayed.told id decision (by rw [returned]; rfl)).resolve_right fun raised => ?_
    rw [returned] at raised
    cases raised
  · rintro key before window later rfl costs
    exact replayed.window capacityNonneg ratePos own costs

/-- Two processes in turn, one of them nearly ten seconds ahead of the server. -/
def ahead (id : Nat) : Call :=
  (⟨1, 1⟩ : RateLimiter).check "a" 1 ([0, 10000, 11001, 21000, 11002][id]?.getD 0)

/-- A client's key expires while the process that is behind still sees it used. -/
def expiring : List Exchange :=
  [.execute 0 0, .reply 0, .execute 1 1, .fail 1, .execute 2 11001, .reply 2, .fail 3, .execute 4 11002, .reply 4]

theorem skew_tolerated_expiring :
    ∃ s, Run (Step .afterDeadline ahead) .start expiring s ∧
      (List.range 5).map s.granted = [true, false, true, false, false] ∧
      (((submitted ahead "rl:a" expiring).filter s.granted).map fun id => (ahead id).cost).sum ≤
        1 + 1 * climb ((submitted ahead "rl:a" expiring).map fun id => (ahead id).nowMs) / 1000 := by
  have executed : ∃ s, Run (Step .afterDeadline ahead) .start expiring s ∧
      (List.range 5).map s.granted = [true, false, true, false, false] :=
    Run.exists_of_execute (fun _ _ _ done => done) (by decide +kernel)
  obtain ⟨s, run, answers⟩ := executed
  have near : Synchronised 0 ahead expiring := by
    intro id serverMs member
    simp only [expiring, List.mem_cons, Exchange.execute.injEq, reduceCtorEq, false_or, List.not_mem_nil, or_false] at member
    obtain ⟨rfl, rfl⟩ | ⟨rfl, rfl⟩ | ⟨rfl, rfl⟩ | ⟨rfl, rfl⟩ := member <;> decide
  have tolerated := skew_tolerated run (by norm_num) (by norm_num) (fun id => ⟨rfl, rfl⟩) near
    ⟨by decide +kernel, by decide +kernel⟩
  refine ⟨s, run, answers, tolerated.2.2.2 "rl:a" [] expiring [] (List.append_nil _).symm fun id _ => ?_⟩
  exact zero_le_one

/-- In a wider band a bucket can expire before it is full. -/
example :
    (consume .afterDeadline 11001 (consume .afterDeadline 0 (fun _ => none) ⟨"rl:a", 1, 1, 1, 10002⟩).2
      ⟨"rl:a", 1, 1, 1, 11001⟩).1.allowed = true ∧
    (SqliteStore.consume (SqliteStore.consume (fun _ => none) ⟨"rl:a", 1, 1, 1, 10002⟩).2
      ⟨"rl:a", 1, 1, 1, 11001⟩).1.allowed = false := by
  decide +kernel

end
end RedisStore
end UrlShortener
