import Mathlib.Algebra.Order.BigOperators.Group.Finset
import Mathlib.Algebra.Order.Monoid.Prod
import UrlShortener.General.Draining
import UrlShortener.PgLinearizable

namespace UrlShortener
open RowLocks Tables Transition

/-- The call has come to its end. -/
def PgPhase.ended : PgPhase → Bool
  | .returned _ => true
  | .raised => true
  | _ => false

section
variable {T : Type} [LinearOrder T] {tz : Timestamps T}

namespace PgSessions

/-- All batches in progress list their codes in one order, and there is one
purge at a time. -/
structure Orderly (rank : String → Nat) (w : PgSessions tz) : Prop where
  batches : ∀ {id counts phase}, w.calls id = some ⟨.recordHitsBulk counts, phase⟩ → phase.ended = false →
    (counts.map fun item => rank item.1).Pairwise (· < ·)
  sweeps : ∀ {a b nowMs nowMs' now now' phase phase'}, w.calls a = some ⟨.purgeExpired nowMs now, phase⟩ →
    w.calls b = some ⟨.purgeExpired nowMs' now', phase'⟩ → phase.ended = false → phase'.ended = false → a = b

/-- The row of `link_hits` that a call comes to next. -/
def wantsHits (w : PgSessions tz) (id : Nat) : Option String :=
  match w.calls id with
  | some ⟨_, .writing (item :: _) _⟩ => some item.1
  | _ => none

/-- The row of `links` that a call comes to next and has to lock. -/
def wantsLink (w : PgSessions tz) (id : Nat) : Option String :=
  match w.calls id with
  | some ⟨.create code _ _ _ _, .statement⟩ => some code
  | some ⟨.purgeExpired _ _, .sweeping (row :: _) _⟩ => some row.1
  | _ => none

variable {w w' : PgSessions tz} {id holder : Nat} {call : PgHistory.Call T} {phase : PgPhase} {code : String}
  {trace : List (Event T)} {history : List (Nat × PgHistory.Call T × PgOutcome)} {rank : String → Nat}

/-- A call that need not wait has a step to take. -/
theorem Linear.moves (linear : Linear trace history w) (held : w.calls id = some ⟨call, phase⟩)
    (active : phase.ended = false) (hits : ∀ code ∈ w.wantsHits id, w.linkHits.free id code = true)
    (links : ∀ code ∈ w.wantsLink id, w.links.free id code = true) :
    ∃ label w', (label = .step id ∨ label = .commit id) ∧ Step w label w' := by
  have stepping (able : ∃ w', w.advance id ⟨call, phase⟩ = some w') :
      ∃ label w', (label = .step id ∨ label = .commit id) ∧ Step w label w' := by
    obtain ⟨w', ran⟩ := able
    exact ⟨.step id, w', Or.inl rfl, Option.bind_eq_some_iff.mpr ⟨_, held, ran⟩⟩
  have ending (outcome : PgOutcome) (done : phase = .done outcome) :
      ∃ label w', (label = .step id ∨ label = .commit id) ∧ Step w label w' := by
    subst done
    exact ⟨.commit id, _, Or.inr rfl, Option.bind_eq_some_iff.mpr ⟨_, held, rfl⟩⟩
  cases linear.stands held with
  | statement _ _ =>
    cases call with
    | create code target ttlSeconds nowMs clock =>
      have free : w.links.free id code = true := links code (by rw [wantsLink, held]; rfl)
      refine stepping (Option.isSome_iff_exists.mp ?_)
      simp only [advance, PgSessions.execute, Heap.write, if_pos free]
      split <;> rfl
    | recordHitsBulk counts => exact stepping ⟨_, rfl⟩
    | get code => exact stepping ⟨_, rfl⟩
    | hits code => exact stepping ⟨_, rfl⟩
    | purgeExpired nowMs now => exact stepping ⟨_, rfl⟩
  | @writing before rest _ _ =>
    cases rest with
    | nil => exact stepping ⟨_, rfl⟩
    | cons item rest =>
      have free : w.linkHits.free id item.1 = true := hits item.1 (by rw [wantsHits, held]; rfl)
      exact stepping ⟨_, Option.map_eq_some_iff.mpr ⟨_, Heap.write_eq_some.mpr ⟨free, rfl⟩, rfl⟩⟩
  | @sweeping _ _ rest _ _ _ _ =>
    cases rest with
    | nil => exact stepping ⟨_, rfl⟩
    | cons row rest =>
      have free : w.links.free id row.1 = true := links row.1 (by rw [wantsLink, held]; rfl)
      refine stepping (Option.isSome_iff_exists.mp ?_)
      rw [advance, Option.isSome_map, remove, if_pos free, Heap.write, if_pos free]
      split <;> rfl
  | recorded _ _ => exact ending _ rfl
  | purged _ _ _ => exact ending _ rfl
  | won _ _ _ _ => exact ending _ rfl
  | read _ _ _ => exact ending _ rfl
  | returned _ _ => cases active
  | raised _ _ => cases active

/-- Who has locked a row of `link_hits` is a batch that has come past it. -/
theorem Linear.holds_hits (linear : Linear trace history w) (rank : String → Nat) {row : Option Int}
    (locked : w.linkHits.pending.lookup code = some (id, row)) :
    ∃ counts phase, w.calls id = some ⟨.recordHitsBulk counts, phase⟩ ∧ phase.ended = false ∧
      w.wantsLink id = none ∧
      ∀ next ∈ w.wantsHits id, ((counts.map fun item => rank item.1).Pairwise (· < ·) → rank code < rank next) := by
  cases held : w.calls id with
  | none => cases (linear.unbegun held).2.1.only locked
  | some session =>
    obtain ⟨call, phase⟩ := session
    cases linear.stands held with
    | statement _ linkHits => cases linkHits.only locked
    | @writing before rest _ linkHits =>
      refine ⟨_, _, rfl, rfl, by rw [wantsLink, held], fun next wanted sorted => ?_⟩
      cases rest with
      | nil => rw [wantsHits, held] at wanted; cases wanted
      | cons item rest =>
        rw [wantsHits, held] at wanted
        cases wanted
        have past : code ∈ before.map Prod.fst := by
          simpa [adds] using linkHits.only locked
        obtain ⟨mine, member, rfl⟩ := List.mem_map.mp past
        rw [List.map_append, List.pairwise_append] at sorted
        exact sorted.2.2 _ (List.mem_map_of_mem member) _ (List.mem_cons_self ..)
    | recorded _ _ =>
      exact ⟨_, _, rfl, rfl, by rw [wantsLink, held], fun next wanted => by rw [wantsHits, held] at wanted; cases wanted⟩
    | sweeping _ linkHits _ => cases linkHits.only locked
    | purged _ linkHits _ => cases linkHits.only locked
    | won _ _ linkHits _ => cases linkHits.only locked
    | read _ linkHits _ => cases linkHits.only locked
    | returned _ linkHits => cases linkHits.only locked
    | raised _ linkHits => cases linkHits.only locked

/-- Who has locked a row of `links` is about to commit, or is a purge. -/
theorem Linear.holds_link (linear : Linear trace history w) {row : Option (Nat × PgRow tz)}
    (locked : w.links.pending.lookup code = some (id, row)) :
    w.wantsHits id = none ∧
      ((∃ call outcome, w.calls id = some ⟨call, .done outcome⟩) ∨
        ∃ nowMs now rest gone, w.calls id = some ⟨.purgeExpired nowMs now, .sweeping rest gone⟩) := by
  cases held : w.calls id with
  | none => cases (linear.unbegun held).1.only locked
  | some session =>
    obtain ⟨call, phase⟩ := session
    cases linear.stands held with
    | statement links _ => cases links.only locked
    | writing links _ => cases links.only locked
    | recorded links _ => cases links.only locked
    | sweeping _ _ _ => exact ⟨by rw [wantsHits, held], Or.inr ⟨_, _, _, _, rfl⟩⟩
    | purged _ _ _ => exact ⟨by rw [wantsHits, held], Or.inl ⟨_, _, rfl⟩⟩
    | won _ _ _ _ => exact ⟨by rw [wantsHits, held], Or.inl ⟨_, _, rfl⟩⟩
    | read links _ _ => cases links.only locked
    | returned links _ => cases links.only locked
    | raised links _ => cases links.only locked

omit [LinearOrder T] in
/-- A call waits for one table at most. -/
theorem wantsHits_of_wantsLink (wanted : w.wantsLink id = some code) : w.wantsHits id = none := by
  unfold wantsLink at wanted
  split at wanted
  · rename_i held
    rw [wantsHits, held]
  · rename_i held
    rw [wantsHits, held]
  · cases wanted

/-- While calls are in progress, one of them can go on. -/
theorem Linear.some_moves (linear : Linear trace history w) (orderly : Orderly rank w)
    (held : w.calls id = some ⟨call, phase⟩) (active : phase.ended = false) :
    ∃ other call phase label w', w.calls other = some ⟨call, phase⟩ ∧ phase.ended = false ∧
      (label = .step other ∨ label = .commit other) ∧ Step w label w' := by
  have committing {other : Nat} {call : PgHistory.Call T} {outcome : PgOutcome}
      (done : w.calls other = some ⟨call, .done outcome⟩) :
      ∃ other call phase label w', w.calls other = some ⟨call, phase⟩ ∧ phase.ended = false ∧
        (label = .step other ∨ label = .commit other) ∧ Step w label w' :=
    ⟨other, _, _, .commit other, _, done, rfl, Or.inr rfl, Option.bind_eq_some_iff.mpr ⟨_, done, rfl⟩⟩
  have moving {other : Nat} {call : PgHistory.Call T} {phase : PgPhase} (held : w.calls other = some ⟨call, phase⟩)
      (active : phase.ended = false) (hits : ∀ code ∈ w.wantsHits other, w.linkHits.free other code = true)
      (links : ∀ code ∈ w.wantsLink other, w.links.free other code = true) :
      ∃ other call phase label w', w.calls other = some ⟨call, phase⟩ ∧ phase.ended = false ∧
        (label = .step other ∨ label = .commit other) ∧ Step w label w' := by
    obtain ⟨label, w', whose, taken⟩ := linear.moves held active hits links
    exact ⟨other, _, _, label, w', held, active, whose, taken⟩
  cases wanted : w.wantsLink id with
  | none =>
    -- A call that waits for a count: the batches ahead of it go by the rank of their codes.
    obtain ⟨other, met, free⟩ := w.linkHits.exists_unblocked w.wantsHits rank (fun j next own row wants locked => by
      obtain ⟨counts, phase, held, active, _, order⟩ := linear.holds_hits rank locked
      exact order next wants (orderly.batches held active)) id
    rcases met with rfl | ⟨own, row, locked⟩
    · exact moving held active free fun code wants => by rw [wanted] at wants; cases wants
    · obtain ⟨counts, phase, held, active, none, _⟩ := linear.holds_hits rank locked
      exact moving held active free fun code wants => by rw [none] at wants; cases wants
  | some code =>
    have hits {other : Nat} (none : w.wantsHits other = none) :
        ∀ code ∈ w.wantsHits other, w.linkHits.free other code = true := by
      rw [none]
      rintro _ ⟨⟩
    have behind {other : Nat} {next : String} (blocked : w.links.free other next = false) :
        (∃ holder call outcome, w.calls holder = some ⟨call, .done outcome⟩) ∨ ∃ holder nowMs now rest gone,
          holder ≠ other ∧ w.calls holder = some ⟨.purgeExpired nowMs now, .sweeping rest gone⟩ := by
      obtain ⟨holder, row, locked, different⟩ := Heap.free_eq_false_iff.mp blocked
      rcases (linear.holds_link locked).2 with ⟨call, outcome, done⟩ | ⟨nowMs, now, rest, gone, sweeping⟩
      · exact Or.inl ⟨holder, call, outcome, done⟩
      · exact Or.inr ⟨holder, nowMs, now, rest, gone, different, sweeping⟩
    cases free : w.links.free id code with
    | true =>
      refine moving held active (hits (wantsHits_of_wantsLink wanted)) fun next wants => ?_
      cases wanted.symm.trans wants
      exact free
    | false =>
      rcases behind free with ⟨_, _, _, done⟩ | ⟨purge, nowMs, now, rest, gone, _, sweeping⟩
      · exact committing done
      · by_cases able : ∀ next ∈ w.wantsLink purge, w.links.free purge next = true
        · exact moving sweeping rfl (hits (by rw [wantsHits, sweeping])) able
        · obtain ⟨next, _, blocked⟩ : ∃ next, w.wantsLink purge = some next ∧ w.links.free purge next = false := by
            simpa using able
          rcases behind blocked with ⟨_, _, _, done⟩ | ⟨other, _, _, _, _, different, sweeping'⟩
          · exact committing done
          · exact absurd (orderly.sweeps sweeping' sweeping rfl rfl) different

/-- What a call has left to do: its first step, after which the number of its
rows is known, and then those rows. -/
def cost : Option (PgSession T) → Nat ×ₗ Nat
  | some ⟨_, .statement⟩ => toLex (1, 0)
  | some ⟨_, .writing rest _⟩ => toLex (0, rest.length + 2)
  | some ⟨_, .sweeping rest _⟩ => toLex (0, rest.length + 2)
  | some ⟨_, .done _⟩ => toLex (0, 1)
  | _ => toLex (0, 0)

theorem cost_lt {a b c d : Nat} (lower : a < c ∨ a = c ∧ b < d) : toLex (a, b) < toLex (c, d) :=
  Prod.Lex.toLex_lt_toLex.mpr lower

theorem Linear.cost_of_advance (linear : Linear trace history w) (held : w.calls id = some ⟨call, phase⟩)
    (ran : w.advance id ⟨call, phase⟩ = some w') :
    ∃ phase', w'.calls = Function.update w.calls id (some ⟨call, phase'⟩) ∧ phase' ≠ .raised ∧
      cost (some ⟨call, phase'⟩) < cost (some ⟨call, phase⟩) := by
  obtain ⟨phase', calls⟩ := (advance_cases ran).1
  refine ⟨phase', calls, ?_⟩
  have now : w'.calls id = some ⟨call, phase'⟩ := by rw [calls, Function.update_self]
  have lower {next : PgPhase} (became : w'.calls id = some ⟨call, next⟩)
      (open_ : next ≠ .raised) (less : cost (some ⟨call, next⟩) < cost (some ⟨call, phase⟩)) :
      phase' ≠ .raised ∧ cost (some ⟨call, phase'⟩) < cost (some ⟨call, phase⟩) := by
    cases now.symm.trans became
    exact ⟨open_, less⟩
  cases linear.stands held with
  | statement _ _ =>
    cases call with
    | create code target ttlSeconds nowMs clock =>
      obtain ⟨_, ran⟩ := Option.ite_none_right_eq_some.mp ran
      split at ran
      · cases ran
        exact lower (Function.update_self ..) PgPhase.noConfusion (cost_lt (Or.inl (by decide)))
      · obtain ⟨_, _, rfl⟩ := Option.map_eq_some_iff.mp ran
        exact lower (Function.update_self ..) PgPhase.noConfusion (cost_lt (Or.inl (by decide)))
    | recordHitsBulk counts => cases ran; exact lower (Function.update_self ..) PgPhase.noConfusion (cost_lt (Or.inl (by decide)))
    | get code => cases ran; exact lower (Function.update_self ..) PgPhase.noConfusion (cost_lt (Or.inl (by decide)))
    | hits code => cases ran; exact lower (Function.update_self ..) PgPhase.noConfusion (cost_lt (Or.inl (by decide)))
    | purgeExpired nowMs now => cases ran; exact lower (Function.update_self ..) PgPhase.noConfusion (cost_lt (Or.inl (by decide)))
  | @writing before rest _ _ =>
    cases rest with
    | nil => cases ran; exact lower (Function.update_self ..) PgPhase.noConfusion (cost_lt (Or.inr ⟨rfl, by decide⟩))
    | cons item rest =>
      obtain ⟨_, _, rfl⟩ := Option.map_eq_some_iff.mp ran
      exact lower (Function.update_self ..) PgPhase.noConfusion (cost_lt (Or.inr ⟨rfl, Nat.lt_succ_self _⟩))
  | @sweeping _ _ rest _ _ _ _ =>
    cases rest with
    | nil => cases ran; exact lower (Function.update_self ..) PgPhase.noConfusion (cost_lt (Or.inr ⟨rfl, by decide⟩))
    | cons row rest =>
      obtain ⟨_, _, rfl⟩ := Option.map_eq_some_iff.mp ran
      exact lower (Function.update_self ..) PgPhase.noConfusion (cost_lt (Or.inr ⟨rfl, Nat.lt_succ_self _⟩))
  | recorded _ _ => cases ran
  | purged _ _ _ => cases ran
  | won _ _ _ _ => cases ran
  | read _ _ _ => cases call <;> cases ran
  | returned _ _ => cases call <;> cases ran
  | raised _ _ => cases call <;> cases ran

/-- A step of a call in progress, or its commit, leaves it less to do. -/
theorem Linear.cost_of_step {label : Event T} (linear : Linear trace history w)
    (held : w.calls id = some ⟨call, phase⟩) (whose : label = .step id ∨ label = .commit id) (taken : Step w label w') :
    ∃ phase', w'.calls = Function.update w.calls id (some ⟨call, phase'⟩) ∧ phase' ≠ .raised ∧
      cost (some ⟨call, phase'⟩) < cost (some ⟨call, phase⟩) := by
  rcases whose with rfl | rfl
  · obtain ⟨_, there, ran⟩ := Option.bind_eq_some_iff.mp taken
    cases held.symm.trans there
    exact linear.cost_of_advance held ran
  · obtain ⟨_, outcome, there, rfl⟩ := perform_commit taken
    cases held.symm.trans there
    exact ⟨.returned outcome, rfl, by rintro ⟨⟩, cost_lt (Or.inr ⟨rfl, by decide⟩)⟩

omit [LinearOrder T] in
theorem Orderly.step (orderly : Orderly rank w) (held : w.calls id = some ⟨call, phase⟩) (active : phase.ended = false)
    {phase' : PgPhase} (calls : w'.calls = Function.update w.calls id (some ⟨call, phase'⟩)) : Orderly rank w' := by
  have before {other : Nat} {call' : PgHistory.Call T} {next : PgPhase} (held' : w'.calls other = some ⟨call', next⟩)
      (active' : next.ended = false) : ∃ earlier, w.calls other = some ⟨call', earlier⟩ ∧ earlier.ended = false := by
    rw [calls] at held'
    by_cases own : other = id
    · subst own
      rw [Function.update_self] at held'
      cases held'
      exact ⟨phase, held, active⟩
    · rw [Function.update_of_ne own] at held'
      exact ⟨next, held', active'⟩
  constructor
  · intro other counts next held' active'
    obtain ⟨earlier, there, open_⟩ := before held' active'
    exact orderly.batches there open_
  · intro a b _ _ _ _ _ _ first second active' active''
    obtain ⟨_, there, open_⟩ := before first active'
    obtain ⟨_, there', open_'⟩ := before second active''
    exact orderly.sweeps there there' open_ open_'

theorem idle_of_run (run : Run Step (start : PgSessions tz) trace w) (absent : id ∉ trace.map Event.actor) :
    w.calls id = none := by
  induction run with
  | start => rfl
  | next _ taken ih =>
    rw [List.map_append, List.mem_append, not_or, List.map_singleton, List.mem_singleton] at absent
    exact (frame_of_step taken (Ne.symm absent.2)).1.trans (ih absent.1)

omit [LinearOrder T] in
theorem sum_cost_lt {ids : Finset Nat} {calls : Nat → Option (PgSession T)} {session : PgSession T} (member : id ∈ ids)
    (lower : cost (some session) < cost (calls id)) :
    ∑ other ∈ ids, cost (Function.update calls id (some session) other) < ∑ other ∈ ids, cost (calls other) := by
  refine Finset.sum_lt_sum (fun other _ => ?_) ⟨id, member, by rwa [Function.update_self]⟩
  by_cases own : other = id
  · rw [own, Function.update_self]
    exact lower.le
  · rw [Function.update_of_ne own]

/-- A state on the way to the end of the calls that are in progress in `w`. -/
structure Draining (rank : String → Nat) (ids : Finset Nat) (w u : PgSessions tz) : Prop where
  reached : ∃ trace, Run Step start trace u
  orderly : Orderly rank u
  idle : ∀ id ∉ ids, u.calls id = none
  kept : ∀ id call phase, w.calls id = some ⟨call, phase⟩ → phase ≠ .raised →
    ∃ phase', u.calls id = some ⟨call, phase'⟩ ∧ phase' ≠ .raised

theorem Draining.moves {ids : Finset Nat} {u : PgSessions tz} (draining : Draining rank ids w u)
    (working : ¬ ∀ id call phase, u.calls id = some ⟨call, phase⟩ → phase.ended = true) :
    ∃ label v, (∃ id, label = .step id ∨ label = .commit id) ∧ Step u label v ∧ Draining rank ids w v ∧
      ∑ id ∈ ids, cost (v.calls id) < ∑ id ∈ ids, cost (u.calls id) := by
  obtain ⟨⟨past, reached⟩, orderly, idle, kept⟩ := draining
  obtain ⟨_, linear⟩ := linear_of_run reached
  obtain ⟨id, call, phase, held, active⟩ : ∃ id call phase, u.calls id = some ⟨call, phase⟩ ∧ phase.ended = false := by
    simpa using working
  obtain ⟨mover, call, phase, label, v, held, active, whose, taken⟩ := linear.some_moves orderly held active
  obtain ⟨phase', calls, open_, lower⟩ := linear.cost_of_step held whose taken
  have begun : mover ∈ ids := by
    by_contra absent
    cases (idle mover absent).symm.trans held
  refine ⟨label, v, ⟨mover, whose⟩, taken, ⟨⟨_, reached.next taken⟩, orderly.step held active calls, ?_, ?_⟩, ?_⟩
  · intro other absent
    have different : other ≠ mover := by
      rintro rfl
      exact absent begun
    rw [calls, Function.update_of_ne different]
    exact idle other absent
  · intro other first next there unraised
    obtain ⟨earlier, later, still⟩ := kept other first next there unraised
    rw [calls]
    by_cases own : other = mover
    · subst own
      cases held.symm.trans later
      exact ⟨phase', Function.update_self .., open_⟩
    · rw [Function.update_of_ne own]
      exact ⟨earlier, later, still⟩
  · rw [calls]
    exact sum_cost_lt begun (by rw [held]; exact lower)

/-- The database can always bring all calls in progress to their ends, without
ending one to break a deadlock. -/
theorem pg_drains (run : Run Step (start : PgSessions tz) trace w) (orderly : Orderly rank w) :
    ∃ later u, Run Step w later u ∧ (∀ label ∈ later, ∃ id, label = .step id ∨ label = .commit id) ∧
      ∀ id call phase, w.calls id = some ⟨call, phase⟩ → phase ≠ .raised →
        ∃ outcome, u.calls id = some ⟨call, .returned outcome⟩ := by
  have lower := InvImage.wf (fun u : PgSessions tz => ∑ id ∈ (trace.map Event.actor).toFinset, cost (u.calls id))
    wellFounded_lt
  obtain ⟨later, u, rest, allowed, drained, ended⟩ := Run.drains lower
    (fun u (draining : Draining rank (trace.map Event.actor).toFinset w u) working => draining.moves working)
    ⟨⟨trace, run⟩, orderly, fun id absent => idle_of_run run fun member => absent (List.mem_toFinset.mpr member),
      fun id call phase held open_ => ⟨phase, held, open_⟩⟩
  refine ⟨later, u, rest, allowed, fun id call phase held open_ => ?_⟩
  obtain ⟨phase', there, unraised⟩ := drained.kept id call phase held open_
  have past := ended id call phase' there
  cases phase' with
  | returned outcome => exact ⟨outcome, there⟩
  | raised => exact absurd rfl unraised
  | _ => cases past

/-- Batches that list their codes in opposite orders can come to wait for each
other. -/
example : (Transition.execute perform (start : PgSessions Timestamps.milliseconds)
    [.begin 0 (.recordHitsBulk [("a", 1), ("b", 1)]), .begin 1 (.recordHitsBulk [("b", 1), ("a", 1)]), .step 0,
      .step 1, .step 0, .step 1]).any (fun w => (w.perform (.step 0)).isNone && (w.perform (.step 1)).isNone &&
        (w.perform (.commit 0)).isNone && (w.perform (.commit 1)).isNone) = true := by
  decide +kernel

/-- One of two flushes waits for the other. -/
theorem pg_drains_flushes :
    ∃ (w : PgSessions Timestamps.milliseconds) (later : _) (u : PgSessions Timestamps.milliseconds),
      Run Step start
        [.begin 0 (.recordHitsBulk [("a", 1), ("b", 1)]), .begin 1 (.recordHitsBulk [("a", 2)]), .step 0, .step 1,
          .step 0] w ∧
      w.perform (.step 1) = none ∧ Run Step w later u ∧
      (∃ outcome, u.calls 0 = some ⟨.recordHitsBulk [("a", 1), ("b", 1)], .returned outcome⟩) ∧
      ∃ outcome, u.calls 1 = some ⟨.recordHitsBulk [("a", 2)], .returned outcome⟩ := by
  have executed : ∃ w : PgSessions Timestamps.milliseconds, Run Step start
        [.begin 0 (.recordHitsBulk [("a", 1), ("b", 1)]), .begin 1 (.recordHitsBulk [("a", 2)]), .step 0, .step 1,
          .step 0] w ∧
      (w.perform (.step 1)).isNone ∧
      w.calls 0 = some ⟨.recordHitsBulk [("a", 1), ("b", 1)], .writing [("b", 1)] 2⟩ ∧
      w.calls 1 = some ⟨.recordHitsBulk [("a", 2)], .writing [("a", 2)] 1⟩ :=
    Run.exists_of_execute (fun _ _ _ done => done) (by decide +kernel)
  obtain ⟨w, run, waits, first, second⟩ := executed
  have flushing {id : Nat} {call : PgHistory.Call Int} {phase : PgPhase} (held : w.calls id = some ⟨call, phase⟩) :
      call = .recordHitsBulk [("a", 1), ("b", 1)] ∨ call = .recordHitsBulk [("a", 2)] := by
    by_cases own : id = 0 ∨ id = 1
    · rcases own with rfl | rfl
      · cases first.symm.trans held
        exact Or.inl rfl
      · cases second.symm.trans held
        exact Or.inr rfl
    · cases (idle_of_run run (by simp [Event.actor, not_or.mp own])).symm.trans held
  have orderly : Orderly (fun code => if code = "a" then 0 else 1) w := by
    constructor
    · intro id counts phase held _
      rcases flushing held with same | same <;> cases same <;> decide
    · intro a b _ _ _ _ _ _ held
      rcases flushing held with same | same <;> cases same
  obtain ⟨later, u, rest, _, ends⟩ := pg_drains run orderly
  exact ⟨w, later, u, run, Option.isNone_iff_eq_none.mp waits, rest, ends 0 _ _ first nofun, ends 1 _ _ second nofun⟩

end PgSessions

end

end UrlShortener
