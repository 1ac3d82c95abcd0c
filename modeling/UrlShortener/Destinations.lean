import UrlShortener.CreateRecords
import UrlShortener.Provenance

namespace UrlShortener
open Transition

/-- A create request asked for `link`: the policy did not refuse its target, its
allocation tried the code, and the clock of that attempt dates the link. -/
def Link.Requested (settings : Settings) (trace : List Event) (link : Link) : Prop :=
  ∃ id inst ttlSeconds, Event.create id inst link.target ttlSeconds ∈ trace ∧
    Event.attempt id link.code link.createdMs ∈ trace ∧ (settings.evaluate link.target).action ≠ .refuse ∧
    link.expiresMs = (ttlSeconds.filter (· ≠ 0)).map fun ttl => link.createdMs + ttl * 1000

theorem Link.Requested.later {settings : Settings} {trace : List Event} {link : Link}
    (requested : link.Requested settings trace) (event : Event) : link.Requested settings (trace ++ [event]) := by
  obtain ⟨id, inst, ttlSeconds, asked, tried, rest⟩ := requested
  exact ⟨id, inst, ttlSeconds, List.mem_append_left _ asked, List.mem_append_left _ tried, rest⟩

theorem LinkStore.create_link {s s' : LinkStore} {code target : String} {ttlSeconds : Option Int} {clock : Int}
    {link : Link} (made : s.create code target ttlSeconds none clock = some (link, s')) :
    link = ⟨code, target, clock, (ttlSeconds.filter (· ≠ 0)).map fun ttl => clock + ttl * 1000⟩ := by
  obtain ⟨_, same⟩ := Option.ite_none_left_eq_some.mp made
  cases same
  rfl

theorem Create.begin_attempting {settings : Settings} {inst left : Nat} {target : String} {ttlSeconds : Option Int}
    (attempting : (Create.begin settings inst target ttlSeconds).phase = .attempting left) :
    (settings.evaluate target).action ≠ .refuse := by
  intro refused
  cases (if_pos refused).symm.trans attempting

namespace World

/-- Some client has been told that `code` leads to `target`: by the answer to
its create request, by a redirect or by an interstitial page. -/
inductive Tells (w : World) (code target : String) : Prop
  | created {id c expiresMs flagged reason} : w.task id = .create c →
      c.phase = .answered (.created code target expiresMs flagged reason) → Tells w code target
  | shown {id r} : w.task id = .resolve r → r.code = code → r.Shows target → Tells w code target

/-- Every row, and every create request that may still become one, was asked for. -/
structure Accounted (settings : Settings) (trace : List Event) (w : World) : Prop where
  attempting : ∀ {id c left}, w.task id = .create c → c.phase = .attempting left →
    Event.create id c.inst c.target c.ttlSeconds ∈ trace ∧ (settings.evaluate c.target).action ≠ .refuse
  stored : ∀ {code link}, w.links.get code = some link → link.Requested settings trace

variable {settings : Settings} {w w' : World} {event : Event} {trace : List Event} {id : Nat} {c : Create}

/-- A create request that was not there a step before has just been made. -/
theorem Turn.begins_create (turn : w.Turn settings event w') (known : w'.task id = .create c)
    (absent : w.task id = .absent) :
    ∃ inst target ttlSeconds, event = .create id inst target ttlSeconds ∧
      c = Create.begin settings inst target ttlSeconds := by
  have unmoved {acting : Nat} {t t' : Task} (present : w.task acting = t) (busy : t ≠ .absent)
      (held : Function.update w.task acting t' id = .create c) : False := by
    rcases updated held with before | ⟨rfl, _⟩
    · cases absent.symm.trans before
    · exact busy (present.symm.trans absent)
  cases turn with
  | begun begins free =>
    rcases updated known with before | ⟨rfl, rfl⟩
    · cases absent.symm.trans before
    · cases event <;> cases begins
      exact ⟨_, _, _, rfl, rfl⟩
  | restarted inst => cases absent.symm.trans (Task.eq_of_stop known Task.noConfusion)
  | flushed inst => cases absent.symm.trans known
  | resolved present _ | resolveFailed present _ | attempted present _ | created present _ | createFailed present _
  | tookDown present _ | takedownFailed present _ | polled present _ | pollFailed present _ =>
    exact (unmoved present Task.noConfusion known).elim

/-- The links change by the attempt of a create request, and only then. -/
theorem Turn.links_cases (turn : w.Turn settings event w') :
    w'.links = w.links ∨ ∃ id c code clock left link, event = .attempt id code clock ∧ w.task id = .create c ∧
      c.phase = .attempting (left + 1) ∧
      w.links.create code c.target c.ttlSeconds none clock = some (link, w'.links) := by
  cases turn with
  | @attempted id c code clock links phase known attempted =>
    obtain ⟨left, here, ⟨link, _, made⟩ | ⟨_, rfl⟩⟩ := Create.attempt_cases attempted
    · exact Or.inr ⟨id, c, code, clock, left, link, rfl, known, here, made⟩
    · exact Or.inl rfl
  | _ => exact Or.inl rfl

theorem Accounted.start (settings : Settings) : (World.start settings).Accounted settings [] where
  attempting known := by cases known
  stored found := by cases (AList.lookup_empty _).symm.trans found

theorem Accounted.step (accounted : w.Accounted settings trace) (taken : w.Step settings event w') :
    w'.Accounted settings (trace ++ [event]) := by
  constructor
  · intro id c left known phase
    rcases taken.turn.create known with before | ⟨absent, _⟩ | ⟨before, next, held, rfl, how⟩
    · obtain ⟨asked, admitted⟩ := accounted.attempting before phase
      exact ⟨List.mem_append_left _ asked, admitted⟩
    · obtain ⟨inst, target, ttlSeconds, rfl, rfl⟩ := taken.turn.begins_create known absent
      exact ⟨List.mem_append_right _ (List.mem_singleton_self _), Create.begin_attempting phase⟩
    -- A request that goes on attempting was attempting already.
    · have attempted : ∃ left, before.phase = .attempting left := by
        rcases how with ⟨code, clock, attempted⟩ | advanced | ⟨fault, failed⟩
        · obtain ⟨left, here, _⟩ := Create.attempt_cases attempted
          exact ⟨_, here⟩
        · obtain ⟨here, _⟩ | ⟨row, _, rfl, _⟩ := Create.advance_phase advanced
          · exact ⟨_, here⟩
          · cases phase
        · rcases Create.fail_phase failed with rfl | rfl <;> cases phase
      obtain ⟨left, here⟩ := attempted
      obtain ⟨asked, admitted⟩ := accounted.attempting held here
      exact ⟨List.mem_append_left _ asked, admitted⟩
  · intro code link found
    rcases taken.turn.links_cases with same | ⟨id, c, tried, clock, left, row, rfl, known, here, made⟩
    · exact (accounted.stored (same ▸ found)).later event
    · obtain ⟨free, sameCode, _, inserted⟩ := LinkStore.create_cases made
      rw [inserted] at found
      by_cases own : code = row.code
      · subst own
        rw [w.links.get_insert_self] at found
        cases found
        obtain ⟨asked, admitted⟩ := accounted.attempting known here
        rw [LinkStore.create_link made]
        exact ⟨id, c.inst, c.ttlSeconds, List.mem_append_left _ asked,
          List.mem_append_right _ (List.mem_singleton_self _), admitted, rfl⟩
      · rw [w.links.get_insert_other own] at found
        exact (accounted.stored found).later _

theorem accounted_of_run (run : Run (World.Step settings) (World.start settings) trace w) :
    w.Accounted settings trace := by
  induction run with
  | start => exact .start settings
  | next _ taken ih => exact ih.step taken

/-- What clients are told of a code is the target of its stored link. -/
theorem Tells.leads {code target : String} (tells : w.Tells code target)
    (run : Run (World.Step settings) (World.start settings) trace w) :
    ∃ link, w.links.get code = some link ∧ link.target = target := by
  cases tells with
  | created known answered =>
    obtain ⟨link, stored, same, _⟩ := (recorded_of_run run).created known answered
    exact ⟨link, stored, same⟩
  | shown known code shows => exact code ▸ leads_of_run run known shows.carries

/-- All clients of all instances are told the same target for a code, at any
time, and it is the one that the policy let a create request have this code for. -/
theorem destinations_agree (run : Run (World.Step settings) (World.start settings) trace w) :
    (∀ code target other, w.Tells code target → w.Tells code other → target = other) ∧
      ∀ code target, w.Tells code target →
        ∃ link, link.code = code ∧ link.target = target ∧ w.links.get code = some link ∧
          link.Requested settings trace := by
  constructor
  · intro code target other tells tells'
    obtain ⟨link, stored, rfl⟩ := tells.leads run
    obtain ⟨link', stored', rfl⟩ := tells'.leads run
    cases stored.symm.trans stored'
    rfl
  · intro code target tells
    obtain ⟨link, stored, same⟩ := tells.leads run
    exact ⟨link, w.links.keyed code link stored, same, stored, (accounted_of_run run).stored stored⟩

/-- A second request is given the code of the first and has to take another one,
and a second instance redirects. -/
theorem destinations_agree_collision :
    ∃ w, Run (World.Step .lenient) (World.start .lenient)
        [.create 0 0 "https://example.com" none, .create 1 1 "https://example.org" (some 60), .attempt 0 "c" 7,
          .attempt 1 "c" 8, .attempt 1 "d" 9, .step 0, .resolve 2 1 "c" 10, .step 2, .step 2, .step 2, .step 2, .step 2,
          .step 2, .step 2, .step 2, .step 2] w ∧
      (w.links.get "d").map Link.expiresMs = some (some 60009) ∧ w.Tells "c" "https://example.com" ∧
      ∀ target, w.Tells "c" target → target = "https://example.com" := by
  have executed : ∃ w, Run (World.Step .lenient) (World.start .lenient)
        [.create 0 0 "https://example.com" none, .create 1 1 "https://example.org" (some 60), .attempt 0 "c" 7,
          .attempt 1 "c" 8, .attempt 1 "d" 9, .step 0, .resolve 2 1 "c" 10, .step 2, .step 2, .step 2, .step 2, .step 2,
          .step 2, .step 2, .step 2, .step 2] w ∧
      (w.links.get "d").map Link.expiresMs = some (some 60009) ∧
      w.task 2 = .resolve ⟨1, "c", 10, .answered (.redirect "https://example.com")⟩ :=
    Run.exists_of_execute (fun _ _ _ done => done) (by decide +kernel)
  obtain ⟨w, run, dated, redirected⟩ := executed
  have told : w.Tells "c" "https://example.com" := .shown redirected rfl (Or.inl rfl)
  exact ⟨w, run, dated, told, fun target tells => (destinations_agree run).1 _ _ _ tells told⟩

end World
end UrlShortener
