import UrlShortener.FlightLeaders
import UrlShortener.SweptDeployment
import UrlShortener.Takedowns

namespace UrlShortener
open Transition

namespace Resolve

/-- A resolve that moves was not over. -/
theorem Move.running {links : LinkStore} {id : Nat} {i i' : Instance} {r : Resolve} {phase : ResolvePhase}
    (move : r.Move links id i i' phase) : r.phase.over = false := by
  cases move with
  | raised fault here =>
    obtain here | here | ⟨link, here⟩ := here <;> rw [here] <;> rfl
  | _ => simp only [ResolvePhase.over, *]

end Resolve

namespace World
variable {settings : Settings} {u v w w' : World} {before later : List SweptEvent} {id inst : Nat} {r : Resolve}
  {code : String} {link : Link}

/-- At some moment of a part of a run, the code led to this link. -/
def Since (settings : Settings) (u : World) (later : List SweptEvent) (w : World) (code : String) (link : Link) : Prop :=
  ∃ past rest mid, later = past ++ rest ∧ Run (SweptStep settings) u past mid ∧ Run (SweptStep settings) mid rest w ∧
    mid.links.get code = some link

theorem Since.now (run : Run (SweptStep settings) u later w) (stored : w.links.get code = some link) :
    Since settings u later w code link :=
  ⟨later, [], w, (List.append_nil later).symm, run, .start, stored⟩

theorem Since.step {event : SweptEvent} (since : Since settings u later w code link)
    (taken : w.SweptStep settings event w') : Since settings u (later ++ [event]) w' code link := by
  obtain ⟨past, rest, mid, rfl, first, last, stored⟩ := since
  exact ⟨past, rest ++ [event], mid, List.append_assoc .., first, last.next taken, stored⟩

/-- What a moment at which nobody asks for a code leaves behind: of the requests
that are `new`, none can be sent to a link that was not `stored` since. The
purges before that moment were made at the times `gone`. -/
structure Fresh (gone : Int → Prop) (new : Nat → Prop) (code : String) (stored : Link → Prop) (w : World) : Prop where
  cached : ∀ {inst entry}, (w.instances inst).cache.data.lookup code = some entry →
    ∃ link, entry = (link.target, link.expiresMs) ∧ (stored link ∨ ∃ nowMs, gone nowMs ∧ link.isExpired nowMs = true)
  young : ∀ {id r}, w.task id = .resolve r → r.code = code → r.phase.over = false →
    new id ∧ ∀ nowMs, gone nowMs → nowMs ≤ r.nowMs
  storing : ∀ {id r link}, w.task id = .resolve r → r.code = code → r.phase = .storing link → stored link
  shared : ∀ {inst leader r target}, ((w.instances inst).flight.object leader).value = some target →
    w.task leader = .resolve r → r.code = code → new leader → ∃ link, stored link ∧ link.target = target
  waiting : ∀ {id r leader}, w.task id = .resolve r → r.code = code → r.phase = .waiting leader →
    new leader ∧ ∃ q, w.task leader = .resolve q ∧ q.inst = r.inst ∧ q.code = code
  carried : ∀ {id r target}, w.task id = .resolve r → r.code = code → new id → r.phase.carries target →
    ∃ link, stored link ∧ link.target = target

section
variable {gone : Int → Prop} {new : Nat → Prop} {stored stored' : Link → Prop} {trace : List SweptEvent}

theorem Fresh.mono (fresh : w.Fresh gone new code stored) (grows : ∀ link, stored link → stored' link) :
    w.Fresh gone new code stored' where
  cached held := by
    obtain ⟨link, same, known⟩ := fresh.cached held
    exact ⟨link, same, known.imp_left (grows link)⟩
  young := fresh.young
  storing known own phase := grows _ (fresh.storing known own phase)
  shared value led own recent := by
    obtain ⟨link, known, same⟩ := fresh.shared value led own recent
    exact ⟨link, grows link known, same⟩
  waiting := fresh.waiting
  carried known own recent carries := by
    obtain ⟨link, known, same⟩ := fresh.carried known own recent carries
    exact ⟨link, grows link known, same⟩

theorem Fresh.quiet (fresh : w.Fresh gone new code stored) (sound : SweptSound trace w) (quiet : Quiet w w')
    (begun : ∀ {id r}, w.task id = .absent → w'.task id = .resolve r → r.code = code →
      new id ∧ ∀ nowMs, gone nowMs → nowMs ≤ r.nowMs) : w'.Fresh gone new code stored where
  cached held := fresh.cached (quiet.cache held)
  young known own running := by
    rcases quiet.begun known with earlier | ⟨absent, _⟩
    · exact fresh.young earlier own running
    · exact begun absent known own
  storing known own phase := by
    rcases quiet.begun known with earlier | ⟨_, checking⟩
    · exact fresh.storing earlier own phase
    · rw [checking] at phase
      cases phase
  shared {inst leader r target} value led own recent := by
    rw [quiet.flight] at value
    rcases quiet.begun led with earlier | ⟨absent, _⟩
    · exact fresh.shared value earlier own recent
    · obtain ⟨q, known, _⟩ := sound.shared value
      cases absent.symm.trans known
  waiting known own phase := by
    rcases quiet.begun known with earlier | ⟨_, checking⟩
    · obtain ⟨recent, q, led, same⟩ := fresh.waiting earlier own phase
      exact ⟨recent, q, quiet.kept led, same⟩
    · rw [checking] at phase
      cases phase
  carried known own recent carries := by
    rcases quiet.begun known with earlier | ⟨_, checking⟩
    · exact fresh.carried earlier own recent carries
    · rw [checking] at carries
      exact carries.elim

/-- Where the target of a resolve that moves was stored. -/
theorem Fresh.move {i : Instance} {phase : ResolvePhase} {target : String} (fresh : w.Fresh gone new code stored)
    (known : w.task id = .resolve r) (own : r.code = code) (recent : new id)
    (move : r.Move w.links id (w.instances r.inst) i phase) (carries : phase.carries target) :
    ∃ link, stored link ∧ link.target = target := by
  rcases move.carries carries with earlier | hit | ⟨link, storing, same⟩ | ⟨leader, waiting, woken⟩
  · exact fresh.carried known own recent earlier
  · obtain ⟨expiresMs, held, live⟩ := LruCache.get_hit hit
    rw [own] at held
    obtain ⟨link, same, kept | ⟨nowMs, swept, late⟩⟩ := fresh.cached held
    · exact ⟨link, kept, (congrArg Prod.fst same).symm⟩
    -- The row of this entry was purged at a time that the clock of the request has reached.
    · have passed := (fresh.young known own move.running).2 nowMs swept
      have expiry : expiresMs = link.expiresMs := congrArg Prod.snd same
      rw [Link.isExpired, ← expiry] at late
      obtain ⟨e, rfl, reached⟩ := (Option.any_eq_true _ _).mp late
      have early : ¬ e ≤ r.nowMs := of_decide_eq_false live
      exact absurd (Int.le_trans (of_decide_eq_true reached) passed) early
  · exact ⟨link, fresh.storing known own storing, same⟩
  · obtain ⟨led, q, asked, _, sameCode⟩ := fresh.waiting known own waiting
    exact fresh.shared (SingleFlight.wake_value woken) asked sameCode led

theorem Fresh.resolve {i : Instance} {phase : ResolvePhase} (fresh : w.Fresh gone new code stored)
    (sound : SweptSound trace w) (here : ∀ link, w.links.get code = some link → stored link)
    (known : w.task id = .resolve r) (move : r.Move w.links id (w.instances r.inst) i phase) :
    (w.put r.inst i id (.resolve { r with phase := phase })).Fresh gone new code stored where
  cached {inst entry} held := by
    by_cases same : inst = r.inst
    · subst same
      rw [w.put_instance] at held
      rcases move.cache held with earlier | ⟨link, storing, own, rfl⟩
      · exact fresh.cached earlier
      · exact ⟨link, rfl, Or.inl (fresh.storing known own.symm storing)⟩
    · rw [w.put_instance_other same] at held
      exact fresh.cached held
  young {other q} held own running := by
    by_cases mine : other = id
    · subst mine
      cases w.put_task.symm.trans held
      have earlier := fresh.young known own move.running
      exact earlier
    · exact fresh.young ((w.put_task_other mine).symm.trans held) own running
  storing {other q link} held own storing := by
    by_cases mine : other = id
    · subst mine
      cases w.put_task.symm.trans held
      cases storing
      exact here link (own ▸ move.storing.1)
    · exact fresh.storing ((w.put_task_other mine).symm.trans held) own storing
  shared {inst leader q target} value led own recent := by
    have kept (earlier : ((w.instances inst).flight.object leader).value = some target) :
        ∃ link, stored link ∧ link.target = target := by
      by_cases mine : leader = id
      · subst mine
        cases w.put_task.symm.trans led
        exact fresh.shared earlier known own recent
      · exact fresh.shared earlier ((w.put_task_other mine).symm.trans led) own recent
    by_cases same : inst = r.inst
    · subst same
      rw [w.put_instance] at value
      rcases move.value value with earlier | ⟨rfl, carries⟩
      · exact kept earlier
      · cases w.put_task.symm.trans led
        exact fresh.move known own recent move carries
    · rw [w.put_instance_other same] at value
      exact kept value
  waiting {other q leader} held own waiting := by
    have led : new leader ∧ ∃ q', w.task leader = .resolve q' ∧ q'.inst = q.inst ∧ q'.code = code := by
      by_cases mine : other = id
      · subst mine
        cases w.put_task.symm.trans held
        cases waiting
        obtain ⟨q', led, sameInst, sameCode, leads⟩ := sound.led move.waiting
        have sameCode := sameCode.trans own
        exact ⟨(fresh.young led sameCode leads.running).1, q', led, sameInst, sameCode⟩
      · exact fresh.waiting ((w.put_task_other mine).symm.trans held) own waiting
    obtain ⟨recent, q', led, sameInst, sameCode⟩ := led
    obtain ⟨q'', led', inst', code', _⟩ := World.put_keeps known led
    exact ⟨recent, q'', led', inst'.trans sameInst, code'.trans sameCode⟩
  carried {other q target} held own recent carries := by
    by_cases mine : other = id
    · subst mine
      cases w.put_task.symm.trans held
      exact fresh.move known own recent move carries
    · exact fresh.carried ((w.put_task_other mine).symm.trans held) own recent carries

theorem Fresh.restart (fresh : w.Fresh gone new code stored) (settings : Settings) (inst : Nat) :
    (w.restart settings inst).Fresh gone new code stored where
  cached {other entry} held := by
    by_cases here : other = inst
    · rw [here, w.restart_instance] at held
      cases (AList.lookup_empty _).symm.trans held
    · rw [w.restart_instance_other here] at held
      exact fresh.cached held
  young held own running := fresh.young (Task.stop_resolve held).1 own running
  storing held own storing := fresh.storing (Task.stop_resolve held).1 own storing
  shared {other leader q target} value led own recent := by
    by_cases here : other = inst
    · rw [here, w.restart_instance] at value
      cases value
    · rw [w.restart_instance_other here] at value
      exact fresh.shared value (Task.stop_resolve led).1 own recent
  waiting {id r leader} held own waiting := by
    obtain ⟨earlier, survived⟩ := Task.stop_resolve held
    have elsewhere : r.inst ≠ inst := Task.elsewhere_of_running (by rw [waiting]; rfl) survived
    obtain ⟨recent, q, led, sameInst, sameCode⟩ := fresh.waiting earlier own waiting
    exact ⟨recent, q, World.restart_keeps led (sameInst ▸ elsewhere), sameInst, sameCode⟩
  carried held own recent carries := fresh.carried (Task.stop_resolve held).1 own recent carries

/-- A resolve that was not there a step before has just been asked for. -/
theorem Turn.begins_resolve {event : Event} (turn : w.Turn settings event w') (known : w'.task id = .resolve r)
    (absent : w.task id = .absent) : event = .resolve id r.inst r.code r.nowMs := by
  have unmoved {acting : Nat} {t t' : Task} (present : w.task acting = t) (busy : t ≠ .absent)
      (held : Function.update w.task acting t' id = .resolve r) : False := by
    rcases updated held with earlier | ⟨rfl, _⟩
    · cases absent.symm.trans earlier
    · exact busy (present.symm.trans absent)
  cases turn with
  | begun begins free =>
    rcases updated known with earlier | ⟨rfl, rfl⟩
    · cases absent.symm.trans earlier
    · cases event <;> cases begins
      rfl
  | restarted inst => cases absent.symm.trans (Task.stop_resolve known).1
  | flushed inst => cases absent.symm.trans known
  | resolved present _ | resolveFailed present _ | attempted present _ | created present _ | createFailed present _
  | tookDown present _ | takedownFailed present _ | polled present _ | pollFailed present _ =>
    exact (unmoved present Task.noConfusion known).elim

/-- No task is ever forgotten. -/
theorem SweptStep.present {event : SweptEvent} (taken : w.SweptStep settings event w')
    (present : w.task id ≠ .absent) : w'.task id ≠ .absent := by
  cases event with
  | app event =>
    have app : w.Step settings event w' := taken
    cases app.effect with
    | quiet quiet => exact quiet.present present
    | @resolve acting r i phase known _ _ =>
      by_cases own : id = acting
      · rw [own, w.put_task]
        exact Task.noConfusion
      · rwa [w.put_task_other own]
    | restart inst =>
      exact Task.stop_present present
  | sweep code nowMs =>
    obtain ⟨_, rfl⟩ := sweep_cases taken
    exact present

theorem absent_before (run : Run (SweptStep settings) u later w) (absent : w.task id = .absent) :
    u.task id = .absent := by
  by_contra present
  refine absurd absent ?_
  clear absent
  induction run with
  | start => exact present
  | next _ taken ih => exact taken.present ih

theorem kept_of_run {trace : List SweptEvent} (run : Run (SweptStep settings) u later w) (kept : Kept trace u code link) :
    Kept (trace ++ later) w code link := by
  induction run with
  | start => rwa [List.append_nil]
  | next _ taken ih =>
    rw [← List.append_assoc]
    exact ih.step taken

theorem Fresh.step {event : SweptEvent} (fresh : w.Fresh gone new code stored) (sound : SweptSound trace w)
    (here : ∀ link, w.links.get code = some link → stored link) (taken : w.SweptStep settings event w')
    (prompt : ∀ id inst nowMs, event = .app (.resolve id inst code nowMs) → w.task id = .absent →
      new id ∧ ∀ swept, gone swept → swept ≤ nowMs) : w'.Fresh gone new code stored := by
  cases event with
  | app event =>
    have app : w.Step settings event w' := taken
    cases app.effect with
    | quiet quiet =>
      refine fresh.quiet sound quiet fun absent known own => ?_
      have asked := app.turn.begins_resolve known absent
      exact prompt _ _ _ (by rw [asked, own]) absent
    | resolve known move _ => exact fresh.resolve sound here known move
    | restart inst => exact fresh.restart settings inst
  | sweep other nowMs =>
    obtain ⟨_, rfl⟩ := sweep_cases taken
    exact ⟨fresh.cached, fresh.young, fresh.storing, fresh.shared, fresh.waiting, fresh.carried⟩

/-- Nobody is asking for a code. -/
def Idle (u : World) (code : String) : Prop :=
  ∀ id r, u.task id = .resolve r → r.code = code → r.phase.over = true

theorem Idle.fresh (idle : u.Idle code) (sound : SweptSound before u) :
    u.Fresh (fun nowMs => .sweep code nowMs ∈ before) (fun id => u.task id = .absent) code
      (fun link => u.links.get code = some link) where
  cached held := by
    obtain ⟨link, kept, same⟩ := sound.backed held
    exact ⟨link, same, kept⟩
  young known own running := absurd (idle _ _ known own) (by rw [running]; exact Bool.false_ne_true)
  storing {id r link} known own storing := by
    have ended := idle _ _ known own
    rw [storing] at ended
    cases ended
  shared value led own absent := by cases led.symm.trans absent
  waiting {id r leader} known own waiting := by
    have ended := idle _ _ known own
    rw [waiting] at ended
    cases ended
  carried known own absent carries := by cases known.symm.trans absent

theorem fresh_of_run (past : Run (SweptStep settings) (World.start settings) before u)
    (rest : Run (SweptStep settings) u later w) (idle : u.Idle code)
    (prompt : ∀ id inst nowMs swept, .app (.resolve id inst code nowMs) ∈ later → .sweep code swept ∈ before →
      swept ≤ nowMs) :
    w.Fresh (fun nowMs => .sweep code nowMs ∈ before) (fun id => u.task id = .absent) code
      (Since settings u later w code) := by
  induction rest with
  | start => exact (idle.fresh (sweptSound_of_run past)).mono fun link stored => .now .start stored
  | @next trace w event w' run taken ih =>
    have fresh := ih fun id inst nowMs swept member => prompt id inst nowMs swept (List.mem_append_left _ member)
    have sound := sweptSound_of_run (past.append run)
    refine (fresh.step sound (fun link => Since.now run) taken ?_).mono fun link since => since.step taken
    rintro id inst nowMs rfl absent
    refine ⟨absent_before run absent, fun swept => ?_⟩
    exact prompt id inst nowMs swept (List.mem_append_right _ (List.mem_singleton_self _))

/-- After a moment at which nobody asks for a code, a request for it is sent to a
link that has led there since, whatever older caches still hold; and if the code
is not purged again, to the one that it has led to since that moment. -/
theorem reissued_code_leads (past : Run (SweptStep settings) (World.start settings) before u)
    (rest : Run (SweptStep settings) u later w) (idle : u.Idle code)
    (prompt : ∀ id inst nowMs swept, .app (.resolve id inst code nowMs) ∈ later → .sweep code swept ∈ before →
      swept ≤ nowMs)
    {target : String} (begun : u.task id = .absent) (known : w.task id = .resolve r) (asked : r.code = code)
    (shows : r.Shows target) :
    (∃ link, Since settings u later w code link ∧ link.target = target) ∧
      ∀ link, u.links.get code = some link → (∀ swept, .sweep code swept ∉ later) → link.target = target := by
  obtain ⟨link, since, same⟩ := (fresh_of_run past rest idle prompt).carried known asked begun shows.carries
  refine ⟨⟨link, since, same⟩, fun first led unswept => ?_⟩
  obtain ⟨early, late, mid, rfl, run, _, stored⟩ := since
  have kept : Kept ([] ++ early) mid code first := kept_of_run run (Or.inl led)
  rcases kept with held | ⟨swept, member, _⟩
  · cases held.symm.trans stored
    exact same
  · exact absurd (List.mem_append_left _ member) (unswept swept)

/-- Every resolve was asked for. -/
theorem asked_of_run {trace : List SweptEvent} (run : Run (SweptStep settings) (World.start settings) trace w)
    (known : w.task id = .resolve r) : .app (.resolve id r.inst r.code r.nowMs) ∈ trace := by
  induction run generalizing r with
  | start => cases known
  | @next trace w event w' before taken ih =>
    by_cases absent : w.task id = .absent
    · cases event with
      | app event =>
        have app : w.Step settings event w' := taken
        rw [app.turn.begins_resolve known absent]
        exact List.mem_append_right _ (List.mem_singleton_self _)
      | sweep code nowMs =>
        obtain ⟨_, rfl⟩ := sweep_cases taken
        cases absent.symm.trans known
    · have earlier : ∃ q, w.task id = .resolve q ∧ q.inst = r.inst ∧ q.code = r.code ∧ q.nowMs = r.nowMs := by
        cases event with
        | app event =>
          have app : w.Step settings event w' := taken
          cases app.effect with
          | quiet quiet =>
            rcases quiet.begun known with same | ⟨fresh, _⟩
            · exact ⟨r, same, rfl, rfl, rfl⟩
            · exact absurd fresh absent
          | @resolve acting q i phase held _ _ =>
            by_cases own : id = acting
            · subst own
              cases w.put_task.symm.trans known
              exact ⟨q, held, rfl, rfl, rfl⟩
            · exact ⟨r, (w.put_task_other own).symm.trans known, rfl, rfl, rfl⟩
          | restart inst => exact ⟨r, (Task.stop_resolve known).1, rfl, rfl, rfl⟩
        | sweep code nowMs =>
          obtain ⟨_, rfl⟩ := sweep_cases taken
          exact ⟨r, known, rfl, rfl, rfl⟩
      obtain ⟨q, held, inst, code, nowMs⟩ := earlier
      have member := ih held
      rw [inst, code, nowMs] at member
      exact List.mem_append_left _ member

/-- A link that expires at 1000 is cached by an instance and purged, and its code is issued again. -/
def reissuing : List SweptEvent :=
  [.app (.create 0 0 "https://example.com" (some 1)), .app (.attempt 0 "c" 0), .app (.step 0),
    .app (.resolve 1 1 "c" 10), .app (.step 1), .app (.step 1), .app (.step 1), .app (.step 1), .app (.step 1),
    .app (.step 1), .app (.step 1), .app (.step 1), .app (.step 1), .sweep "c" 1000,
    .app (.create 2 0 "https://example.org" none), .app (.attempt 2 "c" 1200), .app (.step 2)]

def askingAgain : List SweptEvent :=
  .app (.resolve 3 1 "c" 1300) :: List.replicate 9 (.app (.step 3))

theorem reissued_code_leads_cached :
    ∃ u w, Run (SweptStep .lenient) (World.start .lenient) reissuing u ∧ Run (SweptStep .lenient) u askingAgain w ∧
      (u.instances 1).cache.data.lookup "c" = some ("https://example.com", some 1000) ∧
      w.task 3 = .resolve ⟨1, "c", 1300, .answered (.redirect "https://example.org")⟩ ∧
      ∀ link, u.links.get "c" = some link → link.target = "https://example.org" := by
  have executed : ∃ u, Run (SweptStep .lenient) (World.start .lenient) reissuing u ∧
      (u.task 1 = .resolve ⟨1, "c", 10, .answered (.redirect "https://example.com")⟩ ∧ u.task 3 = .absent ∧
        (u.instances 1).cache.data.lookup "c" = some ("https://example.com", some 1000) ∧
        (execute (performSwept .lenient) u askingAgain).any (fun w =>
          w.task 3 = .resolve ⟨1, "c", 1300, .answered (.redirect "https://example.org")⟩) = true) :=
    Run.exists_of_execute (fun _ _ _ done => done) (by decide +kernel)
  obtain ⟨u, past, answered, absent, cached, done⟩ := executed
  obtain ⟨w, reached, redirected⟩ := (Option.any_eq_true _ _).mp done
  have rest : Run (SweptStep .lenient) u askingAgain w := .of_execute (fun _ _ _ done => done) reached
  have idle : u.Idle "c" := by
    intro id r known _
    have asked := asked_of_run past known
    simp only [reissuing, List.mem_cons, SweptEvent.app.injEq, Event.resolve.injEq, reduceCtorEq, false_or, or_false,
      List.not_mem_nil] at asked
    rw [asked.1, answered] at known
    cases known
    rfl
  have prompt : ∀ id inst nowMs swept, .app (.resolve id inst "c" nowMs) ∈ askingAgain → .sweep "c" swept ∈ reissuing →
      swept ≤ nowMs := by
    intro id inst nowMs swept asked purged
    simp only [askingAgain, List.mem_cons, SweptEvent.app.injEq, Event.resolve.injEq, List.mem_replicate, reduceCtorEq,
      and_false, or_false] at asked
    simp only [reissuing, List.mem_cons, SweptEvent.sweep.injEq, reduceCtorEq, false_or, or_false, List.not_mem_nil] at purged
    omega
  have shown := of_decide_eq_true redirected
  have leads := reissued_code_leads past rest idle prompt absent shown rfl (Or.inl rfl)
  exact ⟨u, w, past, rest, cached, shown, fun link led => leads.2 link led fun swept => by simp [askingAgain]⟩

end

end World
end UrlShortener
