import UrlShortener.Provenance

namespace UrlShortener
open Transition

/-- A waiter takes over the answer of a leader whose clock read before the
expiry of the link, while its own clock has reached it. -/
def World.straddles (w : World) : Event → Bool
  | .step id => match w.task id with
    | .resolve r => match r.phase with
      | .waiting leader => match w.task leader, w.links.get r.code with
        | .resolve q, some link => !link.isExpired q.nowMs && link.isExpired r.nowMs
        | _, _ => false
      | _ => false
    | _ => false
  | _ => false

def World.PunctualStep (settings : Settings) (w : World) (event : Event) (w' : World) : Prop :=
  w.Step settings event w' ∧ w.straddles event = false

def World.performPunctual (settings : Settings) (w : World) (event : Event) : Option World :=
  (w.perform settings event).filter fun _ => w.straddles event = false

theorem World.PunctualStep.of_perform (settings : Settings) (w : World) (event : Event) (w' : World)
    (done : w.performPunctual settings event = some w') : w.PunctualStep settings event w' := by
  obtain ⟨performed, apart⟩ := Option.filter_eq_some_iff.mp done
  exact ⟨performed, of_decide_eq_true apart⟩

/-- Every target on its way to an answer is live at the clock of its request. -/
structure World.Punctual (w : World) : Prop where
  shared : ∀ {inst leader target}, ((w.instances inst).flight.object leader).value = some target →
    ∃ q, w.task leader = .resolve q ∧ q.inst = inst ∧ w.links.Live q.code target q.nowMs
  waiting : ∀ {id r leader}, w.task id = .resolve r → r.phase = .waiting leader →
    ∃ q, w.task leader = .resolve q ∧ q.inst = r.inst ∧ q.code = r.code
  carried : ∀ {id r target}, w.task id = .resolve r → r.phase.carries target →
    w.links.Live r.code target r.nowMs

section
variable {settings : Settings} {w : World} {event : Event} {trace : List Event} {id : Nat} {r : Resolve}

theorem World.unexpired_of_apart {q : Resolve} {leader : Nat} {link : Link}
    (apart : w.straddles (.step id) = false) (known : w.task id = .resolve r)
    (waiting : r.phase = .waiting leader) (led : w.task leader = .resolve q)
    (stored : w.links.get r.code = some link) (fresh : link.isExpired q.nowMs = false) :
    link.isExpired r.nowMs = false := by
  simpa only [straddles, known, waiting, led, stored, fresh, Bool.not_false, Bool.true_and] using apart

theorem LinkStore.vouching_live : Vouching LinkStore.Live where
  live known := known
  grows growing known := by
    obtain ⟨link, stored, same⟩ := known
    exact ⟨link, growing stored, same⟩

/-- A waiter that is not handed a straddling answer is handed a live one. -/
theorem World.hands_of_apart (apart : w.straddles event = false) : w.Hands LinkStore.Live event := by
  intro id r q leader target acting known waiting led _ found
  obtain ⟨link, stored, same, fresh⟩ := found
  subst acting
  exact ⟨link, stored, same, World.unexpired_of_apart apart known waiting led stored fresh⟩

theorem World.punctual_of_run (run : Run (World.PunctualStep settings) (World.start settings) trace w) :
    w.Punctual := by
  have vouched := World.vouched_of_run LinkStore.vouching_live
    (fun u label v step => ⟨step.1, World.hands_of_apart step.2⟩) run
  exact ⟨vouched.shared, vouched.waiting, vouched.carried⟩

/-- As long as no waiter is handed an answer across the expiry of its link, no
request is sent to a link that has expired by its own clock. -/
theorem redirects_unexpired (run : Run (World.PunctualStep settings) (World.start settings) trace w)
    {target : String} (known : w.task id = .resolve r) (shows : r.Shows target) :
    ∃ link, w.links.get r.code = some link ∧ link.target = target ∧
      ∀ expiresMs, link.expiresMs = some expiresMs → r.nowMs < expiresMs := by
  obtain ⟨link, stored, same, fresh⟩ := (World.punctual_of_run run).carried known shows.carries
  refine ⟨link, stored, same, fun expiresMs expiry => ?_⟩
  rw [Link.isExpired, expiry, Option.any_some, decide_eq_false_iff_not] at fresh
  exact Int.not_le.mp fresh

end

/-- Two requests for a link that expires at 1000, with the clocks at 998 and
999: the second waits for the first and is redirected in time. -/
theorem redirects_unexpired_shared :
    ∃ w, Run (World.PunctualStep .lenient) (World.start .lenient)
        [.create 0 0 "https://example.com" (some 1), .attempt 0 "c" 0, .step 0,
          .resolve 1 0 "c" 998, .step 1, .step 1, .step 1,
          .resolve 2 0 "c" 999, .step 2, .step 2, .step 2,
          .step 1, .step 1, .step 1, .step 1, .step 1, .step 2, .step 2] w ∧
      w.task 2 = .resolve ⟨0, "c", 999, .answered (.redirect "https://example.com")⟩ ∧
      ∃ link, w.links.get "c" = some link ∧ link.target = "https://example.com" ∧
        ∀ expiresMs, link.expiresMs = some expiresMs → (999 : Int) < expiresMs := by
  have executed : ∃ w, Run (World.PunctualStep .lenient) (World.start .lenient)
      [.create 0 0 "https://example.com" (some 1), .attempt 0 "c" 0, .step 0,
        .resolve 1 0 "c" 998, .step 1, .step 1, .step 1,
        .resolve 2 0 "c" 999, .step 2, .step 2, .step 2,
        .step 1, .step 1, .step 1, .step 1, .step 1, .step 2, .step 2] w ∧
      w.task 2 = .resolve ⟨0, "c", 999, .answered (.redirect "https://example.com")⟩ :=
    Run.exists_of_execute (World.PunctualStep.of_perform _) (by decide +kernel)
  obtain ⟨w, run, redirected⟩ := executed
  exact ⟨w, run, redirected, redirects_unexpired run redirected (Or.inl rfl)⟩

/-- The link expires at 1000. The request at 1001 waits for the one at 999 and
is redirected by its answer. -/
theorem waiter_redirected_past_expiry :
    ∃ w, Run (World.Step .lenient) (World.start .lenient)
      [.create 0 0 "https://example.com" (some 1), .attempt 0 "c" 0, .step 0,
        .resolve 1 0 "c" 999, .step 1, .step 1, .step 1,
        .resolve 2 0 "c" 1001, .step 2, .step 2, .step 2,
        .step 1, .step 1, .step 1, .step 1, .step 1, .step 2, .step 2] w ∧
      w.task 2 = .resolve ⟨0, "c", 1001, .answered (.redirect "https://example.com")⟩ ∧
      w.links.get "c" = some ⟨"c", "https://example.com", 0, some 1000⟩ :=
  Run.exists_of_execute (fun _ _ _ done => done) (by decide +kernel)

end UrlShortener
