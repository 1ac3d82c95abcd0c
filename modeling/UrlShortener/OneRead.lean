import UrlShortener.FlightLeaders
import UrlShortener.General.Watch

namespace UrlShortener
open Transition

namespace World

/-- The next step is `links.get(code)` in a load of `code` on `inst`. -/
def reads (w : World) (inst : Nat) (code : String) : Event → Bool
  | .step id => w.resolving inst code id = some .fetching
  | _ => false

/-- The next step is `cache.put(code, ..)` in a load of `code` on `inst`. -/
def stores (w : World) (inst : Nat) (code : String) : Event → Bool
  | .step id => match w.resolving inst code id with
    | some (.storing _) => true
    | _ => false
  | _ => false

/-- A load of `code` on `inst` raises, at `links.get` or after it. -/
def raises (w : World) (inst : Nat) (code : String) : Event → Bool
  | .fail id _ => match w.resolving inst code id with
    | some .fetching | some (.storing _) => true
    | _ => false
  | _ => false

/-- `inst` keeps running, no load of `code` raises there, and what is in its
cache for `code`, or is put there now, is not evicted, invalidated or flushed. -/
def Undisturbed (inst : Nat) (code : String) (w : World) (event : Event) (w' : World) : Prop :=
  event ≠ .restart inst ∧ w.raises inst code event = false ∧
    (w.holds inst code = true ∨ w.stores inst code event = true → w'.holds inst code = true)

instance (inst : Nat) (code : String) (w : World) (event : Event) (w' : World) :
    Decidable (Undisturbed inst code w event w') :=
  inferInstanceAs (Decidable (_ ∧ _ ∧ (_ → _)))

def UndisturbedStep (settings : Settings) (inst : Nat) (code : String) (w : World) (event : Event) (w' : World) : Prop :=
  w.Step settings event w' ∧ Undisturbed inst code w event w'

def performUndisturbed (settings : Settings) (inst : Nat) (code : String) (w : World) (event : Event) : Option World :=
  (w.perform settings event).filter fun w' => Undisturbed inst code w event w'

theorem UndisturbedStep.of_perform (settings : Settings) (inst : Nat) (code : String) (w : World) (event : Event)
    (w' : World) (done : w.performUndisturbed settings inst code event = some w') :
    w.UndisturbedStep settings inst code event w' := by
  obtain ⟨performed, undisturbed⟩ := Option.filter_eq_some_iff.mp done
  exact ⟨performed, of_decide_eq_true undisturbed⟩

/-- The number of reads so far. -/
def countReads (inst : Nat) (code : String) (reads : Nat) (w : World) (event : Event) : Nat :=
  if w.reads inst code event then reads + 1 else reads

variable {settings : Settings} {w w' : World} {event : Event} {id inst : Nat} {code : String}
  {trace later : List Event} {link : Link}

theorem reads_iff : w.reads inst code event = true ↔
    ∃ id, event = .step id ∧ w.resolving inst code id = some .fetching := by
  cases event <;> simp [reads]

/-- At most one read has been made, and after it the link is in the cache or
about to be put there. -/
def Read (inst : Nat) (code : String) (reads : Nat) (w : World) : Prop :=
  reads = 0 ∨ reads = 1 ∧ (w.holds inst code = true ∨ ∃ id link, w.resolving inst code id = some (.storing link))

/-- A load that reads a stored link which has not expired goes on to cache it. -/
theorem Step.fetched (taken : w.Step settings (.step id) w') (here : w.resolving inst code id = some .fetching)
    (stored : w.links.get code = some link) (lasting : link.expiresMs = none) :
    w'.resolving inst code id = some (.storing link) := by
  obtain ⟨r, known, rfl, rfl, fetching⟩ := resolving_iff.mp here
  cases taken.act with
  | quiet _ unresolved => exact absurd known (unresolved id r rfl)
  | resolved known' advanced =>
    cases known.symm.trans known'
    have fresh : link.isExpired r.nowMs = false := by rw [Link.isExpired, lasting]; rfl
    simp only [Resolve.advance, fetching, stored, fresh, Bool.false_eq_true, if_false] at advanced
    cases advanced
    exact resolving_iff.mpr ⟨_, w.put_task, rfl, rfl, rfl⟩

/-- Nobody reads a link that is cached or about to be. -/
theorem Flights.unread {reads : Nat} (flights : w.Flights) (read : Read inst code reads w)
    (reading : w.resolving inst code id = some .fetching) : reads = 0 := by
  obtain ⟨r, known, rfl, rfl, fetching⟩ := resolving_iff.mp reading
  rcases read with none | ⟨_, held | ⟨other, link, storing⟩⟩
  · exact none
  · have absent := flights.uncached known (by rw [fetching]; trivial)
    rw [holds, absent] at held
    cases held
  · obtain ⟨q, known', sameInst, sameCode, phase⟩ := resolving_iff.mp storing
    have same := flights.alone known (by rw [fetching]; trivial) known' (by rw [phase]; trivial) sameInst sameCode
    subst same
    cases known.symm.trans known'
    cases fetching.symm.trans phase

theorem Read.step {reads : Nat} (read : Read inst code reads w) (flights : w.Flights)
    (stored : w.links.get code = some link) (lasting : link.expiresMs = none)
    (taken : w.UndisturbedStep settings inst code event w') :
    Read inst code (countReads inst code reads w event) w' := by
  obtain ⟨taken, running, unraised, kept⟩ := taken
  by_cases reading : w.reads inst code event = true
  · obtain ⟨id, rfl, fetching⟩ := reads_iff.mp reading
    have first := flights.unread read fetching
    rw [countReads, if_pos reading, first]
    exact Or.inr ⟨rfl, Or.inr ⟨id, link, taken.fetched fetching stored lasting⟩⟩
  · rw [countReads, if_neg reading]
    rcases read with none | ⟨once, held | ⟨id, row, storing⟩⟩
    · exact Or.inl none
    · exact Or.inr ⟨once, Or.inl (kept (Or.inl held))⟩
    · refine Or.inr ⟨once, ?_⟩
      by_cases puts : event = .step id
      · have stores : w.stores inst code event = true := by simp only [puts, World.stores, storing]
        exact Or.inl (kept (Or.inr stores))
      · refine Or.inr ⟨id, row, taken.resolving storing puts (fun fault failing => ?_) running⟩
        simp only [failing, World.raises, storing, reduceCtorEq] at unraised

/-- From when a link without an expiry is stored, and as long as its loads do not
raise and its entry stays in the cache, its row is read once at most. -/
theorem one_read (run : Run (World.Step settings) (World.start settings) trace w)
    (stored : w.links.get code = some link) (lasting : link.expiresMs = none) {reads : Nat} {u : World}
    (rest : Run (Watched (World.UndisturbedStep settings inst code) (countReads inst code)) (0, w) later (reads, u)) :
    reads ≤ 1 := by
  have read : Read inst code reads u ∧ u.links.get code = some link := by
    refine rest.watched_invariant (fun n v => Read inst code n v ∧ v.links.get code = some link)
      ⟨Or.inl rfl, stored⟩ ?_
    intro n past v event v' before ⟨soFar, kept⟩ taken
    have reached := run.append (before.weaken fun _ _ _ step => step.1)
    exact ⟨soFar.step (flights_of_run reached) kept lasting taken, taken.1.links kept⟩
  rcases read.1 with none | ⟨once, _⟩
  · omega
  · omega

/-- Three requests miss the cache. The second becomes a leader after the first
has left and finds the link in the cache; the third waits for it. -/
theorem one_read_straggling :
    ∃ w u reads, Run (World.Step .lenient) (World.start .lenient)
        [.create 0 0 "https://example.com" none, .attempt 0 "c" 0, .step 0] w ∧
      Run (Watched (World.UndisturbedStep .lenient 0 "c") (countReads 0 "c")) (0, w)
        [.resolve 1 0 "c" 0, .resolve 2 0 "c" 0, .resolve 3 0 "c" 0, .step 1, .step 1, .step 2, .step 2, .step 3,
          .step 3, .step 1, .step 1, .step 1, .step 1, .step 1, .step 2, .step 3, .step 2, .step 2, .step 2] (reads, u) ∧
      u.resolving 0 "c" 2 = some (.serving (some "https://example.com")) ∧ u.resolving 0 "c" 3 = some (.waiting 2) ∧
      reads ≤ 1 := by
  have executed : ∃ w, Run (World.Step .lenient) (World.start .lenient)
      [.create 0 0 "https://example.com" none, .attempt 0 "c" 0, .step 0] w ∧
      w.links.get "c" = some ⟨"c", "https://example.com", 0, none⟩ ∧
      (execute (watch (performUndisturbed .lenient 0 "c") (countReads 0 "c")) (0, w)
        [.resolve 1 0 "c" 0, .resolve 2 0 "c" 0, .resolve 3 0 "c" 0, .step 1, .step 1, .step 2, .step 2, .step 3,
          .step 3, .step 1, .step 1, .step 1, .step 1, .step 1, .step 2, .step 3, .step 2, .step 2, .step 2]).any
        (fun u => u.2.resolving 0 "c" 2 = some (.serving (some "https://example.com")) ∧
          u.2.resolving 0 "c" 3 = some (.waiting 2)) = true :=
    Run.exists_of_execute (fun _ _ _ done => done) (by decide +kernel)
  obtain ⟨w, run, stored, more⟩ := executed
  obtain ⟨⟨reads, u⟩, continued, holds⟩ := (Option.any_eq_true _ _).mp more
  obtain ⟨served, waiting⟩ := of_decide_eq_true holds
  have rest := Run.of_execute (Watched.of_watch (UndisturbedStep.of_perform .lenient 0 "c")) continued
  exact ⟨w, u, reads, run, rest, served, waiting, one_read run stored rfl rest⟩

end World
end UrlShortener
