import UrlShortener.General.Amortized
import UrlShortener.OneRead

namespace UrlShortener
open Transition

namespace World

/-- The next step is `links.get` in a load of the code of `link` on `inst`, for
a request that finds the link unexpired. -/
def readsFresh (inst : Nat) (link : Link) (w : World) : Event → Bool
  | .step id => match w.task id with
    | .resolve r => r.inst = inst ∧ r.code = link.code ∧ r.phase = .fetching ∧ link.isExpired r.nowMs = false
    | _ => false
  | _ => false

/-- The event takes the entry of `code` out of the cache of `inst`, makes a load
of it raise, or restarts the instance. -/
def disturbs (settings : Settings) (inst : Nat) (code : String) (w : World) (event : Event) : Bool :=
  (w.perform settings event).any fun w' => ¬ Undisturbed inst code w event w'

/-- A load of `code` on `inst` has a row in hand that it is about to cache. -/
def Storing (inst : Nat) (code : String) (w : World) : Prop :=
  ∃ id link, w.resolving inst code id = some (.storing link)

variable {settings : Settings} {w w' : World} {event : Event} {id inst : Nat} {code : String}
  {trace later : List Event} {link : Link}

theorem readsFresh_iff : w.readsFresh inst link event = true ↔
    ∃ id r, event = .step id ∧ w.task id = .resolve r ∧ r.inst = inst ∧ r.code = link.code ∧ r.phase = .fetching ∧
      link.isExpired r.nowMs = false := by
  unfold readsFresh
  split
  · split
    · rename_i id r known
      simp only [decide_eq_true_eq, Event.step.injEq, exists_and_left, exists_eq_left', known, Task.resolve.injEq,
        exists_eq_left']
    · rename_i id unresolved
      refine iff_of_false Bool.false_ne_true ?_
      rintro ⟨other, r, same, known, _⟩
      cases same
      exact unresolved r known
  · rename_i still
    refine iff_of_false Bool.false_ne_true ?_
    rintro ⟨id, r, same, _⟩
    exact still id same

theorem undisturbed_of_step (taken : w.Step settings event w') (calm : w.disturbs settings inst code event = false) :
    Undisturbed inst code w event w' := by
  rw [disturbs, show w.perform settings event = some w' from taken, Option.any_some, decide_eq_false_iff_not,
    not_not] at calm
  exact calm

/-- Nobody reads the row of an entry that is cached or about to be. -/
theorem Flights.idle (flights : w.Flights) (kept : w.holds inst code = true ∨ w.Storing inst code) :
    w.resolving inst code id ≠ some .fetching := by
  intro reading
  exact absurd (flights.unread (Or.inr ⟨rfl, kept⟩) reading) Nat.one_ne_zero

/-- A load that reads a row which has not expired goes on to cache it. -/
theorem Step.fetchedFresh (taken : w.Step settings event w') (reads : w.readsFresh inst link event = true)
    (stored : w.links.get link.code = some link) : w'.Storing inst link.code := by
  obtain ⟨id, r, rfl, known, rfl, sameCode, fetching, fresh⟩ := readsFresh_iff.mp reads
  cases taken.act with
  | quiet _ unresolved => exact absurd known (unresolved id r rfl)
  | resolved known' advanced =>
    cases known.symm.trans known'
    simp only [Resolve.advance, fetching, sameCode, stored, fresh, Bool.false_eq_true, if_false] at advanced
    cases advanced
    exact ⟨id, link, resolving_iff.mpr ⟨_, w.put_task, rfl, sameCode, rfl⟩⟩

/-- What is cached or about to be stays so, unless it is disturbed. -/
theorem Step.retained (taken : w.Step settings event w') (calm : w.disturbs settings inst code event = false)
    (kept : w.holds inst code = true ∨ w.Storing inst code) : w'.holds inst code = true ∨ w'.Storing inst code := by
  obtain ⟨running, unraised, cached⟩ := undisturbed_of_step taken calm
  rcases kept with held | ⟨id, row, storing⟩
  · exact Or.inl (cached (Or.inl held))
  · by_cases puts : event = .step id
    · have stores : w.stores inst code event = true := by simp only [puts, World.stores, storing]
      exact Or.inl (cached (Or.inr stores))
    · refine Or.inr ⟨id, row, taken.resolving storing puts (fun fault failing => ?_) running⟩
      simp only [failing, World.raises, storing, reduceCtorEq] at unraised

open Classical in
/-- One read is due while the link is neither cached nor about to be. -/
noncomputable def readsDue (inst : Nat) (code : String) (w : World) : Nat :=
  if w.holds inst code = true ∨ w.Storing inst code then 0 else 1

theorem readsDue_le (inst : Nat) (code : String) (w : World) : w.readsDue inst code ≤ 1 := by
  unfold readsDue
  split <;> omega

theorem Step.pays (taken : w.Step settings event w') (flights : w.Flights)
    (stored : w.links.get link.code = some link) :
    (if w.readsFresh inst link event then 1 else 0) + w'.readsDue inst link.code ≤
      (if w.disturbs settings inst link.code event then 1 else 0) + w.readsDue inst link.code := by
  by_cases reads : w.readsFresh inst link event = true
  · obtain ⟨id, r, _, known, sameInst, sameCode, fetching, _⟩ := readsFresh_iff.mp reads
    have uncached : ¬ (w.holds inst link.code = true ∨ w.Storing inst link.code) := fun kept =>
      flights.idle kept (resolving_iff.mpr ⟨r, known, sameInst, sameCode, fetching⟩)
    rw [readsDue, readsDue, if_pos reads, if_pos (Or.inr (taken.fetchedFresh reads stored)), if_neg uncached]
    omega
  · rw [if_neg reads]
    by_cases disturbed : w.disturbs settings inst link.code event = true
    · have due := readsDue_le inst link.code w'
      rw [if_pos disturbed]
      omega
    · rw [if_neg disturbed]
      by_cases kept : w.holds inst link.code = true ∨ w.Storing inst link.code
      · rw [readsDue, if_pos (taken.retained (eq_false_of_ne_true disturbed) kept)]
        omega
      · have due := readsDue_le inst link.code w'
        rw [readsDue.eq_def inst link.code w, if_neg kept]
        omega

/-- However many requests arrive together, an instance reads the row of a link
once, and once more each time its cache loses the entry, a load of it raises or
the instance restarts. Requests that find the link expired are not counted. -/
theorem stampede_bounded (run : Run (World.Step settings) (World.start settings) trace w)
    (stored : w.links.get link.code = some link) {reads losses : Nat} {u : World}
    (rest : Run (Watched (World.Step settings) (tally (readsFresh inst link) (disturbs settings inst link.code)))
      ((0, 0), w) later ((reads, losses), u)) : reads ≤ losses + 1 := by
  have paid := rest.amortized (readsDue inst link.code) fun {past v event v'} before taken => by
    have kept : v.links.get link.code = some link := by
      clear taken
      induction before with
      | start => exact stored
      | next _ taken ih => exact taken.links ih
    exact taken.pays (flights_of_run (run.append before)) kept
  have due := readsDue_le inst link.code w
  simp only at paid
  omega

/-- Of two requests that arrive after a flush, one reads the row again and the
other waits for it. -/
theorem stampede_bounded_flushed :
    ∃ w reads losses u, Run (World.Step .lenient) (World.start .lenient)
        [.create 0 0 "https://example.com" none, .attempt 0 "c" 0, .step 0] w ∧
      Run (Watched (World.Step .lenient) (tally (readsFresh 0 ⟨"c", "https://example.com", 0, none⟩)
          (disturbs .lenient 0 "c"))) ((0, 0), w)
        [.resolve 1 0 "c" 0, .step 1, .step 1, .step 1, .step 1, .step 1, .step 1, .step 1, .step 1, .step 1,
          .flushCache 0, .resolve 2 0 "c" 0, .resolve 3 0 "c" 0, .step 2, .step 2, .step 3, .step 3, .step 2, .step 3,
          .step 2, .step 2, .step 2, .step 2, .step 2, .step 3, .step 3] ((reads, losses), u) ∧
      u.resolving 0 "c" 3 = some (.answered (.redirect "https://example.com")) ∧ reads = 2 ∧ losses = 1 ∧
      reads ≤ losses + 1 := by
  have executed : ∃ w, Run (World.Step .lenient) (World.start .lenient)
      [.create 0 0 "https://example.com" none, .attempt 0 "c" 0, .step 0] w ∧
      w.links.get "c" = some ⟨"c", "https://example.com", 0, none⟩ ∧
      (execute (watch (World.perform .lenient) (tally (readsFresh 0 ⟨"c", "https://example.com", 0, none⟩)
          (disturbs .lenient 0 "c"))) ((0, 0), w)
        [.resolve 1 0 "c" 0, .step 1, .step 1, .step 1, .step 1, .step 1, .step 1, .step 1, .step 1, .step 1,
          .flushCache 0, .resolve 2 0 "c" 0, .resolve 3 0 "c" 0, .step 2, .step 2, .step 3, .step 3, .step 2, .step 3,
          .step 2, .step 2, .step 2, .step 2, .step 2, .step 3, .step 3]).any
        (fun u => u.1 = (2, 1) ∧ u.2.resolving 0 "c" 3 = some (.answered (.redirect "https://example.com"))) = true :=
    Run.exists_of_execute (fun _ _ _ done => done) (by decide +kernel)
  obtain ⟨w, run, stored, more⟩ := executed
  obtain ⟨⟨⟨reads, losses⟩, u⟩, continued, holds⟩ := (Option.any_eq_true _ _).mp more
  obtain ⟨counts, redirected⟩ := of_decide_eq_true holds
  obtain ⟨two, one⟩ := Prod.mk.inj counts
  have rest := Run.of_execute (Watched.of_watch fun _ _ _ done => done) continued
  exact ⟨w, reads, losses, u, run, rest, redirected, two, one, stampede_bounded run stored rest⟩

end World
end UrlShortener
