import UrlShortener.Requests

namespace UrlShortener

/-- The leader of a flight, from its entry in the table of calls to its pop. -/
def ResolvePhase.leads : ResolvePhase → Prop
  | .loading | .fetching | .storing _ | .deregistering _ => True
  | _ => False

/-- A target that has been found, up to the answer made of it. -/
def ResolvePhase.carries (target : String) : ResolvePhase → Prop
  | .deregistering outcome | .releasing outcome => outcome = .returned (some target)
  | .serving found => found = some target
  | .showing found | .answered (.redirect found) | .answered (.page found _) => found = target
  | _ => False

namespace Resolve

/-- The answer sends the client to `target`, or shows it on a page. -/
def Shows (r : Resolve) (target : String) : Prop :=
  r.phase = .answered (.redirect target) ∨ ∃ reason, r.phase = .answered (.page target reason)

theorem Shows.carries {r : Resolve} {target : String} (shows : r.Shows target) :
    r.phase.carries target := by
  rcases shows with redirect | ⟨reason, page⟩
  · rw [redirect]
    rfl
  · rw [page]
    rfl

/-- The steps of a resolve one by one, with what each finds and leaves. -/
inductive Move (links : LinkStore) (id : Nat) (i : Instance) (r : Resolve) :
    Instance → ResolvePhase → Prop
  | listed : r.phase = .checking → i.takedowns.contains r.code = true →
      Move links id i r i .withdrawn
  | unlisted : r.phase = .checking → i.takedowns.contains r.code = false →
      Move links id i r i .reading
  | withdrawn : r.phase = .withdrawn →
      Move links id i r i (.answered (.withdrawn (i.takedowns.reason r.code)))
  | hit {target} : r.phase = .reading → (i.cache.get r.code r.nowMs).1 = some target →
      Move links id i r { i with cache := (i.cache.get r.code r.nowMs).2 } (.serving (some target))
  | missed : r.phase = .reading → (i.cache.get r.code r.nowMs).1 = none →
      Move links id i r { i with cache := (i.cache.get r.code r.nowMs).2 } .joining
  | leads : r.phase = .joining → i.flight.calls r.code = none →
      Move links id i r { i with flight := (i.flight.join r.code id).2 } .loading
  | follows {leader} : r.phase = .joining → i.flight.calls r.code = some leader →
      Move links id i r i (.waiting leader)
  | woken {leader target} : r.phase = .waiting leader → i.flight.wake leader = some (.ok target) →
      Move links id i r i (.serving target)
  | wokenByError {leader error} : r.phase = .waiting leader →
      i.flight.wake leader = some (.error error) → Move links id i r i (.answered .serverError)
  | loadHit {target} : r.phase = .loading → (i.cache.get r.code r.nowMs).1 = some target →
      Move links id i r
        (({ i with cache := (i.cache.get r.code r.nowMs).2 } : Instance).settle id (.returned (some target))).1
        (.deregistering (.returned (some target)))
  | loadMissed : r.phase = .loading → (i.cache.get r.code r.nowMs).1 = none →
      Move links id i r { i with cache := (i.cache.get r.code r.nowMs).2 } .fetching
  | fetchedNone : r.phase = .fetching →
      (∀ link, links.get r.code = some link → link.isExpired r.nowMs = true) →
      Move links id i r (i.settle id (.returned none)).1 (.deregistering (.returned none))
  | fetched {link} : r.phase = .fetching → links.get r.code = some link →
      link.isExpired r.nowMs = false → Move links id i r i (.storing link)
  | stored {link} : r.phase = .storing link →
      Move links id i r
        (({ i with cache := i.cache.put r.code link.target link.expiresMs } : Instance).settle id
          (.returned (some link.target))).1
        (.deregistering (.returned (some link.target)))
  | raised (fault : Fault) :
      (r.phase = .loading ∨ r.phase = .fetching ∨ ∃ link, r.phase = .storing link) →
      Move links id i r (i.settle id fault.outcome).1 (.deregistering fault.outcome)
  | deregistered {outcome} : r.phase = .deregistering outcome →
      Move links id i r { i with flight := i.flight.deregister r.code } (.releasing outcome)
  | released {target} : r.phase = .releasing (.returned target) →
      Move links id i r { i with flight := i.flight.release id } (.serving target)
  | releasedError {error} : r.phase = .releasing (.raised error) →
      Move links id i r { i with flight := i.flight.release id } (.answered .serverError)
  | releasedAborted : r.phase = .releasing .aborted →
      Move links id i r { i with flight := i.flight.release id } .aborted
  | notFound : r.phase = .serving none → Move links id i r i (.answered .notFound)
  | flagged {target reason} : r.phase = .serving (some target) → i.interstitials r.code = some reason →
      Move links id i r i (.showing target)
  | redirected {target} : r.phase = .serving (some target) → i.interstitials r.code = none →
      Move links id i r i (.answered (.redirect target))
  | shown {target reason} : r.phase = .showing target → i.interstitials r.code = some reason →
      Move links id i r i (.answered (.page target reason))
  | unflagged {target} : r.phase = .showing target → i.interstitials r.code = none →
      Move links id i r i (.answered .serverError)

variable {links : LinkStore} {id : Nat} {i i' : Instance} {r : Resolve} {phase : ResolvePhase}

theorem Move.of_advance (h : r.advance links id i = some (i', phase)) : r.Move links id i i' phase := by
  unfold advance at h
  split at h
  · rename_i here
    cases marked : i.takedowns.contains r.code with
    | true =>
      rw [marked] at h
      cases h
      exact .listed here marked
    | false =>
      rw [marked] at h
      cases h
      exact .unlisted here marked
  · rename_i here
    cases h
    exact .withdrawn here
  · rename_i here
    cases found : (i.cache.get r.code r.nowMs).1 with
    | some target =>
      simp only [found] at h
      cases h
      exact .hit here found
    | none =>
      simp only [found] at h
      cases h
      exact .missed here found
  · rename_i here
    have joins : i.flight.join r.code id = ((i.flight.join r.code id).1, (i.flight.join r.code id).2) := rfl
    rcases SingleFlight.join_cases joins with ⟨free, joined, _⟩ | ⟨leader, taken, joined, same⟩
    · simp only [joined] at h
      cases h
      exact .leads here free
    · simp only [joined, same] at h
      cases h
      exact .follows here taken
  · rename_i leader here
    obtain ⟨answer, woken, same⟩ := Option.map_eq_some_iff.mp h
    cases answer with
    | ok target =>
      cases same
      exact .woken here woken
    | error error =>
      cases same
      exact .wokenByError here woken
  · rename_i here
    cases found : (i.cache.get r.code r.nowMs).1 with
    | some target =>
      simp only [found] at h
      cases h
      exact .loadHit here found
    | none =>
      simp only [found] at h
      cases h
      exact .loadMissed here found
  · rename_i here
    cases row : links.get r.code with
    | some link =>
      simp only [row] at h
      split at h
      · rename_i expired
        cases h
        refine .fetchedNone here fun other known => ?_
        cases row.symm.trans known
        exact expired
      · rename_i fresh
        cases h
        exact .fetched here row (eq_false_of_ne_true fresh)
    | none =>
      simp only [row] at h
      cases h
      exact .fetchedNone here fun other known => by cases row.symm.trans known
  · rename_i link here
    cases h
    exact .stored here
  · rename_i outcome here
    cases h
    exact .deregistered here
  · rename_i outcome here
    cases outcome with
    | returned target =>
      cases h
      exact .released here
    | raised error =>
      cases h
      exact .releasedError here
    | aborted =>
      cases h
      exact .releasedAborted here
  · rename_i here
    cases h
    exact .notFound here
  · rename_i target here
    cases flag : i.interstitials r.code with
    | some reason =>
      rw [flag] at h
      cases h
      exact .flagged here flag
    | none =>
      rw [flag] at h
      cases h
      exact .redirected here flag
  · rename_i target here
    cases flag : i.interstitials r.code with
    | some reason =>
      simp only [flag] at h
      cases h
      exact .shown here flag
    | none =>
      simp only [flag] at h
      cases h
      exact .unflagged here flag
  · cases h
  · cases h

theorem fail_cases {fault : Fault} (h : r.fail id i fault = some (i', phase)) :
    i' = (i.settle id fault.outcome).1 ∧ phase = .deregistering fault.outcome := by
  unfold fail at h
  split at h
  · cases h
    exact ⟨rfl, rfl⟩
  · cases h
    exact ⟨rfl, rfl⟩
  · cases h
    exact ⟨rfl, rfl⟩
  · cases h

theorem Move.of_fail {fault : Fault} (h : r.fail id i fault = some (i', phase)) :
    r.Move links id i i' phase := by
  unfold fail at h
  split at h
  · rename_i here
    cases h
    exact .raised fault (Or.inl here)
  · rename_i here
    cases h
    exact .raised fault (Or.inr (Or.inl here))
  · rename_i link here
    cases h
    exact .raised fault (Or.inr (Or.inr ⟨link, here⟩))
  · cases h

theorem Move.takedowns (move : r.Move links id i i' phase) : i'.takedowns = i.takedowns := by
  cases move <;> rfl

theorem Move.interstitials (move : r.Move links id i i' phase) : i'.interstitials = i.interstitials := by
  cases move <;> rfl

theorem Move.capacity (move : r.Move links id i i' phase) : i'.cache.capacity = i.cache.capacity := by
  cases move with
  | hit _ _ | missed _ _ | loadHit _ _ | loadMissed _ _ => exact i.cache.capacity_get r.code r.nowMs
  | _ => rfl

/-- A load that does not raise settles with a value. -/
theorem advance_settles {outcome : Outcome String}
    (h : r.advance links id i = some (i', .deregistering outcome)) : ∃ value, outcome = .returned value := by
  unfold advance at h
  split at h
  · split at h <;> cases h
  · cases h
  · cases found : (i.cache.get r.code r.nowMs).1 <;> simp [found] at h
  · cases joined : (i.flight.join r.code id).1 <;> simp [joined] at h
  · obtain ⟨answer, _, same⟩ := Option.map_eq_some_iff.mp h
    cases answer <;> cases same
  · cases found : (i.cache.get r.code r.nowMs).1 with
    | some target =>
      simp only [found] at h
      cases h
      exact ⟨_, rfl⟩
    | none => simp [found] at h
  · cases row : links.get r.code with
    | some link =>
      simp only [row] at h
      split at h
      · cases h
        exact ⟨_, rfl⟩
      · cases h
    | none =>
      simp only [row] at h
      cases h
      exact ⟨_, rfl⟩
  · cases h
    exact ⟨_, rfl⟩
  · cases h
  · rename_i outcome' here
    cases outcome' <;> cases h
  · cases h
  · cases flag : (i.interstitials r.code).isSome <;> simp [flag] at h
  · cases flag : i.interstitials r.code <;> simp [flag] at h
  · cases h
  · cases h

/-- An entry of the cache was there before, unless the step stored it. -/
theorem Move.cache (move : r.Move links id i i' phase) {code : String} {entry : String × Option Int}
    (held : i'.cache.data.lookup code = some entry) :
    i.cache.data.lookup code = some entry ∨
      ∃ link, r.phase = .storing link ∧ code = r.code ∧ entry = (link.target, link.expiresMs) := by
  cases move with
  | hit _ _ => exact Or.inl (LruCache.lookup_get held)
  | missed _ _ => exact Or.inl (LruCache.lookup_get held)
  | loadHit _ _ => exact Or.inl (LruCache.lookup_get held)
  | loadMissed _ _ => exact Or.inl (LruCache.lookup_get held)
  | @stored link here =>
    rcases LruCache.lookup_put held with ⟨own, same⟩ | before
    · exact Or.inr ⟨link, here, own, same⟩
    · exact Or.inl before
  | _ => exact Or.inl held

/-- A call in the table was there before and is still led, unless the step
entered it. -/
theorem Move.calls (move : r.Move links id i i' phase) {code : String} {leader : Nat}
    (entered : i'.flight.calls code = some leader) :
    (i.flight.calls code = some leader ∧ (code = r.code → r.phase.leads → phase.leads)) ∨
      (code = r.code ∧ leader = id ∧ phase.leads) := by
  cases move with
  | leads here free =>
    have entered : Function.update i.flight.calls r.code (some id) code = some leader :=
      SingleFlight.join_calls free id ▸ entered
    by_cases own : code = r.code
    · rw [own, Function.update_self] at entered
      exact Or.inr ⟨own, (Option.some.inj entered).symm, trivial⟩
    · rw [Function.update_of_ne own] at entered
      exact Or.inl ⟨entered, fun same => absurd same own⟩
  | @deregistered outcome here =>
    have other : code ≠ r.code := by
      rintro rfl
      cases (Function.update_self ..).symm.trans entered
    exact Or.inl ⟨(Function.update_of_ne other ..).symm.trans entered, fun same => absurd same other⟩
  | loadHit _ _ => exact Or.inl ⟨entered, fun _ _ => trivial⟩
  | loadMissed _ _ => exact Or.inl ⟨entered, fun _ _ => trivial⟩
  | fetchedNone _ _ => exact Or.inl ⟨entered, fun _ _ => trivial⟩
  | fetched _ _ _ => exact Or.inl ⟨entered, fun _ _ => trivial⟩
  | stored _ => exact Or.inl ⟨entered, fun _ _ => trivial⟩
  | raised fault _ =>
    have kept : i.flight.calls code = some leader := (i.flight.settle_calls id fault.outcome) ▸ entered
    exact Or.inl ⟨kept, fun _ _ => trivial⟩
  | released here | releasedError here | releasedAborted here =>
    exact Or.inl ⟨entered, fun _ leads => by rw [here] at leads; exact leads.elim⟩
  | listed here _ | unlisted here _ | withdrawn here | hit here _ | missed here _ | follows here _
  | woken here _ | wokenByError here _ | notFound here | flagged here _ | redirected here _
  | shown here _ | unflagged here _ =>
    exact Or.inl ⟨entered, fun _ leads => by rw [here] at leads; exact leads.elim⟩

/-- What `load` stores is the row, not expired by the leader's clock. -/
theorem Move.storing {link : Link} (move : r.Move links id i i' (.storing link)) :
    links.get r.code = some link ∧ link.isExpired r.nowMs = false := by
  cases move with
  | fetched _ row fresh => exact ⟨row, fresh⟩

/-- The value of a call is set by its leader as it settles. -/
theorem Move.value (move : r.Move links id i i' phase) {leader : Nat} {target : String}
    (known : (i'.flight.object leader).value = some target) :
    (i.flight.object leader).value = some target ∨ (leader = id ∧ phase.carries target) := by
  have settled {j : Instance} {outcome : Outcome String} (same : j.flight = i.flight)
      (value : ((j.settle id outcome).1.flight.object leader).value = some target) :
      (i.flight.object leader).value = some target ∨ (leader = id ∧ outcome = .returned (some target)) := by
    rw [Instance.settle, same] at value
    by_cases own : leader = id
    · subst own
      exact (SingleFlight.settle_value outcome value).symm.imp_right fun set => ⟨rfl, set⟩
    · rw [SingleFlight.settle_object_other outcome own] at value
      exact Or.inl value
  cases move with
  | leads here free =>
    have known : (Function.update i.flight.object id {} leader).value = some target :=
      SingleFlight.join_object free id ▸ known
    by_cases own : leader = id
    · rw [own, Function.update_self] at known
      cases known
    · rw [Function.update_of_ne own] at known
      exact Or.inl known
  | loadHit _ _ => exact settled rfl known
  | fetchedNone _ _ => exact settled rfl known
  | stored _ => exact settled rfl known
  | raised fault _ => exact settled rfl known
  | released _ | releasedError _ | releasedAborted _ =>
    exact Or.inl ((i.flight.release_value id leader).symm.trans known)
  | _ => exact Or.inl known

/-- Where a target can come from: from the resolve itself a step before, from
the cache, from the row it stores, or from the leader that wakes it. -/
theorem Move.carries (move : r.Move links id i i' phase) {target : String} (known : phase.carries target) :
    r.phase.carries target ∨
      (i.cache.get r.code r.nowMs).1 = some target ∨
      (∃ link, r.phase = .storing link ∧ link.target = target) ∨
      ∃ leader, r.phase = .waiting leader ∧ i.flight.wake leader = some (.ok (some target)) := by
  cases move with
  | hit _ found => cases known; exact Or.inr (Or.inl found)
  | loadHit _ found => cases known; exact Or.inr (Or.inl found)
  | stored here => cases known; exact Or.inr (Or.inr (Or.inl ⟨_, here, rfl⟩))
  | woken here woken => cases known; exact Or.inr (Or.inr (Or.inr ⟨_, here, woken⟩))
  | fetchedNone _ _ => cases known
  | raised fault _ => cases fault <;> cases known
  | deregistered here => exact Or.inl (by rw [here]; exact known)
  | released here => exact Or.inl (by rw [here]; exact congrArg Outcome.returned known)
  | flagged here _ => exact Or.inl (by rw [here]; exact congrArg some known)
  | redirected here _ => exact Or.inl (by rw [here]; exact congrArg some known)
  | shown here _ => exact Or.inl (by rw [here]; exact known)
  | _ => exact known.elim

theorem Move.waiting {leader : Nat} (move : r.Move links id i i' (.waiting leader)) :
    i.flight.calls r.code = some leader := by
  cases move with
  | follows _ entered => exact entered

end Resolve
end UrlShortener
