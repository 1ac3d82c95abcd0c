import UrlShortener.Store
import UrlShortener.LruCache
import UrlShortener.SingleFlight
import UrlShortener.Invalidation
import UrlShortener.Abuse

namespace UrlShortener

/-- What one process of `app` keeps in memory. -/
structure Instance where
  takedowns : TakedownList := {}
  interstitials : String → Option String := fun _ => none
  cache : LruCache String String
  flight : SingleFlight String String := {}
  cursor : Nat := 0

/-- The settings every process of a deployment runs with. -/
structure Settings where
  evaluate : String → Verdict
  maxAttempts : Nat
  cacheCapacity : Nat

/-- The defaults of `app`, with a policy that lets every destination through. -/
def Settings.lenient : Settings :=
  ⟨fun _ => ⟨.allow, "ok", ""⟩, 5, 50000⟩

inductive Answer
  | created (code target : String) (expiresMs : Option Int) (interstitial : Bool) (reason : String)
  | refused (reason host : String)
  | exhausted (attempts : Nat)
  | withdrawn (reason : String)
  | notFound
  | page (target reason : String)
  | redirect (target : String)
  | serverError
  deriving DecidableEq

/-- The ways a step can go wrong: an Exception, or a BaseException that is none. -/
inductive Fault
  | exception (error : String)
  | abort
  deriving DecidableEq

def Fault.outcome {ν : Type} : Fault → Outcome ν
  | .exception error => .raised error
  | .abort => .aborted

/-- Where a `resolve` that passed the limiter stands. From `loading` to
`releasing` it is the leader of its flight, up to `storing` inside `load`. -/
inductive ResolvePhase
  | checking
  | withdrawn
  | reading
  | joining
  | waiting (leader : Nat)
  | loading
  | fetching
  | storing (link : Link)
  | deregistering (outcome : Outcome String)
  | releasing (outcome : Outcome String)
  | serving (target : Option String)
  | showing (target : String)
  | answered (answer : Answer)
  | aborted
  deriving DecidableEq

def ResolvePhase.over : ResolvePhase → Bool
  | .answered _ | .aborted => true
  | _ => false

structure Resolve where
  inst : Nat
  code : String
  nowMs : Int
  phase : ResolvePhase
  deriving DecidableEq

/-- The end of `load`: its outcome goes to the call object. -/
def Instance.settle (i : Instance) (leader : Nat) (outcome : Outcome String) : Instance × ResolvePhase :=
  ({ i with flight := i.flight.settle leader outcome }, .deregistering outcome)

/-- The next step of `resolve` number `id` on its instance `i`. Counting the hit
touches nothing a request reads, so it has no step of its own. -/
def Resolve.advance (links : LinkStore) (id : Nat) (i : Instance) (r : Resolve) :
    Option (Instance × ResolvePhase) :=
  match r.phase with
  -- The takedown list is consulted before the cache.
  | .checking => some (i, if i.takedowns.contains r.code then .withdrawn else .reading)
  | .withdrawn => some (i, .answered (.withdrawn (i.takedowns.reason r.code)))
  | .reading =>
    let (found, cache) := i.cache.get r.code r.nowMs
    some ({ i with cache := cache }, match found with
      | some target => .serving (some target)
      | none => .joining)
  | .joining =>
    let (joined, flight) := i.flight.join r.code id
    some ({ i with flight := flight }, match joined with
      | some leader => .waiting leader
      | none => .loading)
  | .waiting leader => (i.flight.wake leader).map fun woken => (i, match woken with
      | .ok target => .serving target
      | .error _ => .answered .serverError)
  | .loading =>
    let (found, cache) := i.cache.get r.code r.nowMs
    some (match found with
      | some target => ({ i with cache := cache } : Instance).settle id (.returned (some target))
      | none => ({ i with cache := cache }, .fetching))
  -- A missing or expired link is a None, which the waiters get like a target.
  | .fetching => some (match links.get r.code with
      | some link =>
        if link.isExpired r.nowMs then i.settle id (.returned none) else (i, .storing link)
      | none => i.settle id (.returned none))
  | .storing link =>
    let cache := i.cache.put r.code link.target link.expiresMs
    some (({ i with cache := cache } : Instance).settle id (.returned (some link.target)))
  | .deregistering outcome =>
    some ({ i with flight := i.flight.deregister r.code }, .releasing outcome)
  -- Only now are the waiters woken; new requests no longer find the call.
  | .releasing outcome => some ({ i with flight := i.flight.release id }, match outcome with
      | .returned target => .serving target
      | .raised _ => .answered .serverError
      | .aborted => .aborted)
  | .serving none => some (i, .answered .notFound)
  | .serving (some target) => some (i,
      if (i.interstitials r.code).isSome then .showing target else .answered (.redirect target))
  | .showing target => some (i, match i.interstitials r.code with
      | some reason => .answered (.page target reason)
      | none => .answered .serverError)
  | .answered _ | .aborted => none

/-- A step of `load` raises. -/
def Resolve.fail (id : Nat) (i : Instance) (r : Resolve) (fault : Fault) :
    Option (Instance × ResolvePhase) :=
  match r.phase with
  | .loading | .fetching | .storing _ => some (i.settle id fault.outcome)
  | _ => none

inductive CreatePhase
  | attempting (left : Nat)
  | flagging (link : Link)
  | answered (answer : Answer)
  | aborted
  deriving DecidableEq

def CreatePhase.over : CreatePhase → Bool
  | .answered _ | .aborted => true
  | _ => false

structure Create where
  inst : Nat
  target : String
  ttlSeconds : Option Int
  verdict : Verdict
  phase : CreatePhase
  deriving DecidableEq

namespace Create

/-- `create_link` up to the allocation. -/
def begin (settings : Settings) (inst : Nat) (target : String) (ttlSeconds : Option Int) : Create :=
  let verdict := settings.evaluate target
  ⟨inst, target, ttlSeconds, verdict,
    if verdict.action = .refuse then .answered (.refused verdict.reason verdict.host)
    else .attempting settings.maxAttempts⟩

/-- One round of `allocate`, with the generated code and the store's clock. -/
def attempt (links : LinkStore) (c : Create) (code : String) (clock : Int) :
    Option (LinkStore × CreatePhase) :=
  match c.phase with
  | .attempting (left + 1) => some (match links.create code c.target c.ttlSeconds none clock with
      | some (link, links) => (links, .flagging link)
      | none => (links, .attempting left))
  | _ => none

def advance (settings : Settings) (i : Instance) (c : Create) : Option (Instance × CreatePhase) :=
  match c.phase with
  | .attempting 0 => some (i, .answered (.exhausted settings.maxAttempts))
  | .flagging link =>
    let flagged := decide (c.verdict.action = .interstitial)
    some ({ i with
        interstitials := if flagged then
            Function.update i.interstitials link.code (some c.verdict.reason)
          else i.interstitials },
      .answered (.created link.code link.target link.expiresMs flagged c.verdict.reason))
  | _ => none

/-- The generator or the store raises something other than a KeyError. -/
def fail (c : Create) : Fault → Option CreatePhase
  | .exception _ => match c.phase with
    | .attempting (_ + 1) => some (.answered .serverError)
    | _ => none
  | .abort => match c.phase with
    | .attempting (_ + 1) => some .aborted
    | _ => none

end Create

inductive TakedownPhase
  | marking
  | purging
  | publishing
  | unflagging (seq : Nat)
  | draining (seq : Nat) (poll : InvalidationBus.Poll)
  | returned (seq : Nat)
  | failed
  deriving DecidableEq

def TakedownPhase.over : TakedownPhase → Bool
  | .returned _ | .failed => true
  | _ => false

structure Takedown where
  inst : Nat
  code : String
  reason : String
  phase : TakedownPhase
  deriving DecidableEq

/-- A step of `poll` with the cache of an instance as its subscriber. -/
def Instance.poll (log : List Invalidation) (i : Instance) (poll : InvalidationBus.Poll) :
    Option (Instance × InvalidationBus.Poll) :=
  (poll.advance (fun code cache => LruCache.invalidate cache code) log i.cache i.cursor).map
    fun (cache, cursor, poll) => ({ i with cache := cache, cursor := cursor }, poll)

namespace Takedown

/-- The next step of the route `takedown`: `add`, the pop of the interstitial
and `drain_now`. -/
def advance (log : List Invalidation) (i : Instance) (t : Takedown) :
    Option (Instance × List Invalidation × TakedownPhase) :=
  match t.phase with
  | .marking => some ({ i with takedowns := i.takedowns.mark t.code t.reason }, log, .purging)
  | .purging => some ({ i with cache := i.cache.invalidate t.code }, log, .publishing)
  | .publishing =>
    let (seq, log) := InvalidationBus.publish log t.code t.reason
    some (i, log, .unflagging seq)
  | .unflagging seq =>
    some ({ i with interstitials := Function.update i.interstitials t.code none }, log,
      .draining seq .starting)
  | .draining seq (.finished _) => some (i, log, .returned seq)
  | .draining seq poll => (i.poll log poll).map fun (i, poll) => (i, log, .draining seq poll)
  | .returned _ | .failed => none

/-- The publication or the drain raises. -/
def fail (t : Takedown) : Option TakedownPhase :=
  match t.phase with
  | .publishing | .draining .. => some .failed
  | _ => none

end Takedown

namespace Create
variable {settings : Settings} {links links' : LinkStore} {i j : Instance} {c : Create} {code : String} {clock : Int}
  {phase : CreatePhase}

theorem attempt_cases (h : c.attempt links code clock = some (links', phase)) :
    ∃ left, c.phase = .attempting (left + 1) ∧
      ((∃ link, phase = .flagging link ∧ links.create code c.target c.ttlSeconds none clock = some (link, links')) ∨
        (phase = .attempting left ∧ links' = links)) := by
  unfold attempt at h
  split at h
  · rename_i left here
    refine ⟨left, here, ?_⟩
    split at h
    · rename_i link inserted made
      cases h
      exact Or.inl ⟨link, rfl, made⟩
    · cases h
      exact Or.inr ⟨rfl, rfl⟩
  · cases h

/-- Whether the verdict of a create is that its visitors are to be warned. -/
def flagged (c : Create) : Bool :=
  decide (c.verdict.action = .interstitial)

theorem advance_phase (h : c.advance settings i = some (j, phase)) :
    (c.phase = .attempting 0 ∧ phase = .answered (.exhausted settings.maxAttempts) ∧ j = i) ∨
      ∃ link, c.phase = .flagging link ∧
        phase = .answered (.created link.code link.target link.expiresMs c.flagged c.verdict.reason) ∧
        j = { i with
          interstitials := if c.flagged then Function.update i.interstitials link.code (some c.verdict.reason)
            else i.interstitials } := by
  unfold advance at h
  split at h
  · rename_i here
    cases h
    exact Or.inl ⟨here, rfl, rfl⟩
  · rename_i link here
    cases h
    exact Or.inr ⟨link, here, rfl, rfl⟩
  · cases h

theorem fail_phase {fault : Fault} (h : c.fail fault = some phase) :
    phase = .answered .serverError ∨ phase = .aborted := by
  unfold fail at h
  split at h
  · split at h
    · cases h
      exact Or.inl rfl
    · cases h
  · split at h
    · cases h
      exact Or.inr rfl
    · cases h

theorem begin_phase (settings : Settings) (inst : Nat) (target : String) (ttlSeconds : Option Int) :
    (∃ reason host, (begin settings inst target ttlSeconds).phase = .answered (.refused reason host)) ∨
      (begin settings inst target ttlSeconds).phase = .attempting settings.maxAttempts := by
  by_cases refused : (settings.evaluate target).action = .refuse
  · exact Or.inl ⟨_, _, if_pos refused⟩
  · exact Or.inr (if_neg refused)

end Create

section
variable {i j : Instance}

/-- A poll moves the cursor of its instance and evicts from its cache. -/
theorem Instance.poll_state {log : List Invalidation} {progress progress' : InvalidationBus.Poll}
    (h : i.poll log progress = some (j, progress')) :
    ∃ cache cursor, j = { i with cache := cache, cursor := cursor } ∧
      (cache = i.cache ∨ ∃ code, cache = i.cache.invalidate code) := by
  obtain ⟨⟨cache, cursor, next⟩, advanced, same⟩ := Option.map_eq_some_iff.mp h
  cases same
  exact ⟨cache, cursor, rfl, InvalidationBus.Poll.advance_state advanced⟩

/-- The cache of a polling instance only loses entries. -/
theorem Instance.poll_cases {log : List Invalidation} {progress progress' : InvalidationBus.Poll}
    (h : i.poll log progress = some (j, progress')) :
    j.flight = i.flight ∧ j.takedowns = i.takedowns ∧
      ∀ {code entry}, j.cache.data.lookup code = some entry → i.cache.data.lookup code = some entry := by
  obtain ⟨cache, cursor, rfl, rfl | ⟨code, rfl⟩⟩ := Instance.poll_state h
  · exact ⟨rfl, rfl, fun held => held⟩
  · exact ⟨rfl, rfl, fun held => (LruCache.lookup_invalidate held).2⟩

theorem Instance.poll_interstitials {log : List Invalidation} {progress progress' : InvalidationBus.Poll}
    (h : i.poll log progress = some (j, progress')) : j.interstitials = i.interstitials := by
  obtain ⟨cache, cursor, rfl, _⟩ := Instance.poll_state h
  rfl

theorem Instance.poll_capacity {log : List Invalidation} {progress progress' : InvalidationBus.Poll}
    (h : i.poll log progress = some (j, progress')) : j.cache.capacity = i.cache.capacity := by
  obtain ⟨cache, cursor, rfl, rfl | ⟨code, rfl⟩⟩ := Instance.poll_state h
  · rfl
  · rfl

theorem Create.attempt_keeps {links links' : LinkStore} {c : Create} {code known : String} {clock : Int}
    {phase : CreatePhase} {link : Link} (h : c.attempt links code clock = some (links', phase))
    (stored : links.get known = some link) : links'.get known = some link := by
  obtain ⟨left, _, ⟨row, _, made⟩ | ⟨_, rfl⟩⟩ := Create.attempt_cases h
  · exact LinkStore.get_create made stored
  · exact stored

theorem Create.advance_cases {settings : Settings} {c : Create} {phase : CreatePhase}
    (h : c.advance settings i = some (j, phase)) :
    j.flight = i.flight ∧ j.takedowns = i.takedowns ∧ j.cache = i.cache := by
  obtain ⟨_, _, rfl⟩ | ⟨link, _, _, rfl⟩ := Create.advance_phase h
  · exact ⟨rfl, rfl, rfl⟩
  · exact ⟨rfl, rfl, rfl⟩

/-- All that a step of a takedown can do to its instance. -/
theorem Takedown.advance_state {t : Takedown} {log log' : List Invalidation} {phase : TakedownPhase}
    (h : t.advance log i = some (j, log', phase)) :
    (t.phase = .marking ∧ j = { i with takedowns := i.takedowns.mark t.code t.reason }) ∨
    (t.phase = .purging ∧ j = { i with cache := i.cache.invalidate t.code }) ∨
    (∃ seq, t.phase = .unflagging seq ∧
      j = { i with interstitials := Function.update i.interstitials t.code none }) ∨
    (∃ seq poll poll', t.phase = .draining seq poll ∧ i.poll log poll = some (j, poll')) ∨
    t.phase ≠ .marking ∧ t.phase ≠ .purging ∧ t.phase.over = false ∧ j = i := by
  unfold Takedown.advance at h
  split at h
  · rename_i here
    cases h
    exact Or.inl ⟨here, rfl⟩
  · rename_i here
    cases h
    exact Or.inr (Or.inl ⟨here, rfl⟩)
  · rename_i here
    cases h
    exact Or.inr (Or.inr (Or.inr (Or.inr (by rw [here]; exact ⟨nofun, nofun, rfl, rfl⟩))))
  · rename_i seq here
    cases h
    exact Or.inr (Or.inr (Or.inl ⟨seq, here, rfl⟩))
  · rename_i here
    cases h
    exact Or.inr (Or.inr (Or.inr (Or.inr (by rw [here]; exact ⟨nofun, nofun, rfl, rfl⟩))))
  · rename_i seq poll _ here
    obtain ⟨⟨k, poll'⟩, polled, same⟩ := Option.map_eq_some_iff.mp h
    cases same
    exact Or.inr (Or.inr (Or.inr (Or.inl ⟨seq, poll, poll', here, polled⟩)))
  · cases h
  · cases h

theorem Takedown.advance_cases {t : Takedown} {log log' : List Invalidation} {phase : TakedownPhase}
    (h : t.advance log i = some (j, log', phase)) :
    j.flight = i.flight ∧
      (∀ {code entry}, j.cache.data.lookup code = some entry → i.cache.data.lookup code = some entry) ∧
      ∀ {code}, i.takedowns.contains code = true → j.takedowns.contains code = true := by
  obtain ⟨_, rfl⟩ | ⟨_, rfl⟩ | ⟨seq, _, rfl⟩ | ⟨seq, poll, poll', _, polled⟩ | ⟨_, _, _, rfl⟩ := Takedown.advance_state h
  · exact ⟨rfl, fun held => held, fun marked => TakedownList.contains_mark marked ..⟩
  · exact ⟨rfl, fun held => (LruCache.lookup_invalidate held).2, fun marked => marked⟩
  · exact ⟨rfl, fun held => held, fun marked => marked⟩
  · obtain ⟨flight, takedowns, cache⟩ := Instance.poll_cases polled
    exact ⟨flight, cache, fun marked => takedowns ▸ marked⟩
  · exact ⟨rfl, fun held => held, fun marked => marked⟩

theorem Takedown.advance_capacity {t : Takedown} {log log' : List Invalidation} {phase : TakedownPhase}
    (h : t.advance log i = some (j, log', phase)) : j.cache.capacity = i.cache.capacity := by
  obtain ⟨_, rfl⟩ | ⟨_, rfl⟩ | ⟨seq, _, rfl⟩ | ⟨seq, poll, poll', _, polled⟩ | ⟨_, _, _, rfl⟩ := Takedown.advance_state h
  · rfl
  · rfl
  · rfl
  · exact Instance.poll_capacity polled
  · rfl

end

end UrlShortener
