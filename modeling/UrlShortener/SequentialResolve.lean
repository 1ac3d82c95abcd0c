import UrlShortener.Sequential

namespace UrlShortener
open Machine

theorem LinkStore.target_of_live {links : LinkStore} {code target : String} {nowMs : Int}
    (live : links.Live code target nowMs) : links.target code nowMs = some target := by
  obtain ⟨link, stored, same, fresh⟩ := live
  simp only [LinkStore.target, stored, Option.bind_some, fresh, Bool.false_eq_true, if_false, same]

theorem LinkStore.target_of_expired {links : LinkStore} {code : String} {nowMs : Int}
    (expired : ∀ link, links.get code = some link → link.isExpired nowMs = true) :
    links.target code nowMs = none := by
  unfold LinkStore.target
  cases stored : links.get code with
  | none => rfl
  | some link => rw [Option.bind_some, if_pos (expired link stored)]

namespace PlainService
variable {p : PlainService} {code target reason : String} {nowMs : Int}

theorem resolve_listed (listed : p.takedowns.contains code = true) :
    p.resolve code nowMs = .withdrawn (p.takedowns.reason code) :=
  if_pos listed

theorem resolve_missing (unlisted : p.takedowns.contains code = false) (missing : p.links.target code nowMs = none) :
    p.resolve code nowMs = .notFound := by
  rw [resolve, if_neg (by rw [unlisted]; decide), missing]

theorem resolve_flagged (unlisted : p.takedowns.contains code = false)
    (found : p.links.target code nowMs = some target) (flag : p.interstitials code = some reason) :
    p.resolve code nowMs = .page target reason := by
  rw [resolve, if_neg (by rw [unlisted]; decide), found]
  simp only [flag]

theorem resolve_unflagged (unlisted : p.takedowns.contains code = false)
    (found : p.links.target code nowMs = some target) (flag : p.interstitials code = none) :
    p.resolve code nowMs = .redirect target := by
  rw [resolve, if_neg (by rw [unlisted]; decide), found]
  simp only [flag]

end PlainService

/-- How many steps a phase has left at most. -/
def ResolvePhase.rank : ResolvePhase → Nat
  | .checking => 10
  | .reading => 9
  | .joining => 8
  | .loading => 7
  | .fetching => 6
  | .storing _ => 5
  | .deregistering _ => 4
  | .releasing _ | .waiting _ => 3
  | .serving _ => 2
  | .withdrawn | .showing _ => 1
  | .answered _ | .aborted => 0

namespace Resolve

/-- A resolve with no other request about, on its way to the plain answer. -/
def Course (plain : PlainService) (code : String) (nowMs : Int) : ResolvePhase → Prop
  | .checking => True
  | .withdrawn => plain.takedowns.contains code = true
  | .reading | .joining | .loading | .fetching => plain.takedowns.contains code = false
  | .storing link => plain.takedowns.contains code = false ∧
      plain.links.get code = some link ∧ link.isExpired nowMs = false
  | .deregistering outcome | .releasing outcome => plain.takedowns.contains code = false ∧
      outcome = .returned (plain.links.target code nowMs)
  | .serving found => plain.takedowns.contains code = false ∧ found = plain.links.target code nowMs
  | .showing found => plain.takedowns.contains code = false ∧
      plain.links.target code nowMs = some found ∧ (plain.interstitials code).isSome
  | .answered answer => answer = plain.resolve code nowMs
  | .waiting _ | .aborted => False

structure OnCourse (plain : PlainService) (code : String) (nowMs : Int) (a : Instance × ResolvePhase) : Prop where
  takedowns : a.1.takedowns = plain.takedowns
  interstitials : a.1.interstitials = plain.interstitials
  backed : plain.links.Backs a.1.cache
  calls : ∀ {known leader}, a.1.flight.calls known = some leader → known = code ∧ a.2.leads
  course : Course plain code nowMs a.2

variable {plain : PlainService} {r : Resolve} {id : Nat} {i i' : Instance} {phase : ResolvePhase}

theorem Move.rank (move : r.Move plain.links id i i' phase) : phase.rank < r.phase.rank := by
  cases move with
  | raised fault loading =>
    rcases loading with here | here | ⟨link, here⟩ <;> rw [here] <;> simp only [ResolvePhase.rank] <;> omega
  | _ here =>
    rw [here]
    simp only [ResolvePhase.rank]
    omega

theorem OnCourse.target_of_hit (onCourse : OnCourse plain r.code r.nowMs (i, r.phase)) {target : String}
    (hit : (i.cache.get r.code r.nowMs).1 = some target) :
    plain.links.target r.code r.nowMs = some target :=
  LinkStore.target_of_live (LinkStore.Backs.live onCourse.backed hit)

/-- One step keeps to the course. -/
theorem OnCourse.course_move (onCourse : OnCourse plain r.code r.nowMs (i, r.phase)) (move : r.Move plain.links id i i' phase)
    (settles : ∀ outcome, phase = .deregistering outcome → ∃ value, outcome = .returned value) :
    Course plain r.code r.nowMs phase := by
  have known {before : ResolvePhase} (here : r.phase = before) : Course plain r.code r.nowMs before :=
    here ▸ onCourse.course
  have takedowns : i.takedowns = plain.takedowns := onCourse.takedowns
  have interstitials : i.interstitials = plain.interstitials := onCourse.interstitials
  cases move with
  | listed here marked =>
    show plain.takedowns.contains r.code = true
    rw [← takedowns, marked]
  | unlisted here clear =>
    show plain.takedowns.contains r.code = false
    rw [← takedowns, clear]
  | withdrawn here =>
    have marked : plain.takedowns.contains r.code = true := known here
    show Answer.withdrawn (i.takedowns.reason r.code) = plain.resolve r.code r.nowMs
    rw [PlainService.resolve_listed marked, takedowns]
  | hit here found => exact ⟨known here, (onCourse.target_of_hit found).symm⟩
  | missed here _ =>
    have unlisted := known here
    exact unlisted
  | leads here _ =>
    have unlisted := known here
    exact unlisted
  | follows here entered =>
    have leads := (onCourse.calls entered).2
    rw [here] at leads
    exact leads
  | woken here _ | wokenByError here _ => exact (known here).elim
  | loadHit here found => exact ⟨known here, congrArg Outcome.returned (onCourse.target_of_hit found).symm⟩
  | loadMissed here _ =>
    have unlisted := known here
    exact unlisted
  | fetchedNone here expired =>
    exact ⟨known here, congrArg Outcome.returned (LinkStore.target_of_expired expired).symm⟩
  | fetched here stored fresh => exact ⟨known here, stored, fresh⟩
  | stored here =>
    obtain ⟨unlisted, stored, fresh⟩ := known here
    exact ⟨unlisted, congrArg Outcome.returned (LinkStore.target_of_live ⟨_, stored, rfl, fresh⟩).symm⟩
  | raised fault _ =>
    obtain ⟨value, same⟩ := settles _ rfl
    cases fault <;> cases same
  | deregistered here =>
    have settled := known here
    exact settled
  | released here =>
    obtain ⟨unlisted, same⟩ := known here
    exact ⟨unlisted, Outcome.returned.inj same⟩
  | releasedError here | releasedAborted here => cases (known here).2
  | notFound here =>
    obtain ⟨unlisted, missing⟩ := known here
    exact (PlainService.resolve_missing unlisted missing.symm).symm
  | flagged here flag =>
    obtain ⟨unlisted, found⟩ := known here
    exact ⟨unlisted, found.symm, by rw [← interstitials, flag]; rfl⟩
  | redirected here unflagged =>
    obtain ⟨unlisted, found⟩ := known here
    exact (PlainService.resolve_unflagged unlisted found.symm (interstitials ▸ unflagged)).symm
  | shown here flag =>
    obtain ⟨unlisted, found, _⟩ := known here
    exact (PlainService.resolve_flagged unlisted found (interstitials ▸ flag)).symm
  | unflagged here unflagged =>
    obtain ⟨_, _, flag⟩ := known here
    rw [← interstitials, unflagged] at flag
    cases flag

theorem OnCourse.move (onCourse : OnCourse plain r.code r.nowMs (i, r.phase)) (move : r.Move plain.links id i i' phase)
    (settles : ∀ outcome, phase = .deregistering outcome → ∃ value, outcome = .returned value) :
    OnCourse plain r.code r.nowMs (i', phase) where
  takedowns := move.takedowns.trans onCourse.takedowns
  interstitials := move.interstitials.trans onCourse.interstitials
  backed code target expiresMs held := by
    rcases move.cache held with before | ⟨link, storing, rfl, same⟩
    · exact onCourse.backed code target expiresMs before
    · cases same
      have known : Course plain r.code r.nowMs r.phase := onCourse.course
      rw [storing] at known
      exact ⟨link, known.2.1, rfl, rfl⟩
  calls entered := by
    rcases move.calls entered with ⟨before, leads⟩ | ⟨own, _, leads⟩
    · obtain ⟨own, leading⟩ := onCourse.calls before
      exact ⟨own, leads own leading⟩
    · exact ⟨own, leads⟩
  course := onCourse.course_move move settles

theorem OnCourse.solo {a b : Instance × ResolvePhase} (onCourse : OnCourse plain r.code r.nowMs a)
    (taken : r.solo plain.links a = some b) :
    OnCourse plain r.code r.nowMs b ∧ b.2.rank < a.2.rank := by
  have move : Move plain.links 0 a.1 { r with phase := a.2 } b.1 b.2 := .of_advance taken
  refine ⟨OnCourse.move (r := { r with phase := a.2 }) onCourse move fun outcome settled => ?_, move.rank⟩
  exact advance_settles (taken.trans (congrArg (fun phase => some (b.1, phase)) settled))

/-- A resolve without a next step has been answered, or waits. -/
theorem over_of_stuck {links : LinkStore} (stuck : r.advance links id i = none) :
    (∃ leader, r.phase = .waiting leader) ∨ r.phase.over = true := by
  cases phase : r.phase with
  | waiting leader => exact Or.inl ⟨leader, rfl⟩
  | answered answer => exact Or.inr rfl
  | aborted => exact Or.inr rfl
  | serving found => cases found <;> simp [advance, phase] at stuck
  | _ => simp [advance, phase] at stuck

end Resolve

/-- A process without its cache, its flights and its log. -/
def Process.plain (p : Process) : PlainService :=
  ⟨p.links, p.inst.takedowns, p.inst.interstitials⟩

namespace Create

def rank : CreatePhase → Nat
  | .attempting left => left + 2
  | .flagging _ => 1
  | .answered _ | .aborted => 0

/-- A create with no other request about, on its way to what is expected of it. -/
def Course (settings : Settings) (p : Process) (c : Create) (draw : Nat → String × Int)
    (expected : Answer × PlainService) (a : Creation) : CreatePhase → Prop
  | .attempting left => a.inst = p.inst ∧ a.links = p.links ∧
      p.plain.created settings c.verdict (a.links.allocate c.target c.ttlSeconds draw a.tried left) = expected
  | .flagging link => a.inst = p.inst ∧ p.plain.created settings c.verdict (some (link, a.links)) = expected
  | .answered answer => (answer, ⟨a.links, a.inst.takedowns, a.inst.interstitials⟩) = expected
  | .aborted => False

structure OnCourse (settings : Settings) (p : Process) (c : Create) (draw : Nat → String × Int)
    (expected : Answer × PlainService) (a : Creation) : Prop where
  flight : a.inst.flight = p.inst.flight
  cache : a.inst.cache = p.inst.cache
  links : ∀ {code link}, p.links.get code = some link → a.links.get code = some link
  course : c.Course settings p draw expected a a.phase

variable {settings : Settings} {p : Process} {c : Create} {draw : Nat → String × Int}
  {expected : Answer × PlainService} {a b : Creation}

theorem OnCourse.solo (onCourse : c.OnCourse settings p draw expected a) (taken : c.solo settings draw a = some b) :
    c.OnCourse settings p draw expected b ∧ rank b.phase < rank a.phase := by
  obtain ⟨flight, cache, links, course⟩ := onCourse
  obtain ⟨rows, inst, phase, tried⟩ := a
  cases phase with
  | attempting left =>
    obtain ⟨rfl, rfl, whole⟩ := course
    cases left with
    | zero =>
      cases taken
      exact ⟨⟨rfl, rfl, fun stored => stored, whole⟩, Nat.succ_pos _⟩
    | succ left =>
      cases made : p.links.create (draw tried).1 c.target c.ttlSeconds none (draw tried).2 with
      | some stored =>
        obtain ⟨link, rows⟩ := stored
        simp only [Create.solo, attempt, made] at taken
        cases taken
        simp only [LinkStore.allocate, made] at whole
        exact ⟨⟨rfl, rfl, LinkStore.get_create made, rfl, whole⟩, by simp only [rank]; omega⟩
      | none =>
        simp only [Create.solo, attempt, made] at taken
        cases taken
        simp only [LinkStore.allocate, made] at whole
        exact ⟨⟨rfl, rfl, fun stored => stored, rfl, rfl, whole⟩, Nat.lt_succ_self _⟩
  | flagging link =>
    obtain ⟨rfl, whole⟩ := course
    cases taken
    exact ⟨⟨rfl, rfl, links, whole⟩, Nat.one_pos⟩
  | answered answer => cases taken
  | aborted => cases taken

theorem answered_of_stuck (onCourse : c.OnCourse settings p draw expected a)
    (stuck : c.solo settings draw a = none) : ∃ answer, a.phase = .answered answer := by
  obtain ⟨rows, inst, phase, tried⟩ := a
  cases phase with
  | attempting left => cases left <;> cases stuck
  | flagging link => cases stuck
  | answered answer => exact ⟨answer, rfl⟩
  | aborted => exact onCourse.course.elim

end Create

namespace InvalidationBus

def Poll.rank (log : List Invalidation) : Poll → Nat
  | .starting => log.length + 3
  | .selecting _ => log.length + 2
  | .applying _ rest => rest.length + 1
  | .finished _ | .raised => 0

theorem Poll.advance_rank {σ : Type} {apply : String → σ → σ} {log : List Invalidation} {state state' : σ}
    {cursor cursor' : Nat} {poll poll' : Poll}
    (h : poll.advance apply log state cursor = some (state', cursor', poll')) :
    poll'.rank log < poll.rank log := by
  cases poll with
  | starting =>
    cases h
    exact Nat.lt_succ_self _
  | selecting known =>
    cases h
    have bound := List.length_filter_le (fun row : Invalidation => decide (known < row.seq)) log
    show Poll.rank log (if _ then _ else _) < log.length + 2
    split
    · exact Nat.succ_pos _
    · simp only [rank]
      omega
  | applying rows rest =>
    cases rest with
    | nil =>
      cases h
      exact Nat.one_pos
    | cons row rest =>
      cases h
      exact Nat.lt_succ_self _
  | finished count => cases h
  | raised => cases h

end InvalidationBus

/-- What a poll, a takedown or a flush may do to the cache and the flights. -/
structure Instance.Tidies (before after : Instance) : Prop where
  flight : after.flight = before.flight
  cache : ∀ {code entry}, after.cache.data.lookup code = some entry → before.cache.data.lookup code = some entry

theorem Instance.Tidies.refl (i : Instance) : i.Tidies i :=
  ⟨rfl, fun held => held⟩

theorem Instance.Tidies.trans {i j k : Instance} (first : i.Tidies j) (second : j.Tidies k) : i.Tidies k :=
  ⟨second.flight.trans first.flight, fun held => first.cache (second.cache held)⟩

theorem Instance.Tidies.poll {i j : Instance} {log : List Invalidation}
    {progress progress' : InvalidationBus.Poll} (h : i.poll log progress = some (j, progress')) : i.Tidies j := by
  obtain ⟨flight, _, cache⟩ := Instance.poll_cases h
  exact ⟨flight, cache⟩

theorem Instance.poll_rank {i j : Instance} {log : List Invalidation} {progress progress' : InvalidationBus.Poll}
    (h : i.poll log progress = some (j, progress')) : progress'.rank log < progress.rank log := by
  obtain ⟨⟨cache, cursor, next⟩, advanced, same⟩ := Option.map_eq_some_iff.mp h
  cases same
  exact InvalidationBus.Poll.advance_rank advanced

namespace Takedown

def rank (log : List Invalidation) : TakedownPhase → Nat
  | .marking => log.length + 9
  | .purging => log.length + 8
  | .publishing => log.length + 7
  | .unflagging _ => log.length + 5
  | .draining _ poll => poll.rank log + 1
  | .returned _ | .failed => 0

/-- How far a takedown has got with the list and the interstitials. -/
def Course (before : Instance) (t : Takedown) (i : Instance) : TakedownPhase → Prop
  | .marking => i.takedowns = before.takedowns ∧ i.interstitials = before.interstitials
  | .purging | .publishing | .unflagging _ =>
    i.takedowns = before.takedowns.mark t.code t.reason ∧ i.interstitials = before.interstitials
  | .draining .. | .returned _ | .failed =>
    i.takedowns = before.takedowns.mark t.code t.reason ∧
      i.interstitials = Function.update before.interstitials t.code none

def OnCourse (before : Instance) (t : Takedown) (a : Instance × List Invalidation × TakedownPhase) : Prop :=
  before.Tidies a.1 ∧ t.Course before a.1 a.2.2

variable {before : Instance} {t : Takedown} {a b : Instance × List Invalidation × TakedownPhase}

theorem OnCourse.solo (onCourse : t.OnCourse before a) (taken : t.solo a = some b) :
    t.OnCourse before b ∧ rank b.2.1 b.2.2 < rank a.2.1 a.2.2 := by
  obtain ⟨i, log, phase⟩ := a
  obtain ⟨tidies, course⟩ := onCourse
  cases phase with
  | marking =>
    cases taken
    exact ⟨⟨⟨tidies.flight, tidies.cache⟩, by rw [← course.1], course.2⟩, Nat.lt_succ_self _⟩
  | purging =>
    cases taken
    exact ⟨⟨⟨tidies.flight, fun held => tidies.cache (LruCache.lookup_invalidate held).2⟩, course⟩, Nat.lt_succ_self _⟩
  | publishing =>
    cases taken
    refine ⟨⟨tidies, course⟩, ?_⟩
    simp only [rank, List.length_append, List.length_singleton]
    omega
  | unflagging seq =>
    cases taken
    exact ⟨⟨⟨tidies.flight, tidies.cache⟩, course.1, by rw [← course.2]⟩, Nat.lt_succ_self _⟩
  | draining seq progress =>
    cases progress with
    | finished count =>
      cases taken
      exact ⟨⟨tidies, course⟩, Nat.succ_pos _⟩
    | _ =>
      simp only [solo, advance] at taken
      obtain ⟨⟨j, next⟩, polled, same⟩ := Option.map_eq_some_iff.mp taken
      cases same
      have takedowns : j.takedowns = i.takedowns := (Instance.poll_cases polled).2.1
      refine ⟨⟨tidies.trans (.poll polled), ?_, ?_⟩, Nat.succ_lt_succ (Instance.poll_rank polled)⟩
      · exact takedowns.trans course.1
      · exact (Instance.poll_interstitials polled).trans course.2
  | returned seq => cases taken
  | failed => cases taken

/-- A takedown that has stopped has changed both maps. -/
theorem course_of_stuck (onCourse : t.OnCourse before a) (stuck : t.solo a = none) :
    a.1.takedowns = before.takedowns.mark t.code t.reason ∧
      a.1.interstitials = Function.update before.interstitials t.code none := by
  obtain ⟨i, log, phase⟩ := a
  have course := onCourse.2
  cases phase with
  | draining seq progress => exact course
  | returned seq => exact course
  | failed => exact course
  | _ => cases stuck

end Takedown

namespace Process

/-- What lies between two operations. -/
structure Settled (p : Process) : Prop where
  backed : p.links.Backs p.inst.cache
  free : ∀ code, p.inst.flight.calls code = none

variable {settings : Settings} {p : Process} {code reason target : String} {nowMs : Int}
  {ttlSeconds : Option Int} {draw : Nat → String × Int} {i : Instance}

theorem Settled.start (settings : Settings) (links : LinkStore) (log : List Invalidation) :
    (Process.start settings links log).Settled where
  backed _ _ _ held := by cases (AList.lookup_empty _).symm.trans held
  free _ := rfl

theorem Settled.tidies (settled : p.Settled) (tidies : p.inst.Tidies i) (log : List Invalidation) :
    Settled { p with inst := i, log := log } where
  backed code target expiresMs held := settled.backed code target expiresMs (tidies.cache held)
  free code := by
    show i.flight.calls code = none
    rw [tidies.flight, settled.free]

theorem create_plain (settled : p.Settled) (settings : Settings) (target : String) (ttlSeconds : Option Int)
    (draw : Nat → String × Int) :
    ∃ p', p.create settings target ttlSeconds draw =
        some ((p.plain.create settings target ttlSeconds draw).1, p') ∧
      p'.plain = (p.plain.create settings target ttlSeconds draw).2 ∧ p'.Settled := by
  let c := Create.begin settings 0 target ttlSeconds
  have start : c.OnCourse settings p draw (p.plain.create settings target ttlSeconds draw)
      ⟨p.links, p.inst, c.phase, 0⟩ := by
    refine ⟨rfl, rfl, fun stored => stored, ?_⟩
    by_cases refused : (settings.evaluate target).action = .refuse
    · simp only [c, Create.begin, PlainService.create, refused, if_true]
      exact rfl
    · simp only [c, Create.begin, PlainService.create, refused, if_false]
      exact ⟨rfl, rfl, rfl⟩
  have enough : Create.rank c.phase < settings.maxAttempts + 3 := by
    by_cases refused : (settings.evaluate target).action = .refuse
    · simp only [c, Create.begin, refused, if_true, Create.rank]
      omega
    · simp only [c, Create.begin, refused, if_false, Create.rank]
      omega
  obtain ⟨a, ends, onCourse, stuck⟩ :=
    complete_ends (fun a => Create.rank a.phase) (fun _ _ => Create.OnCourse.solo) start enough
  obtain ⟨answer, phase⟩ := Create.answered_of_stuck onCourse stuck
  have course := onCourse.course
  rw [phase] at course
  refine ⟨{ p with links := a.links, inst := a.inst }, ?_, congrArg Prod.snd course, ?_, ?_⟩
  · show (complete _ _ _).bind _ = _
    rw [ends, Option.bind_some, phase]
    exact congrArg (fun made => some (made.1, _)) course
  · intro code target expiresMs held
    rw [onCourse.cache] at held
    obtain ⟨link, stored, same⟩ := settled.backed code target expiresMs held
    exact ⟨link, onCourse.links stored, same⟩
  · intro code
    show a.inst.flight.calls code = none
    rw [onCourse.flight, settled.free]

theorem resolve_plain (settled : p.Settled) (code : String) (nowMs : Int) :
    ∃ p', p.resolve code nowMs = some (p.plain.resolve code nowMs, p') ∧ p'.plain = p.plain ∧ p'.Settled := by
  let r : Resolve := ⟨0, code, nowMs, .checking⟩
  have start : Resolve.OnCourse p.plain code nowMs (p.inst, .checking) :=
    ⟨rfl, rfl, settled.backed, fun entered => (by cases (settled.free _).symm.trans entered), trivial⟩
  obtain ⟨⟨i, phase⟩, ends, onCourse, stuck⟩ := complete_ends (fun a => a.2.rank)
    (fun a b => Resolve.OnCourse.solo (r := r)) start (Nat.lt_succ_self 10 : 10 < 11)
  have course := onCourse.course
  obtain ⟨answer, rfl⟩ : ∃ answer, phase = .answered answer := by
    rcases Resolve.over_of_stuck stuck with ⟨leader, waiting⟩ | ended
    · rw [show phase = _ from waiting] at course
      exact course.elim
    · cases phase with
      | answered answer => exact ⟨answer, rfl⟩
      | aborted => exact course.elim
      | _ => cases ended
  refine ⟨{ p with inst := i }, ?_, ?_, onCourse.backed, fun known => ?_⟩
  · show (complete (r.solo p.plain.links) 11 (p.inst, .checking)).bind _ = _
    rw [ends]
    exact congrArg (fun found => some (found, _)) course
  · rw [plain, onCourse.takedowns, onCourse.interstitials]
    rfl
  · cases entered : i.flight.calls known with
    | none => rfl
    | some leader => exact (onCourse.calls entered).2.elim

theorem takedown_plain (settled : p.Settled) (code reason : String) :
    ∃ p', p.takedown code reason = some p' ∧ p'.plain = p.plain.takedown code reason ∧ p'.Settled := by
  let t : Takedown := ⟨0, code, reason, .marking⟩
  have start : t.OnCourse p.inst (p.inst, p.log, .marking) := ⟨.refl p.inst, rfl, rfl⟩
  obtain ⟨⟨i, log, phase⟩, ends, onCourse, stuck⟩ := complete_ends (fun a => Takedown.rank a.2.1 a.2.2)
    (fun _ _ => Takedown.OnCourse.solo) start (Nat.lt_succ_self (p.log.length + 9))
  obtain ⟨takedowns, interstitials⟩ := Takedown.course_of_stuck onCourse stuck
  refine ⟨{ p with inst := i, log := log }, ?_, ?_, settled.tidies onCourse.1 log⟩
  · show Option.map _ (complete _ _ _) = _
    rw [ends]
    rfl
  · rw [plain, takedowns, interstitials]
    rfl

theorem poll_plain (settled : p.Settled) : ∃ p', p.poll = some p' ∧ p'.plain = p.plain ∧ p'.Settled := by
  have start : p.inst.Tidies p.inst ∧ p.inst.takedowns = p.inst.takedowns ∧
      p.inst.interstitials = p.inst.interstitials := ⟨.refl p.inst, rfl, rfl⟩
  have descends (a b : Instance × InvalidationBus.Poll)
      (kept : p.inst.Tidies a.1 ∧ a.1.takedowns = p.inst.takedowns ∧ a.1.interstitials = p.inst.interstitials)
      (taken : Instance.pollSolo p.log a = some b) :
      (p.inst.Tidies b.1 ∧ b.1.takedowns = p.inst.takedowns ∧ b.1.interstitials = p.inst.interstitials) ∧
        b.2.rank p.log < a.2.rank p.log := by
    obtain ⟨tidies, takedowns, interstitials⟩ := kept
    refine ⟨⟨tidies.trans (.poll taken), ?_, ?_⟩, Instance.poll_rank taken⟩
    · exact (Instance.poll_cases taken).2.1.trans takedowns
    · exact (Instance.poll_interstitials taken).trans interstitials
  have enough : InvalidationBus.Poll.starting.rank p.log < p.log.length + 4 := Nat.lt_succ_self _
  obtain ⟨⟨i, progress⟩, ends, ⟨tidies, takedowns, interstitials⟩, _⟩ :=
    complete_ends (s := (p.inst, InvalidationBus.Poll.starting)) (fun a => InvalidationBus.Poll.rank p.log a.2)
      descends start enough
  refine ⟨{ p with inst := i }, ?_, ?_, settled.tidies tidies p.log⟩
  · show Option.map _ (complete _ _ _) = _
    rw [ends]
    rfl
  · rw [plain, takedowns, interstitials]
    rfl

/-- An operation is the same to both services. -/
theorem perform_plain (settled : p.Settled) (settings : Settings) (operation : Operation) :
    (p.perform settings operation).1 = (p.plain.perform settings operation).1 ∧
      (p.perform settings operation).2.plain = (p.plain.perform settings operation).2 ∧
      (p.perform settings operation).2.Settled := by
  cases operation with
  | create target ttlSeconds draw =>
    obtain ⟨p', made, plain, settled'⟩ := create_plain settled settings target ttlSeconds draw
    simp only [perform, made]
    exact ⟨rfl, plain, settled'⟩
  | resolve code nowMs =>
    obtain ⟨p', answered, plain, settled'⟩ := resolve_plain settled code nowMs
    simp only [perform, answered]
    exact ⟨rfl, plain, settled'⟩
  | takedown code reason =>
    obtain ⟨p', done, plain, settled'⟩ := takedown_plain settled code reason
    simp only [perform, done, Option.getD_some]
    exact ⟨rfl, plain, settled'⟩
  | flushCache =>
    have tidies : p.inst.Tidies { p.inst with cache := p.inst.cache.clear } :=
      ⟨rfl, fun {code entry} held => by cases (AList.lookup_empty code).symm.trans held⟩
    exact ⟨rfl, rfl, settled.tidies tidies p.log⟩
  | poll =>
    obtain ⟨p', done, plain, settled'⟩ := poll_plain settled
    simp only [perform, done, Option.getD_some]
    exact ⟨rfl, plain, settled'⟩
  | invalidate code =>
    have tidies : p.inst.Tidies { p.inst with cache := p.inst.cache.invalidate code } :=
      ⟨rfl, fun held => (LruCache.lookup_invalidate held).2⟩
    exact ⟨rfl, rfl, settled.tidies tidies p.log⟩

theorem after_plain (settled : p.Settled) (settings : Settings) (operations : List Operation) :
    (after (perform settings) p operations).plain = after (PlainService.perform settings) p.plain operations ∧
      (after (perform settings) p operations).Settled := by
  induction operations using List.reverseRecOn with
  | nil => exact ⟨rfl, settled⟩
  | append_singleton earlier operation ih =>
    obtain ⟨same, kept⟩ := ih
    obtain ⟨_, next, settled'⟩ := perform_plain kept settings operation
    rw [after_snoc, after_snoc, ← same]
    exact ⟨next, settled'⟩

end Process

namespace PlainService
variable {settings : Settings} {p : PlainService} {code : String} {nowMs : Int}

theorem create_takedowns (settings : Settings) (p : PlainService) (target : String) (ttlSeconds : Option Int)
    (draw : Nat → String × Int) : (p.create settings target ttlSeconds draw).2.takedowns = p.takedowns := by
  by_cases refused : (settings.evaluate target).action = .refuse
  · simp only [create, refused, if_true]
  · simp only [create, refused, if_false]
    cases p.links.allocate target ttlSeconds draw 0 settings.maxAttempts <;> rfl

theorem contains_perform (operation : Operation) :
    (p.perform settings operation).2.takedowns.contains code = true ↔
      p.takedowns.contains code = true ∨ ∃ reason, operation = .takedown code reason := by
  cases operation with
  | create target ttlSeconds draw =>
    show (p.create settings target ttlSeconds draw).2.takedowns.contains code = true ↔ _
    simp only [create_takedowns, reduceCtorEq, exists_const, or_false]
  | takedown other reason =>
    show (Function.update p.takedowns.codes other (some reason) code).isSome = true ↔ _
    by_cases same : code = other
    · subst same
      simp only [Function.update_self, Option.isSome_some, Operation.takedown.injEq, true_and, exists_eq', or_true]
    · simp only [Function.update_of_ne same, Operation.takedown.injEq, Ne.symm same, false_and, exists_const, or_false]
      rfl
  | _ => simp only [perform, reduceCtorEq, exists_const, or_false]

/-- The list holds the codes that were taken down. -/
theorem contains_after (settings : Settings) (links : LinkStore) (operations : List Operation) (code : String) :
    (after (perform settings) { links := links } operations).takedowns.contains code = true ↔
      ∃ reason, .takedown code reason ∈ operations := by
  induction operations using List.reverseRecOn with
  | nil =>
    simp only [List.not_mem_nil, exists_const, iff_false]
    exact Bool.false_ne_true
  | append_singleton earlier operation ih =>
    rw [after_snoc, contains_perform, ih]
    simp only [List.mem_append, List.mem_singleton, exists_or, eq_comm]

theorem resolve_found {link : Link} (unlisted : p.takedowns.contains code = false)
    (stored : p.links.get code = some link) (fresh : link.isExpired nowMs = false) :
    p.resolve code nowMs = .redirect link.target ∨ ∃ reason, p.resolve code nowMs = .page link.target reason := by
  have target := LinkStore.target_of_live ⟨link, stored, rfl, fresh⟩
  cases flag : p.interstitials code with
  | none => exact Or.inl (resolve_unflagged unlisted target flag)
  | some reason => exact Or.inr ⟨reason, resolve_flagged unlisted target flag⟩

end PlainService

namespace Process

/-- Whatever the cache has been through, every answer is the one the store alone
gives: 410 for a code that was taken down, 404 for one without an unexpired
link, and otherwise the target of its link. -/
theorem cached_path_agrees (settings : Settings) (links : LinkStore) (log : List Invalidation)
    (operations : List Operation) :
    transcript (perform settings) (start settings links log) operations =
      transcript (PlainService.perform settings) { links := links } operations ∧
    ∀ code nowMs,
      let p := after (perform settings) (start settings links log) operations
      let answer := (p.perform settings (.resolve code nowMs)).1
      ((∃ reason, .takedown code reason ∈ operations) → ∃ reason, answer = some (.withdrawn reason)) ∧
      ((∀ reason, .takedown code reason ∉ operations) →
        ((∀ link, p.links.get code = some link → link.isExpired nowMs = true) → answer = some .notFound) ∧
        ∀ link, p.links.get code = some link → link.isExpired nowMs = false →
          answer = some (.redirect link.target) ∨ ∃ reason, answer = some (.page link.target reason)) := by
  have settled := Settled.start settings links log
  constructor
  · refine transcript_eq_of_simulation (fun _ p plain => p.Settled ∧ p.plain = plain) ?_ ⟨settled, rfl⟩
    rintro operation rest p _ ⟨kept, rfl⟩
    obtain ⟨answer, next, settled'⟩ := perform_plain kept settings operation
    exact ⟨answer, settled', next⟩
  · intro code nowMs p answer
    obtain ⟨same, kept⟩ : p.plain = after (PlainService.perform settings) { links := links } operations ∧ p.Settled :=
      after_plain settled settings operations
    have plainly : answer = some (p.plain.resolve code nowMs) :=
      (perform_plain kept settings (.resolve code nowMs)).1
    have listed := PlainService.contains_after settings links operations code
    rw [← same] at listed
    refine ⟨fun taken => ?_, fun untouched => ?_⟩
    · exact ⟨_, plainly.trans (congrArg some (PlainService.resolve_listed (listed.mpr taken)))⟩
    · have unlisted : p.plain.takedowns.contains code = false := by
        refine eq_false_of_ne_true fun marked => ?_
        obtain ⟨reason, taken⟩ := listed.mp marked
        exact untouched reason taken
      refine ⟨fun expired => ?_, fun link stored fresh => ?_⟩
      · have missing : p.plain.links.target code nowMs = none := LinkStore.target_of_expired expired
        rw [plainly, PlainService.resolve_missing unlisted missing]
      · rw [plainly]
        exact (PlainService.resolve_found unlisted stored fresh).imp (congrArg some)
          fun ⟨reason, page⟩ => ⟨reason, congrArg some page⟩

/-- A link is cached, outlives its expiry in the cache and is taken down. -/
theorem cached_path_agrees_expiring :
    (transcript (perform .lenient) (start .lenient .empty [])
        [.create "https://example.com" (some 1) fun _ => ("c", 5), .resolve "c" 7, .resolve "c" 1005,
          .takedown "c" "policy violation"]).map Prod.snd =
      [some (.created "c" "https://example.com" (some 1005) false "ok"), some (.redirect "https://example.com"),
        some .notFound, none] ∧
    ∃ reason, ((after (perform .lenient) (start .lenient .empty [])
        [.create "https://example.com" (some 1) fun _ => ("c", 5), .resolve "c" 7, .resolve "c" 1005,
          .takedown "c" "policy violation"]).perform .lenient (.resolve "c" 7)).1 = some (.withdrawn reason) := by
  constructor
  · rw [(cached_path_agrees .lenient .empty [] _).1]
    decide +kernel
  · refine ((cached_path_agrees .lenient .empty [] _).2 "c" 7).1 ⟨"policy violation", ?_⟩
    simp only [List.mem_cons, true_or, or_true]

end Process
end UrlShortener
