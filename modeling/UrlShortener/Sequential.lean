import UrlShortener.DeploymentSound
import UrlShortener.General.Completion
import UrlShortener.General.Machine

namespace UrlShortener
open Machine

/-- An operation on the one instance there is, which ends before the next one
begins. A create comes with the codes and the clock readings of its attempts. -/
inductive Operation
  | create (target : String) (ttlSeconds : Option Int) (draw : Nat → String × Int)
  | resolve (code : String) (nowMs : Int)
  | takedown (code reason : String)
  | flushCache
  | poll
  | invalidate (code : String)

/-- What a resolve sends its client to. -/
def LinkStore.target (links : LinkStore) (code : String) (nowMs : Int) : Option String :=
  (links.get code).bind fun link => if link.isExpired nowMs then none else some link.target

/-- `allocate` as one computation, with `tried` draws behind it. -/
def LinkStore.allocate (links : LinkStore) (target : String) (ttlSeconds : Option Int)
    (draw : Nat → String × Int) (tried : Nat) : Nat → Option (Link × LinkStore)
  | 0 => none
  | left + 1 => match links.create (draw tried).1 target ttlSeconds none (draw tried).2 with
    | some stored => some stored
    | none => links.allocate target ttlSeconds draw (tried + 1) left

def ResolvePhase.answer : ResolvePhase → Option Answer
  | .answered answer => some answer
  | _ => none

def CreatePhase.answer : CreatePhase → Option Answer
  | .answered answer => some answer
  | _ => none

/-- A resolve by itself. -/
def Resolve.solo (links : LinkStore) (r : Resolve) (a : Instance × ResolvePhase) :
    Option (Instance × ResolvePhase) :=
  Resolve.advance links 0 a.1 { r with phase := a.2 }

/-- A create by itself, with the store and the number of its draws. -/
structure Creation where
  links : LinkStore
  inst : Instance
  phase : CreatePhase
  tried : Nat := 0

def Create.solo (settings : Settings) (c : Create) (draw : Nat → String × Int) (a : Creation) :
    Option Creation :=
  let now := { c with phase := a.phase }
  match now.attempt a.links (draw a.tried).1 (draw a.tried).2 with
  | some (links, phase) => some { a with links := links, phase := phase, tried := a.tried + 1 }
  | none => (now.advance settings a.inst).map fun (i, phase) => { a with inst := i, phase := phase }

def Takedown.solo (t : Takedown) (a : Instance × List Invalidation × TakedownPhase) :
    Option (Instance × List Invalidation × TakedownPhase) :=
  Takedown.advance a.2.1 a.1 { t with phase := a.2.2 }

def Instance.pollSolo (log : List Invalidation) (a : Instance × InvalidationBus.Poll) :
    Option (Instance × InvalidationBus.Poll) :=
  a.1.poll log a.2

/-- One instance on its link store and its invalidation log. -/
structure Process where
  links : LinkStore
  log : List Invalidation
  inst : Instance

namespace Process

/-- An instance that has just come up. -/
def start (settings : Settings) (links : LinkStore) (log : List Invalidation) : Process :=
  ⟨links, log, settings.fresh⟩

def create (settings : Settings) (p : Process) (target : String) (ttlSeconds : Option Int)
    (draw : Nat → String × Int) : Option (Answer × Process) :=
  let c := Create.begin settings 0 target ttlSeconds
  (complete (c.solo settings draw) (settings.maxAttempts + 3) ⟨p.links, p.inst, c.phase, 0⟩).bind fun a =>
    a.phase.answer.map fun answer => (answer, { p with links := a.links, inst := a.inst })

def resolve (p : Process) (code : String) (nowMs : Int) : Option (Answer × Process) :=
  let r : Resolve := ⟨0, code, nowMs, .checking⟩
  (complete (r.solo p.links) 11 (p.inst, .checking)).bind fun (i, phase) =>
    phase.answer.map fun answer => (answer, { p with inst := i })

def takedown (p : Process) (code reason : String) : Option Process :=
  let t : Takedown := ⟨0, code, reason, .marking⟩
  (complete t.solo (p.log.length + 10) (p.inst, p.log, .marking)).map fun (i, log, _) =>
    { p with inst := i, log := log }

def poll (p : Process) : Option Process :=
  (complete (Instance.pollSolo p.log) (p.log.length + 4) (p.inst, .starting)).map fun (i, _) =>
    { p with inst := i }

def flushCache (p : Process) : Process :=
  { p with inst := { p.inst with cache := p.inst.cache.clear } }

def invalidate (p : Process) (code : String) : Process :=
  { p with inst := { p.inst with cache := p.inst.cache.invalidate code } }

/-- The answer to a client and the state after it. -/
def perform (settings : Settings) (p : Process) : Operation → Option Answer × Process
  | .create target ttlSeconds draw => match p.create settings target ttlSeconds draw with
    | some (answer, p) => (some answer, p)
    | none => (none, p)
  | .resolve code nowMs => match p.resolve code nowMs with
    | some (answer, p) => (some answer, p)
    | none => (none, p)
  | .takedown code reason => (none, (p.takedown code reason).getD p)
  | .flushCache => (none, p.flushCache)
  | .poll => (none, p.poll.getD p)
  | .invalidate code => (none, p.invalidate code)

end Process

/-- The service with its store alone: no cache, no flights and no log. -/
structure PlainService where
  links : LinkStore
  takedowns : TakedownList := {}
  interstitials : String → Option String := fun _ => none

namespace PlainService

/-- What a create makes of its allocation. -/
def created (settings : Settings) (p : PlainService) (verdict : Verdict) :
    Option (Link × LinkStore) → Answer × PlainService
  | none => (.exhausted settings.maxAttempts, p)
  | some (link, links) =>
    let flagged := decide (verdict.action = .interstitial)
    (.created link.code link.target link.expiresMs flagged verdict.reason, { p with
      links := links
      interstitials := if flagged then
          Function.update p.interstitials link.code (some verdict.reason)
        else p.interstitials })

def create (settings : Settings) (p : PlainService) (target : String) (ttlSeconds : Option Int)
    (draw : Nat → String × Int) : Answer × PlainService :=
  let verdict := settings.evaluate target
  if verdict.action = .refuse then (.refused verdict.reason verdict.host, p)
  else p.created settings verdict (p.links.allocate target ttlSeconds draw 0 settings.maxAttempts)

def resolve (p : PlainService) (code : String) (nowMs : Int) : Answer :=
  if p.takedowns.contains code then .withdrawn (p.takedowns.reason code)
  else match p.links.target code nowMs with
    | none => .notFound
    | some target => match p.interstitials code with
      | some reason => .page target reason
      | none => .redirect target

def takedown (p : PlainService) (code reason : String) : PlainService :=
  { p with
    takedowns := p.takedowns.mark code reason
    interstitials := Function.update p.interstitials code none }

def perform (settings : Settings) (p : PlainService) : Operation → Option Answer × PlainService
  | .create target ttlSeconds draw =>
    let (answer, p) := p.create settings target ttlSeconds draw
    (some answer, p)
  | .resolve code nowMs => (some (p.resolve code nowMs), p)
  | .takedown code reason => (none, p.takedown code reason)
  | .flushCache | .poll | .invalidate _ => (none, p)

end PlainService
end UrlShortener
