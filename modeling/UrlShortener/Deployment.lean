import UrlShortener.Requests
import UrlShortener.General.Run

namespace UrlShortener
open Transition

/-- What a thread of some process is working on. -/
inductive Task
  | absent
  | limited
  | resolve (r : Resolve)
  | create (c : Create)
  | takedown (t : Takedown)
  | poll (inst : Nat) (poll : InvalidationBus.Poll)
  | lost
  deriving DecidableEq

/-- The instance an unfinished task runs on. -/
def Task.runsOn : Task → Option Nat
  | .resolve r => if r.phase.over then none else some r.inst
  | .create c => if c.phase.over then none else some c.inst
  | .takedown t => if t.phase.over then none else some t.inst
  | .poll inst progress => if progress.done then none else some inst
  | .absent | .limited | .lost => none

/-- A process that stops takes its unfinished tasks with it. -/
def Task.stop (inst : Nat) (t : Task) : Task :=
  if t.runsOn = some inst then .lost else t

/-- Any number of instances over one link store and one invalidation log. What is
read of the links is what is committed. -/
structure World where
  links : LinkStore
  log : List Invalidation
  instances : Nat → Instance
  task : Nat → Task

inductive Event
  /-- `enforce_limit` turns a request away. -/
  | limited (id : Nat)
  /-- A resolve passes the limiter and reads its clock. -/
  | resolve (id inst : Nat) (code : String) (nowMs : Int)
  | create (id inst : Nat) (target : String) (ttlSeconds : Option Int)
  | takedown (id inst : Nat) (code reason : String)
  | poll (id inst : Nat)
  | step (id : Nat)
  /-- An allocation tries the code its generator produced. -/
  | attempt (id : Nat) (code : String) (clock : Int)
  | fail (id : Nat) (fault : Fault)
  | flushCache (inst : Nat)
  | restart (inst : Nat)
  deriving DecidableEq

def Settings.fresh (settings : Settings) : Instance :=
  { cache := .empty settings.cacheCapacity }

namespace World

def start (settings : Settings) : World :=
  ⟨.empty, [], fun _ => settings.fresh, fun _ => .absent⟩

def begin (w : World) (id : Nat) (t : Task) : Option World :=
  if w.task id = .absent then some { w with task := Function.update w.task id t } else none

def put (w : World) (inst : Nat) (i : Instance) (id : Nat) (t : Task) : World :=
  { w with
    instances := Function.update w.instances inst i
    task := Function.update w.task id t }

def flushCache (w : World) (inst : Nat) : World :=
  let i := w.instances inst
  { w with instances := Function.update w.instances inst { i with cache := i.cache.clear } }

/-- A fresh process in the place of an old one; its poller starts from zero. -/
def restart (settings : Settings) (w : World) (inst : Nat) : World :=
  { w with
    instances := Function.update w.instances inst settings.fresh
    task := fun id => (w.task id).stop inst }

/-- The step of the task `id`. -/
def advance (settings : Settings) (w : World) (id : Nat) : Option World :=
  match w.task id with
  | .resolve r => (r.advance w.links id (w.instances r.inst)).map fun (i, phase) =>
      w.put r.inst i id (.resolve { r with phase := phase })
  | .create c => (c.advance settings (w.instances c.inst)).map fun (i, phase) =>
      w.put c.inst i id (.create { c with phase := phase })
  | .takedown t => (t.advance w.log (w.instances t.inst)).map fun (i, log, phase) =>
      { w.put t.inst i id (.takedown { t with phase := phase }) with log := log }
  | .poll inst poll => ((w.instances inst).poll w.log poll).map fun (i, poll) =>
      w.put inst i id (.poll inst poll)
  | .absent | .limited | .lost => none

def attempt (w : World) (id : Nat) (code : String) (clock : Int) : Option World :=
  match w.task id with
  | .create c => (c.attempt w.links code clock).map fun (links, phase) =>
      { w with links := links, task := Function.update w.task id (.create { c with phase := phase }) }
  | _ => none

def fail (w : World) (id : Nat) (fault : Fault) : Option World :=
  match w.task id with
  | .resolve r => (r.fail id (w.instances r.inst) fault).map fun (i, phase) =>
      w.put r.inst i id (.resolve { r with phase := phase })
  | .create c => (c.fail fault).map fun phase =>
      { w with task := Function.update w.task id (.create { c with phase := phase }) }
  | .takedown t => t.fail.map fun phase =>
      { w with task := Function.update w.task id (.takedown { t with phase := phase }) }
  | .poll inst poll =>
    if poll.done then none
    else some { w with task := Function.update w.task id (.poll inst .raised) }
  | .absent | .limited | .lost => none

def perform (settings : Settings) (w : World) : Event → Option World
  | .limited id => w.begin id .limited
  | .resolve id inst code nowMs => w.begin id (.resolve ⟨inst, code, nowMs, .checking⟩)
  | .create id inst target ttlSeconds =>
    w.begin id (.create (Create.begin settings inst target ttlSeconds))
  | .takedown id inst code reason => w.begin id (.takedown ⟨inst, code, reason, .marking⟩)
  | .poll id inst => w.begin id (.poll inst .starting)
  | .step id => w.advance settings id
  | .attempt id code clock => w.attempt id code clock
  | .fail id fault => w.fail id fault
  | .flushCache inst => some (w.flushCache inst)
  | .restart inst => some (w.restart settings inst)

/-- Any thread of any process takes its next step. -/
def Step (settings : Settings) (w : World) (event : Event) (w' : World) : Prop :=
  w.perform settings event = some w'

section
variable (w : World) {settings : Settings} {id inst other : Nat} {i j : Instance} {t t' : Task}

@[simp] theorem put_links : (w.put inst i id t).links = w.links := rfl

@[simp] theorem put_instance : (w.put inst i id t).instances inst = i :=
  Function.update_self ..

theorem put_instance_other (different : other ≠ inst) :
    (w.put inst i id t).instances other = w.instances other :=
  Function.update_of_ne different ..

@[simp] theorem put_task : (w.put inst i id t).task id = t :=
  Function.update_self ..

theorem put_task_other (different : other ≠ id) : (w.put inst i id t).task other = w.task other :=
  Function.update_of_ne different ..

theorem put_put : (w.put inst i id t).put inst j id t' = w.put inst j id t' := by
  unfold put
  rw [Function.update_idem, Function.update_idem]

theorem put_self : w.put inst (w.instances inst) id (w.task id) = w := by
  unfold put
  rw [Function.update_eq_self, Function.update_eq_self]

@[simp] theorem restart_links : (w.restart settings inst).links = w.links := rfl

@[simp] theorem restart_instance : (w.restart settings inst).instances inst = settings.fresh :=
  Function.update_self ..

theorem restart_instance_other (different : other ≠ inst) :
    (w.restart settings inst).instances other = w.instances other :=
  Function.update_of_ne different ..

@[simp] theorem flushCache_instance : (w.flushCache inst).instances inst =
    { w.instances inst with cache := (w.instances inst).cache.clear } :=
  Function.update_self ..

theorem flushCache_instance_other (different : other ≠ inst) :
    (w.flushCache inst).instances other = w.instances other :=
  Function.update_of_ne different ..

end

end World

end UrlShortener
