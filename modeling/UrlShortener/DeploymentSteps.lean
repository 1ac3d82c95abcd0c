import UrlShortener.Deployment

namespace UrlShortener
open Transition

/-- The task that an event starts, under its number. -/
def Event.begins (settings : Settings) : Event → Option (Nat × Task)
  | .limited id => some (id, .limited)
  | .resolve id inst code nowMs => some (id, .resolve ⟨inst, code, nowMs, .checking⟩)
  | .create id inst target ttlSeconds => some (id, .create (Create.begin settings inst target ttlSeconds))
  | .takedown id inst code reason => some (id, .takedown ⟨inst, code, reason, .marking⟩)
  | .poll id inst => some (id, .poll inst .starting)
  | _ => none

/-- The number under which an event starts a task. -/
def Event.starts (settings : Settings) (event : Event) : Option Nat :=
  (event.begins settings).map Prod.fst

namespace World

/-- The steps of a deployment one by one. -/
inductive Turn (settings : Settings) (w : World) : Event → World → Prop
  | begun {event id t} : event.begins settings = some (id, t) → w.task id = .absent →
      Turn settings w event { w with task := Function.update w.task id t }
  | resolved {id r i phase} : w.task id = .resolve r →
      r.advance w.links id (w.instances r.inst) = some (i, phase) →
      Turn settings w (.step id) (w.put r.inst i id (.resolve { r with phase := phase }))
  | resolveFailed {id r fault i phase} : w.task id = .resolve r →
      r.fail id (w.instances r.inst) fault = some (i, phase) →
      Turn settings w (.fail id fault) (w.put r.inst i id (.resolve { r with phase := phase }))
  | attempted {id c code clock links phase} : w.task id = .create c →
      c.attempt w.links code clock = some (links, phase) →
      Turn settings w (.attempt id code clock)
        { w with links := links, task := Function.update w.task id (.create { c with phase := phase }) }
  | created {id c i phase} : w.task id = .create c → c.advance settings (w.instances c.inst) = some (i, phase) →
      Turn settings w (.step id) (w.put c.inst i id (.create { c with phase := phase }))
  | createFailed {id c fault phase} : w.task id = .create c → c.fail fault = some phase →
      Turn settings w (.fail id fault)
        { w with task := Function.update w.task id (.create { c with phase := phase }) }
  | tookDown {id t i log phase} : w.task id = .takedown t →
      t.advance w.log (w.instances t.inst) = some (i, log, phase) →
      Turn settings w (.step id) { w.put t.inst i id (.takedown { t with phase := phase }) with log := log }
  | takedownFailed {id t fault phase} : w.task id = .takedown t → t.fail = some phase →
      Turn settings w (.fail id fault)
        { w with task := Function.update w.task id (.takedown { t with phase := phase }) }
  | polled {id inst poll i poll'} : w.task id = .poll inst poll →
      (w.instances inst).poll w.log poll = some (i, poll') →
      Turn settings w (.step id) (w.put inst i id (.poll inst poll'))
  | pollFailed {id inst poll fault} : w.task id = .poll inst poll → poll.done = false →
      Turn settings w (.fail id fault) { w with task := Function.update w.task id (.poll inst .raised) }
  | flushed (inst : Nat) : Turn settings w (.flushCache inst) (w.flushCache inst)
  | restarted (inst : Nat) : Turn settings w (.restart inst) (w.restart settings inst)

variable {settings : Settings} {w w' : World} {event : Event} {id : Nat}

theorem Turn.of_begin {t : Task} (begins : event.begins settings = some (id, t)) (taken : w.begin id t = some w') :
    w.Turn settings event w' := by
  obtain ⟨free, same⟩ := Option.ite_none_right_eq_some.mp taken
  cases same
  exact .begun begins free

theorem Turn.of_advance (taken : w.advance settings id = some w') : w.Turn settings (.step id) w' := by
  unfold advance at taken
  split at taken
  · rename_i r known
    obtain ⟨⟨i, phase⟩, advanced, same⟩ := Option.map_eq_some_iff.mp taken
    cases same
    exact .resolved known advanced
  · rename_i c known
    obtain ⟨⟨i, phase⟩, advanced, same⟩ := Option.map_eq_some_iff.mp taken
    cases same
    exact .created known advanced
  · rename_i t known
    obtain ⟨⟨i, log, phase⟩, advanced, same⟩ := Option.map_eq_some_iff.mp taken
    cases same
    exact .tookDown known advanced
  · rename_i inst poll known
    obtain ⟨⟨i, next⟩, polled, same⟩ := Option.map_eq_some_iff.mp taken
    cases same
    exact .polled known polled
  · cases taken
  · cases taken
  · cases taken

theorem Turn.of_attempt {code : String} {clock : Int} (taken : w.attempt id code clock = some w') :
    w.Turn settings (.attempt id code clock) w' := by
  unfold attempt at taken
  split at taken
  · rename_i c known
    obtain ⟨⟨links, phase⟩, attempted, same⟩ := Option.map_eq_some_iff.mp taken
    cases same
    exact .attempted known attempted
  · cases taken

theorem Turn.of_fail {fault : Fault} (taken : w.fail id fault = some w') :
    w.Turn settings (.fail id fault) w' := by
  unfold fail at taken
  split at taken
  · rename_i r known
    obtain ⟨⟨i, phase⟩, failed, same⟩ := Option.map_eq_some_iff.mp taken
    cases same
    exact .resolveFailed known failed
  · rename_i c known
    obtain ⟨phase, failed, same⟩ := Option.map_eq_some_iff.mp taken
    cases same
    exact .createFailed known failed
  · rename_i t known
    obtain ⟨phase, failed, same⟩ := Option.map_eq_some_iff.mp taken
    cases same
    exact .takedownFailed known failed
  · rename_i inst poll known
    obtain ⟨busy, same⟩ := Option.ite_none_left_eq_some.mp taken
    cases same
    exact .pollFailed known (eq_false_of_ne_true busy)
  · cases taken
  · cases taken
  · cases taken

theorem Step.turn (taken : w.Step settings event w') : w.Turn settings event w' := by
  cases event with
  | limited id => exact .of_begin rfl taken
  | resolve id inst code nowMs => exact .of_begin rfl taken
  | create id inst target ttlSeconds => exact .of_begin rfl taken
  | takedown id inst code reason => exact .of_begin rfl taken
  | poll id inst => exact .of_begin rfl taken
  | step id => exact .of_advance taken
  | attempt id code clock => exact .of_attempt taken
  | fail id fault => exact .of_fail taken
  | flushCache inst => cases Option.some.inj taken; exact .flushed inst
  | restart inst => cases Option.some.inj taken; exact .restarted inst

/-- What a task is after one of them has moved. -/
theorem updated {acting : Nat} {t t' : Task} (held : Function.update w.task acting t id = t') :
    w.task id = t' ∨ id = acting ∧ t = t' := by
  by_cases own : id = acting
  · rw [own, Function.update_self] at held
    exact Or.inr ⟨own, held⟩
  · rw [Function.update_of_ne own] at held
    exact Or.inl held

/-- What a step on one instance keeps there, it keeps of every instance. -/
theorem update_keeps (good : Instance → Prop) {instances : Nat → Instance} {acting inst : Nat} {i : Instance}
    (kept : inst = acting → good (instances acting) → good i) (before : good (instances inst)) :
    good (Function.update instances acting i inst) := by
  by_cases here : inst = acting
  · subst here
    rw [Function.update_self]
    exact kept rfl before
  · rwa [Function.update_of_ne here]

/-- A number that no event has started a task under is free. -/
theorem absent_of_unbegun {trace : List Event} (run : Run (World.Step settings) (World.start settings) trace w)
    (unbegun : id ∉ trace.filterMap (Event.starts settings)) : w.task id = .absent := by
  induction run with
  | start => rfl
  | @next _ before _ _ _ taken ih =>
    rw [List.filterMap_append, List.mem_append, not_or] at unbegun
    have free := ih unbegun.1
    have unmoved {acting : Nat} {t t' : Task} (known : before.task acting = t) (present : t ≠ .absent) :
        Function.update before.task acting t' id = .absent := by
      have other : id ≠ acting := by
        rintro rfl
        exact present (known.symm.trans free)
      rw [Function.update_of_ne other, free]
    cases taken.turn with
    | @begun _ other t begins absent =>
      have different : id ≠ other := by
        rintro rfl
        refine unbegun.2 (List.mem_filterMap.mpr ⟨_, List.mem_singleton_self _, ?_⟩)
        rw [Event.starts, begins, Option.map_some]
      exact (Function.update_of_ne different ..).trans free
    | resolved known _ => exact unmoved known Task.noConfusion
    | resolveFailed known _ => exact unmoved known Task.noConfusion
    | attempted known _ => exact unmoved known Task.noConfusion
    | created known _ => exact unmoved known Task.noConfusion
    | createFailed known _ => exact unmoved known Task.noConfusion
    | tookDown known _ => exact unmoved known Task.noConfusion
    | takedownFailed known _ => exact unmoved known Task.noConfusion
    | polled known _ => exact unmoved known Task.noConfusion
    | pollFailed known _ => exact unmoved known Task.noConfusion
    | flushed inst => exact free
    | restarted inst =>
      show (before.task id).stop inst = .absent
      rw [free]
      rfl

end World
end UrlShortener
