import UrlShortener.FlightLeaders

namespace UrlShortener
open Transition

theorem Task.eq_of_stop {t t' : Task} {inst : Nat} (stopped : t.stop inst = t') (busy : t' ≠ .lost) : t = t' := by
  unfold stop at stopped
  split at stopped
  · exact absurd stopped.symm busy
  · exact stopped

namespace World

/-- What a create has stored is in the links, and so is what it has answered. -/
structure Recorded (w : World) : Prop where
  flagging : ∀ {id c link}, w.task id = .create c → c.phase = .flagging link → w.links.get link.code = some link
  created : ∀ {id c code target expiresMs flagged reason}, w.task id = .create c →
    c.phase = .answered (.created code target expiresMs flagged reason) →
    ∃ link, w.links.get code = some link ∧ link.target = target ∧ link.expiresMs = expiresMs

variable {settings : Settings} {w w' : World} {event : Event} {trace : List Event} {id : Nat} {c : Create}

/-- Where a create stood a step before. -/
theorem Turn.create (turn : w.Turn settings event w') (known : w'.task id = .create c) :
    w.task id = .create c ∨
    (w.task id = .absent ∧ ∃ inst target ttlSeconds, c = Create.begin settings inst target ttlSeconds) ∨
    ∃ before phase, w.task id = .create before ∧ c = { before with phase := phase } ∧
      ((∃ code clock, before.attempt w.links code clock = some (w'.links, phase)) ∨
        before.advance settings (w.instances before.inst) = some (w'.instances before.inst, phase) ∨
        ∃ fault, before.fail fault = some phase) := by
  have moved {acting : Nat} {before : Create} {phase : CreatePhase} (here : w.task acting = .create before)
      (held : Function.update w.task acting (.create { before with phase := phase }) id = .create c) :
      w.task id = .create c ∨ w.task id = .create before ∧ c = { before with phase := phase } := by
    rcases updated held with unmoved | ⟨rfl, same⟩
    · exact Or.inl unmoved
    · exact Or.inr ⟨here, (Task.create.inj same).symm⟩
  cases turn with
  | @begun _ other t begins absent =>
    rcases updated known with before | ⟨rfl, rfl⟩
    · exact Or.inl before
    · refine Or.inr (Or.inl ⟨absent, ?_⟩)
      cases event <;> cases begins
      exact ⟨_, _, _, rfl⟩
  | @attempted _ before code clock links phase here attempted =>
    exact (moved here known).imp_right fun ⟨held, same⟩ =>
      Or.inr ⟨before, phase, held, same, Or.inl ⟨code, clock, attempted⟩⟩
  | @created _ before i phase here advanced =>
    refine (moved here known).imp_right fun ⟨held, same⟩ => Or.inr ⟨before, phase, held, same, Or.inr (Or.inl ?_)⟩
    rw [w.put_instance, advanced]
  | @createFailed _ before fault phase here failed =>
    exact (moved here known).imp_right fun ⟨held, same⟩ =>
      Or.inr ⟨before, phase, held, same, Or.inr (Or.inr ⟨fault, failed⟩)⟩
  | restarted inst => exact Or.inl (Task.eq_of_stop known Task.noConfusion)
  | flushed inst => exact Or.inl known
  | _ => exact (updated known).imp_right fun ⟨_, same⟩ => nomatch same

/-- Where a resolve comes from. -/
theorem Turn.resolve {r : Resolve} (turn : w.Turn settings event w') (known : w'.task id = .resolve r) :
    (∃ before, w.task id = .resolve before ∧ before.inst = r.inst) ∨
      w.task id = .absent ∧ event.begins settings = some (id, .resolve r) := by
  cases turn with
  | begun begins absent =>
    rcases updated known with before | ⟨rfl, rfl⟩
    · exact Or.inl ⟨r, before, rfl⟩
    · exact Or.inr ⟨absent, begins⟩
  | resolved here _ | resolveFailed here _ =>
    rcases updated known with before | ⟨rfl, same⟩
    · exact Or.inl ⟨r, before, rfl⟩
    · cases same
      exact Or.inl ⟨_, here, rfl⟩
  | restarted inst => exact Or.inl ⟨r, Task.eq_of_stop known Task.noConfusion, rfl⟩
  | flushed inst => exact Or.inl ⟨r, known, rfl⟩
  | _ =>
    rcases updated known with before | ⟨_, same⟩
    · exact Or.inl ⟨r, before, rfl⟩
    · cases same

/-- A create comes to its flag by inserting its row. -/
theorem Turn.flagging {link : Link} (turn : w.Turn settings event w') (known : w'.task id = .create c)
    (flagging : c.phase = .flagging link) :
    w.task id = .create c ∨ w.links.get link.code = none ∧ w'.links = w.links.insert link := by
  rcases turn.create known with before | ⟨_, _, _, _, rfl⟩ |
    ⟨before, phase, _, rfl, ⟨code, clock, attempted⟩ | advanced | ⟨fault, failed⟩⟩
  · exact Or.inl before
  · rcases Create.begin_phase .. with ⟨_, _, phase⟩ | phase <;> cases phase.symm.trans flagging
  · obtain ⟨left, _, ⟨row, rfl, made⟩ | ⟨rfl, _⟩⟩ := Create.attempt_cases attempted
    · cases flagging
      obtain ⟨free, sameCode, _, inserted⟩ := LinkStore.create_cases made
      exact Or.inr ⟨sameCode ▸ free, inserted⟩
    · cases flagging
  · obtain ⟨_, rfl, _⟩ | ⟨row, _, rfl, _⟩ := Create.advance_phase advanced <;> cases flagging
  · rcases Create.fail_phase failed with rfl | rfl <;> cases flagging

/-- A create answers with the row it has inserted. -/
theorem Turn.answered {code target reason : String} {expiresMs : Option Int} {flagged : Bool}
    (turn : w.Turn settings event w') (known : w'.task id = .create c)
    (answered : c.phase = .answered (.created code target expiresMs flagged reason)) :
    w.task id = .create c ∨ ∃ before link, w.task id = .create before ∧ before.phase = .flagging link ∧
      c = { before with phase := c.phase } ∧ link.code = code ∧ link.target = target ∧ link.expiresMs = expiresMs ∧
      before.advance settings (w.instances before.inst) = some (w'.instances before.inst, c.phase) := by
  rcases turn.create known with before | ⟨_, _, _, _, rfl⟩ |
    ⟨before, phase, held, rfl, ⟨_, clock, attempted⟩ | advanced | ⟨fault, failed⟩⟩
  · exact Or.inl before
  · rcases Create.begin_phase .. with ⟨_, _, phase⟩ | phase <;> cases phase.symm.trans answered
  · obtain ⟨left, _, ⟨row, rfl, _⟩ | ⟨rfl, _⟩⟩ := Create.attempt_cases attempted <;> cases answered
  · obtain ⟨_, rfl, _⟩ | ⟨row, flagging, rfl, _⟩ := Create.advance_phase advanced
    · cases answered
    · cases answered
      exact Or.inr ⟨before, row, held, flagging, rfl, rfl, rfl, rfl, advanced⟩
  · rcases Create.fail_phase failed with rfl | rfl <;> cases answered

theorem Recorded.start (settings : Settings) : (World.start settings).Recorded where
  flagging known := by cases known
  created known := by cases known

theorem Recorded.step (recorded : w.Recorded) (taken : w.Step settings event w') : w'.Recorded := by
  constructor
  · intro id c link known flagging
    rcases taken.turn.flagging known flagging with before | ⟨_, inserted⟩
    · exact taken.links (recorded.flagging before flagging)
    · rw [inserted, LinkStore.get_insert_self]
  · intro id c code target expiresMs flagged reason known created
    rcases taken.turn.answered known created with before | ⟨before, link, held, flagging, _, rfl, same⟩
    · obtain ⟨link, stored, same⟩ := recorded.created before created
      exact ⟨link, taken.links stored, same⟩
    · exact ⟨link, taken.links (recorded.flagging held flagging), same.1, same.2.1⟩

/-- Resolves have nothing to do with what is recorded of the creates. -/
theorem Recorded.resolve {r : Resolve} {inst : Nat} {i : Instance} (recorded : w.Recorded) :
    (w.put inst i id (.resolve r)).Recorded := by
  have before {other : Nat} {c : Create} (known : (w.put inst i id (.resolve r)).task other = .create c) :
      w.task other = .create c := by
    rcases updated known with same | ⟨_, same⟩
    · exact same
    · cases same
  exact ⟨fun known => recorded.flagging (before known), fun known => recorded.created (before known)⟩

theorem recorded_of_run (run : Run (World.Step settings) (World.start settings) trace w) : w.Recorded := by
  induction run with
  | start => exact .start settings
  | next _ taken ih => exact ih.step taken

end World
end UrlShortener
