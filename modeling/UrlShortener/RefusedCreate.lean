import UrlShortener.LinkConnections

namespace UrlShortener
namespace LinkConnections
open SingleWriter Transition

/-- Whether a call has met a taken code, `allocate` with rounds left or without. -/
def Phase.Collided : Phase → Prop
  | allocating a _ _ left => left < a.maxAttempts
  | creating _ (some (a, left)) => left + 1 < a.maxAttempts
  | raised (.keyError _) | raised (.runtimeError _) => True
  | _ => False

/-- The rounds that a call of `allocate` has left. -/
def Phase.Bounded : Phase → Prop
  | allocating a _ _ left => left ≤ a.maxAttempts
  | creating _ (some (a, left)) => left + 1 ≤ a.maxAttempts
  | _ => True

/-- Between the first row that a call writes and its COMMIT. -/
def Phase.Writing : Phase → Prop
  | created _ => True
  | recording _ done _ => done ≠ []
  | _ => False

def Statement.raises {τ : Type} : Statement τ → Bool
  | conflict _ | locked _ | fail _ | abort _ => true
  | _ => false

variable {τ : Type} [DecidableEq τ]

/-- The last call of a thread was a `create` that has raised a KeyError, or an
`allocate` that has raised a RuntimeError. -/
def Refused (s : LinkConnections τ) (t : τ) : Prop :=
  ∃ message, s.phase t = .raised (.keyError message) ∨ s.phase t = .raised (.runtimeError message)

variable {s s' u : LinkConnections τ} {label : Statement τ} {t : τ} {trace later : List (Statement τ)}
  {links : LinkStore} {hits : LinkHits}

/-- Whoever has met a taken code holds the lock. -/
structure Stuck (s : LinkConnections τ) : Prop where
  bounded : ∀ t, (s.phase t).Bounded
  holds : ∀ t, (s.phase t).Collided → s.db.Holds t

theorem Stuck.own (stuck : s.Stuck) (taken : s.Step label s') :
    (s'.phase label.thread).Bounded ∧ ((s'.phase label.thread).Collided → s'.db.Holds label.thread) := by
  have bounded := stuck.bounded label.thread
  have holds := stuck.holds label.thread
  cases taken with
  | allocate _ =>
    rw [Statement.thread, advance_self]
    exact ⟨Nat.le_refl _, fun collided => absurd collided (Nat.lt_irrefl _)⟩
  | attempt phase =>
    rw [Statement.thread, phase] at bounded holds
    rw [Statement.thread, advance_self]
    exact ⟨bounded, holds⟩
  | @giveUp t a target ttlSeconds phase =>
    rw [Statement.thread, phase] at holds
    rw [Statement.thread, advance_self]
    exact ⟨trivial, fun _ => holds a.maxAttempts_pos⟩
  | @conflict t call round db phase acquired _ =>
    rw [Statement.thread, phase] at bounded
    rw [Statement.thread, advance_self]
    refine ⟨?_, fun _ => Database.acquire_holds acquired⟩
    cases round with
    | none => trivial
    | some round => exact Nat.le_of_succ_le bounded
  | _ =>
    rw [Statement.thread, advance_self]
    exact ⟨trivial, False.elim⟩

theorem Stuck.step (stuck : s.Stuck) (taken : s.Step label s') : s'.Stuck := by
  refine ⟨fun t => ?_, fun t collided => ?_⟩
  · by_cases own : t = label.thread
    · subst own
      exact (stuck.own taken).1
    · rw [taken.phase_other own]
      exact stuck.bounded t
  · by_cases own : t = label.thread
    · subst own
      exact (stuck.own taken).2 collided
    · rw [taken.phase_other own] at collided
      exact taken.holds (stuck.holds t collided) fun same => absurd same.symm own

theorem stuck_of_run (run : Run Step (start links hits) trace s) : s.Stuck := by
  induction run with
  | start => exact ⟨fun _ => trivial, fun _ => False.elim⟩
  | next _ taken ih => exact ih.step taken

/-- An INSERT can go ahead exactly while no other connection has the lock, and
its own has not read before the last COMMIT. -/
theorem insert_iff {call : CreateCall} {round : Option (CodeAllocator × Nat)} (phase : s.phase t = .creating call round)
    (free : (s.db.store.view t).links.get call.code = none) :
    (∃ u, s.Step (.insert t) u) ↔ (∀ d, s.db.Holds d → d = t) ∧ s.db.current t = true := by
  constructor
  · rintro ⟨u, taken⟩
    cases taken with
    | insert _ acquired _ =>
      obtain ⟨current, alone, _⟩ := Database.acquire_iff.mp acquired
      exact ⟨alone, current⟩
  · rintro ⟨alone, current⟩
    have stored : ∃ link links, call.apply (s.db.store.view t).links = some (link, links) := by
      rw [CreateCall.apply, LinkStore.create]
      exact ⟨_, _, if_neg (AList.lookup_eq_none.mp free)⟩
    obtain ⟨link, links, stored⟩ := stored
    have acquired := Database.acquire_iff.mpr ⟨current, alone, rfl⟩
    exact ⟨_, .insert phase acquired (by rw [Database.acquire_view acquired]; exact stored)⟩

/-- A create of a free code, by a thread that nobody shuts out, is the one step
of `LinkStore.create`. -/
theorem create_run {call : CreateCall} {link : Link} {stored : LinkStore} (free : (s.phase t).free)
    (alone : ∀ d, s.db.Holds d → d = t) (current : s.db.current t = true)
    (created : call.apply (s.db.store.view t).links = some (link, stored)) :
    ∃ u, Run Step s [.create t call, .insert t, .commit t] u ∧ u.phase t = .returned (.link link) ∧
      u.db.committed.links = stored := by
  let opened : Database τ LinkTables := { s.db.put t .writing with store := ⟨s.db.committed, some (t, s.db.store.view t)⟩ }
  have acquired : s.db.acquire t = some opened := Database.acquire_iff.mpr ⟨current, alone, rfl⟩
  have found : call.apply (opened.view t).links = some (link, stored) := by
    rw [Database.acquire_view acquired]
    exact created
  have begun : s.Step (.create t call) (s.advance t s.db (.creating call none)) := .create free
  have inserted := Step.insert (s.advance_self t s.db (.creating call none)) acquired found
  have ended := Step.commitLink (advance_self (s.advance t s.db (.creating call none)) t
    (opened.write t fun tables => { tables with links := stored }) (.created link))
  refine ⟨_, .cons begun (.cons inserted (.single ended)), advance_self .., ?_⟩
  have written := commit_writer (congrArg Store.writer
    (write_writer (s := opened.store) rfl fun tables => { tables with links := stored }))
  exact congrArg (fun store => store.committed.links) written

theorem Phase.Writing.busy {phase : Phase} (writing : phase.Writing) : phase.free = false := by
  cases phase with
  | created link => rfl
  | recording id done rest => rfl
  | _ => exact absurd writing id

/-- A thread has the lock only while a call of it writes, as long as none of them
raises. -/
theorem Step.writing (taken : s.Step label s') (quiet : label.thread = t → label.raises = false)
    (before : s.db.Holds t → (s.phase t).Writing) (after : s'.db.Holds t) : (s'.phase t).Writing := by
  by_cases own : t = label.thread
  · subst own
    have quiet := quiet rfl
    have idle (free : (s.phase label.thread).free = true) (holds : s.db.Holds label.thread) : False := by
      have busy := (before holds).busy
      rw [free] at busy
      cases busy
    cases taken with
    | insert _ _ _ => rw [Statement.thread, advance_self]; trivial
    | @row t id done item rest db _ _ _ =>
      rw [Statement.thread, advance_self]
      exact List.append_ne_nil_of_right_ne_nil done (List.cons_ne_nil item [])
    | commitLink _ => exact absurd rfl (holds_of_commit after).1
    | commitHits _ => exact absurd rfl (holds_of_commit after).1
    | attempt phase =>
      have writing := before after
      rw [Statement.thread, phase] at writing
      exact absurd writing id
    | giveUp phase =>
      have writing := before after
      rw [Statement.thread, phase] at writing
      exact absurd writing id
    | create free => exact absurd after (idle free)
    | allocate free => exact absurd after (idle free)
    | recordNothing free => exact absurd after (idle free)
    | recordHits free _ => exact absurd after (idle free)
    | read free =>
      rw [advance_db, Database.Holds, Database.read_store] at after
      exact absurd after (idle free)
    | _ => cases quiet
  · rw [taken.phase_other own]
    exact before (taken.holds_other own after)

theorem writing_of_run (run : Run Step (start links hits) trace s)
    (quiet : ∀ label ∈ trace, label.thread = t → label.raises = false) (holds : s.db.Holds t) :
    (s.phase t).Writing := by
  induction run with
  | start =>
    obtain ⟨working, none⟩ := holds
    cases none
  | @next trace _ label _ _ taken ih =>
    refine taken.writing (quiet label (by simp)) (fun earlier => ih ?_ earlier) holds
    intro label member
    exact quiet label (List.mem_append_left _ member)

/-- A create or an allocate that is refused keeps the write lock on its
connection, and until a statement of the same thread commits, or makes SQLite roll
back, no other thread can insert anything. While the calls of a thread do not
raise, it has no lock between them. -/
theorem refused_create_keeps_lock (run : Run Step (start links hits) trace s) :
    (∀ t, s.Refused t → s.db.Holds t ∧ ∀ later u, Run Step s later u →
      (∀ label ∈ later, label.thread = t → label.ends = false) →
      u.db.Holds t ∧ ∀ other ≠ t, ∀ u', ¬ u.Step (.insert other) u') ∧
    (∀ t call round, s.phase t = .creating call round → (s.db.store.view t).links.get call.code = none →
      ((∃ u, s.Step (.insert t) u) ↔ (∀ d, s.db.Holds d → d = t) ∧ s.db.current t = true)) ∧
    ∀ t, (s.phase t).free → (∀ label ∈ trace, label.thread = t → label.raises = false) → ¬ s.db.Holds t := by
  refine ⟨fun t refused => ?_, fun t call round phase free => insert_iff phase free, fun t free quiet holds => ?_⟩
  · have holds : s.db.Holds t := by
      refine (stuck_of_run run).holds t ?_
      obtain ⟨message, here | here⟩ := refused
      · rw [here]; trivial
      · rw [here]; trivial
    refine ⟨holds, fun later u rest busy => ?_⟩
    have still := holds_of_run rest holds busy
    refine ⟨still, fun other different u' taken => ?_⟩
    cases taken with
    | insert _ acquired _ => exact different ((Database.acquire_iff.mp acquired).2.1 t still).symm
  · have busy := (writing_of_run run quiet holds).busy
    rw [free] at busy
    cases busy

/-- A create of the code "a". -/
def createA (target : String) : CreateCall :=
  ⟨"a", target, none, none, 1000⟩

/-- An allocate with a single attempt draws "a" again. -/
def drawnAgain : List (Statement Nat) :=
  [.create 0 (createA "https://example.com"), .insert 0, .commit 0,
    .allocate 1 { maxAttempts := 1 } "https://example.org" none, .attempt 1 "a" 2000, .conflict 1, .giveUp 1]

theorem refused_allocate_keeps_lock : ∃ s : LinkConnections Nat, Run Step (start .empty fun _ => 0) drawnAgain s ∧
    s.Refused 1 ∧ ¬ s.db.Holds 0 ∧ s.db.Holds 1 ∧ ∀ later u, Run Step s later u →
      (∀ label ∈ later, label.thread = 1 → label.ends = false) →
      u.db.Holds 1 ∧ ∀ other ≠ 1, ∀ u', ¬ u.Step (.insert other) u' := by
  have executed : ∃ s : LinkConnections Nat, Run Step (start .empty fun _ => 0) drawnAgain s ∧
      (s.phase 0).free ∧ s.Refused 1 := by
    refine ⟨_, .cons (.create (t := 0) rfl) <| .cons (.insert (t := 0) rfl rfl rfl) <|
      .cons (.commitLink (t := 0) rfl) <| .cons (.allocate (t := 1) rfl) <| .cons (.attempt (t := 1) rfl) <|
      .cons (.conflict (t := 1) rfl rfl rfl) <| .single (.giveUp (t := 1) rfl), rfl, _, Or.inr rfl⟩
  obtain ⟨s, run, free, refused⟩ := executed
  obtain ⟨stuck, _, idle⟩ := refused_create_keeps_lock run
  have quiet : ∀ label ∈ drawnAgain, label.thread = 0 → label.raises = false := by decide
  exact ⟨s, run, refused, idle 0 free quiet, stuck 1 refused⟩

/-- The first thread creates "a" twice, and then the second thread wants "b". -/
theorem refused_create_locks_out : ∃ s : LinkConnections Nat,
    Run Step (start .empty fun _ => 0)
      [.create 0 (createA "https://example.com"), .insert 0, .commit 0, .create 0 (createA "https://example.org"),
        .conflict 0, .create 1 ⟨"b", "https://example.net", none, none, 2000⟩] s ∧
    s.Refused 0 ∧ s.db.Holds 0 ∧ (s.db.view 1).links.get "b" = none ∧ (∀ u, ¬ s.Step (.insert 1) u) ∧
    ∃ u, s.Step (.locked 1) u := by
  refine ⟨_, .cons (.create (t := 0) rfl) <| .cons (.insert (t := 0) rfl rfl rfl) <|
    .cons (.commitLink (t := 0) rfl) <| .cons (.create (t := 0) rfl) <| .cons (.conflict (t := 0) rfl rfl rfl) <|
    .single (.create (t := 1) rfl), ?_, ?_, ?_, ?_, ?_⟩
  · exact ⟨_, Or.inl rfl⟩
  · exact ⟨_, rfl⟩
  · rfl
  · intro u taken
    cases taken with
    | insert _ acquired _ => cases acquired
  · exact ⟨_, .locked rfl rfl⟩

end LinkConnections
end UrlShortener
