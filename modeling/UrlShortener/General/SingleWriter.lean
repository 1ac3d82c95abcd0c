namespace SingleWriter

/-- A store with at most one open write transaction, which works on a copy
that the others do not see. -/
structure Store (ι δ : Type) where
  committed : δ
  writer : Option (ι × δ) := none

variable {ι δ : Type} [DecidableEq ι] (s : Store ι δ) (c : ι)

/-- What a connection reads: its own copy inside its transaction. -/
def Store.view : δ :=
  match s.writer with
  | some (holder, working) => if holder = c then working else s.committed
  | none => s.committed

/-- Takes the write lock; only meaningful while nobody holds it. -/
def Store.begin : Store ι δ :=
  { s with writer := some (c, s.committed) }

/-- What a statement that writes does first: it stays in the transaction of its
connection, or begins one; `none` while another connection holds the lock. -/
def Store.acquire : Option (Store ι δ) :=
  match s.writer with
  | some (holder, _) => if holder = c then some s else none
  | none => some (s.begin c)

/-- Changes the copy of the connection that holds the lock. -/
def Store.write (f : δ → δ) : Store ι δ :=
  match s.writer with
  | some (holder, working) => if holder = c then { s with writer := some (holder, f working) } else s
  | none => s

def Store.commit : Store ι δ :=
  match s.writer with
  | some (holder, working) => if holder = c then { committed := working } else s
  | none => s

/-- Ends the transaction of a connection, if it has one, and drops its copy. -/
def Store.rollback : Store ι δ :=
  match s.writer with
  | some (holder, _) => if holder = c then { committed := s.committed } else s
  | none => s

/-- The connection is inside a transaction. -/
def Store.Holds : Prop :=
  ∃ working, s.writer = some (c, working)

variable {s c}

theorem view_writer {working : δ} (own : s.writer = some (c, working)) : s.view c = working := by
  simp only [Store.view, own, if_true]

theorem write_writer {working : δ} (own : s.writer = some (c, working)) (f : δ → δ) :
    s.write c f = { s with writer := some (c, f working) } := by
  simp only [Store.write, own, if_true]

theorem commit_writer {working : δ} (own : s.writer = some (c, working)) :
    s.commit c = { committed := working } := by
  simp only [Store.commit, own, if_true]

/-- Only a commit changes what everybody sees. -/
theorem write_committed {f : δ → δ} : (s.write c f).committed = s.committed := by
  unfold Store.write
  split
  · split <;> rfl
  · rfl

theorem rollback_committed : (s.rollback c).committed = s.committed := by
  unfold Store.rollback
  split
  · split <;> rfl
  · rfl

/-- A rollback never ends somebody else's transaction. -/
theorem rollback_writer_other {d : ι} {working : δ} (other : d ≠ c)
    (held : s.writer = some (d, working)) : s.rollback c = s := by
  simp only [Store.rollback, held, other, if_false]

theorem acquire_iff {t : Store ι δ} :
    s.acquire c = some t ↔
      (∀ d, s.Holds d → d = c) ∧ t = { committed := s.committed, writer := some (c, s.view c) } := by
  rcases s with ⟨committed, none | ⟨holder, working⟩⟩
  · simp [Store.acquire, Store.begin, Store.view, Store.Holds, eq_comm]
  · by_cases own : holder = c
    · subst own
      simp [Store.acquire, Store.view, Store.Holds, eq_comm]
    · simp [Store.acquire, Store.Holds, own]

omit [DecidableEq ι] in
theorem Store.Holds.unique {d : ι} (first : s.Holds c) (second : s.Holds d) : c = d := by
  obtain ⟨working, held⟩ := first
  obtain ⟨other, held'⟩ := second
  exact congrArg Prod.fst (Option.some.inj (held.symm.trans held'))

theorem acquire_own {working : δ} (own : s.writer = some (c, working)) : s.acquire c = some s := by
  simp only [Store.acquire, own, if_true]

omit [DecidableEq ι] in
theorem holder_ne {holder : ι} {working : δ} (outside : ¬ s.Holds c) (held : s.writer = some (holder, working)) :
    holder ≠ c := by
  rintro rfl
  exact outside ⟨working, held⟩

/-- A COMMIT outside a transaction does nothing. -/
theorem commit_idle (outside : ¬ s.Holds c) : s.commit c = s := by
  unfold Store.commit
  split
  · rename_i held
    rw [if_neg (holder_ne outside held)]
  · rfl

theorem rollback_idle (outside : ¬ s.Holds c) : s.rollback c = s := by
  unfold Store.rollback
  split
  · rename_i held
    rw [if_neg (holder_ne outside held)]
  · rfl

theorem rollback_writer {working : δ} (own : s.writer = some (c, working)) :
    s.rollback c = { committed := s.committed } := by
  simp only [Store.rollback, own, if_true]

theorem view_idle (outside : ¬ s.Holds c) : s.view c = s.committed := by
  unfold Store.view
  split
  · rename_i held
    rw [if_neg (holder_ne outside held)]
  · rfl

theorem write_idle (outside : ¬ s.Holds c) (f : δ → δ) : s.write c f = s := by
  unfold Store.write
  split
  · rename_i held
    rw [if_neg (holder_ne outside held)]
  · rfl

theorem Store.Holds.write {d : ι} (holds : s.Holds d) (f : δ → δ) : (s.write c f).Holds d := by
  by_cases own : s.Holds c
  · obtain ⟨working, held⟩ := own
    rw [holds.unique ⟨working, held⟩, write_writer held]
    exact ⟨_, rfl⟩
  · rw [write_idle own]
    exact holds

theorem holds_of_commit {d : ι} (after : (s.commit c).Holds d) : d ≠ c ∧ s.Holds d := by
  by_cases own : s.Holds c
  · obtain ⟨working, held⟩ := own
    rw [commit_writer held] at after
    obtain ⟨copy, none⟩ := after
    cases none
  · rw [commit_idle own] at after
    refine ⟨?_, after⟩
    rintro rfl
    exact own after

theorem holds_of_rollback {d : ι} (after : (s.rollback c).Holds d) : d ≠ c ∧ s.Holds d := by
  by_cases own : s.Holds c
  · obtain ⟨working, held⟩ := own
    rw [rollback_writer held] at after
    obtain ⟨copy, none⟩ := after
    cases none
  · rw [rollback_idle own] at after
    refine ⟨?_, after⟩
    rintro rfl
    exact own after

section Everywhere
variable {P : δ → Prop} {t : Store ι δ}

/-- What is committed has the property, and so has the copy of a transaction. -/
def Store.Everywhere (P : δ → Prop) (s : Store ι δ) : Prop :=
  P s.committed ∧ ∀ c working, s.writer = some (c, working) → P working

theorem Store.Everywhere.view (all : s.Everywhere P) : P (s.view c) := by
  unfold Store.view
  split
  · rename_i holder working held
    split
    · exact all.2 holder working held
    · exact all.1
  · exact all.1

theorem Store.Everywhere.acquire (all : s.Everywhere P) (taken : s.acquire c = some t) : t.Everywhere P := by
  obtain ⟨_, rfl⟩ := acquire_iff.mp taken
  refine ⟨all.1, fun d working held => ?_⟩
  cases held
  exact all.view

theorem Store.Everywhere.write (all : s.Everywhere P) {f : δ → δ} (keeps : ∀ x, P x → P (f x)) :
    (s.write c f).Everywhere P := by
  by_cases own : s.Holds c
  · obtain ⟨working, held⟩ := own
    rw [write_writer held]
    refine ⟨all.1, fun d copy same => ?_⟩
    cases same
    exact keeps working (all.2 c working held)
  · rw [write_idle own]
    exact all

theorem Store.Everywhere.commit (all : s.Everywhere P) : (s.commit c).Everywhere P := by
  by_cases own : s.Holds c
  · obtain ⟨working, held⟩ := own
    rw [commit_writer held]
    exact ⟨all.2 c working held, fun d copy same => by cases same⟩
  · rw [commit_idle own]
    exact all

theorem Store.Everywhere.rollback (all : s.Everywhere P) : (s.rollback c).Everywhere P := by
  by_cases own : s.Holds c
  · obtain ⟨working, held⟩ := own
    rw [rollback_writer held]
    exact ⟨all.1, fun d copy same => by cases same⟩
  · rw [rollback_idle own]
    exact all

end Everywhere

end SingleWriter
