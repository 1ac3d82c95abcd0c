import Mathlib.Logic.Function.Basic
import UrlShortener.General.SingleWriter

namespace SingleWriter

/-- How far the transaction of a connection has got. One that has read goes on
reading what was committed then, after so many commits. -/
inductive Access (δ : Type)
  | none
  | begun
  | reading (version : Nat) (snapshot : δ)
  | writing

/-- How a statement that raises can leave the transaction of its connection: as
it was, begun, with a snapshot, with the lock, or rolled back. -/
inductive Leaving
  | untouched
  | entered
  | pinned
  | locking
  | rolledBack
  deriving DecidableEq

/-- A store whose connections begin their transactions without taking a lock:
with the first read such a transaction gets a snapshot, with the first write the
lock, but no more once its snapshot is out of date. -/
structure Database (ι δ : Type) where
  store : Store ι δ
  /-- How often something has been committed. -/
  version : Nat := 0
  access : ι → Access δ := fun _ => .none

namespace Database
variable {ι δ : Type} [DecidableEq ι]

abbrev committed (d : Database ι δ) : δ :=
  d.store.committed

abbrev Holds (d : Database ι δ) (c : ι) : Prop :=
  d.store.Holds c

section
variable (d : Database ι δ) (c : ι)

/-- What a connection reads. -/
def view : δ :=
  match d.access c with
  | .reading _ snapshot => snapshot
  | _ => d.store.view c

def put (access : Access δ) : Database ι δ :=
  { d with access := Function.update d.access c access }

/-- BEGIN, for a connection with no transaction. -/
def enter : Database ι δ :=
  match d.access c with
  | .none => d.put c .begun
  | _ => d

/-- A SELECT. Outside a transaction it leaves nothing behind. -/
def read : Database ι δ :=
  match d.access c with
  | .begun => d.put c (.reading d.version d.committed)
  | _ => d

def current : Bool :=
  match d.access c with
  | .reading version _ => version = d.version
  | _ => true

/-- Whether a connection reads what the commit of this number has published. -/
def sees (number : Nat) : Bool :=
  match d.access c with
  | .reading version _ => number ≤ version
  | _ => true

/-- What a statement that writes does first: `none` where another connection has
the lock, or the snapshot of this one is out of date. -/
def acquire : Option (Database ι δ) :=
  if d.current c then (d.store.acquire c).map fun store => { d.put c .writing with store := store } else none

def write (f : δ → δ) : Database ι δ :=
  { d with store := d.store.write c f }

/-- COMMIT; it counts if there was something to commit. -/
def commit : Database ι δ :=
  { d.put c .none with
    store := d.store.commit c
    version := match d.store.writer with
      | some (holder, _) => if holder = c then d.version + 1 else d.version
      | none => d.version }

def rollback : Database ι δ :=
  { d.put c .none with store := d.store.rollback c }

/-- What a statement that raises makes of the transaction of its connection. -/
def leave : Leaving → Option (Database ι δ)
  | .untouched => some d
  | .entered => some (d.enter c)
  | .pinned => some (d.read c)
  | .locking => d.acquire c
  | .rolledBack => some (d.rollback c)

omit [DecidableEq ι] in
/-- Connections are closed without a COMMIT. -/
def disconnect (gone : ι → Bool) : Database ι δ :=
  { d with
    access := fun c => if gone c then .none else d.access c
    store := match d.store.writer with
      | some (holder, _) => if gone holder then { committed := d.committed } else d.store
      | none => d.store }

end

variable {d d' : Database ι δ} {c e : ι} {version : Nat} {snapshot : δ}

theorem view_reading (reading : d.access c = .reading version snapshot) : d.view c = snapshot := by
  simp only [view, reading]

theorem view_other (unread : ∀ version snapshot, d.access c ≠ .reading version snapshot) :
    d.view c = d.store.view c := by
  unfold view
  split
  · rename_i version snapshot reading
    exact absurd reading (unread version snapshot)
  · rfl

@[simp] theorem put_access (d : Database ι δ) (c : ι) (access : Access δ) : (d.put c access).access c = access :=
  Function.update_self ..

theorem put_access_other (different : e ≠ c) (access : Access δ) : (d.put c access).access e = d.access e :=
  Function.update_of_ne different ..

@[simp] theorem enter_store (d : Database ι δ) (c : ι) : (d.enter c).store = d.store := by
  unfold enter
  split <;> rfl

@[simp] theorem enter_version (d : Database ι δ) (c : ι) : (d.enter c).version = d.version := by
  unfold enter
  split <;> rfl

@[simp] theorem read_store (d : Database ι δ) (c : ι) : (d.read c).store = d.store := by
  unfold read
  split <;> rfl

@[simp] theorem read_version (d : Database ι δ) (c : ι) : (d.read c).version = d.version := by
  unfold read
  split <;> rfl

/-- BEGIN gives no snapshot. -/
theorem enter_reading (reading : (d.enter c).access e = .reading version snapshot) :
    d.access e = .reading version snapshot := by
  unfold enter at reading
  split at reading
  · by_cases own : e = c
    · rw [own, put_access] at reading
      cases reading
    · rwa [put_access_other own] at reading
  · exact reading

/-- A SELECT gives the snapshot of its moment. -/
theorem read_reading (reading : (d.read c).access e = .reading version snapshot) :
    d.access e = .reading version snapshot ∨ version = d.version ∧ snapshot = d.committed := by
  unfold read at reading
  split at reading
  · by_cases own : e = c
    · rw [own, put_access] at reading
      cases reading
      exact Or.inr ⟨rfl, rfl⟩
    · rw [put_access_other own] at reading
      exact Or.inl reading
  · exact Or.inl reading

theorem acquire_iff : d.acquire c = some d' ↔ d.current c = true ∧ (∀ e, d.Holds e → e = c) ∧
    d' = { d.put c .writing with store := ⟨d.committed, some (c, d.store.view c)⟩ } := by
  unfold acquire
  split
  · rename_i current
    rw [Option.map_eq_some_iff]
    constructor
    · rintro ⟨store, acquired, rfl⟩
      obtain ⟨alone, rfl⟩ := SingleWriter.acquire_iff.mp acquired
      exact ⟨current, alone, rfl⟩
    · rintro ⟨_, alone, rfl⟩
      exact ⟨_, SingleWriter.acquire_iff.mpr ⟨alone, rfl⟩, rfl⟩
  · rename_i outdated
    constructor
    · intro nothing
      cases nothing
    · rintro ⟨current, _⟩
      exact absurd current outdated

theorem acquire_committed (acquired : d.acquire c = some d') : d'.committed = d.committed := by
  obtain ⟨_, _, rfl⟩ := acquire_iff.mp acquired
  rfl

theorem acquire_holds (acquired : d.acquire c = some d') : d'.Holds c := by
  obtain ⟨_, _, rfl⟩ := acquire_iff.mp acquired
  exact ⟨_, rfl⟩

/-- The first write sees what is committed, not what was read before. -/
theorem acquire_view (acquired : d.acquire c = some d') : d'.view c = d.store.view c := by
  obtain ⟨_, _, rfl⟩ := acquire_iff.mp acquired
  rw [view_other fun _ _ reading => ?_]
  · exact view_writer rfl
  · cases (put_access d c .writing).symm.trans reading

theorem acquire_reading (acquired : d.acquire c = some d') (reading : d'.access e = .reading version snapshot) :
    d.access e = .reading version snapshot := by
  obtain ⟨_, _, rfl⟩ := acquire_iff.mp acquired
  by_cases own : e = c
  · subst own
    cases (put_access d e .writing).symm.trans reading
  · exact (put_access_other own _).symm.trans reading

theorem commit_reading (reading : (d.commit c).access e = .reading version snapshot) :
    e ≠ c ∧ d.access e = .reading version snapshot := by
  by_cases own : e = c
  · subst own
    cases (put_access d e .none).symm.trans reading
  · exact ⟨own, (put_access_other own _).symm.trans reading⟩

theorem rollback_reading (reading : (d.rollback c).access e = .reading version snapshot) :
    e ≠ c ∧ d.access e = .reading version snapshot := by
  by_cases own : e = c
  · subst own
    cases (put_access d e .none).symm.trans reading
  · exact ⟨own, (put_access_other own _).symm.trans reading⟩

theorem commit_version_of_writer {working : δ} (own : d.store.writer = some (c, working)) :
    (d.commit c).version = d.version + 1 := by
  simp only [commit, own, if_true]

theorem commit_version_le (d : Database ι δ) (c : ι) : d.version ≤ (d.commit c).version := by
  unfold commit
  dsimp only
  split
  · split
    · exact Nat.le_succ _
    · exact Nat.le_refl _
  · exact Nat.le_refl _

/-- What a statement of the connection `c` can do short of ending its
transaction; one that fails may still have opened it. -/
inductive Touches (d : Database ι δ) (c : ι) : Database ι δ → Prop
  | still : Touches d c d
  | read : Touches d c (d.read c)
  | entered : Touches d c (d.enter c)
  | opened {opened : Database ι δ} : d.acquire c = some opened → Touches d c opened
  | wrote {opened : Database ι δ} (f : δ → δ) : d.acquire c = some opened → Touches d c (opened.write c f)

/-- The lock shuts all other connections out. -/
theorem Touches.frame (touches : d.Touches c d') (holds : d.Holds e) (different : e ≠ c) : d'.store = d.store := by
  cases touches with
  | still => rfl
  | read => exact read_store d c
  | entered => exact enter_store d c
  | opened acquired => exact absurd ((acquire_iff.mp acquired).2.1 e holds) different
  | wrote f acquired => exact absurd ((acquire_iff.mp acquired).2.1 e holds) different

theorem Touches.holds (touches : d.Touches c d') (holds : d.Holds e) : d'.Holds e := by
  cases touches with
  | still => exact holds
  | read => rwa [Holds, read_store]
  | entered => rwa [Holds, enter_store]
  | opened acquired =>
    rw [(acquire_iff.mp acquired).2.1 e holds]
    exact acquire_holds acquired
  | wrote f acquired =>
    rw [(acquire_iff.mp acquired).2.1 e holds]
    exact (acquire_holds acquired).write f

/-- Only its own statements take the lock for a connection. -/
theorem Touches.holds_other (touches : d.Touches c d') (different : e ≠ c) (after : d'.Holds e) : d.Holds e := by
  cases touches with
  | still => exact after
  | read => rwa [Holds, read_store] at after
  | entered => rwa [Holds, enter_store] at after
  | opened acquired => exact absurd (after.unique (acquire_holds acquired)) different
  | wrote f acquired => exact absurd (after.unique ((acquire_holds acquired).write f)) different

theorem Touches.committed (touches : d.Touches c d') : d'.committed = d.committed := by
  cases touches with
  | still => rfl
  | read => exact congrArg Store.committed (read_store d c)
  | entered => exact congrArg Store.committed (enter_store d c)
  | opened acquired =>
    obtain ⟨_, _, rfl⟩ := acquire_iff.mp acquired
    rfl
  | wrote f acquired =>
    obtain ⟨_, _, rfl⟩ := acquire_iff.mp acquired
    exact write_committed

theorem Touches.same_version (touches : d.Touches c d') : d'.version = d.version := by
  cases touches with
  | still => rfl
  | read => exact read_version d c
  | entered => exact enter_version d c
  | opened acquired =>
    obtain ⟨_, _, rfl⟩ := acquire_iff.mp acquired
    rfl
  | wrote f acquired =>
    obtain ⟨_, _, rfl⟩ := acquire_iff.mp acquired
    rfl

/-- A new snapshot is of what is committed at its moment. -/
theorem Touches.reading (touches : d.Touches c d') (reading : d'.access e = .reading version snapshot) :
    d.access e = .reading version snapshot ∨ version = d.version ∧ snapshot = d.committed := by
  cases touches with
  | still => exact Or.inl reading
  | read => exact read_reading reading
  | entered => exact Or.inl (enter_reading reading)
  | opened acquired => exact Or.inl (acquire_reading acquired reading)
  | wrote f acquired => exact Or.inl (acquire_reading acquired reading)

omit [DecidableEq ι] in
theorem current_writing (writing : d.access c = .writing) : d.current c = true := by
  simp only [current, writing]

/-- The connection with the lock is one that writes, and a snapshot is what was
committed at its number. -/
structure Consistent (d : Database ι δ) : Prop where
  writing : ∀ {c}, d.Holds c → d.access c = .writing
  past : ∀ {c version snapshot}, d.access c = .reading version snapshot →
    version ≤ d.version ∧ (version = d.version → snapshot = d.committed)

theorem Consistent.acquire_own (consistent : d.Consistent) (holds : d.Holds c) : d.acquire c = some d := by
  have writing := consistent.writing holds
  obtain ⟨working, own⟩ := holds
  have same : d.put c .writing = d := by rw [put, ← writing, Function.update_eq_self]
  rw [acquire, if_pos (current_writing writing), SingleWriter.acquire_own own, same]
  rfl

theorem Consistent.opened (consistent : d.Consistent) (acquired : d.acquire c = some d') : d'.Consistent := by
  have holder {e : ι} (holds : d'.Holds e) : e = c := holds.unique (acquire_holds acquired)
  refine ⟨fun holds => ?_, fun reading => ?_⟩
  · rw [holder holds]
    obtain ⟨_, _, rfl⟩ := acquire_iff.mp acquired
    exact put_access d c .writing
  · have before := consistent.past (acquire_reading acquired reading)
    obtain ⟨_, _, rfl⟩ := acquire_iff.mp acquired
    exact before

/-- A connection without the lock goes on to another stage of its transaction. -/
theorem Consistent.put (consistent : d.Consistent) {access : Access δ} (outside : d.access c ≠ .writing)
    (past : ∀ {version snapshot}, access = .reading version snapshot →
      version ≤ d.version ∧ (version = d.version → snapshot = d.committed)) : (d.put c access).Consistent := by
  refine ⟨fun {e} holds => ?_, fun {e version snapshot} reading => ?_⟩
  · have writing := consistent.writing holds
    have different : e ≠ c := by
      rintro rfl
      exact outside writing
    rw [put_access_other different, writing]
  · by_cases own : e = c
    · rw [own, put_access] at reading
      exact past reading
    · rw [put_access_other own] at reading
      exact consistent.past reading

theorem Consistent.touches (consistent : d.Consistent) (touches : d.Touches c d') : d'.Consistent := by
  cases touches with
  | still => exact consistent
  | read =>
    unfold read
    split
    · rename_i begun
      refine consistent.put (by rw [begun]; exact nofun) fun reading => ?_
      cases reading
      exact ⟨Nat.le_refl _, fun _ => rfl⟩
    · exact consistent
  | entered =>
    unfold enter
    split
    · rename_i none
      exact consistent.put (by rw [none]; exact nofun) nofun
    · exact consistent
  | opened acquired => exact consistent.opened acquired
  | @wrote opened f acquired =>
    have consistent := consistent.opened acquired
    refine ⟨fun holds => consistent.writing ?_, fun reading => ?_⟩
    · by_cases own : opened.Holds c
      · obtain ⟨working, held⟩ := own
        have after : (opened.write c f).store.writer = some (c, f working) :=
          congrArg Store.writer (write_writer held f)
        rw [holds.unique ⟨_, after⟩]
        exact ⟨working, held⟩
      · exact absurd (acquire_holds acquired) own
    · have past := consistent.past reading
      refine ⟨past.1, fun same => ?_⟩
      rw [past.2 same, committed, committed, write, write_committed]

theorem Consistent.commit (consistent : d.Consistent) (c : ι) : (d.commit c).Consistent := by
  refine ⟨fun {e} holds => ?_, fun reading => ?_⟩
  · obtain ⟨different, holds⟩ := holds_of_commit holds
    exact (put_access_other different _).trans (consistent.writing holds)
  · obtain ⟨_, reading⟩ := commit_reading reading
    obtain ⟨below, same⟩ := consistent.past reading
    by_cases own : d.Holds c
    · obtain ⟨working, held⟩ := own
      rw [commit_version_of_writer held]
      exact ⟨by omega, fun equal => by omega⟩
    · have store : (d.commit c).store = d.store := commit_idle own
      have version : (d.commit c).version = d.version := by
        unfold Database.commit
        dsimp only
        split
        · rename_i held
          rw [if_neg (holder_ne own held)]
        · rfl
      rw [version, committed, store]
      exact ⟨below, same⟩

theorem Consistent.rollback (consistent : d.Consistent) (c : ι) : (d.rollback c).Consistent := by
  refine ⟨fun {e} holds => ?_, fun reading => ?_⟩
  · obtain ⟨different, holds⟩ := holds_of_rollback holds
    exact (put_access_other different _).trans (consistent.writing holds)
  · obtain ⟨_, reading⟩ := rollback_reading reading
    obtain ⟨below, same⟩ := consistent.past reading
    exact ⟨below, fun equal => (same equal).trans rollback_committed.symm⟩

theorem leave_reading {left : Leaving} (leaves : d.leave c left = some d')
    (reading : d'.access e = .reading version snapshot) :
    d.access e = .reading version snapshot ∨ version = d.version ∧ snapshot = d.committed := by
  cases left with
  | untouched => cases leaves; exact Or.inl reading
  | entered => cases leaves; exact Or.inl (enter_reading reading)
  | pinned => cases leaves; exact read_reading reading
  | locking => exact Or.inl (acquire_reading leaves reading)
  | rolledBack => cases leaves; exact Or.inl (rollback_reading reading).2

theorem leave_committed {left : Leaving} (leaves : d.leave c left = some d') : d'.committed = d.committed := by
  cases left with
  | untouched => cases leaves; rfl
  | entered => cases leaves; exact congrArg Store.committed (enter_store d c)
  | pinned => cases leaves; exact congrArg Store.committed (read_store d c)
  | locking => exact acquire_committed leaves
  | rolledBack => cases leaves; exact rollback_committed

omit [DecidableEq ι] in
theorem disconnect_reading {gone : ι → Bool} (reading : (d.disconnect gone).access e = .reading version snapshot) :
    gone e = false ∧ d.access e = .reading version snapshot := by
  unfold disconnect at reading
  dsimp only at reading
  split at reading
  · cases reading
  · rename_i here
    exact ⟨eq_false_of_ne_true here, reading⟩

section Lags
variable {le : δ → δ → Prop} {opened : Database ι δ} {left : Leaving}

/-- Nobody reads ahead of what is committed, where a transaction has written
nothing that is still open. -/
structure Lags (le : δ → δ → Prop) (d : Database ι δ) : Prop where
  working : ∀ {c working}, d.store.writer = some (c, working) → working = d.committed
  snapshot : ∀ {c version snapshot}, d.access c = .reading version snapshot → le snapshot d.committed

theorem Lags.store_view (lags : d.Lags le) (c : ι) : d.store.view c = d.committed := by
  by_cases own : d.Holds c
  · obtain ⟨working, held⟩ := own
    rw [view_writer held, lags.working held]
  · exact view_idle own

theorem Lags.view (lags : d.Lags le) (refl : ∀ x, le x x) (c : ι) : le (d.view c) d.committed := by
  cases access : d.access c with
  | reading version snapshot =>
    rw [view_reading access]
    exact lags.snapshot access
  | _ =>
    rw [view_other (by rw [access]; exact nofun), lags.store_view]
    exact refl _

/-- Its first SELECT shows a connection what it would have read anyway. -/
theorem Lags.read_view (lags : d.Lags le) (c : ι) : (d.read c).view c = d.view c := by
  unfold read
  split
  · rename_i begun
    rw [view_reading (put_access ..), view_other (by rw [begun]; exact nofun), lags.store_view]
  · rfl

theorem Lags.acquire (lags : d.Lags le) (acquired : d.acquire c = some opened) : opened.Lags le := by
  refine ⟨fun held => ?_, fun reading => ?_⟩
  · obtain ⟨_, _, rfl⟩ := acquire_iff.mp acquired
    cases held
    exact lags.store_view c
  · have before := lags.snapshot (acquire_reading acquired reading)
    obtain ⟨_, _, rfl⟩ := acquire_iff.mp acquired
    exact before

omit [DecidableEq ι] in
/-- Transactions that only end change nothing. -/
theorem Lags.settle (lags : d.Lags le) (store : d'.store = d.store ∨ d'.store = { committed := d.committed })
    (reading : ∀ {c version snapshot}, d'.access c = .reading version snapshot → le snapshot d.committed) :
    d'.Lags le ∧ d'.committed = d.committed := by
  have committed : d'.committed = d.committed := by
    rcases store with same | closed
    · rw [Database.committed, same]
    · rw [Database.committed, closed]
  refine ⟨⟨fun held => ?_, fun here => committed ▸ reading here⟩, committed⟩
  rcases store with same | closed
  · exact (lags.working (same ▸ held)).trans committed.symm
  · rw [closed] at held
    cases held

theorem Lags.leave (lags : d.Lags le) (refl : ∀ x, le x x) (leaves : d.leave c left = some d') : d'.Lags le := by
  have reading {e : ι} {version : Nat} {snapshot : δ} (here : d'.access e = .reading version snapshot) :
      le snapshot d.committed := by
    rcases leave_reading leaves here with before | ⟨_, rfl⟩
    · exact lags.snapshot before
    · exact refl _
  cases left with
  | untouched => cases leaves; exact lags
  | entered => cases leaves; exact (lags.settle (Or.inl (enter_store d c)) reading).1
  | pinned => cases leaves; exact (lags.settle (Or.inl (read_store d c)) reading).1
  | locking => exact lags.acquire leaves
  | rolledBack =>
    cases leaves
    refine (lags.settle ?_ reading).1
    by_cases own : d.Holds c
    · obtain ⟨working, held⟩ := own
      exact Or.inr (rollback_writer held)
    · exact Or.inl (rollback_idle own)

theorem Lags.commit_store (lags : d.Lags le) (c : ι) : (d.commit c).Lags le ∧ (d.commit c).committed = d.committed := by
  refine lags.settle ?_ fun here => lags.snapshot (commit_reading here).2
  by_cases own : d.Holds c
  · obtain ⟨working, held⟩ := own
    have ended := commit_writer held
    rw [lags.working held] at ended
    exact Or.inr ended
  · exact Or.inl (commit_idle own)

/-- A write that is committed at once. -/
theorem Lags.publish (lags : d.Lags le) (trans : ∀ {x y z}, le x y → le y z → le x z)
    (acquired : d.acquire c = some opened) {f : δ → δ} (grows : le d.committed (f d.committed)) :
    ((opened.write c f).commit c).Lags le ∧ ((opened.write c f).commit c).committed = f d.committed := by
  have view := lags.store_view c
  obtain ⟨_, _, rfl⟩ := acquire_iff.mp acquired
  rw [view]
  have written := write_writer (s := ⟨d.committed, some (c, d.committed)⟩) rfl f
  have ended := commit_writer (congrArg Store.writer written)
  have committed : (({ d.put c .writing with store := ⟨d.committed, some (c, d.committed)⟩ } : Database ι δ).write c f
      |>.commit c).committed = f d.committed := congrArg Store.committed ended
  refine ⟨⟨fun held => ?_, fun reading => ?_⟩, committed⟩
  · cases (congrArg Store.writer ended).symm.trans held
  · rw [committed]
    obtain ⟨different, reading⟩ := commit_reading reading
    exact trans (lags.snapshot ((put_access_other different _).symm.trans reading)) grows

omit [DecidableEq ι] in
theorem Lags.disconnect (lags : d.Lags le) (gone : ι → Bool) :
    (d.disconnect gone).Lags le ∧ (d.disconnect gone).committed = d.committed := by
  refine lags.settle ?_ fun here => lags.snapshot (disconnect_reading here).2
  unfold Database.disconnect
  dsimp only
  split
  · split
    · exact Or.inr rfl
    · exact Or.inl rfl
  · exact Or.inl rfl

end Lags

/-- No connection has begun a transaction without going on to write. -/
def Prompt (d : Database ι δ) : Prop :=
  ∀ c, d.access c = .none ∨ d.access c = .writing

theorem Prompt.put (prompt : d.Prompt) {access : Access δ} (good : access = .none ∨ access = .writing) (c : ι) :
    (d.put c access).Prompt := by
  intro e
  by_cases own : e = c
  · rw [own, put_access]
    exact good
  · rw [put_access_other own]
    exact prompt e

omit [DecidableEq ι] in
theorem Prompt.unread (prompt : d.Prompt) : d.access c ≠ .reading version snapshot := by
  intro reading
  rcases prompt c with none | writing
  · cases none.symm.trans reading
  · cases writing.symm.trans reading

theorem Prompt.read (prompt : d.Prompt) (c : ι) : d.read c = d := by
  unfold Database.read
  split
  · rename_i begun
    rcases prompt c with none | writing
    · cases none.symm.trans begun
    · cases writing.symm.trans begun
  · rfl

theorem Prompt.acquire (prompt : d.Prompt) (acquired : d.acquire c = some d') : d'.Prompt := by
  obtain ⟨_, _, rfl⟩ := acquire_iff.mp acquired
  exact prompt.put (Or.inr rfl) c

theorem Prompt.leave (prompt : d.Prompt) {left : Leaving} (other : left ≠ .entered) (leaves : d.leave c left = some d') :
    d'.Prompt := by
  cases left with
  | untouched => cases leaves; exact prompt
  | entered => exact absurd rfl other
  | pinned => cases leaves; rwa [prompt.read]
  | locking => exact prompt.acquire leaves
  | rolledBack => cases leaves; exact prompt.put (Or.inl rfl) c

omit [DecidableEq ι] in
theorem Prompt.disconnect (prompt : d.Prompt) (gone : ι → Bool) : (d.disconnect gone).Prompt := by
  intro c
  unfold Database.disconnect
  dsimp only
  split
  · exact Or.inl rfl
  · exact prompt c

end Database
end SingleWriter
