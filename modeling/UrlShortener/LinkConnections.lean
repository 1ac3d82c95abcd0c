import Mathlib.Algebra.Ring.Nat
import UrlShortener.General.Snapshots
import UrlShortener.CodeAllocator
import UrlShortener.HitCounter

namespace UrlShortener
open SingleWriter Transition

/-- The database file of a `LinkStore`. The journal is no table of it: it lists
the rows written into `link_hits`, each with the number of the call that wrote it. -/
structure LinkTables where
  links : LinkStore
  hits : LinkHits
  journal : List (Nat × String × Nat) := []

namespace LinkTables

/-- One row of `record_hits_bulk`, with its ON CONFLICT clause. -/
def upsert (tables : LinkTables) (id : Nat) (item : String × Nat) : LinkTables :=
  { tables with
    hits := Function.update tables.hits item.1 (tables.hits item.1 + item.2)
    journal := tables.journal ++ [(id, item)] }

/-- The rows that the call `id` has written, in their order. -/
def rowsOf (tables : LinkTables) (id : Nat) : List (String × Nat) :=
  (tables.journal.filter (·.1 = id)).map Prod.snd

/-- The hits of a code in a list of rows. -/
def total (items : List (String × Nat)) (code : String) : Nat :=
  ((items.filter (·.1 = code)).map Prod.snd).sum

variable (tables : LinkTables) (id : Nat) (item : String × Nat)

theorem rowsOf_upsert_self : (tables.upsert id item).rowsOf id = tables.rowsOf id ++ [item] := by
  simp [rowsOf, upsert]

theorem rowsOf_upsert_other {other : Nat} (different : id ≠ other) :
    (tables.upsert id item).rowsOf other = tables.rowsOf other := by
  simp [rowsOf, upsert, different]

theorem total_append (items more : List (String × Nat)) (code : String) :
    total (items ++ more) code = total items code + total more code := by
  rw [total, List.filter_append, List.map_append, List.sum_append, total, total]

theorem hits_upsert (code : String) :
    (tables.upsert id item).hits code = tables.hits code + total [item] code := by
  by_cases own : item.1 = code
  · subst own
    simp [upsert, total]
  · simp [upsert, total, own, Function.update_of_ne (Ne.symm own)]

/-- What a whole batch writes. -/
def upsertAll (items : List (String × Nat)) : LinkTables :=
  items.foldl (fun current row => current.upsert id row) tables

theorem upsertAll_cons (items : List (String × Nat)) :
    tables.upsertAll id (item :: items) = (tables.upsert id item).upsertAll id items := rfl

theorem rowsOf_upsertAll_self (items : List (String × Nat)) :
    (tables.upsertAll id items).rowsOf id = tables.rowsOf id ++ items := by
  induction items generalizing tables with
  | nil => exact (List.append_nil _).symm
  | cons row rest ih => rw [upsertAll_cons, ih, rowsOf_upsert_self, List.append_assoc, List.singleton_append]

theorem rowsOf_upsertAll_other {other : Nat} (different : id ≠ other) (items : List (String × Nat)) :
    (tables.upsertAll id items).rowsOf other = tables.rowsOf other := by
  induction items generalizing tables with
  | nil => rfl
  | cons row rest ih => rw [upsertAll_cons, ih, rowsOf_upsert_other tables id row different]

theorem hits_upsertAll (items : List (String × Nat)) (code : String) :
    (tables.upsertAll id items).hits code = tables.hits code + total items code := by
  induction items generalizing tables with
  | nil => rfl
  | cons row rest ih =>
    have first := total_append [row] rest code
    rw [List.singleton_append] at first
    rw [upsertAll_cons, ih, hits_upsert, first, Nat.add_assoc]

/-- A batch that is written row by row is the one transaction that `HitCounter` relies on. -/
theorem hits_upsertAll_batch {items : List (String × Nat)} {batch : Multiset String}
    (counted : ∀ code, total items code = batch.count code) :
    (tables.upsertAll id items).hits = tables.hits.recordHitsBulk batch := by
  funext code
  rw [hits_upsertAll, counted, LinkHits.recordHitsBulk]

end LinkTables

/-- The arguments of `LinkStore.create`, with what the clock reads. -/
structure CreateCall where
  code : String
  target : String
  ttlSeconds : Option Int := none
  nowMs : Option Int := none
  clock : Int

def CreateCall.apply (call : CreateCall) (links : LinkStore) : Option (Link × LinkStore) :=
  links.create call.code call.target call.ttlSeconds call.nowMs call.clock

def CreateCall.taken (call : CreateCall) : String :=
  "short code already exists: " ++ call.code

namespace LinkConnections

inductive Query
  | get (code : String)
  | hits (code : String)
  | count

inductive Result
  | link (link : Link)
  | found (link : Option Link)
  | number (n : Nat)

inductive Error
  | keyError (message : String)
  | runtimeError (message : String)
  /-- Whatever else a statement raises. -/
  | sqlite

def Query.answer (tables : LinkTables) : Query → Result
  | get code => .found (tables.links.get code)
  | hits code => .number (tables.hits code)
  | count => .number tables.links.count

/-- How far the call of a thread has got. -/
inductive Phase
  | idle
  /-- `allocate` between its rounds, with those it has left. -/
  | allocating (a : CodeAllocator) (target : String) (ttlSeconds : Option Int) (left : Nat)
  /-- The INSERT of `create` is next; inside `allocate` a round comes with the rounds after it. -/
  | creating (call : CreateCall) (round : Option (CodeAllocator × Nat))
  | created (link : Link)
  /-- The call `id` of `record_hits_bulk`, with its rows written and to come. -/
  | recording (id : Nat) (done rest : List (String × Nat))
  | returned (result : Result)
  | raised (error : Error)

/-- No call is under way. -/
def Phase.free : Phase → Bool
  | idle | returned _ | raised _ => true
  | _ => false

/-- The next statement is an INSERT. -/
def Phase.inserts : Phase → Bool
  | creating .. | recording _ _ (_ :: _) => true
  | _ => false

/-- The next statement is a COMMIT. -/
def Phase.commits : Phase → Bool
  | created _ | recording _ _ [] => true
  | _ => false

/-- The conflict is the KeyError of `create`, and a collision for `allocate`. -/
def Phase.conflicted (call : CreateCall) : Option (CodeAllocator × Nat) → Phase
  | none => .raised (.keyError call.taken)
  | some (a, left) => .allocating a call.target call.ttlSeconds left

end LinkConnections

/-- Any number of threads on one `LinkStore`, each with its own connection. The
links that the calls have returned are listed, each with the number of the commit
that published it. -/
structure LinkConnections (τ : Type) where
  db : Database τ LinkTables
  phase : τ → LinkConnections.Phase
  calls : Nat := 0
  published : List (Nat × Link) := []

namespace LinkConnections

inductive Statement (τ : Type)
  | create (t : τ) (call : CreateCall)
  | allocate (t : τ) (a : CodeAllocator) (target : String) (ttlSeconds : Option Int)
  /-- A round of `allocate` draws its code. -/
  | attempt (t : τ) (code : String) (clock : Int)
  | giveUp (t : τ)
  | recordHits (t : τ) (items : List (String × Nat))
  | read (t : τ) (query : Query)
  | insert (t : τ)
  | conflict (t : τ)
  /-- The next row of `executemany`. -/
  | row (t : τ)
  | commit (t : τ)
  /-- An INSERT ends in "database is locked": another connection keeps the lock
  through the busy timeout, or the snapshot of this one is out of date. -/
  | locked (t : τ)
  /-- An INSERT raises and leaves the transaction as it is, as for a value that
  cannot be bound. -/
  | fail (t : τ)
  /-- An error on which SQLite rolls the transaction back: the disk is full, or
  fails. -/
  | abort (t : τ)

def Statement.thread {τ : Type} : Statement τ → τ
  | create t _ | allocate t .. | attempt t .. | giveUp t | recordHits t _ | read t _ | insert t
  | conflict t | row t | commit t | locked t | fail t | abort t => t

/-- The statement ends the transaction of its connection. -/
def Statement.ends {τ : Type} : Statement τ → Bool
  | commit _ | abort _ => true
  | _ => false

/-- `record_hit`. -/
def Statement.recordHit {τ : Type} (t : τ) (code : String) : Statement τ :=
  .recordHits t [(code, 1)]

variable {τ : Type} [DecidableEq τ]

def start (links : LinkStore) (hits : LinkHits) : LinkConnections τ where
  db := { store := { committed := ⟨links, hits, []⟩ } }
  phase _ := .idle

def advance (s : LinkConnections τ) (t : τ) (db : Database τ LinkTables) (phase : Phase) : LinkConnections τ :=
  { s with db := db, phase := Function.update s.phase t phase }

/-- An INSERT begins a transaction where none is open. No error that SQLite lets
it survive ends it, and the store never rolls it back. A count is bound as an
integer of 64 bits. -/
inductive Step (s : LinkConnections τ) : Statement τ → LinkConnections τ → Prop
  | create {t call} : (s.phase t).free → Step s (.create t call) (s.advance t s.db (.creating call none))
  | allocate {t a target ttlSeconds} : (s.phase t).free →
      Step s (.allocate t a target ttlSeconds)
        (s.advance t s.db (.allocating a target ttlSeconds a.maxAttempts))
  | attempt {t a target ttlSeconds left code clock} :
      s.phase t = .allocating a target ttlSeconds (left + 1) →
      Step s (.attempt t code clock)
        (s.advance t s.db (.creating ⟨code, target, ttlSeconds, none, clock⟩ (some (a, left))))
  | giveUp {t a target ttlSeconds} : s.phase t = .allocating a target ttlSeconds 0 →
      Step s (.giveUp t) (s.advance t s.db (.raised (.runtimeError a.exhausted)))
  | recordNothing {t} : (s.phase t).free →
      Step s (.recordHits t []) (s.advance t s.db (.returned (.number 0)))
  | recordHits {t items} : (s.phase t).free → items ≠ [] →
      Step s (.recordHits t items)
        (advance { s with calls := s.calls + 1 } t s.db (.recording s.calls [] items))
  | read {t query} : (s.phase t).free →
      Step s (.read t query) (s.advance t (s.db.read t) (.returned (query.answer (s.db.view t))))
  | insert {t call round db link links} : s.phase t = .creating call round → s.db.acquire t = some db →
      call.apply (db.view t).links = some (link, links) →
      Step s (.insert t) (s.advance t (db.write t fun tables => { tables with links := links }) (.created link))
  | conflict {t call round db} : s.phase t = .creating call round → s.db.acquire t = some db →
      call.apply (db.view t).links = none → Step s (.conflict t) (s.advance t db (.conflicted call round))
  | row {t id done item rest db} : s.phase t = .recording id done (item :: rest) → item.2 < 2 ^ 63 →
      s.db.acquire t = some db →
      Step s (.row t) (s.advance t (db.write t (·.upsert id item)) (.recording id (done ++ [item]) rest))
  | commitLink {t link} : s.phase t = .created link →
      Step s (.commit t) (advance { s with published := s.published ++ [(s.db.version + 1, link)] } t (s.db.commit t)
        (.returned (.link link)))
  | commitHits {t id done} : s.phase t = .recording id done [] →
      Step s (.commit t) (s.advance t (s.db.commit t) (.returned (.number done.length)))
  | locked {t} : (s.phase t).inserts → s.db.acquire t = none →
      Step s (.locked t) (s.advance t (s.db.enter t) (.raised .sqlite))
  | fail {t db} : (s.phase t).inserts → (db = s.db ∨ db = s.db.enter t ∨ s.db.acquire t = some db) →
      Step s (.fail t) (s.advance t db (.raised .sqlite))
  | abort {t} : (s.phase t).inserts ∨ (s.phase t).commits →
      Step s (.abort t) (s.advance t (s.db.rollback t) (.raised .sqlite))

@[simp] theorem advance_db (s : LinkConnections τ) (t : τ) (db : Database τ LinkTables) (phase : Phase) :
    (s.advance t db phase).db = db := rfl

@[simp] theorem advance_self (s : LinkConnections τ) (t : τ) (db : Database τ LinkTables) (phase : Phase) :
    (s.advance t db phase).phase t = phase :=
  Function.update_self ..

section
variable {s s' u : LinkConnections τ} {label : Statement τ} {t : τ} {trace later : List (Statement τ)}

/-- Only the thread of a statement moves. -/
theorem Step.phase_other (taken : s.Step label s') (different : t ≠ label.thread) : s'.phase t = s.phase t := by
  cases taken <;> exact Function.update_of_ne different ..

/-- What a statement does to the file. -/
theorem Step.touches (taken : s.Step label s') : (label.ends = false ∧ s.db.Touches label.thread s'.db) ∨
    (label.ends = true ∧ (label = .commit label.thread ∧ s'.db = s.db.commit label.thread ∨
      s'.db = s.db.rollback label.thread)) := by
  cases taken with
  | read _ => exact Or.inl ⟨rfl, .read⟩
  | insert _ acquired _ => exact Or.inl ⟨rfl, .wrote _ acquired⟩
  | conflict _ acquired _ => exact Or.inl ⟨rfl, .opened acquired⟩
  | row _ _ acquired => exact Or.inl ⟨rfl, .wrote _ acquired⟩
  | commitLink _ => exact Or.inr ⟨rfl, Or.inl ⟨rfl, rfl⟩⟩
  | commitHits _ => exact Or.inr ⟨rfl, Or.inl ⟨rfl, rfl⟩⟩
  | locked _ _ => exact Or.inl ⟨rfl, .entered⟩
  | fail _ tried =>
    rcases tried with rfl | rfl | acquired
    · exact Or.inl ⟨rfl, .still⟩
    · exact Or.inl ⟨rfl, .entered⟩
    · exact Or.inl ⟨rfl, .opened acquired⟩
  | abort _ => exact Or.inr ⟨rfl, Or.inr rfl⟩
  | _ => exact Or.inl ⟨rfl, .still⟩

/-- The lock shuts all other connections out. -/
theorem Step.store_of_holds (taken : s.Step label s') (holds : s.db.Holds t) (different : t ≠ label.thread) :
    s'.db.store = s.db.store := by
  have outside : ¬ s.db.Holds label.thread := fun own => different (holds.unique own)
  rcases taken.touches with ⟨_, touches⟩ | ⟨_, ⟨_, committed⟩ | rolledBack⟩
  · exact touches.frame holds different
  · rw [committed]
    exact commit_idle outside
  · rw [rolledBack]
    exact rollback_idle outside

/-- Nothing but its own COMMIT, or an error on which SQLite rolls back, ends a
transaction. -/
theorem Step.holds (taken : s.Step label s') (holds : s.db.Holds t) (busy : label.thread = t → label.ends = false) :
    s'.db.Holds t := by
  by_cases own : t = label.thread
  · rcases taken.touches with ⟨_, touches⟩ | ⟨ends, _⟩
    · exact touches.holds holds
    · rw [busy own.symm] at ends
      cases ends
  · rw [Database.Holds, taken.store_of_holds holds own]
    exact holds

/-- Only the statements of its own thread take the lock for a connection. -/
theorem Step.holds_other (taken : s.Step label s') (different : t ≠ label.thread) (after : s'.db.Holds t) :
    s.db.Holds t := by
  rcases taken.touches with ⟨_, touches⟩ | ⟨_, ⟨_, committed⟩ | rolledBack⟩
  · exact touches.holds_other different after
  · rw [committed] at after
    exact (holds_of_commit after).2
  · rw [rolledBack] at after
    exact (holds_of_rollback after).2

/-- What all copies of the tables have in common, as long as links and rows are
written in keeping with it. -/
theorem Step.everywhere {P : LinkTables → Prop} (taken : s.Step label s') (all : s.db.store.Everywhere P)
    (links : ∀ tables links, P tables → P { tables with links := links })
    (rows : ∀ t id done item rest, label = .row t → s.phase t = .recording id done (item :: rest) →
      ∀ tables, P tables → P (tables.upsert id item)) : s'.db.store.Everywhere P := by
  have opened {db : Database τ LinkTables} (acquired : s.db.acquire label.thread = some db) :
      db.store.Everywhere P := by
    obtain ⟨_, alone, rfl⟩ := Database.acquire_iff.mp acquired
    exact all.acquire (acquire_iff.mpr ⟨alone, rfl⟩)
  cases taken with
  | read _ =>
    rw [advance_db, Database.read_store]
    exact all
  | insert _ acquired _ => exact (opened acquired).write fun tables => links tables _
  | conflict _ acquired _ => exact opened acquired
  | row phase _ acquired => exact (opened acquired).write (rows _ _ _ _ _ rfl phase)
  | commitLink _ => exact all.commit
  | commitHits _ => exact all.commit
  | locked _ _ =>
    rw [advance_db, Database.enter_store]
    exact all
  | @fail t _ _ tried =>
    rcases tried with rfl | rfl | acquired
    · exact all
    · rw [advance_db, Database.enter_store]
      exact all
    · exact opened acquired
  | abort _ => exact all.rollback
  | _ => exact all

theorem Step.consistent (taken : s.Step label s') (consistent : s.db.Consistent) : s'.db.Consistent := by
  rcases taken.touches with ⟨_, touches⟩ | ⟨_, ⟨_, committed⟩ | rolledBack⟩
  · exact consistent.touches touches
  · exact committed ▸ consistent.commit label.thread
  · exact rolledBack ▸ consistent.rollback label.thread

theorem consistent_of_run {links : LinkStore} {hits : LinkHits} (run : Run Step (start links hits) trace s) :
    s.db.Consistent := by
  induction run with
  | start => exact ⟨nofun, nofun⟩
  | next _ taken ih => exact taken.consistent ih

theorem holds_of_run (run : Run Step s later u) (holds : s.db.Holds t)
    (busy : ∀ label ∈ later, label.thread = t → label.ends = false) : u.db.Holds t := by
  induction run with
  | start => exact holds
  | next _ taken ih =>
    exact taken.holds (ih fun label member => busy label (List.mem_append_left _ member))
      (busy _ (List.mem_append_right _ (List.mem_singleton_self _)))

end

end LinkConnections
end UrlShortener
