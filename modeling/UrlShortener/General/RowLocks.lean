import Mathlib.Data.Finset.Lattice.Fold
import UrlShortener.General.Tables

namespace RowLocks
open Tables

/-- A table beside what open transactions have written. A written row is locked
until its transaction ends; `none` is a row that the transaction deletes. -/
structure Heap (ι κ ν : Type) [DecidableEq κ] where
  committed : Table κ ν
  pending : Table κ (ι × Option ν) := ∅

variable {ι κ ν : Type} [DecidableEq ι] [DecidableEq κ]

namespace Heap
variable (h : Heap ι κ ν) (i : ι)

/-- No other transaction has locked the row. -/
def free (k : κ) : Bool :=
  (h.pending.lookup k).all fun lock => lock.1 = i

/-- What a transaction sees: what it has written itself, else what is committed. -/
def view (k : κ) : Option ν :=
  match h.pending.lookup k with
  | some (holder, row) => if holder = i then row else h.committed.lookup k
  | none => h.committed.lookup k

/-- Changes a row and locks it; `none` while another transaction holds its lock. -/
def write (k : κ) (f : Option ν → Option ν) : Option (Heap ι κ ν) :=
  if h.free i k then some { h with pending := h.pending.insert k (i, f (h.view i k)) } else none

def settle (table : Table κ ν) (row : Σ _ : κ, ι × Option ν) : Table κ ν :=
  match row.2.2 with
  | some v => table.insert row.1 v
  | none => table.erase row.1

/-- Drops the locks of a transaction with what it has written. -/
def rollback : Heap ι κ ν :=
  { h with pending := (delete h.pending fun lock => lock.1 = i).2 }

def commit : Heap ι κ ν :=
  { h.rollback i with committed := (delete h.pending fun lock => lock.1 ≠ i).2.entries.foldl settle h.committed }

end Heap

/-- What a list of writes, the first one first, makes of a row. -/
def replay (writes : List (κ × (Option ν → Option ν))) (k : κ) (row : Option ν) : Option ν :=
  writes.foldl (fun row entry => if entry.1 = k then entry.2 row else row) row

/-- The locks of a transaction are those of the rows it wrote to, and hold what
its writes make of the rows that are committed. -/
structure Heap.Reflects (h : Heap ι κ ν) (i : ι) (writes : List (κ × (Option ν → Option ν))) : Prop where
  pending : ∀ k ∈ writes.map Prod.fst, h.pending.lookup k = some (i, replay writes k (h.committed.lookup k))
  only : ∀ {k row}, h.pending.lookup k = some (i, row) → k ∈ writes.map Prod.fst

section
variable {h h' : Heap ι κ ν} {i j : ι} {k : κ} {f : Option ν → Option ν} {writes : List (κ × (Option ν → Option ν))}

theorem replay_snoc (entry : κ × (Option ν → Option ν)) (row : Option ν) :
    replay (writes ++ [entry]) k row = if entry.1 = k then entry.2 (replay writes k row) else replay writes k row := by
  rw [replay, List.foldl_append]
  rfl

theorem replay_untouched (row : Option ν) (untouched : k ∉ writes.map Prod.fst) : replay writes k row = row := by
  induction writes generalizing row with
  | nil => rfl
  | cons entry rest ih =>
    rw [List.map_cons, List.mem_cons, not_or] at untouched
    rw [replay, List.foldl_cons, if_neg (Ne.symm untouched.1)]
    exact ih row untouched.2

theorem Heap.write_eq_some :
    h.write i k f = some h' ↔
      h.free i k = true ∧ h' = { h with pending := h.pending.insert k (i, f (h.view i k)) } := by
  rw [Heap.write, Option.ite_none_right_eq_some, Option.some.injEq, eq_comm (b := h')]

theorem Heap.committed_write (wrote : h.write i k f = some h') : h'.committed = h.committed := by
  obtain ⟨_, rfl⟩ := Heap.write_eq_some.mp wrote
  rfl

/-- Another transaction shuts this one out of the rows it has locked. -/
theorem Heap.free_eq_false_iff :
    h.free i k = false ↔ ∃ holder row, h.pending.lookup k = some (holder, row) ∧ holder ≠ i := by
  rw [Heap.free]
  cases h.pending.lookup k with
  | none => simp
  | some lock =>
    obtain ⟨holder, row⟩ := lock
    simp

omit [DecidableEq ι] in
theorem lookup_settle (table : Table κ ν) (rows : List (Σ _ : κ, ι × Option ν)) (distinct : rows.NodupKeys) (k : κ) :
    (rows.foldl Heap.settle table).lookup k = ((rows.dlookup k).map Prod.snd).getD (table.lookup k) := by
  induction rows generalizing table with
  | nil => rfl
  | cons row rest ih =>
    obtain ⟨key, holder, left⟩ := row
    obtain ⟨fresh, distinct⟩ := List.nodupKeys_cons.mp distinct
    rw [List.foldl_cons, ih _ distinct]
    by_cases own : key = k
    · subst own
      rw [List.dlookup_cons_eq, List.dlookup_eq_none.mpr fresh]
      cases left with
      | some v => exact AList.lookup_insert table
      | none => exact AList.lookup_erase _ table
    · rw [List.dlookup_cons_ne rest (⟨key, holder, left⟩ : Σ _ : κ, ι × Option ν) (Ne.symm own)]
      congr 1
      cases left with
      | some v => exact AList.lookup_insert_ne (Ne.symm own)
      | none => exact AList.lookup_erase_ne (Ne.symm own)

theorem lookup_rollback :
    (h.rollback i).pending.lookup k = (h.pending.lookup k).filter fun lock => !decide (lock.1 = i) :=
  lookup_delete h.pending (fun lock => lock.1 = i) k

theorem lookup_commit :
    (h.commit i).committed.lookup k =
      ((h.pending.lookup k).filter fun lock => lock.1 = i).elim (h.committed.lookup k) Prod.snd := by
  have own : (delete h.pending fun lock => lock.1 ≠ i).2.lookup k =
      (h.pending.lookup k).filter fun lock => lock.1 = i := by
    rw [lookup_delete]
    simp only [ne_eq, decide_not, Bool.not_not]
  rw [Heap.commit, lookup_settle _ _ (AList.nodupKeys _)]
  change (((delete h.pending fun lock => lock.1 ≠ i).2.lookup k).map Prod.snd).getD (h.committed.lookup k) = _
  rw [own]
  cases (h.pending.lookup k).filter fun lock => lock.1 = i <;> rfl

namespace Heap.Reflects

omit [DecidableEq ι] in
theorem initial (table : Table κ ν) : (⟨table, ∅⟩ : Heap ι κ ν).Reflects i [] where
  pending _ member := by cases member
  only held := by
    rw [AList.lookup_empty] at held
    cases held

/-- A transaction that has ended holds no lock. -/
theorem rollback : (h.rollback i).Reflects i [] where
  pending _ member := by cases member
  only held := by
    rw [lookup_rollback, Option.filter_eq_some_iff] at held
    simp at held

theorem committed : (h.commit i).Reflects i [] where
  pending _ member := by cases member
  only held := (Heap.Reflects.rollback (h := h)).only held

variable (reflects : h.Reflects i writes)
include reflects

theorem view_eq (k : κ) : h.view i k = replay writes k (h.committed.lookup k) := by
  by_cases touched : k ∈ writes.map Prod.fst
  · rw [Heap.view, reflects.pending k touched]
    exact if_pos rfl
  · rw [replay_untouched _ touched, Heap.view]
    split
    · rename_i holder row held
      refine if_neg ?_
      rintro rfl
      exact touched (reflects.only held)
    · rfl

/-- The transaction writes to one more row. -/
theorem write (wrote : h.write i k f = some h') : h'.Reflects i (writes ++ [(k, f)]) := by
  obtain ⟨_, rfl⟩ := Heap.write_eq_some.mp wrote
  constructor
  · intro other touched
    rw [replay_snoc]
    by_cases own : k = other
    · subst own
      rw [if_pos rfl, AList.lookup_insert, reflects.view_eq]
    · rw [if_neg own, AList.lookup_insert_ne (Ne.symm own)]
      refine reflects.pending other ?_
      simpa [Ne.symm own] using touched
  · intro other row held
    rw [List.map_append, List.mem_append, List.map_singleton, List.mem_singleton]
    by_cases own : other = k
    · exact Or.inr own
    · rw [AList.lookup_insert_ne own] at held
      exact Or.inl (reflects.only held)

/-- What others write does not meet the locks of the transaction. -/
theorem write_other (different : j ≠ i) (wrote : h.write j k f = some h') : h'.Reflects i writes := by
  obtain ⟨free, rfl⟩ := Heap.write_eq_some.mp wrote
  constructor
  · intro other touched
    have mine := reflects.pending other touched
    have apart : other ≠ k := by
      rintro rfl
      rw [Heap.free, mine] at free
      exact different (of_decide_eq_true free).symm
    rw [AList.lookup_insert_ne apart, mine]
  · intro other row held
    by_cases own : other = k
    · subst own
      rw [AList.lookup_insert] at held
      cases held
      exact absurd rfl different
    · rw [AList.lookup_insert_ne own] at held
      exact reflects.only held

theorem rollback_other (different : j ≠ i) : (h.rollback j).Reflects i writes where
  pending k touched := by
    rw [lookup_rollback, reflects.pending k touched, Option.filter_some, decide_eq_false (Ne.symm different)]
    rfl
  only held := by
    rw [lookup_rollback, Option.filter_eq_some_iff] at held
    exact reflects.only held.1

/-- A commit carries the writes out on the rows as they are committed then. -/
theorem commit (k : κ) : (h.commit i).committed.lookup k = replay writes k (h.committed.lookup k) := by
  rw [lookup_commit]
  by_cases touched : k ∈ writes.map Prod.fst
  · rw [reflects.pending k touched, Option.filter_some, decide_eq_true rfl]
    rfl
  · rw [replay_untouched _ touched]
    cases held : (h.pending.lookup k).filter fun lock => lock.1 = i with
    | none => rfl
    | some lock =>
      obtain ⟨found, own⟩ := Option.filter_eq_some_iff.mp held
      obtain ⟨holder, row⟩ := lock
      cases of_decide_eq_true own
      exact absurd (reflects.only found) touched

/-- Nobody changes a row under the lock of another transaction. -/
theorem commit_locked (different : j ≠ i) (touched : k ∈ writes.map Prod.fst) :
    (h.commit j).committed.lookup k = h.committed.lookup k := by
  rw [lookup_commit, reflects.pending k touched, Option.filter_some, decide_eq_false (Ne.symm different)]
  rfl

theorem commit_other (different : j ≠ i) : (h.commit j).Reflects i writes where
  pending k touched := by
    rw [reflects.commit_locked different touched]
    exact (reflects.rollback_other different).pending k touched
  only held := (reflects.rollback_other different).only held

end Heap.Reflects

/-- Whatever has happened left the locks of a transaction alone, and what is
committed under them. -/
def Heap.Spares (h h' : Heap ι κ ν) (i : ι) : Prop :=
  ∀ writes, h.Reflects i writes →
    h'.Reflects i writes ∧ ∀ k ∈ writes.map Prod.fst, h'.committed.lookup k = h.committed.lookup k

omit [DecidableEq ι] in
theorem Heap.Spares.refl (h : Heap ι κ ν) (i : ι) : h.Spares h i :=
  fun _ reflects => ⟨reflects, fun _ _ => rfl⟩

omit [DecidableEq ι] in
theorem Heap.Spares.pending {row : Option ν} (spares : h.Spares h' i) (reflects : h.Reflects i writes)
    (held : h.pending.lookup k = some (i, row)) : h'.pending.lookup k = some (i, row) := by
  have touched := reflects.only held
  obtain ⟨after, same⟩ := spares _ reflects
  rw [after.pending k touched, same k touched, ← reflects.pending k touched, held]

theorem Heap.spares_write (different : j ≠ i) (wrote : h.write j k f = some h') : h.Spares h' i := by
  refine fun writes reflects => ⟨reflects.write_other different wrote, fun other _ => ?_⟩
  obtain ⟨_, rfl⟩ := Heap.write_eq_some.mp wrote
  rfl

theorem Heap.spares_rollback (different : j ≠ i) : h.Spares (h.rollback j) i :=
  fun _ reflects => ⟨reflects.rollback_other different, fun _ _ => rfl⟩

theorem Heap.spares_commit (different : j ≠ i) : h.Spares (h.commit j) i :=
  fun _ reflects => ⟨reflects.commit_other different, fun _ => reflects.commit_locked different⟩

/-- Transactions that lock rows in one order do not wait for one another in a
circle: one that is waited for can have the row that it wants. -/
theorem Heap.exists_unblocked (wants : ι → Option κ) (rank : κ → Nat)
    (ordered : ∀ j k own row, wants j = some k → h.pending.lookup own = some (j, row) → rank own < rank k) (i : ι) :
    ∃ j, (j = i ∨ ∃ k row, h.pending.lookup k = some (j, row)) ∧ ∀ k ∈ wants j, h.free j k = true := by
  obtain ⟨top, below⟩ : ∃ top, ∀ k lock, h.pending.lookup k = some lock → rank k ≤ top := by
    refine ⟨h.pending.keys.toFinset.sup rank, fun k lock held => Finset.le_sup (List.mem_toFinset.mpr ?_)⟩
    exact AList.mem_keys.mp (AList.lookup_isSome.mp (by rw [held]; rfl))
  -- Whoever waits does so for a higher row than those it holds.
  have climb (n : Nat) : ∀ i, (∀ k ∈ wants i, top < rank k + n) →
      ∃ j, (j = i ∨ ∃ k row, h.pending.lookup k = some (j, row)) ∧ ∀ k ∈ wants j, h.free j k = true := by
    induction n with
    | zero =>
      refine fun i near => ⟨i, Or.inl rfl, fun k wanted => ?_⟩
      by_contra blocked
      obtain ⟨holder, row, held, _⟩ := Heap.free_eq_false_iff.mp (Bool.eq_false_iff.mpr blocked)
      have high := near k wanted
      have low := below k _ held
      omega
    | succ n ih =>
      intro i near
      by_cases free : ∀ k ∈ wants i, h.free i k = true
      · exact ⟨i, Or.inl rfl, free⟩
      · obtain ⟨k, wanted, blocked⟩ : ∃ k, wants i = some k ∧ ¬ h.free i k = true := by
          simpa using free
        obtain ⟨holder, row, held, _⟩ := Heap.free_eq_false_iff.mp (Bool.eq_false_iff.mpr blocked)
        obtain ⟨j, met, free⟩ := ih holder fun higher wanted' => by
          have above := ordered holder higher k row wanted' held
          have close := near k wanted
          omega
        refine ⟨j, Or.inr ?_, free⟩
        rcases met with rfl | locks
        · exact ⟨k, row, held⟩
        · exact locks
  exact climb (top + 1) i fun k _ => by omega

end

end RowLocks
