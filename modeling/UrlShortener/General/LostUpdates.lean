import UrlShortener.General.Run
import Mathlib.Logic.Function.Basic
import Mathlib.Order.Basic

namespace LostUpdates
open Transition
variable {ι : Type}

/-- A number that writers increase by a read and a later write, with nothing
held in between. -/
structure Counter (ι : Type) where
  value : Nat
  seen : ι → Option Nat

inductive Access (ι : Type)
  | read (writer : ι)
  | write (writer : ι)
  deriving DecidableEq

def Access.writer : Access ι → ι
  | read writer | write writer => writer

/-- The writer whose increase the access completes. -/
def Access.written : Access ι → Option ι
  | read _ => none
  | write writer => some writer

theorem written_snoc (trace : List (Access ι)) (access : Access ι) :
    ((trace ++ [access]).filterMap Access.written).length =
      (trace.filterMap Access.written).length + if access.written.isSome then 1 else 0 := by
  rw [List.filterMap_append, List.length_append]
  cases access <;> rfl

variable [DecidableEq ι]

def Counter.read (c : Counter ι) (writer : ι) : Counter ι :=
  { c with seen := Function.update c.seen writer (some c.value) }

/-- Writes one more than `n`, which was read before. -/
def Counter.write (c : Counter ι) (writer : ι) (n : Nat) : Counter ι :=
  ⟨n + 1, Function.update c.seen writer none⟩

inductive Step : Counter ι → Access ι → Counter ι → Prop
  | read {c writer} : c.seen writer = none → Step c (.read writer) (c.read writer)
  | write {c writer n} : c.seen writer = some n → Step c (.write writer) (c.write writer n)

/-- A step that reads only while nobody is about to write. -/
def Alone (c : Counter ι) (access : Access ι) (d : Counter ι) : Prop :=
  Step c access d ∧ ∀ writer, access = .read writer → ∀ other, c.seen other = none

section
variable (c : Counter ι) (writer : ι) (n : Nat)

@[simp] theorem Counter.read_value : (c.read writer).value = c.value := rfl

@[simp] theorem Counter.write_value : (c.write writer n).value = n + 1 := rfl

@[simp] theorem Counter.read_self : (c.read writer).seen writer = some c.value :=
  Function.update_self ..

@[simp] theorem Counter.write_self : (c.write writer n).seen writer = none :=
  Function.update_self ..

variable {writer} {other : ι} (different : other ≠ writer)
include different

theorem Counter.read_other : (c.read writer).seen other = c.seen other :=
  Function.update_of_ne different ..

theorem Counter.write_other : (c.write writer n).seen other = c.seen other :=
  Function.update_of_ne different ..

end

variable {n : Nat} {trace : List (Access ι)} {c : Counter ι}

/-- After `writes` writes, what is about to be written was read between them. -/
structure Kept (n writes : Nat) (c : Counter ι) : Prop where
  value : n + min 1 writes ≤ c.value ∧ c.value ≤ n + writes
  seen : ∀ writer m, c.seen writer = some m → n ≤ m ∧ m ≤ n + writes

theorem Kept.read {writes : Nat} (kept : Kept n writes c) (writer : ι) : Kept n writes (c.read writer) := by
  refine ⟨kept.value, fun other m found => ?_⟩
  by_cases own : other = writer
  · rw [own, c.read_self] at found
    have value := kept.value
    rw [Option.some.inj found] at value
    omega
  · rw [c.read_other own] at found
    exact kept.seen other m found

theorem Kept.write {writes m : Nat} (kept : Kept n writes c) {writer : ι} (found : c.seen writer = some m) :
    Kept n (writes + 1) (c.write writer m) := by
  obtain ⟨least, most⟩ := kept.seen writer m found
  refine ⟨?_, fun other k later => ?_⟩
  · rw [c.write_value]
    omega
  · by_cases own : other = writer
    · rw [own, c.write_self] at later
      cases later
    · rw [c.write_other m own] at later
      obtain ⟨least, most⟩ := kept.seen other k later
      omega

/-- Updates get lost, but not all of them: the counter never counts more than
was written, and has moved once something was. -/
theorem kept_of_run (run : Run Step ⟨n, fun _ => none⟩ trace c) :
    Kept n (trace.filterMap Access.written).length c := by
  induction run with
  | start => exact ⟨⟨Nat.le_refl n, Nat.le_refl n⟩, fun _ _ found => by cases found⟩
  | next _ taken ih =>
    rw [written_snoc]
    cases taken with
    | read _ => exact ih.read _
    | write found => exact ih.write found

/-- Where no two writers are between their accesses at once, nothing is lost. -/
theorem exact_of_run (run : Run Alone ⟨n, fun _ => none⟩ trace c) :
    c.value = n + (trace.filterMap Access.written).length ∧
      ∀ writer m, c.seen writer = some m → m = c.value ∧ ∀ other ≠ writer, c.seen other = none := by
  induction run with
  | start => exact ⟨rfl, fun _ _ found => by cases found⟩
  | @next trace c access d _ taken ih =>
    obtain ⟨value, seen⟩ := ih
    rw [written_snoc]
    obtain ⟨taken, alone⟩ := taken
    cases taken with
    | @read reader _ =>
      have nobody := alone reader rfl
      refine ⟨value, fun writer m found => ?_⟩
      by_cases own : writer = reader
      · rw [own, c.read_self] at found
        refine ⟨(Option.some.inj found).symm, fun other different => ?_⟩
        rw [c.read_other (own ▸ different)]
        exact nobody other
      · rw [c.read_other own, nobody writer] at found
        cases found
    | @write last m found =>
      obtain ⟨latest, nobody⟩ := seen last m found
      refine ⟨?_, fun writer k later => ?_⟩
      · rw [c.write_value, latest, value]
        rfl
      · by_cases own : writer = last
        · rw [own, c.write_self] at later
          cases later
        · rw [c.write_other m own, nobody writer own] at later
          cases later

end LostUpdates
