import Mathlib.Logic.Function.Basic
import Mathlib.Data.List.Forall2

namespace Machine
variable {σ τ ι ω κ : Type}

/-- Every input with the answer a deterministic machine gave to it. -/
def transcript (step : σ → ι → ω × σ) : σ → List ι → List (ι × ω)
  | _, [] => []
  | s, i :: rest => (i, (step s i).1) :: transcript step (step s i).2 rest

/-- The state after a list of inputs. -/
def after (step : σ → ι → ω × σ) (s : σ) (inputs : List ι) : σ :=
  inputs.foldl (fun current i => (step current i).2) s

section Deterministic
variable (step : σ → ι → ω × σ) (s : σ)

@[simp] theorem after_nil : after step s [] = s := rfl

@[simp] theorem after_cons (i : ι) (rest : List ι) :
    after step s (i :: rest) = after step (step s i).2 rest := rfl

theorem after_append (earlier later : List ι) :
    after step s (earlier ++ later) = after step (after step s earlier) later :=
  List.foldl_append ..

theorem after_snoc (earlier : List ι) (i : ι) :
    after step s (earlier ++ [i]) = (step (after step s earlier) i).2 :=
  after_append ..

@[simp] theorem transcript_nil : transcript step s [] = [] := rfl

@[simp] theorem transcript_cons (i : ι) (rest : List ι) :
    transcript step s (i :: rest) = (i, (step s i).1) :: transcript step (step s i).2 rest := rfl

theorem transcript_append (earlier later : List ι) :
    transcript step s (earlier ++ later) =
      transcript step s earlier ++ transcript step (after step s earlier) later := by
  induction earlier generalizing s with
  | nil => rfl
  | cons i rest ih => simp only [List.cons_append, transcript_cons, after_cons, ih]

theorem transcript_snoc (earlier : List ι) (i : ι) :
    transcript step s (earlier ++ [i]) =
      transcript step s earlier ++ [(i, (step (after step s earlier) i).1)] := by
  rw [transcript_append]
  rfl

theorem transcript_inputs (inputs : List ι) : (transcript step s inputs).map Prod.fst = inputs := by
  induction inputs generalizing s with
  | nil => rfl
  | cons i rest ih => rw [transcript_cons, List.map_cons, ih]

theorem transcript_length (inputs : List ι) : (transcript step s inputs).length = inputs.length := by
  rw [← List.length_map Prod.fst, transcript_inputs]

theorem transcript_mem {inputs : List ι} {entry : ι × ω} (member : entry ∈ transcript step s inputs) :
    entry.1 ∈ inputs := by
  induction inputs generalizing s with
  | nil => simp at member
  | cons i rest ih =>
    rcases List.mem_cons.mp member with rfl | later
    · exact List.mem_cons_self ..
    · exact List.mem_cons_of_mem _ (ih _ later)

/-- What is known of the answers in a whole transcript, for a part of it: a
transcript from the state of that time. -/
theorem forall₂_window {R : κ → ι × ω → Prop} {f : κ → ι} {before window later : List κ}
    (answers : List.Forall₂ R (before ++ window ++ later) (transcript step s ((before ++ window ++ later).map f))) :
    List.Forall₂ R window (transcript step (after step s (before.map f)) (window.map f)) := by
  rw [List.append_assoc, List.map_append, List.map_append, transcript_append, transcript_append] at answers
  have rest := List.forall₂_drop_append _ _ _ answers
  rw [List.drop_left' (by rw [transcript_length, List.length_map])] at rest
  have part := List.forall₂_take_append _ _ _ rest
  rwa [List.take_left' (by rw [transcript_length, List.length_map])] at part

end Deterministic

/-- Two machines that stay related on every admissible input, one of them
answering what can be read off the other's answer, have transcripts that can be
read off each other so. Admissibility may look at the inputs still to come. -/
theorem transcript_of_simulation {ω' : Type} {left : σ → ι → ω × σ} {right : τ → ι → ω' × τ} (read : ι → ω' → ω)
    (related : List ι → σ → τ → Prop)
    (alike : ∀ i rest a b, related (i :: rest) a b →
      (left a i).1 = read i (right b i).1 ∧ related rest (left a i).2 (right b i).2)
    {inputs : List ι} {a : σ} {b : τ} (start : related inputs a b) :
    transcript left a inputs = (transcript right b inputs).map fun entry => (entry.1, read entry.1 entry.2) := by
  induction inputs generalizing a b with
  | nil => rfl
  | cons i rest ih =>
    obtain ⟨answer, next⟩ := alike i rest a b start
    rw [transcript_cons, transcript_cons, List.map_cons, answer, ih next]

/-- Two machines that stay related and answer alike give the same transcript. -/
theorem transcript_eq_of_simulation {left : σ → ι → ω × σ} {right : τ → ι → ω × τ}
    (related : List ι → σ → τ → Prop)
    (alike : ∀ i rest a b, related (i :: rest) a b →
      (left a i).1 = (right b i).1 ∧ related rest (left a i).2 (right b i).2)
    {inputs : List ι} {a : σ} {b : τ} (start : related inputs a b) :
    transcript left a inputs = transcript right b inputs :=
  (transcript_of_simulation (fun _ answer => answer) related alike start).trans (List.map_id _)

section Keyed
variable [DecidableEq κ] (step : σ → ι → ω × σ) (key : ι → κ)

/-- A family of independent cells: an input reads and writes the cell of its key. -/
def keyed (cells : κ → σ) (i : ι) : ω × (κ → σ) :=
  ((step (cells (key i)) i).1, Function.update cells (key i) (step (cells (key i)) i).2)

theorem keyed_other {cells : κ → σ} {i : ι} {k : κ} (other : key i ≠ k) :
    (keyed step key cells i).2 k = cells k :=
  Function.update_of_ne (Ne.symm other) ..

theorem keyed_self (cells : κ → σ) (i : ι) :
    (keyed step key cells i).2 (key i) = (step (cells (key i)) i).2 :=
  Function.update_self ..

/-- A cell only sees the inputs of its own key. -/
theorem keyed_after (cells : κ → σ) (inputs : List ι) (k : κ) :
    after (keyed step key) cells inputs k = after step (cells k) (inputs.filter (key · = k)) := by
  induction inputs generalizing cells with
  | nil => rfl
  | cons i rest ih =>
    rw [after_cons, ih]
    by_cases own : key i = k
    · subst own
      simp only [List.filter_cons, decide_true, if_true, after_cons, keyed_self]
    · simp only [List.filter_cons, own, decide_false, Bool.false_eq_true, if_false,
        keyed_other step key own]

/-- The answers to one key are those of its cell run alone on its own inputs. -/
theorem keyed_transcript (cells : κ → σ) (inputs : List ι) (k : κ) :
    (transcript (keyed step key) cells inputs).filter (key ·.1 = k) =
      transcript step (cells k) (inputs.filter (key · = k)) := by
  induction inputs generalizing cells with
  | nil => rfl
  | cons i rest ih =>
    rw [transcript_cons]
    by_cases own : key i = k
    · subst own
      simp only [List.filter_cons, decide_true, if_true, transcript_cons, ih, keyed_self]
      rfl
    · simp only [List.filter_cons, own, decide_false, Bool.false_eq_true, if_false, ih,
        keyed_other step key own]

end Keyed

end Machine
