import Mathlib.Data.List.Basic

namespace Transition
variable {ε ι : Type} {ends begins : ε → Option ι} {trace : List ε} {order : List ι}

/-- An order of calls keeps to the times of a run: a call that ends is in it,
before all those in it that begin later. -/
structure RealTime (ends begins : ε → Option ι) (trace : List ε) (order : List ι) : Prop where
  ended : ∀ {label i}, label ∈ trace → ends label = some i → i ∈ order
  follows : ∀ {first second i j}, [first, second].Sublist trace → ends first = some i → begins second = some j →
    j ∈ order → [i, j].Sublist order

theorem RealTime.start : RealTime ends begins [] [] where
  ended member := by cases member
  follows both := by cases both

/-- One more step, that ends only calls of the order and begins only others. -/
theorem RealTime.next (real : RealTime ends begins trace order) {label : ε} (ended : ∀ i ∈ ends label, i ∈ order)
    (begun : ∀ i ∈ begins label, i ∉ order) : RealTime ends begins (trace ++ [label]) order := by
  constructor
  · intro other i member ends
    rcases List.mem_append.mp member with before | now
    · exact real.ended before ends
    · rw [List.mem_singleton.mp now] at ends
      exact ended i ends
  · intro first second i j both ends begins member
    obtain ⟨front, back, whole, before, now⟩ := List.sublist_append_iff.mp both
    rcases back with _ | ⟨last, _ | _⟩
    · rw [List.append_nil] at whole
      exact real.follows (whole ▸ before) ends begins member
    · have parts : [first] ++ [second] = front ++ [last] := whole
      obtain ⟨_, same⟩ := List.append_inj' parts rfl
      cases same
      rw [List.mem_singleton.mp (List.singleton_sublist.mp now)] at begins
      exact absurd member (begun j begins)
    · exact absurd now.length_le (by simp)

/-- One more call takes its place after the others. -/
theorem RealTime.snoc (real : RealTime ends begins trace order) (i : ι) :
    RealTime ends begins trace (order ++ [i]) := by
  constructor
  · exact fun member ends => List.mem_append_left _ (real.ended member ends)
  · intro first second a b both ends begins member
    rcases List.mem_append.mp member with before | last
    · exact (real.follows both ends begins before).trans (List.sublist_append_left ..)
    · obtain rfl := List.mem_singleton.mp last
      have ended : a ∈ order := real.ended (both.subset (List.mem_cons_self ..)) ends
      exact (List.singleton_sublist.mpr ended).append (List.Sublist.refl _)

end Transition
