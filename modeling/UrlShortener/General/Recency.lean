import Mathlib.Data.Finset.Card
import Mathlib.Data.List.TakeWhile

namespace Recency
variable {κ : Type} [DecidableEq κ]

/-- What has been used since the last use of `key`, or at all if `key` never
was. The trail lists the uses in their order, the result stands newest first. -/
def since (trail : List κ) (key : κ) : List κ :=
  trail.reverse.takeWhile (· ≠ key)

/-- The keys stand in the order of their last uses, newest first. -/
def Ordered (trail keys : List κ) : Prop :=
  keys.Pairwise fun newer older => newer ∈ since trail older

variable {trail keys : List κ} {key other : κ}

theorem since_snoc_self (trail : List κ) (key : κ) : since (trail ++ [key]) key = [] := by
  simp [since]

theorem since_snoc_other (trail : List κ) (different : other ≠ key) :
    since (trail ++ [other]) key = other :: since trail key := by
  simp [since, different]

theorem ne_of_mem_since (member : other ∈ since trail key) : other ≠ key := by
  simpa using List.mem_takeWhile_imp member

/-- What comes after a use of `key` that is its last one. -/
theorem since_of_last_use {before after : List κ} (last : key ∉ after) :
    since (before ++ key :: after) key = after.reverse := by
  induction after using List.reverseRecOn with
  | nil => exact since_snoc_self before key
  | append_singleton after used ih =>
    have different : used ≠ key := fun same => last (by simp [same])
    rw [← List.cons_append, ← List.append_assoc, since_snoc_other _ different,
      ih fun member => last (List.mem_append_left _ member), List.reverse_append]
    rfl

theorem exists_last_use (member : key ∈ trail) :
    ∃ before after, trail = before ++ key :: after ∧ key ∉ after ∧ since trail key = after.reverse := by
  obtain ⟨after, before, split, last⟩ := List.eq_append_cons_of_mem (List.mem_reverse.mpr member)
  have whole : trail = before.reverse ++ key :: after.reverse := by
    rw [← List.reverse_reverse trail, split]
    simp
  have out : key ∉ after.reverse := fun inside => last (List.mem_reverse.mp inside)
  exact ⟨before.reverse, after.reverse, whole, out, by rw [whole, since_of_last_use out]⟩

theorem mem_since_snoc (member : other ∈ since trail key) {used : κ} (different : used ≠ key) :
    other ∈ since (trail ++ [used]) key := by
  rw [since_snoc_other trail different]
  exact List.mem_cons_of_mem _ member

/-- Further uses only add to what has been used since. -/
theorem card_since_snoc (trail : List κ) {used : κ} (different : used ≠ key) :
    (since trail key).toFinset.card ≤ (since (trail ++ [used]) key).toFinset.card := by
  rw [since_snoc_other trail different]
  exact Finset.card_le_card fun _ member => by
    rw [List.mem_toFinset] at member ⊢
    exact List.mem_cons_of_mem _ member

theorem Ordered.nodup (ordered : Ordered trail keys) : keys.Nodup :=
  ordered.imp fun member => ne_of_mem_since member

/-- The key that is used goes to the front. -/
theorem Ordered.use (ordered : Ordered trail keys) (key : κ) :
    Ordered (trail ++ [key]) (key :: keys.erase key) := by
  have others {k : κ} (member : k ∈ keys.erase key) : key ≠ k :=
    ((ordered.nodup.mem_erase_iff).mp member).1.symm
  refine List.pairwise_cons.mpr ⟨fun k member => ?_, ?_⟩
  · rw [since_snoc_other trail (others member)]
    exact List.mem_cons_self ..
  · refine (ordered.sublist List.erase_sublist).imp_of_mem fun _ older member => ?_
    exact mem_since_snoc member (others older)

/-- Whatever stands behind the first `n` keys has had `n` others used since. -/
theorem Ordered.card_since (ordered : Ordered trail keys) {n : ℕ} (member : key ∈ keys)
    (out : key ∉ keys.take n) : n ≤ (since trail key).toFinset.card := by
  have behind : key ∈ keys.drop n := by
    rw [← List.take_append_drop n keys] at member
    exact (List.mem_append.mp member).resolve_left out
  have newer : ∀ k ∈ keys.take n, k ∈ since trail key := by
    rw [Ordered, ← List.take_append_drop n keys] at ordered
    exact fun k first => (List.pairwise_append.mp ordered).2.2 k first key behind
  have long : n ≤ keys.length := by
    by_contra short
    rw [List.drop_eq_nil_of_le (by omega)] at behind
    cases behind
  have size : (keys.take n).toFinset.card = n := by
    rw [List.toFinset_card_of_nodup (ordered.nodup.sublist (List.take_sublist ..)), List.length_take,
      Nat.min_eq_left long]
  rw [← size]
  refine Finset.card_le_card fun k first => ?_
  rw [List.mem_toFinset] at first ⊢
  exact newer k first

end Recency
