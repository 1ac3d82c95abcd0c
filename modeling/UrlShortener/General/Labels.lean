import Mathlib.Data.List.Infix

namespace Labels
variable {α : Type} [DecidableEq α] (sep : α)

/-- A name is under a parent when its labels end with the labels of the parent. -/
def Under (name parent : List α) : Prop :=
  parent.splitOn sep <:+ name.splitOn sep

variable {sep} {name parent : List α}

omit [DecidableEq α] in
theorem intercalate_append (sep : α) {front back : List (List α)} (front_ne : front ≠ []) (back_ne : back ≠ []) :
    [sep].intercalate (front ++ back) = [sep].intercalate front ++ sep :: [sep].intercalate back := by
  induction front with
  | nil => exact absurd rfl front_ne
  | cons label rest ih =>
    rw [List.cons_append, List.intercalate_cons_of_ne_nil (List.append_ne_nil_of_right_ne_nil _ back_ne)]
    by_cases last : rest = []
    · rw [last, List.nil_append, List.intercalate_singleton, List.append_assoc, List.singleton_append]
    · rw [ih last, List.intercalate_cons_of_ne_nil last, List.append_assoc, List.append_assoc, List.append_assoc]

omit [DecidableEq α] in
theorem mem_intercalate {labels : List (List α)} {x : α} (member : x ∈ [sep].intercalate labels) :
    x = sep ∨ ∃ label ∈ labels, x ∈ label := by
  induction labels with
  | nil => cases member
  | cons label rest ih =>
    by_cases last : rest = []
    · rw [last, List.intercalate_singleton] at member
      exact Or.inr ⟨label, List.mem_cons_self, member⟩
    · rw [List.intercalate_cons_of_ne_nil last, List.append_assoc, List.mem_append, List.singleton_append,
        List.mem_cons] at member
      rcases member with here | separator | later
      · exact Or.inr ⟨label, List.mem_cons_self, here⟩
      · exact Or.inl separator
      · obtain same | ⟨other, listed, inside⟩ := ih later
        · exact Or.inl same
        · exact Or.inr ⟨other, List.mem_cons_of_mem _ listed, inside⟩

theorem splitOn_injective : Function.Injective (List.splitOn sep) := by
  have read (name : List α) : [sep].intercalate (name.splitOn sep) = name := List.intercalate_splitOn sep
  intro left right same
  rw [← read left, same, read]

theorem under_refl (name : List α) : Under sep name name :=
  List.suffix_refl _

/-- The labels of the parent end the name if the parent is the name, or if the
parent with a separator before it ends the name letter by letter. -/
theorem under_iff : Under sep name parent ↔ name = parent ∨ (sep :: parent) <:+ name := by
  constructor
  · rintro ⟨front, same⟩
    by_cases whole : front = []
    · rw [whole, List.nil_append] at same
      exact Or.inl (splitOn_injective same).symm
    · refine Or.inr ⟨[sep].intercalate front, ?_⟩
      have joined := intercalate_append sep whole (List.splitOn_ne_nil sep parent)
      rw [same, List.intercalate_splitOn, List.intercalate_splitOn] at joined
      exact joined.symm
  · rintro (rfl | ⟨front, rfl⟩)
    · exact under_refl name
    · rw [Under, List.splitOn_append_cons_self]
      exact List.suffix_append _ _

/-- One more label puts a name under nothing new but itself. -/
theorem under_label_iff {label : List α} (single : sep ∉ label) :
    Under sep (label ++ sep :: name) parent ↔ label ++ sep :: name = parent ∨ Under sep name parent := by
  have labels : (label ++ sep :: name).splitOn sep = label :: name.splitOn sep :=
    List.splitOn_append_cons_self_of_not_mem single name
  constructor
  · intro under
    rw [Under, labels] at under
    rcases List.suffix_cons_iff.mp under with whole | below
    · rw [← labels] at whole
      exact Or.inl (splitOn_injective whole).symm
    · exact Or.inr below
  · rintro (rfl | below)
    · exact under_refl _
    · rw [Under, labels]
      exact List.IsSuffix.trans below (List.suffix_cons _ _)

end Labels
