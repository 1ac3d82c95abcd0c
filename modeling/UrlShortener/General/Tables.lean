import Mathlib.Data.List.AList
import Mathlib.Data.Set.Card

namespace Tables
variable {κ ρ : Type} [DecidableEq κ]

/-- A table by its primary key. -/
abbrev Table (κ ρ : Type) : Type := AList fun _ : κ => ρ

/-- DELETE: the rows that do not meet the condition stay, the others are returned. -/
def delete (table : Table κ ρ) (meets : ρ → Bool) : List κ × Table κ ρ :=
  (((table.entries.filter fun row => meets row.2).map Sigma.fst),
    ⟨table.entries.filter fun row => !meets row.2, table.nodupKeys.sublist List.filter_sublist⟩)

variable (table : Table κ ρ) (meets : ρ → Bool)

theorem lookup_eq_some {table : Table κ ρ} {key : κ} {row : ρ} :
    table.lookup key = some row ↔ (⟨key, row⟩ : Σ _ : κ, ρ) ∈ table.entries :=
  AList.mem_lookup_iff

theorem lookup_delete (key : κ) :
    (delete table meets).2.lookup key = (table.lookup key).filter fun row => !meets row := by
  refine Option.ext fun row => ?_
  rw [lookup_eq_some, Option.filter_eq_some_iff, lookup_eq_some]
  exact List.mem_filter

theorem mem_delete {key : κ} :
    key ∈ (delete table meets).1 ↔ ∃ row, table.lookup key = some row ∧ meets row = true := by
  constructor
  · intro member
    obtain ⟨⟨_, row⟩, kept, rfl⟩ := List.mem_map.mp member
    obtain ⟨stored, met⟩ := List.mem_filter.mp kept
    exact ⟨row, lookup_eq_some.mpr stored, met⟩
  · rintro ⟨row, stored, met⟩
    exact List.mem_map.mpr ⟨⟨key, row⟩, List.mem_filter.mpr ⟨lookup_eq_some.mp stored, met⟩, rfl⟩

omit [DecidableEq κ] in
theorem nodup_delete : (delete table meets).1.Nodup :=
  table.nodupKeys.sublist List.filter_sublist

/-- Each row that goes is returned once. -/
theorem length_delete :
    (delete table meets).1.length = Set.ncard {key | ∃ row, table.lookup key = some row ∧ meets row = true} := by
  have rows : {key | ∃ row, table.lookup key = some row ∧ meets row = true} =
      ((delete table meets).1.toFinset : Set κ) := by
    ext key
    rw [Set.mem_ofPred_eq, List.coe_toFinset, Set.mem_ofPred_eq, mem_delete]
  rw [rows, Set.ncard_coe_finset, List.toFinset_card_of_nodup (nodup_delete table meets)]

end Tables
