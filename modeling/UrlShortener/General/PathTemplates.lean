import Mathlib.Data.List.Basic

namespace PathTemplates

inductive Part
  | literal (text : String)
  /-- A nonempty run of characters without a slash. -/
  | parameter

/-- Whether a path has the form of a template from its first to its last character. -/
def matchesPath : List Part → List Char → Bool
  | [], path => path.isEmpty
  | .literal text :: rest, path => text.toList.isPrefixOf path && matchesPath rest (path.drop text.toList.length)
  | .parameter :: rest, path => (List.range path.length).any fun k =>
      (path.take (k + 1)).all (· ≠ '/') && matchesPath rest (path.drop (k + 1))

structure Route (μ ε : Type) where
  method : μ
  template : List Part
  endpoint : ε

variable {μ ε : Type} [DecidableEq μ]

def Route.takes (route : Route μ ε) (method : μ) (path : String) : Bool :=
  route.method = method && matchesPath route.template path.toList

/-- The endpoint of the first route that takes the request. -/
def dispatch (routes : List (Route μ ε)) (method : μ) (path : String) : Option ε :=
  (routes.find? (·.takes method path)).map Route.endpoint

section
variable {path : List Char}

theorem matches_literal {s : String} : matchesPath [.literal s] path = true ↔ path = s.toList := by
  simp only [matchesPath, Bool.and_eq_true, List.isPrefixOf_iff_prefix, List.isEmpty_iff]
  constructor
  · rintro ⟨⟨rest, rfl⟩, none⟩
    rw [List.drop_left] at none
    rw [none, List.append_nil]
  · rintro rfl
    exact ⟨List.prefix_refl _, List.drop_length⟩

theorem matches_parameter : matchesPath [.parameter] path = true ↔ path ≠ [] ∧ '/' ∉ path := by
  simp only [matchesPath, List.any_eq_true, List.mem_range, Bool.and_eq_true, List.all_eq_true, decide_eq_true_eq,
    List.isEmpty_iff, List.drop_eq_nil_iff]
  constructor
  · rintro ⟨k, below, free, whole⟩
    rw [List.take_of_length_le whole] at free
    refine ⟨?_, fun slash => free _ slash rfl⟩
    rintro rfl
    exact absurd below (Nat.not_lt_zero k)
  · rintro ⟨nonempty, free⟩
    have positive := List.length_pos_iff.mpr nonempty
    refine ⟨path.length - 1, by omega, fun ch member slash => ?_, by omega⟩
    exact free (slash ▸ List.mem_of_mem_take member)

/-- A template with a parameter at its end. -/
theorem matches_last {s : String} :
    matchesPath [.literal s, .parameter] path = true ↔
      ∃ segment, path = s.toList ++ segment ∧ segment ≠ [] ∧ '/' ∉ segment := by
  rw [matchesPath, Bool.and_eq_true, List.isPrefixOf_iff_prefix, matches_parameter]
  constructor
  · rintro ⟨⟨segment, rfl⟩, rest⟩
    rw [List.drop_left] at rest
    exact ⟨segment, rfl, rest⟩
  · rintro ⟨segment, rfl, rest⟩
    rw [List.drop_left]
    exact ⟨List.prefix_append .., rest⟩

end

section
variable {routes : List (Route μ ε)} {route : Route μ ε} {method : μ} {path : String}

theorem takes_iff : route.takes method path = true ↔
    route.method = method ∧ matchesPath route.template path.toList = true := by
  rw [Route.takes, Bool.and_eq_true, decide_eq_true_eq]

theorem dispatch_taken (takes : route.takes method path = true) :
    dispatch (route :: routes) method path = some route.endpoint := by
  rw [dispatch, List.find?_cons, takes]
  rfl

theorem dispatch_passed (passes : route.takes method path = false) :
    dispatch (route :: routes) method path = dispatch routes method path := by
  rw [dispatch, List.find?_cons, passes]
  rfl

end

end PathTemplates
