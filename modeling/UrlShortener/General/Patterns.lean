import Mathlib.Data.List.Forall2

/-- Regular expressions without repetition, over characters. -/
inductive Regex
  | empty
  | one (accepts : Char → Bool)
  | seq (first second : Regex)
  | alt (left right : Regex)
  | opt (inner : Regex)
  | start
  | finish

namespace Regex

/-- One character after the other. -/
def word : List (Char → Bool) → Regex
  | [] => empty
  | accepts :: rest => seq (one accepts) (word rest)

def literal (text : List Char) : Regex :=
  word (text.map fun c other => other = c)

/-- A backtracking match from one place of the text on. The flag says whether
this is where the text starts, and `k` what comes after. The last newline of a
text does not count for `finish`. -/
def run : Regex → (Bool → List Char → Bool) → Bool → List Char → Bool
  | empty, k, atStart, text => k atStart text
  | one accepts, k, _, c :: rest => accepts c && k false rest
  | one _, _, _, [] => false
  | seq first second, k, atStart, text => first.run (second.run k) atStart text
  | alt left right, k, atStart, text => left.run k atStart text || right.run k atStart text
  | opt inner, k, atStart, text => inner.run k atStart text || k atStart text
  | start, k, atStart, text => atStart && k atStart text
  | finish, k, atStart, text => (text.isEmpty || text = ['\n']) && k atStart text

def searchFrom (r : Regex) (atStart : Bool) : List Char → Bool
  | [] => r.run (fun _ _ => true) atStart []
  | c :: rest => r.run (fun _ _ => true) atStart (c :: rest) || searchFrom r false rest

/-- A match anywhere in the text. -/
def search (r : Regex) (text : List Char) : Bool :=
  r.searchFrom true text

/-- Every match passes a character that `accepts` does. -/
inductive Needs (accepts : Char → Bool) : Regex → Prop
  | one : Needs accepts (one accepts)
  | first {r s} : Needs accepts r → Needs accepts (seq r s)
  | second {r s} : Needs accepts s → Needs accepts (seq r s)

variable {r s : Regex} {k : Bool → List Char → Bool} {atStart : Bool} {text : List Char} {accepts : Char → Bool}

/-- What comes after a match is looked for in a rest of the text. -/
theorem run_suffix (found : r.run k atStart text = true) : ∃ b rest, rest <:+ text ∧ k b rest = true := by
  induction r generalizing k atStart text with
  | empty => exact ⟨atStart, text, List.suffix_refl _, found⟩
  | one accepts =>
    cases text with
    | nil => cases found
    | cons c rest => exact ⟨false, rest, List.suffix_cons _ _, (Bool.and_eq_true_iff.mp found).2⟩
  | seq first second ih ih' =>
    obtain ⟨b, rest, suffix, later⟩ := ih found
    obtain ⟨b', rest', suffix', last⟩ := ih' later
    exact ⟨b', rest', suffix'.trans suffix, last⟩
  | alt left right ih ih' =>
    rcases Bool.or_eq_true_iff.mp found with found | found
    · exact ih found
    · exact ih' found
  | opt inner ih =>
    rcases Bool.or_eq_true_iff.mp found with found | found
    · exact ih found
    · exact ⟨atStart, text, List.suffix_refl _, found⟩
  | start => exact ⟨atStart, text, List.suffix_refl _, (Bool.and_eq_true_iff.mp found).2⟩
  | finish => exact ⟨atStart, text, List.suffix_refl _, (Bool.and_eq_true_iff.mp found).2⟩

theorem Needs.mem_of_run (needs : r.Needs accepts) (found : r.run k atStart text = true) :
    ∃ c ∈ text, accepts c = true := by
  induction needs generalizing k atStart text with
  | one =>
    cases text with
    | nil => cases found
    | cons c rest => exact ⟨c, List.mem_cons_self, (Bool.and_eq_true_iff.mp found).1⟩
  | first _ ih => exact ih found
  | @second first second _ ih =>
    obtain ⟨b, rest, suffix, later⟩ := run_suffix (show first.run (second.run k) atStart text = true from found)
    obtain ⟨c, member, accepted⟩ := ih later
    exact ⟨c, suffix.subset member, accepted⟩

theorem exists_run_of_searchFrom (found : r.searchFrom atStart text = true) :
    ∃ b rest, rest <:+ text ∧ r.run (fun _ _ => true) b rest = true := by
  induction text generalizing atStart with
  | nil => exact ⟨atStart, [], List.suffix_refl _, found⟩
  | cons c rest ih =>
    rcases Bool.or_eq_true_iff.mp found with here | later
    · exact ⟨atStart, c :: rest, List.suffix_refl _, here⟩
    · obtain ⟨b, last, suffix, found⟩ := ih later
      exact ⟨b, last, suffix.trans (List.suffix_cons _ _), found⟩

theorem Needs.mem_of_search (needs : r.Needs accepts) (found : r.search text = true) :
    ∃ c ∈ text, accepts c = true := by
  obtain ⟨b, rest, suffix, found⟩ := exists_run_of_searchFrom found
  obtain ⟨c, member, accepted⟩ := needs.mem_of_run found
  exact ⟨c, suffix.subset member, accepted⟩

theorem needs_word {word : List (Char → Bool)} (member : accepts ∈ word) : (Regex.word word).Needs accepts := by
  induction word with
  | nil => cases member
  | cons first rest ih =>
    rcases List.mem_cons.mp member with rfl | later
    · exact .first .one
    · exact .second (ih later)

theorem searchFrom_start_false : (seq start r).searchFrom false text = false := by
  induction text with
  | nil => rfl
  | cons c rest ih => rw [searchFrom, ih]; rfl

/-- An expression that begins with `start` is looked for at the start only. -/
theorem search_start (r : Regex) (text : List Char) :
    (seq start r).search text = r.run (fun _ _ => true) true text := by
  cases text with
  | nil => rfl
  | cons c rest =>
    rw [search, searchFrom, searchFrom_start_false, Bool.or_false]
    rfl

theorem run_one : (one accepts).run k atStart text = true ↔
    ∃ c rest, text = c :: rest ∧ accepts c = true ∧ k false rest = true := by
  constructor
  · intro found
    cases text with
    | nil => cases found
    | cons c rest => exact ⟨c, rest, rfl, Bool.and_eq_true_iff.mp found⟩
  · rintro ⟨c, rest, rfl, accepted, found⟩
    exact Bool.and_eq_true_iff.mpr ⟨accepted, found⟩

theorem run_word {word : List (Char → Bool)} : (Regex.word word).run k atStart text = true ↔
    ∃ front rest, text = front ++ rest ∧ List.Forall₂ (fun accepts c => accepts c = true) word front ∧
      k (atStart && word.isEmpty) rest = true := by
  induction word generalizing atStart text with
  | nil =>
    constructor
    · intro found
      refine ⟨[], text, rfl, .nil, ?_⟩
      rw [List.isEmpty_nil, Bool.and_true]
      exact found
    · rintro ⟨front, rest, rfl, accepted, found⟩
      cases accepted
      rw [List.isEmpty_nil, Bool.and_true] at found
      exact found
  | cons accepts word ih =>
    have later : k (false && word.isEmpty) = k (atStart && (accepts :: word).isEmpty) := by
      rw [Bool.false_and, List.isEmpty_cons, Bool.and_false]
    constructor
    · intro found
      cases text with
      | nil => cases found
      | cons c text =>
        obtain ⟨first, found⟩ := Bool.and_eq_true_iff.mp found
        obtain ⟨front, rest, rfl, accepted, found⟩ := ih.mp found
        exact ⟨c :: front, rest, rfl, .cons first accepted, later ▸ found⟩
    · rintro ⟨front, rest, rfl, accepted, found⟩
      cases accepted with
      | @cons _ c _ front first accepted =>
        exact Bool.and_eq_true_iff.mpr ⟨first, ih.mpr ⟨front, rest, rfl, accepted, later ▸ found⟩⟩

theorem forall₂_literal {text front : List Char} : List.Forall₂ (fun (accepts : Char → Bool) c => accepts c = true)
    (text.map fun c other => other = c) front ↔ front = text := by
  rw [List.forall₂_map_left_iff]
  simp only [decide_eq_true_eq]
  constructor
  · intro same
    induction same with
    | nil => rfl
    | cons head _ ih => rw [head, ih]
  · rintro rfl
    exact List.forall₂_same.mpr fun _ _ => rfl

/-- A literal matches where the text goes on with it. -/
theorem run_literal {word : List Char} : (literal word).run k atStart text = true ↔
    ∃ rest, text = word ++ rest ∧ k (atStart && word.isEmpty) rest = true := by
  rw [literal, run_word]
  constructor
  · rintro ⟨front, rest, rfl, accepted, found⟩
    cases forall₂_literal.mp accepted
    exact ⟨rest, rfl, by rwa [List.isEmpty_map] at found⟩
  · rintro ⟨rest, rfl, found⟩
    exact ⟨word, rest, rfl, forall₂_literal.mpr rfl, by rwa [List.isEmpty_map]⟩

end Regex
