import Mathlib.Data.Nat.Digits.Lemmas

namespace Numerals
variable {α : Type} [DecidableEq α] (letters : List α)

/-- Reads on from `n`, the most significant letter first; `none` at a letter
that is no digit. -/
def readFrom (n : Nat) : List α → Option Nat
  | [] => some n
  | letter :: rest => (letters.idxOf? letter).bind fun index => readFrom (n * letters.length + index) rest

/-- The digits of a number as letters, the most significant one first. -/
def write (n : Nat) : List α :=
  (Nat.digits letters.length n).reverse.filterMap fun digit => letters[digit]?

variable {letters}

theorem idxOf?_get (distinct : letters.Nodup) (digit : Fin letters.length) :
    letters.idxOf? (letters.get digit) = some digit.val := by
  refine List.idxOf?_eq_some_iff.mpr ⟨digit.isLt, rfl, fun j before same => ?_⟩
  have index := (List.Nodup.getElem_inj_iff distinct).mp same
  omega

/-- Every word that can be read is made of digits. -/
theorem exists_digits {n m : Nat} {word : List α} (read : readFrom letters n word = some m) :
    ∃ digits : List (Fin letters.length), word = digits.map letters.get := by
  induction word generalizing n with
  | nil => exact ⟨[], rfl⟩
  | cons letter rest ih =>
    obtain ⟨index, found, later⟩ := Option.bind_eq_some_iff.mp read
    obtain ⟨digits, rfl⟩ := ih later
    obtain ⟨inside, rfl, _⟩ := List.idxOf?_eq_some_iff.mp found
    exact ⟨⟨index, inside⟩ :: digits, rfl⟩

theorem readFrom_digits (distinct : letters.Nodup) (n : Nat) (digits : List (Fin letters.length)) :
    readFrom letters n (digits.map letters.get) =
      some (n * letters.length ^ digits.length + Nat.ofDigits letters.length (digits.map Fin.val).reverse) := by
  induction digits generalizing n with
  | nil => simp [readFrom]
  | cons digit rest ih =>
    rw [List.map_cons, readFrom, idxOf?_get distinct, Option.bind_some, ih, List.map_cons, List.reverse_cons,
      Nat.ofDigits_append, Nat.ofDigits_singleton, List.length_reverse, List.length_map, List.length_cons]
    congr 1
    ring

omit [DecidableEq α] in
theorem write_digits {n : Nat} {digits : List (Fin letters.length)}
    (same : Nat.digits letters.length n = (digits.map Fin.val).reverse) :
    write letters n = digits.map letters.get := by
  have letter (digit : Fin letters.length) : letters[digit.val]? = some (letters.get digit) :=
    List.getElem?_eq_getElem digit.isLt
  rw [write, same, List.reverse_reverse, List.filterMap_map]
  calc digits.filterMap ((fun digit : Nat => letters[digit]?) ∘ Fin.val)
      = digits.filterMap (some ∘ letters.get) := List.filterMap_congr fun digit _ => letter digit
    _ = digits.map letters.get := by rw [List.filterMap_eq_map]

omit [DecidableEq α] in
/-- The first letter stands for zero. -/
theorem head_digits (distinct : letters.Nodup) {digit : Fin letters.length} :
    some (letters.get digit) = letters.head? ↔ digit.val = 0 := by
  have inside := digit.isLt
  rw [List.head?_eq_getElem?, List.getElem?_eq_getElem (show 0 < letters.length by omega), Option.some.injEq]
  exact List.Nodup.getElem_inj_iff distinct

/-- A word is the numeral of the number that it reads as, if it does not begin
with the zero. -/
theorem write_eq_iff (distinct : letters.Nodup) (size : 2 ≤ letters.length) {n : Nat} {word : List α} :
    write letters n = word ↔ readFrom letters 0 word = some n ∧ word.head? ≠ letters.head? := by
  have inhabited : letters.head? ≠ none := by
    rw [List.head?_eq_getElem?, List.getElem?_eq_getElem (show 0 < letters.length by omega)]
    exact Option.some_ne_none _
  have value (digits : List (Fin letters.length)) : readFrom letters 0 (digits.map letters.get) =
      some (Nat.ofDigits letters.length (digits.map Fin.val).reverse) := by
    rw [readFrom_digits distinct, Nat.zero_mul, Nat.zero_add]
  constructor
  · rintro rfl
    have below {digit : Nat} (member : digit ∈ (Nat.digits letters.length n).reverse) : digit < letters.length :=
      Nat.digits_lt_base size (List.mem_reverse.mp member)
    obtain ⟨digits, same⟩ : ∃ digits : List (Fin letters.length),
        Nat.digits letters.length n = (digits.map Fin.val).reverse := by
      refine ⟨(Nat.digits letters.length n).reverse.pmap Fin.mk fun _ => below, ?_⟩
      rw [List.map_pmap, List.pmap_eq_map, List.map_id', List.reverse_reverse]
    rw [write_digits same, value, ← same, Nat.ofDigits_digits]
    refine ⟨rfl, fun head => ?_⟩
    cases digits with
    | nil => exact inhabited head.symm
    | cons digit rest =>
      have zero := (head_digits distinct).mp head
      rw [List.map_cons, List.reverse_cons] at same
      have positive : n ≠ 0 := by
        rintro rfl
        simp at same
      refine Nat.getLast_digit_ne_zero letters.length positive ?_
      simpa [same] using zero
  · rintro ⟨read, head⟩
    obtain ⟨digits, rfl⟩ := exists_digits read
    rw [value] at read
    cases read
    refine write_digits (Nat.digits_ofDigits _ size _ ?_ ?_)
    · intro digit member
      obtain ⟨index, _, rfl⟩ := List.mem_map.mp (List.mem_reverse.mp member)
      exact index.isLt
    · intro nonempty zero
      cases digits with
      | nil => exact nonempty rfl
      | cons digit rest =>
        refine head ((head_digits distinct).mpr ?_)
        simpa using zero

theorem readFrom_lt_pow (distinct : letters.Nodup) (size : 1 < letters.length) {n : Nat} {word : List α}
    (read : readFrom letters 0 word = some n) : n < letters.length ^ word.length := by
  obtain ⟨digits, rfl⟩ := exists_digits read
  rw [readFrom_digits distinct, Nat.zero_mul, Nat.zero_add] at read
  cases read
  have below := Nat.ofDigits_lt_base_pow_length size (l := (digits.map Fin.val).reverse) fun digit member => by
    obtain ⟨index, _, rfl⟩ := List.mem_map.mp (List.mem_reverse.mp member)
    exact index.isLt
  rwa [List.length_reverse, List.length_map, ← List.length_map (f := letters.get)] at below

/-- A longer word is a larger number, if it does not begin with the zero. -/
theorem readFrom_lt_of_shorter (distinct : letters.Nodup) (size : 1 < letters.length) {m n : Nat} {u v : List α}
    (shorter : u.length < v.length) (head : v.head? ≠ letters.head?) (read : readFrom letters 0 u = some m)
    (read' : readFrom letters 0 v = some n) : m < n := by
  obtain ⟨digits, rfl⟩ := exists_digits read'
  cases digits with
  | nil => exact absurd shorter (Nat.not_lt_zero _)
  | cons digit rest =>
    have positive : 1 ≤ digit.val := Nat.one_le_iff_ne_zero.mpr fun zero => head ((head_digits distinct).mpr zero)
    rw [List.map_cons, readFrom, idxOf?_get distinct, Option.bind_some, Nat.zero_mul, Nat.zero_add,
      readFrom_digits distinct] at read'
    cases read'
    rw [List.length_map, List.length_cons] at shorter
    calc m < letters.length ^ u.length := readFrom_lt_pow distinct size read
      _ ≤ letters.length ^ rest.length := Nat.pow_le_pow_right (Nat.zero_lt_of_lt size) (Nat.le_of_lt_succ shorter)
      _ ≤ digit.val * letters.length ^ rest.length := Nat.le_mul_of_pos_left _ positive
      _ ≤ _ := Nat.le_add_right _ _

omit [DecidableEq α] in
theorem digit_lt_iff {a b i j : Nat} (inside : i < letters.length) (inside' : j < letters.length) :
    a * letters.length + i < b * letters.length + j ↔ a < b ∨ (a = b ∧ i < j) := by
  rcases Nat.lt_trichotomy a b with less | rfl | greater
  · have room := Nat.mul_le_mul_right letters.length less
    rw [Nat.succ_mul] at room
    omega
  · omega
  · have room := Nat.mul_le_mul_right letters.length greater
    rw [Nat.succ_mul] at room
    omega

section
variable {β : Type} {r : β → β → Prop} [Std.Asymm r] {key : α → β}

/-- Where the keys of the letters ascend, they order the letters as their values do. -/
theorem index_order (sorted : letters.Pairwise fun x y => r (key x) (key y)) {x y : α} {i j : Nat}
    (first : letters.idxOf? x = some i) (second : letters.idxOf? y = some j) :
    (i < j ↔ r (key x) (key y)) ∧ (i = j ↔ key x = key y) := by
  obtain ⟨inside, rfl, _⟩ := List.idxOf?_eq_some_iff.mp first
  obtain ⟨inside', rfl, _⟩ := List.idxOf?_eq_some_iff.mp second
  have increasing := List.pairwise_iff_getElem.mp sorted
  rcases Nat.lt_trichotomy i j with less | rfl | greater
  · have before := increasing i j inside inside' less
    refine ⟨iff_of_true less before, iff_of_false (Nat.ne_of_lt less) fun same => ?_⟩
    rw [same] at before
    exact Std.Irrefl.irrefl _ before
  · exact ⟨iff_of_false (Nat.lt_irrefl i) (Std.Irrefl.irrefl _), iff_of_true rfl rfl⟩
  · have after := increasing j i inside' inside greater
    refine ⟨iff_of_false (Nat.lt_asymm greater) (Std.Asymm.asymm _ _ after),
      iff_of_false (Nat.ne_of_gt greater) fun same => ?_⟩
    rw [same] at after
    exact Std.Irrefl.irrefl _ after

/-- Words of one length compare by the keys of their letters as the numbers they
are read as. -/
theorem readFrom_lt_iff (sorted : letters.Pairwise fun x y => r (key x) (key y)) {a b m n : Nat} {u v : List α}
    (length : u.length = v.length) (read : readFrom letters a u = some m) (read' : readFrom letters b v = some n) :
    m < n ↔ a < b ∨ (a = b ∧ List.Lex r (u.map key) (v.map key)) := by
  induction u generalizing v a b with
  | nil =>
    cases List.length_eq_zero_iff.mp length.symm
    cases read
    cases read'
    constructor
    · exact Or.inl
    · rintro (less | ⟨_, less⟩)
      · exact less
      · cases less
  | cons x rest ih =>
    obtain ⟨y, rest', rfl⟩ := List.exists_cons_of_length_eq_add_one length.symm
    obtain ⟨i, first, read⟩ := Option.bind_eq_some_iff.mp read
    obtain ⟨j, second, read'⟩ := Option.bind_eq_some_iff.mp read'
    obtain ⟨inside, _, _⟩ := List.idxOf?_eq_some_iff.mp first
    obtain ⟨inside', _, _⟩ := List.idxOf?_eq_some_iff.mp second
    obtain ⟨lessLetter, sameLetter⟩ := index_order sorted first second
    have less := digit_lt_iff inside inside' (a := a) (b := b)
    have greater := digit_lt_iff inside' inside (a := b) (b := a)
    have equal : a * letters.length + i = b * letters.length + j ↔ a = b ∧ i = j := by omega
    rw [ih (Nat.succ.inj length) read read', less, equal, List.map_cons, List.map_cons, List.cons_lex_cons_iff,
      ← lessLetter, ← sameLetter, and_or_left, and_assoc, or_assoc]

end

end Numerals
