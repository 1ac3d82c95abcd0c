import Mathlib.Data.Nat.Digits.Lemmas
import Mathlib.Data.List.Forall2
import UrlShortener.General.Labels
import UrlShortener.General.Numerals

namespace IpAddress

/-- The address lies in the network of the given length. -/
def InNetwork (width network length address : Nat) : Prop :=
  address / 2 ^ (width - length) = network / 2 ^ (width - length)

abbrev V4 := Fin (2 ^ 32)

abbrev V6 := Fin (2 ^ 128)

/-- The number of an IPv4 address. -/
def octets (a b c d : Nat) : Nat :=
  ((a * 256 + b) * 256 + c) * 256 + d

def V4.octet (address : V4) (i : Nat) : Nat :=
  address.val / 256 ^ (3 - i) % 256

/-- Four decimal numbers without leading zeros. -/
def V4.text (address : V4) : List Char :=
  ['.'].intercalate ((List.range 4).map fun i => Nat.toDigits 10 (V4.octet address i))

/-- 127.0.0.0/8, the private networks and 169.254.0.0/16. -/
def V4.Private (address : V4) : Prop :=
  InNetwork 32 (octets 127 0 0 0) 8 address ∨ InNetwork 32 (octets 10 0 0 0) 8 address ∨
    InNetwork 32 (octets 172 16 0 0) 12 address ∨ InNetwork 32 (octets 192 168 0 0) 16 address ∨
    InNetwork 32 (octets 169 254 0 0) 16 address

/-- The eight groups of 16 bits. -/
def V6.words (address : V6) : List Nat :=
  (List.range 8).map fun i => address.val / 65536 ^ (7 - i) % 65536

/-- The IPv4 address that `::ffff:0:0/96` maps to this one. -/
def V6.mapped (address : V6) : Option V4 :=
  if address.val / 2 ^ 32 = 0xffff then some (Fin.ofNat _ address.val) else none

/-- The loopback address, fe80::/10, fc00::/7 and the mapped private addresses. -/
def V6.Private (address : V6) : Prop :=
  address.val = 1 ∨ InNetwork 128 (0xfe80 * 2 ^ 112) 10 address ∨ InNetwork 128 (0xfc00 * 2 ^ 112) 7 address ∨
    ∃ inner, V6.mapped address = some inner ∧ V4.Private inner

def hexDigits : List Char :=
  "0123456789abcdef".toList

/-- One to four hexadecimal digits in any letter case, with leading zeros or not. -/
def Group (text : List Char) (word : Nat) : Prop :=
  1 ≤ text.length ∧ text.length ≤ 4 ∧ Numerals.readFrom hexDigits 0 (text.map Char.toLower) = some word

/-- Groups one by one, the last two of them perhaps as a dotted quad. -/
inductive Pieces : List (List Char) → List Nat → Prop
  | nil : Pieces [] []
  | quad (address : V4) : Pieces [V4.text address] [address.val / 65536, address.val % 65536]
  | group {text word texts words} : Group text word → Pieces texts words → Pieces (text :: texts) (word :: words)

/-- The textual forms of eight words: `::` may stand once, for one zero or more. -/
inductive Spells (words : List Nat) : List Char → Prop
  | full {pieces} : words.length = 8 → Pieces pieces words → Spells words ([':'].intercalate pieces)
  | compressed {front back wordsFront wordsBack} (zeros : Nat) : List.Forall₂ Group front wordsFront →
      Pieces back wordsBack → 0 < zeros → wordsFront.length + zeros + wordsBack.length = 8 →
      words = wordsFront ++ List.replicate zeros 0 ++ wordsBack →
      Spells words ([':'].intercalate front ++ ':' :: ':' :: [':'].intercalate back)

inductive Address
  | v4 (address : V4)
  | v6 (address : V6)

def Address.Private : Address → Prop
  | v4 address => V4.Private address
  | v6 address => V6.Private address

/-- The text is one of the legal spellings of the address. -/
def Address.SpelledBy : Address → List Char → Prop
  | v4 address, text => text = V4.text address
  | v6 address, text => Spells (V6.words address) text

section
variable {text : List Char} {word : Nat} {words : List Nat} {pieces : List (List Char)}

theorem hexDigits_nodup : hexDigits.Nodup := by decide

theorem exists_hexDigits (group : Group text word) : ∃ digits : List (Fin hexDigits.length),
    text.map Char.toLower = digits.map hexDigits.get ∧ digits.length ≤ 4 ∧
      word = Nat.ofDigits 16 (digits.map Fin.val).reverse := by
  obtain ⟨_, length, read⟩ := group
  obtain ⟨digits, letters⟩ := Numerals.exists_digits read
  have sizes := congrArg List.length letters
  rw [List.length_map, List.length_map] at sizes
  rw [letters, Numerals.readFrom_digits hexDigits_nodup, Nat.zero_mul, Nat.zero_add] at read
  exact ⟨digits, letters, by omega, (Option.some.inj read).symm⟩

theorem Group.toLower_mem (group : Group text word) {c : Char} (member : c ∈ text) : c.toLower ∈ hexDigits := by
  obtain ⟨digits, letters, _⟩ := exists_hexDigits group
  have image : c.toLower ∈ text.map Char.toLower := List.mem_map_of_mem member
  rw [letters] at image
  obtain ⟨digit, _, same⟩ := List.mem_map.mp image
  exact same ▸ List.get_mem hexDigits digit

theorem Group.lt_pow (group : Group text word) : word < 16 ^ text.length := by
  obtain ⟨_, _, read⟩ := group
  have below := Numerals.readFrom_lt_pow hexDigits_nodup (by decide) read
  rwa [List.length_map] at below

/-- Only a group of four digits has anything in its upper byte. -/
theorem Group.upper_byte (group : Group text word) :
    word / 256 = 0xfd ↔ ∃ c d, text.map Char.toLower = ['f', 'd', c, d] := by
  have below := group.lt_pow
  obtain ⟨digits, letters, length, rfl⟩ := exists_hexDigits group
  have sizes := congrArg List.length letters
  rw [List.length_map, List.length_map] at sizes
  rw [letters]
  have letter_f (digit : Fin hexDigits.length) : hexDigits.get digit = 'f' ↔ digit.val = 15 := by
    revert digit
    decide
  have letter_d (digit : Fin hexDigits.length) : hexDigits.get digit = 'd' ↔ digit.val = 13 := by
    revert digit
    decide
  rcases Nat.lt_or_eq_of_le length with short | four
  · have power : 16 ^ text.length ≤ 16 ^ 3 := Nat.pow_le_pow_right (by decide) (by omega)
    refine iff_of_false (by omega) ?_
    rintro ⟨c, d, same⟩
    have four := congrArg List.length same
    rw [List.length_map] at four
    exact absurd four (Nat.ne_of_lt short)
  · obtain ⟨a, b, c, d, rfl⟩ := List.length_eq_four.mp four
    have value : Nat.ofDigits 16 (([a, b, c, d] : List (Fin hexDigits.length)).map Fin.val).reverse =
        d.val + 16 * (c.val + 16 * (b.val + 16 * a.val)) := by
      simp [Nat.ofDigits_cons]
    have bound (digit : Fin hexDigits.length) : digit.val < 16 := digit.isLt
    have bound_b := bound b
    have bound_c := bound c
    have bound_d := bound d
    rw [value]
    constructor
    · intro upper
      refine ⟨hexDigits.get c, hexDigits.get d, ?_⟩
      rw [List.map_cons, List.map_cons, (letter_f a).mpr (by omega), (letter_d b).mpr (by omega)]
      rfl
    · rintro ⟨c', d', same⟩
      have first := (letter_f a).mp (List.cons.inj same).1
      have second := (letter_d b).mp (List.cons.inj (List.cons.inj same).2).1
      omega

theorem V4.mem_text {address : V4} {c : Char} (member : c ∈ V4.text address) : c.isDigit = true ∨ c = '.' := by
  rcases Labels.mem_intercalate member with rfl | ⟨number, listed, inside⟩
  · exact Or.inr rfl
  · obtain ⟨i, _, rfl⟩ := List.mem_map.mp listed
    exact Or.inl (Nat.isDigit_of_mem_toDigits (by decide) (by decide) inside)

/-- Digits, colons and dots. -/
def TextChar (c : Char) : Prop :=
  c.toLower ∈ hexDigits ∨ c = ':' ∨ c = '.'

theorem textChar_of_digit {c : Char} (digit : c.isDigit = true) : TextChar c := by
  simp only [Char.isDigit, Bool.and_eq_true, decide_eq_true_eq, UInt32.le_iff_toNat_le] at digit
  obtain ⟨lower, upper⟩ : 48 ≤ c.toNat ∧ c.toNat ≤ 57 := digit
  refine Or.inl ?_
  rw [← Char.ofNat_toNat c]
  generalize c.toNat = n at lower upper
  interval_cases n <;> decide

theorem textChar_of_v4 {address : V4} {c : Char} (member : c ∈ V4.text address) : TextChar c := by
  rcases V4.mem_text member with digit | dot
  · exact textChar_of_digit digit
  · exact Or.inr (Or.inr dot)

theorem pieces_of_groups {texts : List (List Char)} (groups : List.Forall₂ Group texts words) :
    Pieces texts words := by
  induction groups with
  | nil => exact .nil
  | cons own _ ih => exact .group own ih

theorem Pieces.textChar (spelled : Pieces pieces words) {piece : List Char} (listed : piece ∈ pieces) {c : Char}
    (member : c ∈ piece) : TextChar c := by
  induction spelled with
  | nil => cases listed
  | quad address =>
    cases List.mem_singleton.mp listed
    exact textChar_of_v4 member
  | group own _ ih =>
    rcases List.mem_cons.mp listed with rfl | later
    · exact Or.inl (own.toLower_mem member)
    · exact ih later

theorem Spells.textChar (spelled : Spells words text) {c : Char} (member : c ∈ text) : TextChar c := by
  have joined {pieces : List (List Char)} {c : Char} (each : ∀ piece ∈ pieces, ∀ c ∈ piece, TextChar c)
      (member : c ∈ [':'].intercalate pieces) : TextChar c := by
    rcases Labels.mem_intercalate member with rfl | ⟨piece, listed, inside⟩
    · exact Or.inr (Or.inl rfl)
    · exact each piece listed c inside
  cases spelled with
  | full _ pieces => exact joined (fun _ listed _ => pieces.textChar listed) member
  | compressed zeros front back _ _ _ =>
    rcases List.mem_append.mp member with before | after
    · exact joined (fun _ listed _ => (pieces_of_groups front).textChar listed) before
    · rcases List.mem_cons.mp after with rfl | after
      · exact Or.inr (Or.inl rfl)
      rcases List.mem_cons.mp after with rfl | after
      · exact Or.inr (Or.inl rfl)
      · exact joined (fun _ listed _ => back.textChar listed) after

/-- The text goes up to its first colon with the first word, or with none if it is zero. -/
theorem Spells.head (spelled : Spells words text) : ∃ first rest, text = first ++ ':' :: rest ∧
    (first = [] ∧ words.head? = some 0 ∨ ∃ word, Group first word ∧ words.head? = some word) := by
  cases spelled with
  | full eight pieces =>
    cases pieces with
    | nil => cases eight
    | quad => cases eight
    | @group first word rest words own later =>
      have more : rest ≠ [] := by
        rintro rfl
        cases later
        cases eight
      rw [List.intercalate_cons_of_ne_nil more, List.append_assoc]
      exact ⟨first, _, rfl, Or.inr ⟨word, own, rfl⟩⟩
  | @compressed front back wordsFront wordsBack zeros groups _ positive _ same =>
    subst same
    cases groups with
    | nil =>
      obtain ⟨n, rfl⟩ := Nat.exists_eq_add_of_lt positive
      exact ⟨[], _, rfl, Or.inl ⟨rfl, by rw [Nat.zero_add]; rfl⟩⟩
    | @cons first word rest words own _ =>
      by_cases last : rest = []
      · rw [last, List.intercalate_singleton]
        exact ⟨first, _, rfl, Or.inr ⟨word, own, rfl⟩⟩
      · rw [List.intercalate_cons_of_ne_nil last, List.append_assoc, List.append_assoc]
        exact ⟨first, _, rfl, Or.inr ⟨word, own, rfl⟩⟩

end

end IpAddress
