import Mathlib.Data.List.Basic

namespace Markup

/-- `\t`, `\n`, `\f`, `\r` and the blank. -/
def blank (c : Char) : Bool :=
  c = '\t' || c = '\n' || c = '\x0c' || c = '\r' || c = ' '

structure Tag where
  closing : Bool
  name : List Char
  attributes : List (List Char × List Char) := []
  deriving DecidableEq

/-- Of two attributes with one name, the first stays. -/
def Tag.add (t : Tag) (name value : List Char) : Tag :=
  if (t.attributes.lookup name).isSome then t else { t with attributes := t.attributes ++ [(name, value)] }

inductive Token
  | tag (t : Tag)
  | declaration (text : List Char)
  | text (c : Char)
  deriving DecidableEq

/-- The states of the tokenizer. Text is kept as the page spells it. -/
inductive State
  | data
  | raw (element : List Char)
  | rawEnd (element seen : List Char)
  | tagOpen
  | endTagOpen
  | declaration (seen : List Char)
  | tagName (t : Tag)
  | beforeName (t : Tag)
  | attributeName (t : Tag) (name : List Char)
  | afterName (t : Tag) (name : List Char)
  | beforeValue (t : Tag) (name : List Char)
  | quoted (t : Tag) (name : List Char) (quote : Char) (value : List Char)
  | unquoted (t : Tag) (name value : List Char)
  | afterValue (t : Tag)
  deriving DecidableEq

/-- Elements without markup inside. -/
def rawElements : List (List Char) :=
  ["title", "textarea", "style", "script", "xmp", "iframe", "noembed", "noframes"].map String.toList

def emit (t : Tag) : State × List Token :=
  (if t.closing = false ∧ t.name ∈ rawElements then .raw t.name else .data, [.tag t])

/-- A comment goes on over every `>` but the one after `--` or `--!`. -/
def declarationEnds (seen : List Char) : Bool :=
  !(['-', '-'].isPrefixOf seen) || ['-', '-'].isSuffixOf seen || (5 ≤ seen.length && ['-', '-', '!'].isSuffixOf seen)

def beginName (t : Tag) (c : Char) : State × List Token :=
  if blank c || c = '/' then (.beforeName t, [])
  else if c = '>' then emit t
  else (.attributeName t [c.toLower], [])

def State.step : State → Char → State × List Token
  | data, c => if c = '<' then (tagOpen, []) else (data, [.text c])
  | raw element, c => if c = '<' then (rawEnd element [c], []) else (raw element, [.text c])
  | rawEnd element seen, c =>
    if seen.map Char.toLower = '<' :: '/' :: element ∧ (blank c || c = '/' || c = '>') = true then
      beginName ⟨true, element, []⟩ c
    else if (seen ++ [c]).map Char.toLower <+: '<' :: '/' :: element then (rawEnd element (seen ++ [c]), [])
    else if c = '<' then (rawEnd element [c], seen.map .text)
    else (raw element, (seen ++ [c]).map .text)
  | tagOpen, c =>
    if c = '/' then (endTagOpen, [])
    else if c = '!' || c = '?' then (declaration [], [])
    else if c.isAlpha then (tagName ⟨false, [c.toLower], []⟩, [])
    else if c = '<' then (tagOpen, [.text '<'])
    else (data, [.text '<', .text c])
  | endTagOpen, c =>
    if c.isAlpha then (tagName ⟨true, [c.toLower], []⟩, [])
    else if c = '>' then (data, [])
    else (declaration [c], [])
  | declaration seen, c =>
    if c = '>' ∧ declarationEnds seen = true then (data, [.declaration seen]) else (declaration (seen ++ [c]), [])
  | tagName t, c =>
    if blank c || c = '/' then (beforeName t, [])
    else if c = '>' then emit t
    else (tagName { t with name := t.name ++ [c.toLower] }, [])
  | beforeName t, c => beginName t c
  | attributeName t name, c =>
    if blank c then (afterName t name, [])
    else if c = '=' then (beforeValue t name, [])
    else if c = '/' || c = '>' then beginName (t.add name []) c
    else (attributeName t (name ++ [c.toLower]), [])
  | afterName t name, c =>
    if blank c then (afterName t name, [])
    else if c = '=' then (beforeValue t name, [])
    else beginName (t.add name []) c
  | beforeValue t name, c =>
    if blank c then (beforeValue t name, [])
    else if c = '"' || c = '\'' then (quoted t name c [], [])
    else if c = '>' then emit (t.add name [])
    else (unquoted t name [c], [])
  | quoted t name quote value, c =>
    if c = quote then (afterValue (t.add name value), []) else (quoted t name quote (value ++ [c]), [])
  | unquoted t name value, c =>
    if blank c then (beforeName (t.add name value), [])
    else if c = '>' then emit (t.add name value)
    else (unquoted t name (value ++ [c]), [])
  | afterValue t, c => beginName t c

def State.run (s : State) : List Char → State × List Token
  | [] => (s, [])
  | c :: rest =>
    let (later, first) := s.step c
    let (last, tokens) := later.run rest
    (last, first ++ tokens)

/-- The tokens of a page. -/
def tokens (page : List Char) : List Token :=
  (State.data.run page).2

/-- What a tokenized page keeps of its tags: their names and those of their attributes. -/
def shape (tokens : List Token) : List (Bool × List Char × List (List Char)) :=
  tokens.filterMap fun
    | .tag t => some (t.closing, t.name, t.attributes.map Prod.fst)
    | _ => none

/-- The value of an attribute of the first tag with the given name. -/
def valueOf (name key : List Char) : List Token → Option (List Char)
  | [] => none
  | .tag t :: rest => if t.closing = false ∧ t.name = name then t.attributes.lookup key else valueOf name key rest
  | _ :: rest => valueOf name key rest

/-- The text that begins with a list of tokens. -/
def leadingText : List Token → List Char
  | .text c :: rest => c :: leadingText rest
  | _ => []

/-- The text right after the first tag of the given class. -/
def textOf (element : List Char) : List Token → List Char
  | [] => []
  | .tag t :: rest =>
    if t.attributes.lookup "class".toList = some element then leadingText rest else textOf element rest
  | _ :: rest => textOf element rest

/-- The character references of a standard: the named ones, by what follows the
ampersand, and the characters of the numeric ones. -/
structure References where
  named : List Char → Option (List Char)
  codePoint : Nat → List Char
  amp : named "amp;".toList = some ['&']
  lt : named "lt;".toList = some ['<']
  gt : named "gt;".toList = some ['>']
  quot : named "quot;".toList = some ['"']
  semicolon_last : ∀ name value, named name = some value → ';' ∉ name.dropLast
  apostrophe : codePoint 0x27 = ['\'']

/-- The references of XML, but for the apostrophe by number only. -/
def References.predefined : References where
  named name :=
    if name = "amp;".toList then some ['&']
    else if name = "lt;".toList then some ['<']
    else if name = "gt;".toList then some ['>']
    else if name = "quot;".toList then some ['"']
    else none
  codePoint n := [Char.ofNat n]
  amp := rfl
  lt := rfl
  gt := rfl
  quot := rfl
  semicolon_last := by
    intro name value found
    by_cases amp : name = "amp;".toList
    · subst amp; decide
    by_cases lt : name = "lt;".toList
    · subst lt; decide
    by_cases gt : name = "gt;".toList
    · subst gt; decide
    by_cases quot : name = "quot;".toList
    · subst quot; decide
    rw [if_neg amp, if_neg lt, if_neg gt, if_neg quot] at found
    cases found
  apostrophe := rfl

namespace References

/-- The longest name that the text goes on with, after what was seen of it, and its value. -/
def longest (r : References) (seen : List Char) : List Char → Option (List Char × List Char)
  | [] => (r.named seen).map fun value => (seen, value)
  | c :: rest => (longest r (seen ++ [c]) rest).or ((r.named seen).map fun value => (seen, value))

def digit (c : Char) : Nat :=
  "0123456789abcdef".toList.idxOf c.toLower

/-- The characters of the numeric reference that follows `#` and `lead` more
characters, and how long it is. -/
def numeric (r : References) (base lead : Nat) (text : List Char) : Option (List Char × Nat) :=
  let digits := text.takeWhile fun c => digit c < base
  let closed := if (text.drop digits.length).head? = some ';' then 1 else 0
  if digits = [] then none
  else some (r.codePoint (digits.foldl (fun n c => n * base + digit c) 0), lead + digits.length + closed)

/-- A named reference. In an attribute a name without semicolon is none before
`=` and alphanumerics. -/
def byName (r : References) (inAttribute : Bool) (text : List Char) : Option (List Char × Nat) :=
  (r.longest [] text).bind fun (name, value) =>
    if inAttribute && name.getLast? ≠ some ';' &&
      (text.drop name.length).head?.any fun c => c = '=' || c.isAlphanum then none
    else some (value, name.length)

/-- What follows an ampersand as a reference: its characters and its length. -/
def reference (r : References) (inAttribute : Bool) : List Char → Option (List Char × Nat)
  | '#' :: 'x' :: rest => r.numeric 16 2 rest
  | '#' :: 'X' :: rest => r.numeric 16 2 rest
  | '#' :: rest => r.numeric 10 1 rest
  | text => r.byName inAttribute text

/-- The text with its references replaced, after `skip` characters that one has used up. -/
def decodeFrom (r : References) (inAttribute : Bool) : Nat → List Char → List Char
  | _, [] => []
  | skip + 1, _ :: rest => decodeFrom r inAttribute skip rest
  | 0, c :: rest =>
    if c = '&' then match r.reference inAttribute rest with
      | some (value, length) => value ++ decodeFrom r inAttribute length rest
      | none => c :: decodeFrom r inAttribute 0 rest
    else c :: decodeFrom r inAttribute 0 rest

def decode (r : References) (inAttribute : Bool) (text : List Char) : List Char :=
  r.decodeFrom inAttribute 0 text

end References

/-- The five characters that have a meaning in markup, as references. -/
def escapeChar : Char → List Char
  | '&' => "&amp;".toList
  | '<' => "&lt;".toList
  | '>' => "&gt;".toList
  | '"' => "&quot;".toList
  | '\'' => "&#x27;".toList
  | c => [c]

def escape (text : List Char) : List Char :=
  text.flatMap escapeChar

section
variable {s : State} {t : Tag} {name value word : List Char} {c quote : Char}

theorem run_cons (s : State) (c : Char) (rest : List Char) : s.run (c :: rest) =
    (((s.step c).1.run rest).1, (s.step c).2 ++ ((s.step c).1.run rest).2) :=
  rfl

theorem run_append (s : State) (front back : List Char) : s.run (front ++ back) =
    (((s.run front).1.run back).1, (s.run front).2 ++ ((s.run front).1.run back).2) := by
  induction front generalizing s with
  | nil => rfl
  | cons c rest ih => simp only [List.cons_append, run_cons, ih, List.append_assoc]

/-- Text without `<` is text. -/
theorem run_data (word : List Char) (plain : '<' ∉ word) : State.data.run word = (.data, word.map .text) := by
  induction word with
  | nil => rfl
  | cons c rest ih =>
    have other : c ≠ '<' := fun same => plain (same ▸ List.mem_cons_self)
    have step : State.data.step c = (.data, [.text c]) := if_neg other
    rw [run_cons, step, ih fun later => plain (List.mem_cons_of_mem _ later)]
    rfl

/-- A quoted value goes on up to its quote. -/
theorem run_quoted (word : List Char) (plain : quote ∉ word) :
    (State.quoted t name quote value).run word = (.quoted t name quote (value ++ word), []) := by
  induction word generalizing value with
  | nil => rw [List.append_nil]; rfl
  | cons c rest ih =>
    have other : c ≠ quote := fun same => plain (same ▸ List.mem_cons_self)
    have step : (State.quoted t name quote value).step c = (.quoted t name quote (value ++ [c]), []) := if_neg other
    rw [run_cons, step, ih fun later => plain (List.mem_cons_of_mem _ later), List.append_assoc]
    rfl

theorem shape_append (front back : List Token) : shape (front ++ back) = shape front ++ shape back :=
  List.filterMap_append

theorem shape_text (word : List Char) : shape (word.map .text) = [] := by
  rw [shape, List.filterMap_map]
  exact List.filterMap_eq_nil_iff.mpr fun _ _ => rfl

/-- The token begins an element of the given name. -/
def Token.opens (name : List Char) : Token → Bool
  | .tag t => !t.closing && t.name = name
  | _ => false

def Token.hasClass (element : List Char) : Token → Bool
  | .tag t => t.attributes.lookup "class".toList = some element
  | _ => false

theorem valueOf_append {key : List Char} {front : List Token} (none : front.all (fun token => !token.opens name) = true)
    (back : List Token) : valueOf name key (front ++ back) = valueOf name key back := by
  induction front with
  | nil => rfl
  | cons token front ih =>
    obtain ⟨first, later⟩ := Bool.and_eq_true_iff.mp none
    cases token with
    | tag t =>
      have other : ¬ (t.closing = false ∧ t.name = name) := by
        rintro ⟨opening, same⟩
        have here : Token.opens name (.tag t) = true := by rw [Token.opens, opening, decide_eq_true same]; rfl
        simp only [here] at first
        cases first
      rw [List.cons_append, valueOf, if_neg other, ih later]
    | declaration => exact ih later
    | text => exact ih later

theorem opens_text (word : List Char) : (word.map Token.text).all (fun token => !token.opens name) = true := by
  rw [List.all_map]
  exact List.all_eq_true.mpr fun _ _ => rfl

theorem textOf_append {element : List Char} {front : List Token}
    (none : front.all (fun token => !token.hasClass element) = true) (back : List Token) :
    textOf element (front ++ back) = textOf element back := by
  induction front with
  | nil => rfl
  | cons token front ih =>
    obtain ⟨first, later⟩ := Bool.and_eq_true_iff.mp none
    cases token with
    | tag t =>
      have other : ¬ t.attributes.lookup "class".toList = some element := by
        intro same
        have here : Token.hasClass element (.tag t) = true := decide_eq_true same
        simp only [here] at first
        cases first
      rw [List.cons_append, textOf, if_neg other, ih later]
    | declaration => exact ih later
    | text => exact ih later

theorem hasClass_text (word element : List Char) :
    (word.map Token.text).all (fun token => !token.hasClass element) = true := by
  rw [List.all_map]
  exact List.all_eq_true.mpr fun _ _ => rfl

theorem leadingText_append (word : List Char) (back : List Token) :
    leadingText (word.map .text ++ back) = word ++ leadingText back := by
  induction word with
  | nil => rfl
  | cons c word ih => rw [List.map_cons, List.cons_append, leadingText, ih, List.cons_append]

/-- No escaped text has one of the characters that end a text or a value. -/
theorem notMem_escape {text : List Char} (special : c ∈ ['<', '>', '"', '\'']) : c ∉ escape text := by
  intro member
  obtain ⟨letter, _, inside⟩ := List.mem_flatMap.mp member
  simp only [List.mem_cons, List.not_mem_nil, or_false] at special
  unfold escapeChar at inside
  split at inside
  case h_6 amp lt gt quot apostrophe =>
    cases List.mem_singleton.mp inside
    rcases special with rfl | rfl | rfl | rfl
    · exact lt rfl
    · exact gt rfl
    · exact quot rfl
    · exact apostrophe rfl
  all_goals
    rcases special with rfl | rfl | rfl | rfl <;> exact absurd inside (by decide)

end

namespace References
variable {r : References} {inAttribute : Bool} {text rest : List Char}

theorem decodeFrom_append (front back : List Char) :
    r.decodeFrom inAttribute front.length (front ++ back) = r.decodeFrom inAttribute 0 back := by
  induction front with
  | nil => rfl
  | cons c rest ih => exact ih

/-- What has a semicolon inside is no name. -/
theorem longest_none (seen rest : List Char) (closed : ';' ∈ seen) (c : Char) :
    r.longest (seen ++ [c]) rest = none := by
  have none (more : List Char) (c : Char) (closed : ';' ∈ more) : r.named (more ++ [c]) = none := by
    refine Option.eq_none_iff_forall_ne_some.mpr fun value found => ?_
    have last := r.semicolon_last _ value found
    rw [List.dropLast_concat] at last
    exact last closed
  induction rest generalizing seen c with
  | nil => rw [longest, none seen c closed]; rfl
  | cons d rest ih =>
    rw [longest, none seen c closed, ih (seen ++ [c]) (List.mem_append_left _ closed) d]
    rfl

theorem longest_closed (seen name rest : List Char) {value : List Char}
    (found : r.named (seen ++ name ++ [';']) = some value) :
    r.longest seen (name ++ ';' :: rest) = some (seen ++ name ++ [';'], value) := by
  induction name generalizing seen with
  | nil =>
    rw [List.append_nil] at found ⊢
    have ends : r.longest (seen ++ [';']) rest = some (seen ++ [';'], value) := by
      cases rest with
      | nil => rw [longest, found]; rfl
      | cons d rest => rw [longest, longest_none _ rest (List.mem_append_right _ List.mem_cons_self), found]; rfl
    rw [List.nil_append, longest, ends]
    rfl
  | cons c name ih =>
    have split : seen ++ c :: name = seen ++ [c] ++ name := by rw [List.append_assoc, List.singleton_append]
    rw [split] at found ⊢
    rw [List.cons_append, longest, ih (seen ++ [c]) found]
    rfl

theorem byName_closed (name rest : List Char) {value : List Char} (found : r.named (name ++ [';']) = some value) :
    r.byName inAttribute (name ++ ';' :: rest) = some (value, (name ++ [';']).length) := by
  have last : (name ++ [';']).getLast? = some ';' := List.getLast?_concat
  have read := longest_closed [] name rest (show r.named ([] ++ name ++ [';']) = some value from found)
  rw [List.nil_append] at read
  rw [byName, read, Option.bind_some]
  simp only [last, ne_eq, not_true, decide_false, Bool.and_false, Bool.false_and, Bool.false_eq_true, if_false]

/-- A reference is replaced as a whole. -/
theorem decodeFrom_reference (text value : List Char)
    (read : r.reference inAttribute (text ++ rest) = some (value, text.length)) :
    r.decodeFrom inAttribute 0 ('&' :: (text ++ rest)) = value ++ r.decodeFrom inAttribute 0 rest := by
  rw [decodeFrom, if_pos rfl, read]
  exact congrArg (value ++ ·) (decodeFrom_append text rest)

theorem decodeFrom_escapeChar (c : Char) (rest : List Char) :
    r.decodeFrom inAttribute 0 (escapeChar c ++ rest) = c :: r.decodeFrom inAttribute 0 rest := by
  unfold escapeChar
  split
  · exact decodeFrom_reference "amp;".toList ['&'] (byName_closed "amp".toList rest r.amp)
  · exact decodeFrom_reference "lt;".toList ['<'] (byName_closed "lt".toList rest r.lt)
  · exact decodeFrom_reference "gt;".toList ['>'] (byName_closed "gt".toList rest r.gt)
  · exact decodeFrom_reference "quot;".toList ['"'] (byName_closed "quot".toList rest r.quot)
  · refine decodeFrom_reference "#x27;".toList ['\''] ?_
    show some (r.codePoint 0x27, 5) = some (['\''], 5)
    rw [r.apostrophe]
  · rename_i amp lt gt quot apostrophe
    rw [List.singleton_append, decodeFrom, if_neg amp]

/-- Decoding takes back what escaping does, in attributes and in text. -/
theorem decode_escape (text : List Char) : r.decode inAttribute (escape text) = text := by
  rw [decode]
  induction text with
  | nil => rfl
  | cons c rest ih => rw [escape, List.flatMap_cons, decodeFrom_escapeChar, ← escape, ih]

end References
end Markup
