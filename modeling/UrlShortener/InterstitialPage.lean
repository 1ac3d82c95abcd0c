import UrlShortener.General.Markup
import UrlShortener.UrlHost

namespace UrlShortener
open Markup

/-- Where the `%` of strings stands in its format. -/
inductive FormatMode
  | text
  | percent
  | key (seen : List Char)
  | conversion (key : List Char)

/-- The `%` of strings with a dict, as far as `%%` and `%(key)s` go; `none` for
another conversion and for a key that is missing. -/
def formatFrom (values : List Char → Option (List Char)) : FormatMode → List Char → Option (List Char)
  | .text, [] => some []
  | .text, c :: rest =>
    if c = '%' then formatFrom values .percent rest else (formatFrom values .text rest).map (c :: ·)
  | .percent, c :: rest =>
    if c = '%' then (formatFrom values .text rest).map (c :: ·)
    else if c = '(' then formatFrom values (.key []) rest
    else none
  | .key seen, c :: rest =>
    if c = ')' then formatFrom values (.conversion seen) rest else formatFrom values (.key (seen ++ [c])) rest
  | .conversion key, c :: rest =>
    if c = 's' then (values key).bind fun value => (formatFrom values .text rest).map (value ++ ·) else none
  | _, [] => none

def htmlBeforeReason : String := "<!doctype html><meta charset=\"utf-8\">
<title>Leaving - check this link</title>
<style>body\x7bfont:15px/1.6 -apple-system,Segoe UI,Roboto,sans-serif;max-width:640px;
margin:12vh auto;padding:0 20px;color:#222\x7d
.dest\x7bbackground:#f6f6f6;border:1px solid #e2e2e2;border-radius:6px;padding:12px;
word-break:break-all;font-family:ui-monospace,Menlo,Consolas,monospace;font-size:13px\x7d
.why\x7bcolor:#8a6d1f;background:#fff9e6;border:1px solid #f0e0a8;border-radius:6px;padding:10px 12px\x7d
a.go\x7bdisplay:inline-block;margin-top:18px;padding:9px 16px;background:#222;color:#fff;
border-radius:6px;text-decoration:none\x7d
.small\x7bcolor:#888;font-size:12.5px;margin-top:22px\x7d</style>
<h2>You are about to leave</h2>
<p class=\"why\">"

def htmlBeforeText : String := "</p>
<p>This short link points to:</p>
<div class=\"dest\">"

def htmlBeforeHref : String := "</div>
<a class=\"go\" rel=\"noopener noreferrer nofollow\" href=\""

def htmlAfterHref : String := "\">Continue to this site</a>
<p class=\"small\">The destination is shown in full because a short link hides it, and
hiding the destination is what makes short links useful to phishing. Nothing on this
page loads from the destination.</p>
"

/-- `INTERSTITIAL_HTML`. -/
def interstitialHtml : String :=
  htmlBeforeReason ++ "%(reason)s" ++ htmlBeforeText ++ "%(target)s" ++ htmlBeforeHref ++ "%(target)s" ++ htmlAfterHref

/-- The dict that `render_interstitial` fills the page with. -/
def pageValues (target reason : String) (key : List Char) : Option (List Char) :=
  if key = "target".toList then some (escape target.toList)
  else if key = "reason".toList then some (escape reason.toList)
  else none

def renderInterstitial (target reason : String) : Option String :=
  (formatFrom (pageValues target reason) .text interstitialHtml.toList).map String.ofList

/-- The targets that `CreateRequest` accepts. -/
def createRequestTarget (target : String) : Bool :=
  1 ≤ target.length && target.length ≤ 2048 && httpUrl target

section
variable {values : List Char → Option (List Char)} {word key : List Char}

theorem formatFrom_append (plain : '%' ∉ word) (rest : List Char) :
    formatFrom values .text (word ++ rest) = (formatFrom values .text rest).map (word ++ ·) := by
  induction word with
  | nil => exact Option.map_id'.symm
  | cons c word ih =>
    have other : c ≠ '%' := fun same => plain (same ▸ List.mem_cons_self)
    rw [List.cons_append, formatFrom, if_neg other, ih fun later => plain (List.mem_cons_of_mem _ later), Option.map_map]
    rfl

theorem formatFrom_key (seen : List Char) (closed : ')' ∉ key) (rest : List Char) :
    formatFrom values (.key seen) (key ++ ')' :: rest) = formatFrom values (.conversion (seen ++ key)) rest := by
  induction key generalizing seen with
  | nil => rw [List.append_nil]; rfl
  | cons c key ih =>
    have other : c ≠ ')' := fun same => closed (same ▸ List.mem_cons_self)
    rw [List.cons_append, formatFrom, if_neg other, ih (seen ++ [c]) fun later => closed (List.mem_cons_of_mem _ later),
      List.append_assoc, List.singleton_append]

theorem formatFrom_field (closed : ')' ∉ key) {value : List Char} (given : values key = some value) (rest : List Char) :
    formatFrom values .text ('%' :: '(' :: (key ++ ')' :: 's' :: rest)) =
      (formatFrom values .text rest).map (value ++ ·) := by
  show formatFrom values (.key []) (key ++ ')' :: 's' :: rest) = _
  rw [formatFrom_key [] closed, List.nil_append, formatFrom, if_pos rfl, given, Option.bind_some]

end

/-! What the fixed parts of the page leave the tokenizer in. -/
section
set_option maxRecDepth 20000

theorem beforeReason : '%' ∉ htmlBeforeReason.toList ∧ (State.data.run htmlBeforeReason.toList).1 = .data ∧
    (State.data.run htmlBeforeReason.toList).2.all (fun token => !token.opens "a".toList && !token.hasClass "dest".toList) =
      true := by
  rw [htmlBeforeReason, String.toList_ofList]
  decide +kernel

theorem beforeText : '%' ∉ htmlBeforeText.toList ∧ (State.data.run htmlBeforeText.toList).1 = .data ∧
    (State.data.run htmlBeforeText.toList).2.all (fun token => !token.opens "a".toList) = true ∧
    (State.data.run htmlBeforeText.toList).2.dropLast.all (fun token => !token.hasClass "dest".toList) = true ∧
    (State.data.run htmlBeforeText.toList).2.getLast? =
      some (.tag ⟨false, "div".toList, [("class".toList, "dest".toList)]⟩) := by
  rw [htmlBeforeText, String.toList_ofList]
  decide +kernel

/-- The tag of the link before its `href`. -/
def linkTag : Tag :=
  ⟨false, "a".toList, [("class".toList, "go".toList), ("rel".toList, "noopener noreferrer nofollow".toList)]⟩

theorem beforeHref : '%' ∉ htmlBeforeHref.toList ∧
    (State.data.run htmlBeforeHref.toList).1 = .quoted linkTag "href".toList '"' [] ∧
    (State.data.run htmlBeforeHref.toList).2.all (fun token => !token.opens "a".toList) = true ∧
    (State.data.run htmlBeforeHref.toList).2.head? = some (.tag ⟨true, "div".toList, []⟩) := by
  rw [htmlBeforeHref, String.toList_ofList]
  decide +kernel

theorem afterHref : '%' ∉ htmlAfterHref.toList ∧
    htmlAfterHref.toList = '"' :: '>' :: htmlAfterHref.toList.drop 2 := by
  rw [htmlAfterHref, String.toList_ofList]
  decide +kernel

end
/-- The tokens after the opening quote of the `href`. -/
def linkTokens (href : List Char) : List Token :=
  .tag (linkTag.add "href".toList href) :: (State.data.run (htmlAfterHref.toList.drop 2)).2

section
variable {target reason : String}

theorem renderInterstitial_eq (target reason : String) : renderInterstitial target reason = some (String.ofList
    (htmlBeforeReason.toList ++ (escape reason.toList ++ (htmlBeforeText.toList ++ (escape target.toList ++
      (htmlBeforeHref.toList ++ (escape target.toList ++ htmlAfterHref.toList))))))) := by
  have template : interstitialHtml.toList = htmlBeforeReason.toList ++ '%' :: '(' :: ("reason".toList ++ ')' :: 's' ::
      (htmlBeforeText.toList ++ '%' :: '(' :: ("target".toList ++ ')' :: 's' :: (htmlBeforeHref.toList ++
        '%' :: '(' :: ("target".toList ++ ')' :: 's' :: (htmlAfterHref.toList ++ [])))))) := by
    simp only [interstitialHtml, String.toList_append, List.append_assoc, List.append_nil]
    rfl
  have reasonGiven : pageValues target reason "reason".toList = some (escape reason.toList) := rfl
  have targetGiven : pageValues target reason "target".toList = some (escape target.toList) := rfl
  rw [renderInterstitial, template, formatFrom_append beforeReason.1, formatFrom_field (by decide) reasonGiven,
    formatFrom_append beforeText.1, formatFrom_field (by decide) targetGiven, formatFrom_append beforeHref.1,
    formatFrom_field (by decide) targetGiven, formatFrom_append afterHref.1]
  simp only [formatFrom, Option.map_some, List.append_nil]

/-- Of the tokens of the page, the target is text after one tag and the `href` of another. -/
theorem tokens_page (target reason : List Char) : tokens (htmlBeforeReason.toList ++ (escape reason ++
    (htmlBeforeText.toList ++ (escape target ++ (htmlBeforeHref.toList ++ (escape target ++ htmlAfterHref.toList)))))) =
      (State.data.run htmlBeforeReason.toList).2 ++ ((escape reason).map .text ++
        ((State.data.run htmlBeforeText.toList).2 ++ ((escape target).map .text ++
          ((State.data.run htmlBeforeHref.toList).2 ++ linkTokens (escape target))))) := by
  have text (word : List Char) : State.data.run (escape word) = (.data, (escape word).map .text) :=
    run_data _ (notMem_escape (by decide))
  have value : (State.quoted linkTag "href".toList '"' []).run (escape target) =
      (.quoted linkTag "href".toList '"' (escape target), []) :=
    run_quoted _ (notMem_escape (by decide))
  have closed (href rest : List Char) : ((State.quoted linkTag "href".toList '"' href).run ('"' :: '>' :: rest)).2 =
      .tag (linkTag.add "href".toList href) :: (State.data.run rest).2 := rfl
  have link (href : List Char) : ((State.quoted linkTag "href".toList '"' href).run htmlAfterHref.toList).2 =
      linkTokens href := by
    rw [afterHref.2]
    exact closed href _
  rw [tokens, run_append, beforeReason.2.1, run_append, text, run_append, beforeText.2.1, run_append, text, run_append,
    beforeHref.2.1, run_append, value]
  simp only [link, List.nil_append]

theorem shape_page (target reason : List Char) : shape (tokens (htmlBeforeReason.toList ++ (escape reason ++
    (htmlBeforeText.toList ++ (escape target ++ (htmlBeforeHref.toList ++ (escape target ++ htmlAfterHref.toList))))))) =
      shape (State.data.run htmlBeforeReason.toList).2 ++ (shape (State.data.run htmlBeforeText.toList).2 ++
        (shape (State.data.run htmlBeforeHref.toList).2 ++ shape (linkTokens []))) := by
  have link (href : List Char) : shape (linkTokens href) = shape (linkTokens []) := rfl
  rw [tokens_page]
  simp only [shape_append, shape_text, List.nil_append, link (escape target)]

theorem href_page (target reason : List Char) : valueOf "a".toList "href".toList (tokens (htmlBeforeReason.toList ++
    (escape reason ++ (htmlBeforeText.toList ++ (escape target ++ (htmlBeforeHref.toList ++
      (escape target ++ htmlAfterHref.toList))))))) = some (escape target) := by
  have first : (State.data.run htmlBeforeReason.toList).2.all (fun token => !token.opens "a".toList) = true := by
    refine List.all_eq_true.mpr fun token member => ?_
    exact (Bool.and_eq_true_iff.mp (List.all_eq_true.mp beforeReason.2.2 token member)).1
  rw [tokens_page, valueOf_append first, valueOf_append (opens_text _), valueOf_append beforeText.2.2.1,
    valueOf_append (opens_text _), valueOf_append beforeHref.2.2.1]
  rfl

theorem text_page (target reason : List Char) : textOf "dest".toList (tokens (htmlBeforeReason.toList ++
    (escape reason ++ (htmlBeforeText.toList ++ (escape target ++ (htmlBeforeHref.toList ++
      (escape target ++ htmlAfterHref.toList))))))) = escape target := by
  have first : (State.data.run htmlBeforeReason.toList).2.all (fun token => !token.hasClass "dest".toList) = true := by
    refine List.all_eq_true.mpr fun token member => ?_
    exact (Bool.and_eq_true_iff.mp (List.all_eq_true.mp beforeReason.2.2 token member)).2
  obtain ⟨_, _, _, before, last⟩ := beforeText
  obtain ⟨front, same⟩ := List.getLast?_eq_some_iff.mp last
  rw [same, List.dropLast_concat] at before
  rw [tokens_page, textOf_append first, textOf_append (hasClass_text _ _), same, List.append_assoc, textOf_append before]
  obtain ⟨rest, next⟩ := List.head?_eq_some_iff.mp beforeHref.2.2.2
  show leadingText ((escape target).map .text ++ _) = escape target
  rw [leadingText_append, next, List.cons_append, leadingText, List.append_nil]
  exact fun _ _ same => by cases same

end

/-- What the tags of the page are, without the target and the reason. -/
def pageShape : List (Bool × List Char × List (List Char)) :=
  shape (State.data.run htmlBeforeReason.toList).2 ++ (shape (State.data.run htmlBeforeText.toList).2 ++
    (shape (State.data.run htmlBeforeHref.toList).2 ++ shape (linkTokens [])))

/-- The page has one shape for all targets and reasons, and shows and links the
target as it was given. -/
theorem page_not_shaped_by_target (references : References) :
    ∃ fixed, ∀ target reason, createRequestTarget target = true →
      ∃ page, renderInterstitial target reason = some page ∧ shape (tokens page.toList) = fixed ∧
        (∃ href, valueOf "a".toList "href".toList (tokens page.toList) = some href ∧
          references.decode true href = target.toList ∧
          httpUrl (String.ofList (references.decode true href)) = true) ∧
        references.decode false (textOf "dest".toList (tokens page.toList)) = target.toList := by
  refine ⟨pageShape, fun target reason accepted => ?_⟩
  refine ⟨_, renderInterstitial_eq target reason, ?_⟩
  rw [String.toList_ofList]
  refine ⟨shape_page target.toList reason.toList, ⟨escape target.toList, ?_, ?_, ?_⟩, ?_⟩
  · exact href_page target.toList reason.toList
  · exact References.decode_escape _
  · rw [References.decode_escape, String.ofList_toList]
    exact (Bool.and_eq_true_iff.mp accepted).2
  · rw [text_page]
    exact References.decode_escape _

theorem page_of_script_target :
    ∃ page, renderInterstitial "https://x.test/\"><script>alert(1)</script>" "low trust" = some page ∧
      References.predefined.decode false (textOf "dest".toList (tokens page.toList)) =
        "https://x.test/\"><script>alert(1)</script>".toList := by
  obtain ⟨_, same⟩ := page_not_shaped_by_target .predefined
  obtain ⟨page, rendered, _, _, shown⟩ :=
    same "https://x.test/\"><script>alert(1)</script>" "low trust" (by decide)
  exact ⟨page, rendered, shown⟩

end UrlShortener
