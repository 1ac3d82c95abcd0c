import UrlShortener.General.Labels
import UrlShortener.General.Patterns
import UrlShortener.Abuse
import UrlShortener.UrlHost

namespace UrlShortener

def shortenerDomains : Finset String :=
  {"bit.ly", "tinyurl.com", "t.co", "goo.gl", "ow.ly", "is.gd", "buff.ly",
    "adf.ly", "bit.do", "cutt.ly", "rebrand.ly", "shorturl.at", "rb.gy", "s.id"}

def defaultBlocklist : Finset String :=
  {"malware-example.test", "phish-example.test"}

def lowTrustSuffixes : List String :=
  [".zip", ".mov", ".top", ".xyz", ".click", ".duckdns.org", ".ngrok.io", ".trycloudflare.com"]

section
open Regex

def exactly (text : String) : Regex :=
  literal text.toList

/-- A text under re.I. -/
def TextTables.folded (t : TextTables) (text : String) : Regex :=
  word (text.toList.map t.folds)

/-- `[0-9a-f]` under re.I. -/
def TextTables.hexDigit (t : TextTables) : Regex :=
  one fun c => "0123456789abcdef".toList.any fun digit => t.folds digit c

def privateHostPatterns (t : TextTables) : List Regex := [
  seq start (seq (t.folded "localhost") finish),
  seq start (exactly "127."),
  seq start (exactly "10."),
  seq start (exactly "192.168."),
  seq start (seq (exactly "172.")
    (seq (alt (seq (exactly "1") (one fun c => '6' ≤ c && c ≤ '9'))
      (alt (seq (exactly "2") (one t.digit)) (seq (exactly "3") (one fun c => c = '0' || c = '1'))))
    (exactly "."))),
  seq start (exactly "169.254."),
  seq start (seq (opt (exactly "[")) (seq (exactly "::1") (seq (opt (exactly "]")) finish))),
  seq start (seq (opt (exactly "[")) (seq (t.folded "fd") (seq t.hexDigit (seq t.hexDigit (exactly ":"))))),
  seq (exactly ".") (seq (t.folded "internal") finish),
  seq (exactly ".") (seq (t.folded "local") finish)]

end

def privateHost (t : TextTables) (host : String) : Bool :=
  (privateHostPatterns t).any fun p => p.search host.toList

def registrableSuffixMatch (host : String) (domains : Finset String) : Bool :=
  decide (∃ d ∈ domains, host = d ∨ ("." ++ d).toList <:+ host.toList)

structure ReputationPolicy where
  blocklist : Finset String := defaultBlocklist
  shorteners : Finset String := shortenerDomains
  lowTrust : List String := lowTrustSuffixes
  allowPrivate : Bool := false

namespace ReputationPolicy

/-- `host.endswith(self.low_trust)`. -/
def lowTrustHost (p : ReputationPolicy) (host : String) : Bool :=
  p.lowTrust.any fun suffix => suffix.toList.isSuffixOf host.toList

/-- `evaluate` from the host on. -/
def judge (t : TextTables) (p : ReputationPolicy) (host : String) : Verdict :=
  if host = "" then ⟨.refuse, "unparseable or hostless URL", ""⟩
  else if !p.allowPrivate && privateHost t host then
    ⟨.refuse, "destination is a private or link-local address", host⟩
  else if registrableSuffixMatch host p.blocklist then
    ⟨.refuse, "destination domain is blocklisted", host⟩
  else if registrableSuffixMatch host p.shorteners then
    ⟨.refuse, "chaining another shortener hides the real destination", host⟩
  else if p.lowTrustHost host then
    ⟨.interstitial, "low-trust domain: destination shown before redirect", host⟩
  else ⟨.allow, "ok", host⟩

def evaluate (t : TextTables) (p : ReputationPolicy) (url : String) : Verdict :=
  p.judge t (hostOf t url)

/-- One of the refusing rules fires. -/
def refuses (t : TextTables) (p : ReputationPolicy) (host : String) : Bool :=
  host = "" || (!p.allowPrivate && privateHost t host) || registrableSuffixMatch host p.blocklist ||
    registrableSuffixMatch host p.shorteners

variable {t : TextTables} {p : ReputationPolicy} {host url : String}

theorem refuses_iff : p.refuses t host = true ↔ host = "" ∨ (p.allowPrivate = false ∧ privateHost t host = true) ∨
    registrableSuffixMatch host p.blocklist = true ∨ registrableSuffixMatch host p.shorteners = true := by
  simp only [refuses, Bool.or_eq_true, Bool.and_eq_true, Bool.not_eq_true', decide_eq_true_eq, or_assoc]

theorem judge_action : (p.judge t host).action =
    if p.refuses t host then .refuse else if p.lowTrustHost host then .interstitial else .allow := by
  by_cases hostless : host = ""
  · rw [judge, if_pos hostless, if_pos (refuses_iff.mpr (Or.inl hostless))]
  by_cases guarded : (!p.allowPrivate && privateHost t host) = true
  · have refused : p.refuses t host = true := by rw [refuses, guarded, Bool.or_true, Bool.true_or, Bool.true_or]
    rw [judge, if_neg hostless, if_pos guarded, if_pos refused]
  by_cases blocked : registrableSuffixMatch host p.blocklist = true
  · rw [judge, if_neg hostless, if_neg guarded, if_pos blocked, if_pos (refuses_iff.mpr (by simp [blocked]))]
  by_cases chained : registrableSuffixMatch host p.shorteners = true
  · rw [judge, if_neg hostless, if_neg guarded, if_neg blocked, if_pos chained,
      if_pos (refuses_iff.mpr (by simp [chained]))]
  have passed : ¬ p.refuses t host = true := by
    rw [refuses, decide_eq_false hostless, eq_false_of_ne_true guarded, eq_false_of_ne_true blocked,
      eq_false_of_ne_true chained]
    decide
  rw [judge, if_neg hostless, if_neg guarded, if_neg blocked, if_neg chained, if_neg passed]
  split <;> rfl

theorem judge_refuse : (p.judge t host).action = .refuse ↔ p.refuses t host = true := by
  rw [judge_action]
  by_cases refused : p.refuses t host = true
  · rw [if_pos refused]
    exact iff_of_true rfl refused
  · rw [if_neg refused]
    refine iff_of_false ?_ refused
    split <;> simp

end ReputationPolicy

/-- `split(".")`. -/
def labels (name : String) : List (List Char) :=
  name.toList.splitOn '.'

theorem registrableSuffixMatch_iff {host : String} {domains : Finset String} :
    registrableSuffixMatch host domains = true ↔ ∃ d ∈ domains, labels d <:+ labels host := by
  have under (d : String) : (host = d ∨ ("." ++ d).toList <:+ host.toList) ↔ labels d <:+ labels host := by
    rw [← String.toList_inj, String.toList_append]
    exact (Labels.under_iff : Labels.Under '.' host.toList d.toList ↔ _).symm
  simp only [registrableSuffixMatch, decide_eq_true_eq, under]

/-- One more label before a host adds no match but that of the longer name itself. -/
theorem registrableSuffixMatch_label {label host : String} {domains : Finset String} (single : '.' ∉ label.toList) :
    registrableSuffixMatch (label ++ "." ++ host) domains = true ↔
      label ++ "." ++ host ∈ domains ∨ registrableSuffixMatch host domains = true := by
  have name : (label ++ "." ++ host).toList = label.toList ++ '.' :: host.toList := by
    rw [String.toList_append, String.toList_append, List.append_assoc]
    rfl
  have under (d : String) : labels d <:+ labels (label ++ "." ++ host) ↔
      d = label ++ "." ++ host ∨ labels d <:+ labels host := by
    have step : Labels.Under '.' (label.toList ++ '.' :: host.toList) d.toList ↔ _ := Labels.under_label_iff single
    rw [← name, String.toList_inj, eq_comm] at step
    exact step
  simp only [registrableSuffixMatch_iff, under, and_or_left, exists_or, exists_eq_right]

/-- A name matches if its labels end with those of a listed domain. A label
before a host keeps a match, in the verdict too, and makes none of a name that
is not listed. -/
theorem match_iff_label_suffix :
    (∀ (host : String) (domains : Finset String),
      registrableSuffixMatch host domains = true ↔ ∃ d ∈ domains, labels d <:+ labels host) ∧
    ∀ (p : ReputationPolicy) (label host : String), '.' ∉ label.toList →
      ∀ domains, domains = p.blocklist ∨ domains = p.shorteners →
        (registrableSuffixMatch host domains = true →
          registrableSuffixMatch (label ++ "." ++ host) domains = true ∧
            ∀ t url, hostOf t url = label ++ "." ++ host → (p.evaluate t url).action = .refuse) ∧
        (registrableSuffixMatch (label ++ "." ++ host) domains = true →
          registrableSuffixMatch host domains = true ∨ label ++ "." ++ host ∈ domains) := by
  refine ⟨fun _ _ => registrableSuffixMatch_iff, ?_⟩
  intro p label host single domains listed
  refine ⟨fun matched => ?_, fun matched => ?_⟩
  · have longer := (registrableSuffixMatch_label single).mpr (Or.inr matched)
    refine ⟨longer, fun t url named => ?_⟩
    rw [ReputationPolicy.evaluate, named, ReputationPolicy.judge_refuse, ReputationPolicy.refuses_iff]
    rcases listed with rfl | rfl
    · exact Or.inr (Or.inr (Or.inl longer))
    · exact Or.inr (Or.inr (Or.inr longer))
  · exact ((registrableSuffixMatch_label single).mp matched).symm

theorem match_of_chained_subdomain :
    registrableSuffixMatch "evil.bit.ly" shortenerDomains = true ∧
      (({} : ReputationPolicy).evaluate .ascii "https://evil.bit.ly/xyz").action = .refuse := by
  have listed : registrableSuffixMatch "bit.ly" shortenerDomains = true := by decide
  have named : hostOf .ascii "https://evil.bit.ly/xyz" = "evil" ++ "." ++ "bit.ly" := by decide
  obtain ⟨matched, refused⟩ :=
    (match_iff_label_suffix.2 {} "evil" "bit.ly" (by decide) shortenerDomains (Or.inr rfl)).1 listed
  exact ⟨matched, refused .ascii _ named⟩

example : registrableSuffixMatch "notbit.ly" {"bit.ly"} = false := by decide

end UrlShortener
