import Mathlib.Logic.Function.Basic

namespace UrlShortener

inductive Action
  | allow
  | interstitial
  | refuse
  deriving DecidableEq

structure Verdict where
  action : Action
  reason : String
  host : String := ""
  deriving DecidableEq

/-- The codes of `TakedownList`, each with the reason it was withdrawn for. -/
structure TakedownList where
  codes : String → Option String := fun _ => none

namespace TakedownList

/-- `__contains__`. -/
def contains (t : TakedownList) (code : String) : Bool :=
  (t.codes code).isSome

/-- The first statement of `add`. -/
def mark (t : TakedownList) (code reason : String) : TakedownList :=
  ⟨Function.update t.codes code (some reason)⟩

def reason (t : TakedownList) (code : String) : String :=
  (t.codes code).getD ""

theorem contains_mark {t : TakedownList} {code : String} (known : t.contains code = true)
    (other reason : String) : (t.mark other reason).contains code = true := by
  show (Function.update t.codes other (some reason) code).isSome = true
  by_cases same : code = other
  · rw [same, Function.update_self]
    rfl
  · rw [Function.update_of_ne same]
    exact known

end TakedownList
end UrlShortener
