import FilterClause.Options
import FilterClause.Clause.Nesting

/-!
# Issues

What is worth telling about a clause or a request. An issue never stops the cleaning.
-/

namespace FilterClause

open Text

/-- How much an issue weighs. -/
inductive Severity where
  | error
  | warning
deriving DecidableEq

namespace Severity

/-- The severity as it is written. -/
def text : Severity → Text
  | .error => "error".toList
  | .warning => "warning".toList

/-- The severity that a text names. -/
def ofText? (t : Text) : Option Severity :=
  if t = text .error then some .error
  else if t = text .warning then some .warning
  else none

@[simp] theorem ofText?_text (s : Severity) : ofText? s.text = some s := by
  cases s <;> rfl

end Severity

/-- Something worth telling. -/
structure Issue where
  severity : Severity
  code : Text
  message : Text
deriving DecidableEq

namespace Issue

/-- The request could not be read. -/
def unreadableRequest (why : Text) : Issue :=
  ⟨.error, "REQUEST_PARSE_ERROR".toList, "Invalid request format: ".toList ++ why⟩

/-- The options cannot be honoured. -/
def invalidOptions (why : OptionsError) : Issue :=
  ⟨.error, "INVALID_OPTIONS".toList, "Invalid options, defaults used: ".toList ++ why.message⟩

/-- A quote is never closed. -/
def strayQuote : Issue :=
  ⟨.warning, "UNBALANCED_QUOTE".toList,
    "Clause contains an unterminated quote; the text around it was not protected".toList⟩

/-- A bracket has no partner. -/
def looseBracket : Issue :=
  ⟨.warning, "UNBALANCED_PAREN".toList,
    "Clause contains unbalanced parentheses; they were kept as plain text".toList⟩

/-- A group is nested too deep to be cleaned. -/
def tooDeep : Issue :=
  ⟨.warning, "NESTING_TOO_DEEP".toList,
    "Clause nests parentheses deeper than ".toList ++ ofNat Cleaned.maxNesting ++
      " levels; deeper groups were kept verbatim".toList⟩

end Issue

end FilterClause
