import FilterClause.Text.Basic
import FilterClause.Unicode.Range
import FilterClause.Unicode.CaseRuns
import FilterClause.Unicode.Cased

/-!
# Lower case

The full lower-case form of a text. Every character maps by itself, with two exceptions to the
simple mapping: the capital I with a dot becomes two characters, and a capital sigma takes its
final form where it ends a word.
-/

namespace FilterClause.Text

open Unicode

/-- The small letter that the first fitting run of capitals gives, if any. -/
def lowerByRuns (n : Nat) : List CaseRun → Option Nat
  | [] => none
  | run :: runs =>
    if n < run.first then none
    else if n ≤ run.last then
      if (n - run.first) % run.stride = 0 then some (n + run.distance).toNat else none
    else lowerByRuns n runs

/-- Lower case of a character that does not depend on its neighbours. -/
def lowerChar (c : Char) : Text :=
  if c = '\u0130' then ['i', '\u0307']
  else match lowerByRuns c.toNat lowercaseRuns with
    | some n => [Char.ofNat n]
    | none => [c]

/-- Whether the first character that is not case-ignorable has case. -/
def meetsCased (t : Text) : Bool :=
  match t.dropWhile fun c => inRanges c.toNat caseIgnorableRanges with
  | [] => false
  | c :: _ => inRanges c.toNat casedRanges

/-- Lower case of the rest of a text whose start, read backwards, is `before`. -/
def lowerAfter (before : Text) : Text → Text
  | [] => []
  | c :: rest =>
    (if c = 'Σ' then [if meetsCased before && !meetsCased rest then 'ς' else 'σ']
     else lowerChar c) ++ lowerAfter (c :: before) rest

/-- The full lower-case form of a text. -/
def lower (t : Text) : Text := lowerAfter [] t

end FilterClause.Text
