import FilterClause.Clause.Segment
import FilterClause.Scan

/-!
# Quoted literals

A literal runs from a quote to the next quote of the same kind, whatever stands between. A quote
that is never closed opens nothing and stays in the text.
-/

namespace FilterClause

open Text

/-- A clause whose literals have been lifted out. Segment `.literal i` stands for entry `i` of the
list of contents, quotes left off. -/
structure Lifted where
  segments : List Segment
  literals : List Text

namespace Lifted

/-- Whether a character may open and close a literal. -/
def isQuote (c : Char) : Bool := c == singleQuote || c == doubleQuote

/-- The content of the literal that a character opens, and how far it and its closing quote reach. -/
def literal? (q : Char) (rest : Text) : Option (Text × Nat) :=
  if isQuote q && rest.contains q then
    let content := rest.takeWhile (· != q)
    some (content, content.length + 1)
  else none

/-- Segments of scanned text, the literals numbered from `index`. -/
def segmentsFrom (index : Nat) : List (Char ⊕ Text) → List Segment
  | [] => []
  | .inl c :: rest => Segment.pushChar c (segmentsFrom index rest)
  | .inr _ :: rest => .literal index :: segmentsFrom (index + 1) rest

/-- Lifts every literal out of a text. -/
def ofText (t : Text) : Lifted :=
  let scanned := scan literal? t
  ⟨segmentsFrom 0 scanned, scanned.filterMap Sum.getRight?⟩

/-- Whether a quote is left in the text. -/
def hasStrayQuote (l : Lifted) : Bool :=
  l.segments.any fun
    | .text t => t.any isQuote
    | _ => false

end Lifted

end FilterClause
