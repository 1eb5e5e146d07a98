import FilterClause.Clause.Condition
import FilterClause.Clause.Piece
import FilterClause.Clause.Subselect

/-!
# Nested groups

A predicate is cleaned from the inside out: its groups first, each as a clause of its own, then
the conditions around them. Groups inside 128 others are kept as they are written, so the number
of levels left bounds the recursion.
-/

namespace FilterClause

open Text

/-- A cleaned part of a clause, and what was noticed on the way. -/
structure Cleaned where
  text : Text
  /-- A bracket without a partner was found. -/
  looseBracket : Bool
  /-- A group was too deep to be cleaned. -/
  tooDeep : Bool

namespace Cleaned

/-- Levels of groups that are cleaned. -/
def maxNesting : Nat := 128

/-- Cleaning of a predicate, when `interior` cleans what its groups hold. -/
def predicate (literals : List Text) (options : Options) (interior : List Item → Cleaned)
    (items : List Item) : Cleaned :=
  if items.all Item.isBlank then ⟨[], false, false⟩
  else
    let pieces := Piece.ofItems items
    let groups := (pieces.filterMap Piece.interior?).map interior
    let tokens := Token.ofSegments (Piece.segmentsFrom literals 0 pieces)
    ⟨Condition.renderAll ⟨literals, groups.map text⟩ options tokens,
      pieces.any Piece.hasLooseBracket || groups.any looseBracket,
      groups.any tooDeep⟩

/-- Cleaning of a clause whose leads are kept. -/
def clause (literals : List Text) (options : Options) (interior : List Item → Cleaned)
    (items : List Item) : Cleaned :=
  let (leads, rest) := Subselect.split items
  let cleaned := predicate literals options interior rest
  let leads := leads.map fun lead => trim (Item.renderAll literals lead)
  { cleaned with
    text := joinSpaced (leads ++ if cleaned.text.isEmpty then [] else [cleaned.text]) }

/-- Cleaning of the interior of a group with so many levels left. -/
def group (literals : List Text) (options : Options) : Nat → List Item → Cleaned
  | 0, items => ⟨trim (Item.renderAll literals items), false, true⟩
  | levels + 1, items => clause literals options (group literals options levels) items

/-- Cleaning of a whole clause without its row limit. -/
def ofItems (literals : List Text) (options : Options) (items : List Item) : Cleaned :=
  clause literals options (group literals options maxNesting) items

end Cleaned

end FilterClause
