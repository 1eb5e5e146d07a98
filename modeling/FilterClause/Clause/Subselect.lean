import FilterClause.Clause.Item
import FilterClause.Text.Keyword

/-!
# Subselects

A clause such as `SELECT Id FROM Account WHERE Name = x` holds a predicate only behind its WHERE
keyword. What leads up to the keyword is kept as it is written. The keyword counts where it stands
alone and outside every open bracket; a closing bracket too many is passed over.
-/

namespace FilterClause

namespace Subselect

/-- The letter of an item for the comparison with a keyword. -/
def letter? : Item → Option Char
  | .char c => some (Text.foldLetter c)
  | .literal _ => none

/-- Whether the items start with the keyword and no name character follows it. -/
def startsWithWhere (items : List Item) : Bool :=
  (items.take 5).map letter? == ['w', 'h', 'e', 'r', 'e'].map some &&
    !(items.drop 5).head?.any Item.isName

/-- Number of open brackets behind an item, when there are `depth` before it. -/
def depthAfter (depth : Nat) (item : Item) : Nat :=
  if item = .char '(' then depth + 1 else if item = .char ')' then depth - 1 else depth

/-- Search for the keyword with `depth` brackets open; `inName` says that a name character stands
before the items. -/
def endOfWhereFrom (depth : Nat) (inName : Bool) : List Item → Option Nat
  | [] => none
  | item :: rest =>
    let depth := depthAfter depth item
    if depth = 0 && !inName && startsWithWhere (item :: rest) then some 5
    else (endOfWhereFrom depth item.isName rest).map (· + 1)

/-- The position behind the first WHERE keyword that stands alone outside all brackets. -/
def endOfWhere (items : List Item) : Option Nat := endOfWhereFrom 0 false items

/-- Splitting with a bound on the number of cuts. -/
def splitWithin : Nat → List Item → List (List Item) × List Item
  | 0, items => ([], items)
  | cuts + 1, items =>
    match endOfWhere items with
    | none => ([], items)
    | some n =>
      let (leads, predicate) := splitWithin cuts (items.drop n)
      (items.take n :: leads, predicate)

/-- The leads, each up to and with a WHERE keyword, and the predicate behind the last one. Every
cut takes at least five items, so their number bounds the cuts. -/
def split (items : List Item) : List (List Item) × List Item := splitWithin items.length items

end Subselect

end FilterClause
