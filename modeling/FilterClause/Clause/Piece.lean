import FilterClause.Clause.Bracket

/-!
# Pieces

A predicate falls into pieces: runs of text, literals, calls and groups. A bracketed group with a
name directly before it is a call and takes the name out of the text. Brackets without a partner
are left in the text.
-/

namespace FilterClause

/-- One part of a predicate with its brackets resolved. -/
inductive Piece where
  | text (chars : Text)
  | literal (index : Nat)
  /-- A name and the items between the brackets behind it. -/
  | call (name : Text) (arguments : List Item)
  /-- The items between two brackets. -/
  | group (interior : List Item)

namespace Piece

/-- A run of text, given backwards, as a piece unless it is empty. -/
def ofRun (back : Text) : List Piece := if back.isEmpty then [] else [.text back.reverse]

/-- Pieces of items and group interiors behind a run of text that is given backwards. -/
def behindRun (back : Text) : List (Item ⊕ List Item) → List Piece
  | [] => ofRun back
  | .inl (.char c) :: rest => behindRun (c :: back) rest
  | .inl (.literal index) :: rest => ofRun back ++ .literal index :: behindRun [] rest
  | .inr interior :: rest =>
    let name := back.takeWhile Text.isName
    ofRun (back.dropWhile Text.isName) ++
      (if name.isEmpty then .group interior else .call name.reverse interior) :: behindRun [] rest

/-- The pieces of a predicate. -/
def ofItems (items : List Item) : List Piece := behindRun [] (Bracket.groups items)

/-- The items that a piece was made of. -/
def items : Piece → List Item
  | .text t => t.map .char
  | .literal index => [.literal index]
  | .call name arguments => name.map .char ++ .char '(' :: arguments ++ [.char ')']
  | .group interior => .char '(' :: interior ++ [.char ')']

/-- The interior of a group. -/
def interior? : Piece → Option (List Item)
  | .group interior => some interior
  | _ => none

/-- Whether a piece is text with a bracket that has no partner. -/
def hasLooseBracket : Piece → Bool
  | .text t => t.any fun c => c == '(' || c == ')'
  | _ => false

/-- The segments of pieces, the groups numbered from `index`. -/
def segmentsFrom (literals : List Text) (index : Nat) : List Piece → List Segment
  | [] => []
  | .text t :: rest => .text t :: segmentsFrom literals index rest
  | .literal i :: rest => .literal i :: segmentsFrom literals index rest
  | .call name arguments :: rest =>
    .call (name ++ '(' :: Item.renderAll literals arguments ++ [')']) ::
      segmentsFrom literals index rest
  | .group _ :: rest => .group index :: segmentsFrom literals (index + 1) rest

end Piece

end FilterClause
