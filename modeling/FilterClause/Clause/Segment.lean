import FilterClause.Text.Blank

/-!
# Segments

Between its stages a clause is a list of segments. What a later stage must not read into — a quoted
literal, or a group that is already clean — is kept aside in a list, and a segment only names its
place there. No text can be mistaken for such a place.
-/

namespace FilterClause

/-- One part of a clause. -/
inductive Segment where
  /-- Text that is still to be read. -/
  | text (chars : Text)
  /-- The place of a quoted literal. -/
  | literal (index : Nat)
  /-- The place of a bracketed group. -/
  | group (index : Nat)
  /-- A call with its arguments, kept as written. -/
  | call (chars : Text)
deriving DecidableEq

namespace Segment

/-- Puts a character in front, into the first segment if that is text. -/
def pushChar (c : Char) : List Segment → List Segment
  | .text t :: rest => .text (c :: t) :: rest
  | rest => .text [c] :: rest

/-- Whether the segments hold nothing but blanks. -/
def allBlank (segments : List Segment) : Bool :=
  segments.all fun
    | .text t => Text.allBlank t
    | _ => false

end Segment

end FilterClause
