import FilterClause.Clause.Segment
import FilterClause.Text.Word

/-!
# Items

Brackets and the WHERE keyword are looked for in a flat list of items: characters of the clause
and whole literals. A bracket or a keyword inside a literal is therefore never seen.
-/

namespace FilterClause

open Text

/-- A character of a clause, or the place of a literal. -/
inductive Item where
  | char (c : Char)
  | literal (index : Nat)
deriving DecidableEq

namespace Item

/-- The items of a clause whose literals have been lifted out. Groups come later, and there are
none. -/
def ofSegments (segments : List Segment) : List Item :=
  segments.flatMap fun
    | .text t | .call t => t.map .char
    | .literal index => [.literal index]
    | .group _ => []

/-- Whether the item is a blank. -/
def isBlank : Item → Bool
  | .char c => Text.isBlank c
  | .literal _ => false

/-- Whether the item is a name character. -/
def isName : Item → Bool
  | .char c => Text.isName c
  | .literal _ => false

/-- A literal put back between single quotes. A place outside the list has an empty content. -/
def quoted (literals : List Text) (index : Nat) : Text :=
  singleQuote :: literals.getD index [] ++ [singleQuote]

/-- An item as text. -/
def render (literals : List Text) : Item → Text
  | .char c => [c]
  | .literal index => quoted literals index

/-- Items as text, every literal between single quotes. -/
def renderAll (literals : List Text) (items : List Item) : Text :=
  items.flatMap (render literals)

@[simp] theorem renderAll_nil (literals : List Text) : renderAll literals [] = [] := rfl

@[simp] theorem renderAll_append (literals : List Text) (xs ys : List Item) :
    renderAll literals (xs ++ ys) = renderAll literals xs ++ renderAll literals ys := by
  simp [renderAll]

theorem renderAll_map_char (literals : List Text) (t : Text) :
    renderAll literals (t.map .char) = t := by
  rw [renderAll, List.flatMap_map]
  exact List.flatMap_singleton' t

end Item

end FilterClause
