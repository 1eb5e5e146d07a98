import FilterClause.Text.Blank
import FilterClause.Text.Lowercase

/-!
# Output columns

Column names arrive padded, joined by commas and repeated in other letter cases. What is kept is
the list of names in their order of appearance, each in its first spelling.
-/

namespace FilterClause

open Text

namespace OutputColumns

/-- The trimmed names between the commas, without empty ones. -/
def names (entries : List Text) : List Text :=
  ((entries.flatMap (split ',')).map trim).filter fun name => !name.isEmpty

/-- Names whose lower-case form is not among `seen`, each in its first spelling. -/
def distinctFrom (seen : List Text) : List Text → List Text
  | [] => []
  | name :: rest =>
    if seen.contains (lower name) then distinctFrom seen rest
    else name :: distinctFrom (lower name :: seen) rest

/-- The clean column names of a list of entries. -/
def clean (entries : List Text) : List Text := distinctFrom [] (names entries)

/-- The clean names as a select list, none if there are none. -/
def selectList (entries : List Text) : Option Text :=
  let cleaned := clean entries
  if cleaned.isEmpty then none else some (join [',', ' '] cleaned)

end OutputColumns

end FilterClause
