import FilterClause.Clause.Literal
import FilterClause.Clause.Nesting
import FilterClause.Clause.RowLimit

/-!
# Normal form of a clause

A loosely written filter clause in, a well quoted one out. Blanks around it and one leading WHERE
go, the row limit is set aside, literals are lifted out, and the rest is cleaned. Nothing fails:
what has no known shape is reproduced.
-/

namespace FilterClause

open Text

/-- A clause in normal form, and what was noticed on the way. -/
structure Normal where
  text : Text
  limit : Option RowLimit
  /-- A quote that is never closed was found. -/
  strayQuote : Bool
  /-- A bracket without a partner was found. -/
  looseBracket : Bool
  /-- A group was too deep to be cleaned. -/
  tooDeep : Bool

namespace Normal

/-- The clause without a leading WHERE and the blanks behind it. -/
def stripLeadingWhere (t : Text) : Text :=
  match stripKeyword ['w', 'h', 'e', 'r', 'e'] t with
  | some rest => if startsWithWord rest then t else trimStart rest
  | none => t

/-- The normal form of a clause without blanks around it. -/
def ofTrimmed (options : Options) (t : Text) : Normal :=
  let (body, limit) := RowLimit.detach (stripLeadingWhere t)
  let lifted := Lifted.ofText body
  let cleaned :=
    if Segment.allBlank lifted.segments then ⟨[], false, false⟩
    else Cleaned.ofItems lifted.literals options (Item.ofSegments lifted.segments)
  { text := RowLimit.attach cleaned.text limit
    limit
    strayQuote := lifted.hasStrayQuote
    looseBracket := cleaned.looseBracket
    tooDeep := cleaned.tooDeep }

/-- The normal form of a clause. A blank one has an empty normal form. -/
def ofText (options : Options) (raw : Text) : Normal :=
  let t := trim raw
  if t.isEmpty then ⟨[], none, false, false, false⟩ else ofTrimmed options t

end Normal

/-- The clause in normal form. -/
def cleanClauseWith (options : Options) (raw : Text) : Text := (Normal.ofText options raw).text

/-- The clause in normal form under the standard options. -/
def cleanClause (raw : Text) : Text := cleanClauseWith Options.standard raw

/-- A clause behind the keyword WHERE, or nothing if it is empty. -/
def withWhere (clause : Text) : Text :=
  if clause.isEmpty then [] else "WHERE ".toList ++ clause

/-- The clause in normal form behind the keyword WHERE. -/
def formatClause (raw : Text) : Text := withWhere (cleanClause raw)

end FilterClause
