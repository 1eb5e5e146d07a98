import FilterClause.Text.Blank
import FilterClause.Text.Keyword
import FilterClause.Text.Lowercase
import FilterClause.Text.Quoted

/-!
# Options

Names of date fields, whose values are never quoted. A column is a date field if its name contains
one of them, letter case aside.
-/

namespace FilterClause

open Text

/-- What a caller may choose. -/
structure Options where
  dateFields : List Text
deriving DecidableEq

/-- Why options cannot be honoured. -/
inductive OptionsError where
  /-- An empty name would match every column. -/
  | emptyDateField
  /-- A name with a blank can match no column. -/
  | invalidDateField (name : Text)
deriving DecidableEq

/-- The error in words. -/
def OptionsError.message : OptionsError → Text
  | .emptyDateField => "date field names must not be empty".toList
  | .invalidDateField name => "invalid date field name: ".toList ++ shown name

namespace Options

/-- The date fields that apply when no others are given. -/
def standard : Options :=
  ⟨["createddate".toList, "lastmodifieddate".toList, "systemmodstamp".toList]⟩

/-- Appends a date field, unless one that differs in ASCII case at most is there. -/
def addDateField (o : Options) (name : Text) : Options :=
  if o.dateFields.any (sameIgnoringCase · name) then o else ⟨o.dateFields ++ [name]⟩

/-- Appends date fields one after the other. -/
def addDateFields (o : Options) (names : List Text) : Options := names.foldl addDateField o

@[simp] theorem addDateFields_nil (o : Options) : o.addDateFields [] = o := rfl

@[simp] theorem addDateFields_append (o : Options) (as bs : List Text) :
    o.addDateFields (as ++ bs) = (o.addDateFields as).addDateFields bs := by
  simp [addDateFields]

/-- Whether a column holds dates. -/
def isDateField (o : Options) (column : Text) : Bool :=
  let column := lower column
  o.dateFields.any fun field => occurs (lower field) column

/-- What is wrong with the name of a date field. -/
def nameError? (name : Text) : Option OptionsError :=
  if name.isEmpty then some .emptyDateField
  else if name.any isBlank then some (.invalidDateField name)
  else none

/-- What is wrong with the first name that cannot be honoured. -/
def error? (o : Options) : Option OptionsError := o.dateFields.findSome? nameError?

end Options

end FilterClause
