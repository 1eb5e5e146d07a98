import FilterClause.Wire

/-!
# Reports

A report is a result together with the clause it came from and the place of that clause. Reports
are told as lines of text, as lines about issues, or as one JSON array.
-/

namespace FilterClause

/-- A clause and where it was found. -/
structure Located where
  /-- The name of a file, or of another source. -/
  source : Text
  /-- The number of the line, the first being 1. -/
  line : Nat
  clause : Text
deriving DecidableEq

/-- A result and the clause it came from. -/
structure Report where
  origin : Located
  result : Result
deriving DecidableEq

namespace Report

/-- Cleans a clause where it was found. -/
def ofLocated (columns : Option (List Text)) (options : Option Options) (l : Located) : Report :=
  ⟨l, clean ⟨l.clause, columns, options⟩⟩

/-- The line of a cleaned clause, with its keyword if that is asked for. -/
def clauseLine (keyword : Bool) (r : Report) : Text :=
  (if keyword && !r.result.clause.isEmpty then r.result.whereClause else r.result.clause) ++ ['\n']

/-- The line of the select list, if the first report has one. -/
def selectLine (reports : List Report) : Text :=
  match reports.head?.bind (·.result.selectList) with
  | some selected => "SELECT ".toList ++ selected ++ ['\n']
  | none => []

/-- Reports as text: the select list, and each clause on a line. A blank clause gives an empty
line. -/
def text (keyword : Bool) (reports : List Report) : Text :=
  selectLine reports ++ reports.flatMap (clauseLine keyword)

/-- The line of an issue: place, severity, code and message. -/
def issueLine (l : Located) (i : Issue) : Text :=
  l.source ++ ':' :: Text.ofNat l.line ++ ": ".toList ++ i.severity.text ++
    '[' :: i.code ++ "]: ".toList ++ i.message ++ ['\n']

/-- All issues, one on a line. -/
def issues (reports : List Report) : Text :=
  reports.flatMap fun r => r.result.issues.flatMap (issueLine r.origin)

/-- A report as a JSON value: the place, and the members of the result. -/
def toValue (r : Report) : Json.Value :=
  .object ([Wire.textMember "source" r.origin.source, ("line".toList, .number r.origin.line),
    Wire.textMember "input" r.origin.clause] ++ Wire.resultMembers r.result)

/-- Reports as one JSON array. -/
def json (layout : Json.Layout) (reports : List Report) : Text :=
  (Json.Value.array (reports.map toValue)).write layout

end Report

end FilterClause
