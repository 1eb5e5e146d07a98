import FilterClause.Clause.Normal
import FilterClause.Issue
import FilterClause.OutputColumns

/-!
# Requests and results

A request holds a clause, and maybe output columns and options. Its result is always the cleaned
clause, with the issues that were met. Options that cannot be honoured are reported and replaced
by the standard ones.
-/

namespace FilterClause

/-- One clause to clean. -/
structure Request where
  clause : Text
  columns : Option (List Text)
  options : Option Options
deriving DecidableEq

/-- A cleaned clause and what goes with it. -/
structure Result where
  /-- The clause in normal form, row limit included. -/
  clause : Text
  /-- The clause behind the keyword WHERE, empty if the clause is. -/
  whereClause : Text
  /-- The number of a row limit. -/
  limit : Option UInt64
  columns : List Text
  selectList : Option Text
  issues : List Issue
deriving DecidableEq

namespace Result

/-- The result that reports one issue and nothing else. -/
def ofIssue (issue : Issue) : Result := ⟨[], [], none, [], none, [issue]⟩

/-- Whether an error was met. -/
def hasErrors (r : Result) : Bool := r.issues.any fun issue => issue.severity == .error

end Result

/-- The options to clean with, and the error if those asked for cannot be honoured. -/
def Request.chosenOptions (r : Request) : Options × List Issue :=
  match r.options with
  | none => (Options.standard, [])
  | some options =>
    match options.error? with
    | none => (options, [])
    | some why => (Options.standard, [Issue.invalidOptions why])

/-- The warnings about a clause, in the order in which they are told. -/
def Normal.warnings (n : Normal) : List Issue :=
  (if n.strayQuote then [Issue.strayQuote] else []) ++
    (if n.looseBracket then [Issue.looseBracket] else []) ++
    (if n.tooDeep then [Issue.tooDeep] else [])

/-- The result of a request. -/
def clean (r : Request) : Result :=
  let (options, errors) := r.chosenOptions
  let normal := Normal.ofText options r.clause
  { clause := normal.text
    whereClause := withWhere normal.text
    limit := normal.limit.bind RowLimit.count
    columns := (r.columns.map OutputColumns.clean).getD []
    selectList := r.columns.bind OutputColumns.selectList
    issues := errors ++ normal.warnings }

end FilterClause
