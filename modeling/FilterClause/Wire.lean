import FilterClause.Cleaning
import FilterClause.Json.Decode
import FilterClause.Json.Value

/-!
# Requests and results as JSON

The JSON forms of options, requests and results. Fields that hold nothing are left out when a value
is written, and take their defaults when one is read.
-/

namespace FilterClause

open Json (ReadError Tree Value)

namespace Wire

/-- The value for a list of texts. -/
def texts (ts : List Text) : Value := .array (ts.map .string)

/-- The member for a text. -/
def textMember (name : String) (t : Text) : Text × Value := (name.toList, .string t)

/-- The member for something that may be absent. -/
def memberOf {α : Type} (name : String) (value : α → Value) : Option α → List (Text × Value)
  | none => []
  | some a => [(name.toList, value a)]

/-- A list, or nothing if it is empty. -/
def nonempty {α : Type} (l : List α) : Option (List α) := if l.isEmpty then none else some l

/-- A list of strings. -/
def strings : Json.Decoder (List Text) := Json.list Json.string

/-! ## Options -/

/-- Options as JSON. -/
def ofOptions (o : Options) : Value := .object [("dateFields".toList, texts o.dateFields)]

/-- Reads options; the standard date fields stand in for missing ones. -/
def options : Json.Decoder Options
  | .object ms => do
    let fields ← Json.members (fun fields key value =>
      if key = "dateFields".toList then Json.fieldOnce key fields strings value
      else (Json.skip value).map fun _ => fields) none ms
    return ⟨fields.getD Options.standard.dateFields⟩
  | .array is => do
    let (fields, is) ← Json.nextItem strings is
    Json.endItems is
    return ⟨fields.getD Options.standard.dateFields⟩
  | t => .error (t.mismatch (.record "CleanOptions".toList))

/-! ## Requests -/

/-- A request as JSON. -/
def ofRequest (r : Request) : Value :=
  .object (textMember "clause" r.clause :: memberOf "columns" texts r.columns ++
    memberOf "options" ofOptions r.options)

/-- The fields of a request that have been read. -/
structure RequestFields where
  clause : Option Text
  columns : Option (Option (List Text))
  options : Option (Option Options)

/-- Reads one member of a request. -/
def requestMember (r : RequestFields) (key : Text) (value : Tree) :
    Except ReadError RequestFields :=
  if key = "clause".toList then do
    return { r with clause := ← Json.fieldOnce key r.clause Json.string value }
  else if key = "columns".toList then do
    return { r with columns := ← Json.fieldOnce key r.columns (Json.nullable strings) value }
  else if key = "options".toList then do
    return { r with options := ← Json.fieldOnce key r.options (Json.nullable options) value }
  else (Json.skip value).map fun _ => r

/-- The name of a request in messages. -/
def requestName : Text := "CleanRequest".toList

/-- Reads a request. -/
def request : Json.Decoder Request
  | .object ms => do
    let r ← Json.members requestMember ⟨none, none, none⟩ ms
    return ⟨← Json.required "clause".toList r.clause, r.columns.join, r.options.join⟩
  | .array is => do
    let (clause, is) ← Json.nextItem Json.string is
    let clause ← Json.requiredItem 0 requestName 3 clause
    let (columns, is) ← Json.nextItem (Json.nullable strings) is
    let (options, is) ← Json.nextItem (Json.nullable options) is
    Json.endItems is
    return ⟨clause, columns.join, options.join⟩
  | t => .error (t.mismatch (.record requestName))

/-! ## Results -/

/-- An issue as JSON. -/
def ofIssue (i : Issue) : Value :=
  .object [textMember "severity" i.severity.text, textMember "code" i.code,
    textMember "message" i.message]

/-- The members of a result as JSON. -/
def resultMembers (r : Result) : List (Text × Value) :=
  [textMember "clause" r.clause, textMember "whereClause" r.whereClause] ++
    memberOf "limit" (fun n => .number n.toNat) r.limit ++
    memberOf "columns" texts (nonempty r.columns) ++
    memberOf "selectList" .string r.selectList ++
    memberOf "issues" (fun is => .array (is.map ofIssue)) (nonempty r.issues)

/-- A result as JSON. -/
def ofResult (r : Result) : Value := .object (resultMembers r)

/-- Reads a severity. -/
def severity : Json.Decoder Severity :=
  Json.variant fun name =>
    match Severity.ofText? name with
    | some s => .ok s
    | none => .error (.unknownVariant name)

/-- The fields of an issue that have been read. -/
structure IssueFields where
  severity : Option Severity
  code : Option Text
  message : Option Text

/-- Reads one member of an issue. -/
def issueMember (i : IssueFields) (key : Text) (value : Tree) : Except ReadError IssueFields :=
  if key = "severity".toList then do
    return { i with severity := ← Json.fieldOnce key i.severity severity value }
  else if key = "code".toList then do
    return { i with code := ← Json.fieldOnce key i.code Json.string value }
  else if key = "message".toList then do
    return { i with message := ← Json.fieldOnce key i.message Json.string value }
  else (Json.skip value).map fun _ => i

/-- The name of an issue in messages. -/
def issueName : Text := "Issue".toList

/-- Reads an issue. -/
def issue : Json.Decoder Issue
  | .object ms => do
    let i ← Json.members issueMember ⟨none, none, none⟩ ms
    return ⟨← Json.required "severity".toList i.severity, ← Json.required "code".toList i.code,
      ← Json.required "message".toList i.message⟩
  | .array is => do
    let (level, is) ← Json.nextItem severity is
    let level ← Json.requiredItem 0 issueName 3 level
    let (code, is) ← Json.nextItem Json.string is
    let code ← Json.requiredItem 1 issueName 3 code
    let (message, is) ← Json.nextItem Json.string is
    let message ← Json.requiredItem 2 issueName 3 message
    Json.endItems is
    return ⟨level, code, message⟩
  | t => .error (t.mismatch (.record issueName))

/-- The fields of a result that have been read. -/
structure ResultFields where
  clause : Option Text
  whereClause : Option Text
  limit : Option (Option UInt64)
  columns : Option (List Text)
  selectList : Option (Option Text)
  issues : Option (List Issue)

/-- Reads one member of a result. -/
def resultMember (r : ResultFields) (key : Text) (value : Tree) : Except ReadError ResultFields :=
  if key = "clause".toList then do
    return { r with clause := ← Json.fieldOnce key r.clause Json.string value }
  else if key = "whereClause".toList then do
    return { r with whereClause := ← Json.fieldOnce key r.whereClause Json.string value }
  else if key = "limit".toList then do
    return { r with limit := ← Json.fieldOnce key r.limit (Json.nullable Json.count) value }
  else if key = "columns".toList then do
    return { r with columns := ← Json.fieldOnce key r.columns strings value }
  else if key = "selectList".toList then do
    return { r with
      selectList := ← Json.fieldOnce key r.selectList (Json.nullable Json.string) value }
  else if key = "issues".toList then do
    return { r with issues := ← Json.fieldOnce key r.issues (Json.list issue) value }
  else (Json.skip value).map fun _ => r

/-- The name of a result in messages. -/
def resultName : Text := "CleanResult".toList

/-- Reads a result. -/
def result : Json.Decoder Result
  | .object ms => do
    let r ← Json.members resultMember ⟨none, none, none, none, none, none⟩ ms
    let clause ← Json.required "clause".toList r.clause
    let whereClause ← Json.required "whereClause".toList r.whereClause
    return ⟨clause, whereClause, r.limit.join, r.columns.getD [], r.selectList.join,
      r.issues.getD []⟩
  | .array is => do
    let (clause, is) ← Json.nextItem Json.string is
    let clause ← Json.requiredItem 0 resultName 6 clause
    let (whereClause, is) ← Json.nextItem Json.string is
    let whereClause ← Json.requiredItem 1 resultName 6 whereClause
    let (limit, is) ← Json.nextItem (Json.nullable Json.count) is
    let (columns, is) ← Json.nextItem strings is
    let (selectList, is) ← Json.nextItem (Json.nullable Json.string) is
    let (issues, is) ← Json.nextItem (Json.list issue) is
    Json.endItems is
    return ⟨clause, whereClause, limit.join, columns.getD [], selectList.join, issues.getD []⟩
  | t => .error (t.mismatch (.record resultName))

end Wire

/-- Reads a request from a JSON text. -/
def Request.ofJson (t : Text) : Except ReadError Request := Json.decodeText Wire.request t

/-- A request as a JSON text without blanks. -/
def Request.toJson (r : Request) : Text := (Wire.ofRequest r).write .compact

/-- Reads a result from a JSON text. -/
def Result.ofJson (t : Text) : Except ReadError Result := Json.decodeText Wire.result t

/-- A result as a JSON text without blanks. -/
def Result.toJson (r : Result) : Text := (Wire.ofResult r).write .compact

/-- Reads options from a JSON text. -/
def Options.ofJson (t : Text) : Except ReadError Options := Json.decodeText Wire.options t

/-- Cleans a request given as a JSON text; the result is a JSON text in every case. -/
def cleanJson (t : Text) : Text :=
  (match Request.ofJson t with
    | .ok r => clean r
    | .error e => Result.ofIssue (Issue.unreadableRequest e.message)).toJson

end FilterClause
