import FilterClause.Json.Tree

/-!
# Decoding JSON trees

Readers of typed values. A record is read from an object, whose unknown members are passed over, or
from a list of its fields in their order.
-/

namespace FilterClause.Json

/-- A reader of values. -/
abbrev Decoder (α : Type) := Tree → Except ReadError α

/-- The error where something else was expected. -/
def Tree.mismatch (expected : Expected) : Tree → ReadError
  | .null => .invalidType .null expected
  | .bool b => .invalidType (.bool b) expected
  | .number n =>
    match n.value? with
    | some v => .invalidType (.number v) expected
    | none => .numberOutOfRange
  | .string (.ok t) => .invalidType (.string t) expected
  | .string (.error e) => e
  | .array _ => .invalidType .sequence expected
  | .object _ => .invalidType .map expected
  | .broken how => how.error

/-- Nothing where an error is absent, the error where it is present. -/
def failWith : Option ReadError → Except ReadError Unit
  | none => .ok ()
  | some e => .error e

/-- Passes a value over. -/
def skip (t : Tree) : Except ReadError Unit := failWith t.skipError?

/-- A string. -/
def string : Decoder Text
  | .string text => text
  | t => .error (t.mismatch .string)

/-- A number that fits a word of 64 bits. -/
def count : Decoder UInt64
  | .number n =>
    match n.value? with
    | some (.natural v) =>
      if h : v < UInt64.size then .ok (UInt64.ofNatLT v h) else .error .numberOutOfRange
    | some (.negative v) => .error (.invalidValue (.number (.negative v)) .count)
    | some v => .error (.invalidType (.number v) .count)
    | none => .error .numberOutOfRange
  | t => .error (t.mismatch .count)

/-- A value, or none for null. -/
def nullable {α : Type} (decode : Decoder α) : Decoder (Option α)
  | .null => .ok none
  | t => (decode t).map some

/-- Items one after the other up to the end of their list. -/
def items {α : Type} (decode : Decoder α) : Items → Except ReadError (List α)
  | .done how => (failWith how.error?).map fun _ => []
  | .more head tail => do
    let first ← decode head
    let rest ← items decode tail
    return first :: rest

/-- A list. -/
def list {α : Type} (decode : Decoder α) : Decoder (List α)
  | .array elements => items decode elements
  | t => .error (t.mismatch .sequence)

/-- The next item of a record that is given as a list, none if the list has ended. -/
def nextItem {α : Type} (decode : Decoder α) : Items → Except ReadError (Option α × Items)
  | .done how => (failWith how.error?).map fun _ => (none, .done how)
  | .more head tail => (decode head).map fun a => (some a, tail)

/-- The end of a record that is given as a list, once all of its fields are read. -/
def endItems : Items → Except ReadError Unit
  | .more _ _ => .error .trailingCharacters
  | .done .closed => .ok ()
  | .done .cut => .error .endInList
  | .done .closedBehindComma => .error .trailingComma
  | .done .stranger => .error .trailingCharacters
  | .done .cutBehindComma => .error .trailingCharacters

/-- Members one after the other; each changes what has been read so far. -/
def members {σ : Type} (step : σ → Text → Tree → Except ReadError σ) (state : σ) :
    Members → Except ReadError σ
  | .done how => (failWith how.error?).map fun _ => state
  | .brokenKey error _ => .error error
  | .more key value tail => do
    let state ← step state (← key) value
    members step state tail

/-- The value of a field that must not have been read before. -/
def fieldOnce {α : Type} (name : Text) (before : Option α) (decode : Decoder α) (value : Tree) :
    Except ReadError (Option α) :=
  match before with
  | some _ => .error (.duplicateField name)
  | none => (decode value).map some

/-- The value of a field that must be there. -/
def required {α : Type} (name : Text) : Option α → Except ReadError α
  | some a => .ok a
  | none => .error (.missingField name)

/-- The item of a record given as a list that must be there; `length` items come before it. -/
def requiredItem {α : Type} (length : Nat) (record : Text) (fields : Nat) :
    Option α → Except ReadError α
  | some a => .ok a
  | none => .error (.invalidLength length record fields)

/-- A name of a variant that carries nothing: a string, or an object whose one member has the
name for its key and null for its value. -/
def variant {α : Type} (ofName : Text → Except ReadError α) : Decoder α
  | .string name => do ofName (← name)
  | .object (.more key value tail) => do
    let a ← ofName (← key)
    match value with
    | .null => pure ()
    | value => .error (value.mismatch .unit)
    match tail with
    | .done .closed => return a
    | .done .cut => .error .endInObject
    | _ => .error .expectedValue
  | .object (.done .closed) => .error .expectedValue
  | .object (.done .cut) => .error .endInObject
  | .object (.done _) => .error .keyNotString
  | .object (.brokenKey error _) => .error error
  | .broken .nothing => .error .endInValue
  | .broken .nothingForColon => .error .endInObject
  | .broken .noColon => .error .expectedColon
  | .broken (.string error _) => .error error
  | _ => .error .expectedValue

/-- The value that makes up a whole text. -/
def decodeText {α : Type} (decode : Decoder α) (t : Text) : Except ReadError α := do
  let (tree, rest) := Tree.ofText t
  let a ← decode tree
  if (skipGap rest).isEmpty then return a else .error .trailingCharacters

end FilterClause.Json
