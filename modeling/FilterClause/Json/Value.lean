import FilterClause.Text.Basic

/-!
# Writing JSON

The values that the library writes, and their text in two layouts: without any blanks, and
indented by two spaces a level. The layouts differ in the blanks outside strings only.
-/

namespace FilterClause.Json

open Text

/-- A JSON value made of natural numbers and strings. -/
inductive Value where
  | number (n : Nat)
  | string (t : Text)
  | array (items : List Value)
  | object (members : List (Text × Value))

/-- The hexadecimal digit of a number below sixteen. -/
def hexDigit (n : Nat) : Char := Nat.digitChar n

/-- One character inside a string. Controls without a short escape are written by their code. -/
def escape (c : Char) : Text :=
  if c = doubleQuote || c = '\\' then ['\\', c]
  else if c = '\x08' then ['\\', 'b']
  else if c = '\x0c' then ['\\', 'f']
  else if c = '\n' then ['\\', 'n']
  else if c = '\r' then ['\\', 'r']
  else if c = '\t' then ['\\', 't']
  else if c < ' ' then ['\\', 'u', '0', '0', hexDigit (c.toNat / 16), hexDigit (c.toNat % 16)]
  else [c]

/-- A string with its quotes. -/
def writeString (t : Text) : Text := doubleQuote :: t.flatMap escape ++ [doubleQuote]

/-- The blanks of a layout. -/
structure Layout where
  /-- What stands before an element, or a closing bracket, at a depth of nesting. -/
  newLine : Nat → Text
  /-- What stands behind the colon after a key. -/
  afterColon : Text

/-- No blanks at all. -/
def Layout.compact : Layout := ⟨fun _ => [], []⟩

/-- Every element on a line of its own, indented by two spaces a level. -/
def Layout.indented : Layout := ⟨fun depth => '\n' :: List.replicate (2 * depth) ' ', [' ']⟩

/-- Written elements between brackets at a depth of nesting; nothing stands between the brackets if
there are none. -/
def Layout.enclose (l : Layout) (depth : Nat) (opening closing : Char) (elements : List Text) :
    Text :=
  if elements.isEmpty then [opening, closing]
  else
    opening :: join [','] (elements.map (l.newLine (depth + 1) ++ ·)) ++
      l.newLine depth ++ [closing]

mutual

/-- A value at a depth of nesting. -/
def Value.writeAt (l : Layout) (depth : Nat) : Value → Text
  | .number n => ofNat n
  | .string t => writeString t
  | .array items => l.enclose depth '[' ']' (writeItems l (depth + 1) items)
  | .object members => l.enclose depth '\x7b' '\x7d' (writeMembers l (depth + 1) members)

/-- The items of an array. -/
def writeItems (l : Layout) (depth : Nat) : List Value → List Text
  | [] => []
  | item :: rest => item.writeAt l depth :: writeItems l depth rest

/-- The members of an object. -/
def writeMembers (l : Layout) (depth : Nat) : List (Text × Value) → List Text
  | [] => []
  | (key, value) :: rest =>
    (writeString key ++ ':' :: l.afterColon ++ value.writeAt l depth) ::
      writeMembers l depth rest

end

/-- A value as a JSON text. -/
def Value.write (l : Layout) (v : Value) : Text := v.writeAt l 0

end FilterClause.Json
