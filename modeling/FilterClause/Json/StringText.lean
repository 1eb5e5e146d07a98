import FilterClause.Json.Error

/-!
# Strings in a JSON text

A string is read in two steps. The first finds its end and undoes the escapes one by one; it is all
that a string which is passed over must withstand. The second joins the two halves of characters
that were escaped as surrogate pairs.
-/

namespace FilterClause.Json

open Text

/-- A character of a string, or the code unit of a `\u` escape. -/
inductive CodeUnit where
  | char (c : Char)
  | code (n : Nat)
deriving DecidableEq

/-- Why a string has no end. -/
inductive StringFault where
  | cut
  /-- A control character stands in the string. -/
  | control
  /-- The character behind a backslash is none that can be escaped. -/
  | escape
  /-- A `\u` is not followed by four hexadecimal digits. -/
  | digits
deriving DecidableEq

/-- The error that a fault is told as. -/
def StringFault.error : StringFault → ReadError
  | .cut => .endInString
  | .control => .controlCharacter
  | .escape => .invalidEscape
  | .digits => .invalidEscape

/-- The value of a hexadecimal digit of either case. -/
def hexValue? (c : Char) : Option Nat :=
  if c.isDigit then some (c.toNat - '0'.toNat)
  else if 'a' ≤ c && c ≤ 'f' then some (c.toNat - 'a'.toNat + 10)
  else if 'A' ≤ c && c ≤ 'F' then some (c.toNat - 'A'.toNat + 10)
  else none

/-- The value of four hexadecimal digits. -/
def hexCode? (a b c d : Char) : Option Nat := do
  return (((← hexValue? a) * 16 + (← hexValue? b)) * 16 + (← hexValue? c)) * 16 + (← hexValue? d)

/-- The character that stands behind a backslash for another one. -/
def unescape? (c : Char) : Option Char :=
  if c = doubleQuote || c = '\\' || c = '/' then some c
  else if c = 'b' then some '\x08'
  else if c = 'f' then some '\x0c'
  else if c = 'n' then some '\n'
  else if c = 'r' then some '\r'
  else if c = 't' then some '\t'
  else none

/-- The fault of a `\u` escape without four digits. The text is cut if it has less than four bytes
left. -/
def digitsFault (t : Text) : StringFault := if byteLength t < 4 then .cut else .digits

/-- The code units of a string whose opening quote has been read, and what follows its closing
quote. -/
def readUnits : Text → List CodeUnit × Except StringFault Text
  | [] => ([], .error .cut)
  | c :: rest =>
    if c = doubleQuote then ([], .ok rest)
    else if c < ' ' then ([], .error .control)
    else if c = '\\' then
      match rest with
      | [] => ([], .error .cut)
      | e :: rest =>
        if e = 'u' then
          match rest with
          | h₁ :: h₂ :: h₃ :: h₄ :: after =>
            match hexCode? h₁ h₂ h₃ h₄ with
            | some n =>
              let (units, result) := readUnits after
              (.code n :: units, result)
            | none => ([], .error (digitsFault rest))
          | _ => ([], .error (digitsFault rest))
        else
          match unescape? e with
          | some x =>
            let (units, result) := readUnits rest
            (.char x :: units, result)
          | none => ([], .error .escape)
    else
      let (units, result) := readUnits rest
      (.char c :: units, result)

/-- Whether a code unit is the first half of a pair. -/
def isLeading (n : Nat) : Bool := 0xd800 ≤ n && n ≤ 0xdbff

/-- Whether a code unit is the second half of a pair. -/
def isTrailing (n : Nat) : Bool := 0xdc00 ≤ n && n ≤ 0xdfff

/-- The character of a pair of code units. -/
def pairChar (n m : Nat) : Char := Char.ofNat ((n - 0xd800) * 0x400 + (m - 0xdc00) + 0x10000)

/-- What is wrong behind the first half of a pair where the code units end with `result`. -/
def unpairedError : Except StringFault Text → ReadError
  | .error .cut => .endInString
  | .error .digits => .invalidEscape
  | _ => .unpairedSurrogate

/-- The text of code units that end with `result`. -/
def joinUnits (result : Except StringFault Text) : List CodeUnit → Except ReadError Text
  | [] =>
    match result with
    | .ok _ => .ok []
    | .error fault => .error fault.error
  | .char c :: rest => (joinUnits result rest).map (c :: ·)
  | .code n :: rest =>
    if isTrailing n then .error .loneSurrogate
    else if isLeading n then
      match rest with
      | .code m :: rest =>
        if isTrailing m then (joinUnits result rest).map (pairChar n m :: ·)
        else .error .loneSurrogate
      | .char _ :: _ => .error .unpairedSurrogate
      | [] => .error (unpairedError result)
    else (joinUnits result rest).map (Char.ofNat n :: ·)

/-- A string whose opening quote has been read: its text if it is asked for, and what follows if
it is passed over. -/
def readString (t : Text) : Except ReadError Text × Except StringFault Text :=
  let (units, result) := readUnits t
  (joinUnits result units, result)

end FilterClause.Json
