import FilterClause.Decimal.Shortest
import FilterClause.Text.Quoted

/-!
# Why a JSON text was refused

The causes and their wording. Where a value has the wrong type the message names what was found:
numbers and strings are shown, lists and objects are only named.
-/

namespace FilterClause.Json

/-- A number as far as a message tells numbers apart. -/
inductive Number where
  | natural (n : Nat)
  /-- The negative of a positive number. -/
  | negative (n : Nat)
  | real (x : Dyadic)
deriving DecidableEq

/-- What was found where something else was expected. -/
inductive Found where
  | null
  | bool (b : Bool)
  | number (n : Number)
  | string (t : Text)
  | sequence
  | map
deriving DecidableEq

/-- What was expected. -/
inductive Expected where
  | string
  | sequence
  /-- A number of 64 bits without sign. -/
  | count
  | unit
  | record (name : Text)
deriving DecidableEq

/-- Why a JSON text was refused. -/
inductive ReadError where
  | endInValue
  | endInList
  | endInObject
  | endInString
  | expectedValue
  | expectedIdent
  | expectedColon
  | expectedCommaInList
  | expectedCommaInObject
  | keyNotString
  | trailingComma
  | trailingCharacters
  | invalidNumber
  | numberOutOfRange
  | invalidEscape
  | loneSurrogate
  | unpairedSurrogate
  | controlCharacter
  | missingField (name : Text)
  | duplicateField (name : Text)
  | unknownVariant (name : Text)
  | invalidType (found : Found) (expected : Expected)
  | invalidValue (found : Found) (expected : Expected)
  /-- A record given as a list that is too short. -/
  | invalidLength (length : Nat) (name : Text) (fields : Nat)
deriving DecidableEq

/-- Text between back-quotes. -/
def ticked (t : Text) : Text := '\x60' :: t ++ ['\x60']

/-- Decimals are positional from 10⁻⁵ up to 10¹⁶, and exponents carry their sign. -/
def realStyle : Decimal.Style := ⟨16, -5, ['+']⟩

/-- What was found, in words. -/
def Found.text : Found → Text
  | .null => "null".toList
  | .bool true => "boolean ".toList ++ ticked "true".toList
  | .bool false => "boolean ".toList ++ ticked "false".toList
  | .number (.natural n) => "integer ".toList ++ ticked (Text.ofNat n)
  | .number (.negative n) => "integer ".toList ++ ticked ('-' :: Text.ofNat n)
  | .number (.real x) => "floating point ".toList ++ ticked (x.write realStyle)
  | .string t => "string ".toList ++ Text.shown t
  | .sequence => "sequence".toList
  | .map => "map".toList

/-- What was expected, in words. -/
def Expected.text : Expected → Text
  | .string => "a string".toList
  | .sequence => "a sequence".toList
  | .count => "u64".toList
  | .unit => "unit".toList
  | .record name => "struct ".toList ++ name

/-- The error in words. -/
def ReadError.message : ReadError → Text
  | .endInValue => "EOF while parsing a value".toList
  | .endInList => "EOF while parsing a list".toList
  | .endInObject => "EOF while parsing an object".toList
  | .endInString => "EOF while parsing a string".toList
  | .expectedValue => "expected value".toList
  | .expectedIdent => "expected ident".toList
  | .expectedColon => "expected ".toList ++ ticked [':']
  | .expectedCommaInList => "expected ".toList ++ ticked [','] ++ " or ".toList ++ ticked [']']
  | .expectedCommaInObject =>
    "expected ".toList ++ ticked [','] ++ " or ".toList ++ ticked ['\x7d']
  | .keyNotString => "key must be a string".toList
  | .trailingComma => "trailing comma".toList
  | .trailingCharacters => "trailing characters".toList
  | .invalidNumber => "invalid number".toList
  | .numberOutOfRange => "number out of range".toList
  | .invalidEscape => "invalid escape".toList
  | .loneSurrogate => "lone leading surrogate in hex escape".toList
  | .unpairedSurrogate => "unexpected end of hex escape".toList
  | .controlCharacter =>
    "control character (\\u0000-\\u001F) found while parsing a string".toList
  | .missingField name => "missing field ".toList ++ ticked name
  | .duplicateField name => "duplicate field ".toList ++ ticked name
  | .unknownVariant name =>
    "unknown variant ".toList ++ ticked name ++ ", expected ".toList ++ ticked "error".toList ++
      " or ".toList ++ ticked "warning".toList
  | .invalidType found expected =>
    "invalid type: ".toList ++ found.text ++ ", expected ".toList ++ expected.text
  | .invalidValue found expected =>
    "invalid value: ".toList ++ found.text ++ ", expected ".toList ++ expected.text
  | .invalidLength length name fields =>
    "invalid length ".toList ++ Text.ofNat length ++ ", expected struct ".toList ++ name ++
      " with ".toList ++ Text.ofNat fields ++ " elements".toList

end FilterClause.Json
