import FilterClause.Json.NumberText
import FilterClause.Json.StringText

/-!
# Reading JSON

A JSON text is read into a tree as far as it goes. Where the text is at fault the tree has a broken
leaf, or a list that ends otherwise than by its bracket; nothing is reported yet. Which fault counts
depends on what the reader of the tree asks for: a value that is passed over need not denote
anything, and some faults are told in other words there. Since a tree is read in the order of the
text, the first fault or mismatch met is the first in the text.
-/

namespace FilterClause.Json

/-- A place where no value could be read. -/
inductive Broken where
  /-- The text ends. -/
  | nothing
  /-- The text ends before the colon of a member. -/
  | nothingForColon
  /-- Something else stands where the colon of a member is due. -/
  | noColon
  /-- A character that starts no value. -/
  | stranger
  /-- The text ends inside `null`, `true` or `false`. -/
  | cutIdent
  /-- A misspelt `null`, `true` or `false`. -/
  | badIdent
  | number (fault : NumberFault)
  /-- A string without an end; `error` is met if its text is asked for. -/
  | string (error : ReadError) (fault : StringFault)
deriving DecidableEq

/-- How a list of items ends. -/
inductive ItemsEnd where
  | closed
  /-- The text ends where a comma or a bracket is due. -/
  | cut
  /-- Something else stands there. -/
  | stranger
  /-- The text ends behind a comma. -/
  | cutBehindComma
  /-- The bracket stands behind a comma. -/
  | closedBehindComma
deriving DecidableEq

/-- How the members of an object end. -/
inductive MembersEnd where
  | closed
  /-- The text ends where a key, a comma or a bracket is due. -/
  | cut
  /-- Something else stands where a comma or a bracket is due. -/
  | stranger
  /-- The text ends behind a comma. -/
  | cutBehindComma
  /-- The bracket stands behind a comma. -/
  | closedBehindComma
  /-- No string stands where a key is due. -/
  | noKey
deriving DecidableEq

mutual

/-- A JSON text as far as it can be read. -/
inductive Tree where
  | null
  | bool (b : Bool)
  | number (n : NumberText)
  /-- A string with its text, or with what is wrong with its surrogates. -/
  | string (text : Except ReadError Text)
  | array (items : Items)
  | object (members : Members)
  | broken (how : Broken)

/-- The items of an array and how they end. -/
inductive Items where
  | done (how : ItemsEnd)
  | more (head : Tree) (tail : Items)

/-- The members of an object and how they end. -/
inductive Members where
  | done (how : MembersEnd)
  | more (key : Except ReadError Text) (value : Tree) (tail : Members)
  /-- A key without an end. -/
  | brokenKey (error : ReadError) (fault : StringFault)

end

/-- The blanks between the parts of a JSON text. -/
def isGap (c : Char) : Bool := c == ' ' || c == '\n' || c == '\t' || c == '\r'

/-- The text from the first character that is no blank. -/
def skipGap (t : Text) : Text := t.dropWhile isGap

/-- Reads what is left of a name whose first letter has been read. -/
def readIdent (value : Tree) : Text → Text → Tree × Text
  | [], t => (value, t)
  | _ :: _, [] => (.broken .cutIdent, [])
  | i :: ident, c :: rest =>
    if c = i then readIdent value ident rest else (.broken .badIdent, [])

/-- A number at the start of a text. -/
def readNumber (t : Text) : Tree × Text :=
  match NumberText.take t with
  | .ok (n, rest) => (.number n, rest)
  | .error fault => (.broken (.number fault), [])

/-- A string whose opening quote has been read. -/
def readStringTree (t : Text) : Tree × Text :=
  match readString t with
  | (text, .ok rest) => (.string text, rest)
  | (.error error, .error fault) => (.broken (.string error fault), [])
  | (.ok _, .error fault) => (.broken (.string fault.error fault), [])

mutual

/-- Reads a value in at most `fuel` steps. Behind a broken leaf nothing more is read. -/
def readTree : Nat → Text → Tree × Text
  | 0, _ => (.broken .nothing, [])
  | fuel + 1, t =>
    match skipGap t with
    | [] => (.broken .nothing, [])
    | c :: rest =>
      if c = 'n' then readIdent .null ['u', 'l', 'l'] rest
      else if c = 't' then readIdent (.bool true) ['r', 'u', 'e'] rest
      else if c = 'f' then readIdent (.bool false) ['a', 'l', 's', 'e'] rest
      else if c = '-' || c.isDigit then readNumber (c :: rest)
      else if c = Text.doubleQuote then readStringTree rest
      else if c = '[' then
        match skipGap rest with
        | [] => (.array (.done .cut), [])
        | d :: after =>
          if d = ']' then (.array (.done .closed), after)
          else
            let (items, after) := readItems fuel (d :: after)
            (.array items, after)
      else if c = '\x7b' then
        match skipGap rest with
        | [] => (.object (.done .cut), [])
        | d :: after =>
          if d = '\x7d' then (.object (.done .closed), after)
          else if d = Text.doubleQuote then
            let (members, after) := readMembers fuel after
            (.object members, after)
          else (.object (.done .noKey), [])
      else (.broken .stranger, [])

/-- Reads items from the first value on. -/
def readItems : Nat → Text → Items × Text
  | 0, _ => (.done .cut, [])
  | fuel + 1, t =>
    let (head, rest) := readTree fuel t
    match skipGap rest with
    | [] => (.more head (.done .cut), [])
    | c :: rest =>
      if c = ']' then (.more head (.done .closed), rest)
      else if c = ',' then
        match skipGap rest with
        | [] => (.more head (.done .cutBehindComma), [])
        | d :: after =>
          if d = ']' then (.more head (.done .closedBehindComma), [])
          else
            let (tail, after) := readItems fuel (d :: after)
            (.more head tail, after)
      else (.more head (.done .stranger), [])

/-- Reads members from the first key on, whose opening quote has been read. -/
def readMembers : Nat → Text → Members × Text
  | 0, _ => (.done .cut, [])
  | fuel + 1, t =>
    match readString t with
    | (.error error, .error fault) => (.brokenKey error fault, [])
    | (.ok _, .error fault) => (.brokenKey fault.error fault, [])
    | (key, .ok rest) =>
      let (value, rest) := match skipGap rest with
        | [] => (.broken .nothingForColon, [])
        | c :: rest => if c = ':' then readTree fuel rest else (.broken .noColon, [])
      match skipGap rest with
      | [] => (.more key value (.done .cut), [])
      | c :: rest =>
        if c = '\x7d' then (.more key value (.done .closed), rest)
        else if c = ',' then
          match skipGap rest with
          | [] => (.more key value (.done .cutBehindComma), [])
          | d :: after =>
            if d = Text.doubleQuote then
              let (tail, after) := readMembers fuel after
              (.more key value tail, after)
            else if d = '\x7d' then (.more key value (.done .closedBehindComma), [])
            else (.more key value (.done .noKey), [])
        else (.more key value (.done .stranger), [])

end

/-- Reads the value at the start of a text, and what follows. Every step reads a character, or is
one of the two that lead into a list and its first element. -/
def Tree.ofText (t : Text) : Tree × Text := readTree (2 * t.length + 2) t

/-- The error met where a broken value is asked for. -/
def Broken.error : Broken → ReadError
  | .nothing => .endInValue
  | .nothingForColon => .endInObject
  | .noColon => .expectedColon
  | .stranger => .expectedValue
  | .cutIdent => .endInValue
  | .badIdent => .expectedIdent
  | .number .cut => .endInValue
  | .number .malformed => .invalidNumber
  | .string error _ => error

/-- The error met where a broken value is passed over. -/
def Broken.skipError : Broken → ReadError
  | .number _ => .invalidNumber
  | .string _ fault => fault.error
  | how => how.error

/-- The error, if any, met at the end of items that are asked for. -/
def ItemsEnd.error? : ItemsEnd → Option ReadError
  | .closed => none
  | .cut => some .endInList
  | .stranger => some .expectedCommaInList
  | .cutBehindComma => some .endInValue
  | .closedBehindComma => some .trailingComma

/-- The error, if any, met at the end of items that are passed over. -/
def ItemsEnd.skipError? : ItemsEnd → Option ReadError
  | .closedBehindComma => some .expectedValue
  | how => how.error?

/-- The error, if any, met at the end of members that are asked for. -/
def MembersEnd.error? : MembersEnd → Option ReadError
  | .closed => none
  | .cut => some .endInObject
  | .stranger => some .expectedCommaInObject
  | .cutBehindComma => some .endInValue
  | .closedBehindComma => some .trailingComma
  | .noKey => some .keyNotString

/-- The error, if any, met at the end of members that are passed over. -/
def MembersEnd.skipError? : MembersEnd → Option ReadError
  | .cutBehindComma => some .endInObject
  | .closedBehindComma => some .keyNotString
  | how => how.error?

mutual

/-- The first error met when a value is passed over. -/
def Tree.skipError? : Tree → Option ReadError
  | .array items => items.skipError?
  | .object members => members.skipError?
  | .broken how => some how.skipError
  | _ => none

/-- The first error met when items are passed over. -/
def Items.skipError? : Items → Option ReadError
  | .done how => how.skipError?
  | .more head tail => head.skipError?.or tail.skipError?

/-- The first error met when members are passed over. -/
def Members.skipError? : Members → Option ReadError
  | .done how => how.skipError?
  | .more _ value tail => value.skipError?.or tail.skipError?
  | .brokenKey _ fault => some fault.error

end

end FilterClause.Json
