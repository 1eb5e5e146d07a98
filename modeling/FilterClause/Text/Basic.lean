/-!
# Text

The rules of this library speak about characters and the places between them, so text is a list of
characters throughout. This file holds the operations that need no character class: splitting,
joining, dropping at the ends and the length in bytes.
-/

namespace FilterClause

/-- A text, character by character. -/
abbrev Text := List Char

namespace Text

/-- The apostrophe, which delimits literals in a cleaned clause. -/
def singleQuote : Char := '\x27'

/-- The other delimiter that a literal may have before it is cleaned. -/
def doubleQuote : Char := '\x22'

/-- Number of bytes of the UTF-8 form. -/
def byteLength : Text → Nat
  | [] => 0
  | c :: t => c.utf8Size + byteLength t

@[simp] theorem byteLength_nil : byteLength [] = 0 := rfl

@[simp] theorem byteLength_cons (c : Char) (t : Text) :
    byteLength (c :: t) = c.utf8Size + byteLength t := rfl

@[simp] theorem byteLength_append (s t : Text) :
    byteLength (s ++ t) = byteLength s + byteLength t := by
  induction s with
  | nil => simp
  | cons c s ih => simp [ih, Nat.add_assoc]

/-- The pieces between the occurrences of a separator, always at least one. -/
def split (sep : Char) : Text → List Text
  | [] => [[]]
  | c :: rest =>
    if c = sep then [] :: split sep rest
    else match split sep rest with
      | [] => [[c]]
      | piece :: pieces => (c :: piece) :: pieces

/-- The texts one after the other with `sep` between neighbours. -/
def join (sep : Text) (ts : List Text) : Text := sep.intercalate ts

/-- The texts with one space between neighbours. -/
def joinSpaced (ts : List Text) : Text := join [' '] ts

/-- The text without the characters of a class at its end. -/
def dropEnd (p : Char → Bool) (t : Text) : Text := (t.reverse.dropWhile p).reverse

/-- The text without the characters of a class at both ends. -/
def dropEnds (p : Char → Bool) (t : Text) : Text := dropEnd p (t.dropWhile p)

/-- Whether `part` stands somewhere in the text. -/
def occurs (part : Text) : Text → Bool
  | [] => part.isEmpty
  | c :: rest => part.isPrefixOf (c :: rest) || occurs part rest

/-- The lines of a text: each ends before a line feed and loses one carriage return there. What
follows the last line feed is a line of its own, kept as it is, unless it is empty. -/
def lines (t : Text) : List Text :=
  ofPieces (split '\n' t)
where
  /-- Lines from the pieces between the line feeds. -/
  ofPieces : List Text → List Text
    | [] => []
    | [last] => if last.isEmpty then [] else [last]
    | piece :: pieces =>
      (if piece.getLast? = some '\r' then piece.dropLast else piece) :: ofPieces pieces

/-- The decimal digits of a number. -/
def ofNat (n : Nat) : Text := Nat.toDigits 10 n

end Text

end FilterClause
