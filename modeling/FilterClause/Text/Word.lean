import FilterClause.Text.Basic
import FilterClause.Unicode.Range
import FilterClause.Unicode.Age
import FilterClause.Unicode.Alphabetic
import FilterClause.Unicode.Mark
import FilterClause.Unicode.Number

/-!
# Word and name characters

Two classes that overlap but differ. A *word character* may stand in a word of a clause and decides
where a keyword ends: alphabetic characters, all marks, decimal digits, connectors such as the
underscore, and the two joiners. A *name character* may stand in the name before a call's bracket:
alphabetic characters, numbers of every kind, and the underscore. A combining accent is a word
character only, a superscript two a name character only. Words keep to
edition 16.0 of the Unicode Standard and names to edition 17.0, so a character that only the latter
has may stand in a name but not in a word.
-/

namespace FilterClause.Text

open Unicode

/-- The property Alphabetic. -/
def isAlphabetic (c : Char) : Bool := inRanges c.toNat alphabeticRanges

/-- Decimal digits of every script. -/
def isDecimal (c : Char) : Bool := inRanges c.toNat decimalRanges

/-- Connecting punctuation, of which the underscore is one. -/
def isConnector (c : Char) : Bool :=
  inRanges c.toNat
    [(0x5f, 0x5f), (0x203f, 0x2040), (0x2054, 0x2054), (0xfe33, 0xfe34), (0xfe4d, 0xfe4f),
     (0xff3f, 0xff3f)]

/-- The zero-width joiner and non-joiner. -/
def isJoiner (c : Char) : Bool := c == '\u200c' || c == '\u200d'

/-- Characters that no edition before 17.0 has. -/
def isNewest (c : Char) : Bool := inRanges c.toNat newestRanges

/-- Characters that make up words. -/
def isWord (c : Char) : Bool :=
  (isAlphabetic c || isDecimal c || isConnector c || isJoiner c ||
    inRanges c.toNat plainMarkRanges) && !isNewest c

/-- Decimal digits that make up words. -/
def isWordDigit (c : Char) : Bool := isDecimal c && !isNewest c

theorem isWord_of_isWordDigit {c : Char} (h : isWordDigit c = true) : isWord c = true := by
  simp only [isWordDigit, Bool.and_eq_true] at h
  simp [isWord, h]

/-- Characters that make up the name of a call. -/
def isName (c : Char) : Bool :=
  isAlphabetic c || isDecimal c || inRanges c.toNat otherNumberRanges || c == '_'

/-- Whether the text starts with a word character. -/
def startsWithWord (t : Text) : Bool := t.head?.any isWord

end FilterClause.Text
