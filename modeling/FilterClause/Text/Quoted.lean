import FilterClause.Text.Basic
import FilterClause.Unicode.Range
import FilterClause.Unicode.Mark
import FilterClause.Unicode.Unprintable

/-!
# Text shown in a message

A text that a message quotes stands in double quotes. The quote, the backslash and the common
controls have short escapes; every other character that has no visible form of its own, or that
would attach to the one before it, is written by its code point.
-/

namespace FilterClause.Text

open Unicode

/-- Whether a character is shown as it is. -/
def isVisible (c : Char) : Bool :=
  !inRanges c.toNat unprintableRanges && !inRanges c.toNat extendingMarkRanges

/-- The hexadecimal digits of a code point, in small letters and without padding. -/
def hexDigits (n : Nat) : Text := Nat.toDigits 16 n

/-- One character as a message shows it. -/
def shownChar (c : Char) : Text :=
  if c = doubleQuote || c = '\\' then ['\\', c]
  else if c = '\t' then ['\\', 't']
  else if c = '\n' then ['\\', 'n']
  else if c = '\r' then ['\\', 'r']
  else if c = '\x00' then ['\\', '0']
  else if isVisible c then [c]
  else ['\\', 'u', '\x7b'] ++ hexDigits c.toNat ++ ['\x7d']

/-- A text as a message shows it. -/
def shown (t : Text) : Text := doubleQuote :: t.flatMap shownChar ++ [doubleQuote]

end FilterClause.Text
