import FilterClause.Text.Basic

/-!
# Keywords

Keywords are spelled in any letter case. Of the letters that the keywords are made of, only `K`
has a further case sibling outside ASCII, the Kelvin sign.
-/

namespace FilterClause.Text

/-- A letter of a keyword in its lower-case ASCII form. -/
def foldLetter (c : Char) : Char := if c = '\u212a' then 'k' else c.toLower

/-- What follows the keyword, given in small letters, at the start of a text. -/
def stripKeyword : Text → Text → Option Text
  | [], t => some t
  | _ :: _, [] => none
  | k :: keyword, c :: rest => if foldLetter c = k then stripKeyword keyword rest else none

/-- Equality up to the case of ASCII letters. -/
def sameIgnoringCase (s t : Text) : Bool := s.map Char.toLower == t.map Char.toLower

theorem sameIgnoringCase_iff {s t : Text} :
    sameIgnoringCase s t = true ↔ s.map Char.toLower = t.map Char.toLower := by
  simp [sameIgnoringCase]

@[simp] theorem sameIgnoringCase_refl (t : Text) : sameIgnoringCase t t = true := by
  simp [sameIgnoringCase]

/-- The text with its ASCII letters in upper case. -/
def upper (t : Text) : Text := t.map Char.toUpper

end FilterClause.Text
