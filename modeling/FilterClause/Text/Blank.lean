import FilterClause.Text.Basic

/-!
# White space

The twenty-five characters with the property White_Space, and trimming by them. The information
separators (U+001C to U+001F), the zero-width space and the byte-order mark are not among them.
-/

namespace FilterClause.Text

/-- The property White_Space. -/
def isBlank (c : Char) : Bool :=
  let n := c.toNat
  n == 0x20 || (0x09 ≤ n && n ≤ 0x0d) || n == 0x85 || n == 0xa0 || n == 0x1680 ||
    (0x2000 ≤ n && n ≤ 0x200a) || n == 0x2028 || n == 0x2029 || n == 0x202f || n == 0x205f ||
    n == 0x3000

/-- The text without blanks at its start. -/
def trimStart (t : Text) : Text := t.dropWhile isBlank

/-- The text without blanks at its end. -/
def trimEnd (t : Text) : Text := dropEnd isBlank t

/-- The text without blanks at both ends. -/
def trim (t : Text) : Text := dropEnds isBlank t

/-- Whether the text holds nothing but blanks. -/
def allBlank (t : Text) : Bool := t.all isBlank

end FilterClause.Text
