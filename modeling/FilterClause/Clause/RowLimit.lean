import FilterClause.Text.Blank
import FilterClause.Text.Word
import FilterClause.Text.Keyword

/-!
# The row limit

A clause may end in `LIMIT` and a number. The limit is detached before anything else is read and
put back as it was written. It is recognised from the end of the text: blanks, decimal digits of
any script, blanks, and the keyword with no word character before it.
-/

namespace FilterClause

open Text

/-- A row limit as it was written, and the number that its digits denote. -/
structure RowLimit where
  text : Text
  count : Option UInt64
deriving DecidableEq

namespace RowLimit

/-- The value of ASCII digits read after the value `acc`. -/
def digitsValue (acc : Nat) : Text → Option Nat
  | [] => some acc
  | c :: rest => if c.isDigit then digitsValue (10 * acc + (c.toNat - '0'.toNat)) rest else none

/-- The number that digits denote, if all of them are ASCII and it fits 64 bits. -/
def count? (digits : Text) : Option UInt64 :=
  match digitsValue 0 digits with
  | some n => if h : n < UInt64.size then some (UInt64.ofNatLT n h) else none
  | none => none

/-- The body of a clause, without blanks at its end, and its row limit. A text that ends in no
limit is its own body. -/
def detach (raw : Text) : Text × Option RowLimit :=
  let back := raw.reverse.dropWhile isBlank
  let digits := back.takeWhile isWordDigit
  let gap := (back.dropWhile isWordDigit).takeWhile isBlank
  let front := (back.dropWhile isWordDigit).dropWhile isBlank
  match stripKeyword ['t', 'i', 'm', 'i', 'l'] front with
  | none => (raw, none)
  | some before =>
    if digits.isEmpty || gap.isEmpty || startsWithWord before then (raw, none)
    else
      (trimEnd before.reverse,
        some ⟨(front.take 5).reverse ++ gap.reverse ++ digits.reverse, count? digits.reverse⟩)

/-- A cleaned body with its row limit behind it. -/
def attach (body : Text) : Option RowLimit → Text
  | none => body
  | some limit => if body.isEmpty then limit.text else body ++ ' ' :: limit.text

@[simp] theorem attach_none (body : Text) : attach body none = body := rfl

@[simp] theorem attach_nil (limit : RowLimit) : attach [] (some limit) = limit.text := rfl

end RowLimit

end FilterClause
