import FilterClause.Json.Error

/-!
# Numbers in a JSON text

A number is first split into its parts and only valued where its value is asked for: a number that
is passed over may be out of range. Digits are taken as long as they fit 64 bits; the value of a
number with a fraction or an exponent is the float of those digits, scaled by one power of ten.
-/

namespace FilterClause.Json

/-- The parts of a number as it was written. -/
structure NumberText where
  negative : Bool
  whole : Text
  fraction : Option Text
  /-- Whether the exponent has a minus sign, and its digits. -/
  exponent : Option (Bool × Text)

/-- Why a number cannot be split into its parts. -/
inductive NumberFault where
  /-- The text ends inside the number. -/
  | cut
  | malformed
deriving DecidableEq

namespace NumberText

/-- The digits at the start of a text, at least one, and what follows. -/
def takeDigits (t : Text) : Except NumberFault (Text × Text) :=
  let digits := t.takeWhile Char.isDigit
  if digits.isEmpty then .error (if t.isEmpty then .cut else .malformed)
  else .ok (digits, t.dropWhile Char.isDigit)

/-- The digits before the point; a zero stands alone. -/
def takeWhole (t : Text) : Except NumberFault (Text × Text) := do
  let (digits, rest) ← takeDigits t
  if digits.head? = some '0' && digits.length != 1 then .error .malformed
  else return (digits, rest)

/-- The fraction at the start of a text, if a point stands there. -/
def takeFraction : Text → Except NumberFault (Option Text × Text)
  | '.' :: rest => do
    let (digits, rest) ← takeDigits rest
    return (some digits, rest)
  | t => return (none, t)

/-- The exponent at the start of a text, if its letter stands there. -/
def takeExponent : Text → Except NumberFault (Option (Bool × Text) × Text)
  | c :: rest =>
    if c = 'e' || c = 'E' then do
      let (negative, rest) := match rest with
        | '+' :: rest => (false, rest)
        | '-' :: rest => (true, rest)
        | rest => (false, rest)
      let (digits, rest) ← takeDigits rest
      return (some (negative, digits), rest)
    else return (none, c :: rest)
  | [] => return (none, [])

/-- The number at the start of a text, and what follows. -/
def take (t : Text) : Except NumberFault (NumberText × Text) := do
  let (negative, t) := match t with
    | '-' :: rest => (true, rest)
    | t => (false, t)
  let (whole, t) ← takeWhole t
  let (fraction, t) ← takeFraction t
  let (exponent, t) ← takeExponent t
  return (⟨negative, whole, fraction, exponent⟩, t)

/-- The value of digits read after the value `acc`, as far as it fits 64 bits, and the digits from
the first one on that does not fit. -/
def accumulate (acc : Nat) : Text → Nat × Text
  | [] => (acc, [])
  | c :: rest =>
    let next := 10 * acc + (c.toNat - '0'.toNat)
    if next < Nat.pow 2 64 then accumulate next rest else (acc, c :: rest)

/-- The value of decimal digits. -/
def digitsValue (digits : Text) : Nat :=
  digits.foldl (fun acc c => 10 * acc + (c.toNat - '0'.toNat)) 0

/-- The power of ten as a float. -/
def powerOfTen (n : Nat) : Float := Float.ofScientific 1 false n

/-- The float `significand · 10^exponent`, none if it is infinite. The largest power that a float
holds is 10³⁰⁸, so a smaller scale takes more than one division. -/
def scale (significand : Nat) (exponent : Int) : Option Float :=
  let x := significand.toUInt64.toFloat
  let power := exponent.natAbs
  if significand = 0 then some 0
  else if 0 ≤ exponent then
    if 308 < power then none
    else
      let y := x * powerOfTen power
      if y.isInf then none else some y
  else if power ≤ 308 then some (x / powerOfTen power)
  else if power ≤ 616 then some (x / powerOfTen 308 / powerOfTen (power - 308))
  else some 0

/-- The value of a number, none if it is out of range. An integer that fits no word of 64 bits is
read as a float, and so is a negative zero. -/
def value? (n : NumberText) : Option Number :=
  let (significand, excess) := accumulate 0 n.whole
  if n.fraction.isNone && n.exponent.isNone && excess.isEmpty then
    if !n.negative then some (.natural significand)
    else if significand != 0 && significand ≤ Nat.pow 2 63 then some (.negative significand)
    else some (.real (Dyadic.ofFloat (-significand.toUInt64.toFloat)))
  else
    let fraction := n.fraction.getD []
    let (significand, ignored) := accumulate significand fraction
    let shift : Int := excess.length - (fraction.length - ignored.length : Nat)
    let exponent : Int := match n.exponent with
      | none => shift
      | some (false, digits) => shift + digitsValue digits
      | some (true, digits) => shift - digitsValue digits
    (scale significand exponent).map fun x =>
      .real (Dyadic.ofFloat (if n.negative then -x else x))

end NumberText

end FilterClause.Json
