import FilterClause.Text.Basic

/-!
# Shortest decimal form of a binary number

A number of the form `mantissa · 2^exponent` stands for every real that is rounded to it. Its
shortest decimal form is the decimal with the fewest digits among those reals, and of these the
nearest. For each count of digits only the two neighbours on that decimal grid can qualify.
-/

namespace FilterClause

/-- A binary number with the sign kept apart: `± mantissa · 2^exponent`. -/
structure Dyadic where
  negative : Bool
  mantissa : Nat
  exponent : Int
deriving DecidableEq

/-- The finite number that a float holds. -/
def Dyadic.ofFloat (x : Float) : Dyadic :=
  let bits := x.toBits.toNat
  let fraction : Nat := bits % Nat.pow 2 52
  let biased : Nat := bits / Nat.pow 2 52 % Nat.pow 2 11
  if biased = 0 then ⟨bits / Nat.pow 2 63 = 1, fraction, -1074⟩
  else ⟨bits / Nat.pow 2 63 = 1, fraction + Nat.pow 2 52, (biased : Int) - 1075⟩

/-- A decimal number: `digits · 10^exponent`. -/
structure Decimal where
  digits : Nat
  exponent : Int
deriving DecidableEq

/-- Numerators over one denominator, in units of `10^k`: the lower end of the interval that rounds
to the number, the number and the upper end. -/
structure Scaled where
  low : Nat
  value : Nat
  high : Nat
  denominator : Nat
  /-- Whether the ends belong to the interval. -/
  closed : Bool

/-- The interval of a positive number in units of `10^k`. -/
def Dyadic.scaled (x : Dyadic) (k : Int) : Scaled :=
  let narrow := x.mantissa = Nat.pow 2 52 ∧ -1074 < x.exponent
  let up := Nat.pow 2 (x.exponent - 2).toNat * Nat.pow 10 (-k).toNat
  let down := Nat.pow 2 (2 - x.exponent).toNat * Nat.pow 10 k.toNat
  { low := (4 * x.mantissa - (if narrow then 1 else 2)) * up
    value := 4 * x.mantissa * up
    high := (4 * x.mantissa + 2) * up
    denominator := down
    closed := x.mantissa % 2 = 0 }

/-- Whether a multiple of the unit lies in the interval. -/
def Scaled.holds (s : Scaled) (n : Nat) : Bool :=
  let p := n * s.denominator
  if s.closed then s.low ≤ p && p ≤ s.high else s.low < p && p < s.high

/-- The multiple of the unit in the interval that is nearest to the number, if there is one; the
even one of two that are equally near. -/
def Scaled.nearest? (s : Scaled) : Option Nat :=
  let below := s.value / s.denominator
  let toBelow := s.value - below * s.denominator
  let toAbove := s.denominator - toBelow
  match s.holds below && below != 0, s.holds (below + 1) with
  | true, true =>
    if toBelow < toAbove || (toBelow = toAbove && below % 2 = 0) then some below
    else some (below + 1)
  | true, false => some below
  | false, true => some (below + 1)
  | false, false => none

/-- The number of decimal places before the point, for a number of at least one; otherwise the
negative of the number of zeros behind it. -/
def Dyadic.magnitude (x : Dyadic) : Int :=
  let s := x.scaled 0
  if s.denominator ≤ s.value then (Nat.toDigits 10 (s.value / s.denominator)).length
  else 1 - (Nat.toDigits 10 ((s.denominator - 1) / s.value)).length

/-- The first hit among grids with one more digit each, at most `more` of them. -/
def Dyadic.searchFrom (x : Dyadic) (k : Int) : Nat → Decimal
  | 0 => ⟨(x.scaled k).value / (x.scaled k).denominator, k⟩
  | more + 1 =>
    match (x.scaled k).nearest? with
    | some n => ⟨n, k⟩
    | none => x.searchFrom (k - 1) more

/-- The shortest decimal that is rounded to a number. -/
def Dyadic.shortest (x : Dyadic) : Decimal :=
  if x.mantissa = 0 then ⟨0, 0⟩ else x.searchFrom x.magnitude 18

/-- How a decimal is written. -/
structure Decimal.Style where
  /-- Positional notation is used for numbers below `10^upTo`. -/
  upTo : Int
  /-- Positional notation is used for numbers from `10^downTo` on. -/
  downTo : Int
  /-- The sign of an exponent that is not negative. -/
  plus : Text

/-- The digits of a decimal without zeros at the end. -/
def Decimal.significant (d : Decimal) : Text :=
  match Text.dropEnd (· == '0') (Text.ofNat d.digits) with
  | [] => ['0']
  | t => t

/-- A decimal in a given notation. There is a digit on both sides of every point. -/
def Decimal.write (style : Decimal.Style) (d : Decimal) : Text :=
  let all := Text.ofNat d.digits
  let digits := d.significant
  let point : Int := all.length + d.exponent
  if d.digits = 0 then ['0', '.', '0']
  else if style.downTo < point ∧ point ≤ 0 then
    ['0', '.'] ++ List.replicate (-point).toNat '0' ++ digits
  else if 0 < point ∧ point ≤ style.upTo then
    let whole := digits.take point.toNat
    let rest := digits.drop point.toNat
    whole ++ List.replicate (point.toNat - whole.length) '0' ++
      '.' :: (if rest.isEmpty then ['0'] else rest)
  else
    let power := point - 1
    digits.take 1 ++ (if digits.length = 1 then [] else '.' :: digits.drop 1) ++
      'e' :: (if power < 0 then ['-'] else style.plus) ++ Text.ofNat power.natAbs

/-- A binary number in its shortest decimal form. -/
def Dyadic.write (style : Decimal.Style) (x : Dyadic) : Text :=
  (if x.negative then ['-'] else []) ++ x.shortest.write style

end FilterClause
