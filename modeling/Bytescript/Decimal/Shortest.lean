import Bytescript.Decimal.Binary

/-!
# The shortest decimal that reads back

A positive binary value is written by the fewest significant digits that round to it again; of
two candidates with as few digits the nearer one is taken, and a tie goes away from zero.  For
each count of digits only the two neighbours of the value on that decimal grid have to be tried:
if any point of the grid rounds to the value, one of them does.

Two texts are made of the digits.  The positional text has no exponent and no needless point;
the diagnostic text always has a point or an exponent, which it uses for very large and very
small values.
-/

set_option autoImplicit false

namespace Bytescript.Decimal

/-- A positive decimal number `digits * 10 ^ scale`. -/
structure Numeral where
  digits : Nat
  scale : Int

/-- The value of a magnitude and the two ends of the interval that rounds to it, as numerators
over a common denominator. -/
structure Interval where
  low : Nat
  value : Nat
  high : Nat
  denominator : Nat
  closed : Bool

/-- The reals that round to a magnitude: up to half the distance to either neighbour, the ends
included if the mantissa is even. -/
def Magnitude.interval (magnitude : Magnitude) : Interval :=
  let scale := magnitude.exponent - 2
  let factor := Nat.pow 2 scale.toNat
  let below := if magnitude.narrowBelow then 1 else 2
  { low := (4 * magnitude.mantissa - below) * factor
    value := 4 * magnitude.mantissa * factor
    high := (4 * magnitude.mantissa + 2) * factor
    denominator := Nat.pow 2 (-scale).toNat
    closed := magnitude.mantissa % 2 = 0 }

/-- How many decimal digits a positive whole number has. -/
def digitCount (number : Nat) : Nat :=
  if number < 10 then 1 else digitCount (number / 10) + 1

/-- The number of leading zeros after the point of a value below one, at most `fuel` of them. -/
def leadingZeros (denominator : Nat) : (fuel value : Nat) → Nat
  | 0, _ => 0
  | fuel + 1, value =>
    if denominator ≤ value * 10 then 0 else leadingZeros denominator fuel (value * 10) + 1

/-- The number `e` with `10 ^ (e - 1) ≤ value < 10 ^ e`. -/
def Interval.decimalExponent (interval : Interval) : Int :=
  if interval.denominator ≤ interval.value then
    digitCount (interval.value / interval.denominator)
  else
    -(leadingZeros interval.denominator interval.denominator.log2 interval.value : Int)

/-- The distance between two whole numbers. -/
def distance (left right : Nat) : Nat := (left - right) + (right - left)

/-- The best candidate on the grid of multiples of `10 ^ scale`, if one rounds to the value. -/
def Interval.onGrid (interval : Interval) (scale : Int) : Option Numeral :=
  let up := Nat.pow 10 scale.toNat
  let down := Nat.pow 10 (-scale).toNat
  let unit := up * interval.denominator
  let value := interval.value * down
  let floor := value / unit
  let reads (candidate : Nat) : Bool :=
    let point := candidate * unit
    let low := interval.low * down
    let high := interval.high * down
    if interval.closed then low ≤ point && point ≤ high else low < point && point < high
  let lower := reads floor
  let upper := reads (floor + 1)
  if lower && upper then
    if distance value (floor * unit) < distance value ((floor + 1) * unit) then
      some ⟨floor, scale⟩
    else some ⟨floor + 1, scale⟩
  else if lower then some ⟨floor, scale⟩
  else if upper then some ⟨floor + 1, scale⟩
  else none

/-- Drops zeros at the end of the digits, at most `fuel` of them. -/
def Numeral.trim : (fuel : Nat) → Numeral → Numeral
  | 0, decimal => decimal
  | fuel + 1, decimal =>
    if decimal.digits % 10 = 0 ∧ decimal.digits ≠ 0 then
      Numeral.trim fuel ⟨decimal.digits / 10, decimal.scale + 1⟩
    else decimal

/-- The first grid with a candidate, trying one digit more each time. -/
def Interval.search (interval : Interval) (exponent : Int) : (fuel count : Nat) → Numeral
  | 0, count => ⟨interval.value / interval.denominator, count⟩
  | fuel + 1, count =>
    match interval.onGrid (exponent - (count : Nat)) with
    | some decimal => decimal
    | none => interval.search exponent fuel (count + 1)

/-- The shortest decimal that reads back as the magnitude.  Seventeen digits always do. -/
def Magnitude.shortest (magnitude : Magnitude) : Numeral :=
  let interval := magnitude.interval
  (interval.search interval.decimalExponent 20 1).trim 20

/-! ## Texts -/

/-- The digits of a decimal, the most significant first. -/
def Numeral.text (decimal : Numeral) : List Char := Nat.toDigits 10 decimal.digits

/-- A decimal written out without an exponent. -/
def Numeral.positional (decimal : Numeral) : List Char :=
  let digits := decimal.text
  if 0 ≤ decimal.scale then digits ++ List.replicate decimal.scale.toNat '0'
  else
    let places := (-decimal.scale).toNat
    let padded := List.replicate (places + 1 - digits.length) '0' ++ digits
    padded.take (padded.length - places) ++ '.' :: padded.drop (padded.length - places)

/-- A decimal with one digit before the point and an exponent. -/
def Numeral.scientific (decimal : Numeral) : List Char :=
  let digits := decimal.text
  let exponent := decimal.scale + (digits.length - 1 : Nat)
  let fraction := if digits.length = 1 then [] else '.' :: digits.drop 1
  digits.take 1 ++ fraction ++ 'e' :: (toString exponent).toList

/-- A minus sign in front of a negative number. -/
def signed (negative : Bool) (text : List Char) : String :=
  String.ofList (if negative then '-' :: text else text)

/-- The number a script literal spells: the shortest digits without an exponent, and no point in
a whole number. -/
def Value.literal : Value → String
  | .nan => "NaN"
  | .infinite negative => signed negative "Infinity".toList
  | .zero negative => signed negative ['0']
  | .finite negative magnitude => signed negative magnitude.shortest.positional

/-- Whether a decimal is shown with an exponent in messages: from `10 ^ 16` on and below
`10 ^ -4`. -/
def Numeral.needsExponent (decimal : Numeral) : Bool :=
  let exponent := decimal.scale + ((decimal.text.length - 1 : Nat) : Int)
  16 ≤ exponent || exponent < -4

/-- The number as messages show it, with a point or an exponent in every finite value. -/
def Value.diagnostic : Value → String
  | .nan => "NaN"
  | .infinite negative => signed negative "inf".toList
  | .zero negative => signed negative "0.0".toList
  | .finite negative magnitude =>
    let decimal := magnitude.shortest
    if decimal.needsExponent then signed negative decimal.scientific
    else if 0 ≤ decimal.scale then signed negative (decimal.positional ++ ['.', '0'])
    else signed negative decimal.positional

end Bytescript.Decimal
