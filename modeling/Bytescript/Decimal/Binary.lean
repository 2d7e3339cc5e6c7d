/-!
# Binary floating point values, exactly

A floating point value is given by its bits.  This module takes the bits apart into a sign, a
whole number and a power of two, for the two widths that class files store, and says which reals
round to the value.  Everything is exact arithmetic on natural numbers, so printing needs no
floating point operation at all.
-/

set_option autoImplicit false

namespace Bytescript.Decimal

/-- The layout of a binary format: how many bits hold the fraction and how many the exponent. -/
structure Format where
  fractionBits : Nat
  exponentBits : Nat

/-- The format of a 32 bit value. -/
def single : Format := ⟨23, 8⟩

/-- The format of a 64 bit value. -/
def double : Format := ⟨52, 11⟩

/-- A positive number `mantissa * 2 ^ exponent` together with what its neighbours look like:
`narrowBelow` holds if the next smaller value is only half as far away as the next larger. -/
structure Magnitude where
  mantissa : Nat
  exponent : Int
  narrowBelow : Bool

/-- What a pattern of bits stands for. -/
inductive Value where
  | nan
  | infinite (negative : Bool)
  | zero (negative : Bool)
  | finite (negative : Bool) (magnitude : Magnitude)

/-- The exponent of the last fraction bit of the smallest values of a format. -/
def Format.lowestExponent (format : Format) : Int :=
  2 - (Nat.pow 2 (format.exponentBits - 1) : Nat) - (format.fractionBits : Nat)

/-- Takes the bits of a value apart. -/
def Format.decode (format : Format) (bits : Nat) : Value :=
  let fraction := bits % Nat.pow 2 format.fractionBits
  let biased := bits / Nat.pow 2 format.fractionBits % Nat.pow 2 format.exponentBits
  let negative := bits / Nat.pow 2 (format.fractionBits + format.exponentBits) % 2 = 1
  if biased = Nat.pow 2 format.exponentBits - 1 then
    if fraction = 0 then .infinite negative else .nan
  else if biased = 0 then
    if fraction = 0 then .zero negative
    else .finite negative ⟨fraction, format.lowestExponent, false⟩
  else
    .finite negative
      ⟨Nat.pow 2 format.fractionBits + fraction, format.lowestExponent + (biased - 1 : Nat),
        fraction = 0 && 1 < biased⟩

/-- The same number as a value of the 64 bit format, which holds every 32 bit value exactly: the
mantissa is filled up to full precision, and the distance to the neighbours shrinks. -/
def Magnitude.widen (magnitude : Magnitude) : Magnitude :=
  let shift := double.fractionBits - magnitude.mantissa.log2
  let mantissa := magnitude.mantissa * Nat.pow 2 shift
  ⟨mantissa, magnitude.exponent - (shift : Nat), mantissa = Nat.pow 2 double.fractionBits⟩

/-- A 32 bit value read as a 64 bit value. -/
def Value.widen : Value → Value
  | .finite negative magnitude => .finite negative magnitude.widen
  | other => other

end Bytescript.Decimal
