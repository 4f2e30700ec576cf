import Xbase.Number.Basic

/-!
# Decimal fractions

A decimal is a natural number times a power of ten. `Decimal.normalize` gives the form without
zeros at the end, and `Decimal.bits` the double nearest to a decimal, which depends on the normal
form only.
-/

namespace Xbase

/-- The decimal fraction `coefficient * 10 ^ exponent`. -/
structure Decimal where
  coefficient : Nat
  exponent : Int
deriving DecidableEq, Repr

namespace Decimal

/-- Moves the zeros at the end of the coefficient into the exponent. -/
def normalize (d : Decimal) : Decimal :=
  if h : d.coefficient ≠ 0 ∧ d.coefficient % 10 = 0 then
    normalize ⟨d.coefficient / 10, d.exponent + 1⟩
  else d
termination_by d.coefficient
decreasing_by exact Nat.div_lt_self (Nat.pos_of_ne_zero h.1) (by decide)

/-- The digits of the coefficient. -/
def digits (d : Decimal) : List Char :=
  Nat.toDigits 10 d.coefficient

/-- The power of ten of the first digit. -/
def leading (d : Decimal) : Int :=
  d.digits.length - 1 + d.exponent

/-- The bits of the number nearest to `c * 10 ^ k`. Decimals far outside the range of doubles are
decided by their size alone: `10 ^ k` has more than three bits for each power of ten. -/
def roundedBits (c : Nat) (k : Int) : Nat :=
  if c = 0 then 0
  else if 0 ≤ k then
    if 1100 < c.log2 + 3 * k then Number.infinityBits
    else Number.nearestBits (c * Number.power 10 k.toNat) 1
  else if c.log2 + 3 * k < -1100 then 0
  else Number.nearestBits c (Number.power 10 (-k).toNat)

/-- The unsigned bits of the number nearest to the decimal. -/
def bits (d : Decimal) : Nat :=
  roundedBits d.normalize.coefficient d.normalize.exponent

end Decimal

/-- The number nearest to a decimal with a sign. -/
def Number.ofDecimal (negative : Bool) (d : Decimal) : Number :=
  ofUnsigned negative d.bits

end Xbase
