import Xbase.Number.Decimal

/-!
# The shortest decimal of a number

Of the decimals that read back as a given double, `Number.shortest` has the fewest digits and, of
those, is nearest to it. For 1, 2, … 17 digits it tries the two neighbours of the number on the
grid of decimals with that many digits; the first grid with a hit decides. The exact expansion ends
the search, so the result reads back in every case.
-/

namespace Xbase

namespace Number

/-- The count of decimal digits; `0` has one. -/
def digitCount (n : Nat) : Nat :=
  (Nat.toDigits 10 n).length

/-- `num / den` scaled by a power of ten. -/
def scaleTen (num den : Nat) (k : Int) : Nat × Nat :=
  if 0 ≤ k then (num * power 10 k.toNat, den) else (num, den * power 10 (-k).toNat)

/-- The power of ten of the first digit of `m * 2 ^ e`, which is not zero: a power of two that is
less than one is never a power of ten. -/
def leadingPower (num den : Nat) : Int :=
  if den ≤ num then digitCount (num / den) - 1 else -(digitCount (den / num) : Int)

/-- The neighbour of `num / den` on the grid of multiples of `10 ^ k` that reads back as `bits`;
the nearer one if both do, and the upper one on a tie. -/
def gridHit (bits num den : Nat) (k : Int) : Option Decimal :=
  let (n, d) := scaleTen num den (-k)
  let low : Decimal := ⟨n / d, k⟩
  let high : Decimal := ⟨n / d + 1, k⟩
  let lowHits := low.bits = bits
  let highHits := high.bits = bits
  if lowHits ∧ (¬ highHits ∨ 2 * (n % d) < d) then some low
  else if highHits then some high
  else none

/-- The exact decimal expansion of `m * 2 ^ e`. -/
def exactDecimal (m : Nat) (e : Int) : Decimal :=
  if 0 ≤ e then ⟨m * power 2 e.toNat, 0⟩ else ⟨m * power 5 (-e).toNat, e⟩

/-- The first hit on the grids with `17 - left + 1`, … 17 digits. -/
def firstHit (bits num den : Nat) (top : Int) : (left : Nat) → Option Decimal
  | 0 => none
  | left + 1 =>
    (gridHit bits num den (top - (17 - (left + 1) : Int))).or (firstHit bits num den top left)

/-- The shortest decimal that reads back as the number `m * 2 ^ e` with the unsigned bits `bits`. -/
def shortest (bits m : Nat) (e : Int) : Decimal :=
  if m = 0 then ⟨0, 0⟩
  else
    let (num, den) := scaleTwo m 1 e
    ((firstHit bits num den (leadingPower num den) 17).getD (exactDecimal m e)).normalize

end Number

end Xbase
