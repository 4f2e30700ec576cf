/-!
# Numbers

Numbers are double precision floating point numbers, identified by their 64 bits.

* `Number.magnitude` reads the bits: not a number, infinite, or `m * 2 ^ e`;
* `Number.ofRatio` is the double nearest to a quotient of natural numbers, a tie going to the even
  neighbour;
* the arithmetic is that of the machine.
-/

namespace Xbase

/-- A double precision number. Two numbers are equal when their bits are, so `-0` is not `0`. -/
structure Number where
  bits : UInt64
deriving DecidableEq, Inhabited

/-- What the bits of a number say, its sign apart. A finite number is `m * 2 ^ e`. -/
inductive Magnitude where
  | nan
  | infinite
  | finite (m : Nat) (e : Int)
deriving DecidableEq

namespace Number

/-- Powers of natural numbers. The instance is written out, so that it does not depend on which
others there are. -/
def power (base exponent : Nat) : Nat :=
  @HPow.hPow Nat Nat Nat (@instHPow Nat Nat instPowNat) base exponent

/-! ## Bits -/

/-- Whether the sign bit is set. -/
def isNegative (x : Number) : Bool :=
  x.bits.toNat / power 2 63 = 1

/-- The bits without the sign. -/
def unsignedBits (x : Number) : Nat :=
  x.bits.toNat % power 2 63

/-- The bits of infinity; what lies above them is not a number. -/
def infinityBits : Nat := 0x7ff * power 2 52

/-- The number whose bits without the sign are `bits`, which is finite. The exponent field 0 stands
for the same exponent as 1, without the leading one of the mantissa. -/
def magnitudeOfBits (bits : Nat) : Magnitude :=
  if infinityBits < bits then .nan
  else if bits = infinityBits then .infinite
  else if bits < power 2 52 then .finite bits (-1074)
  else .finite (power 2 52 + bits % power 2 52) (bits / power 2 52 - 1075 : Int)

/-- The number without its sign. -/
def magnitude (x : Number) : Magnitude :=
  magnitudeOfBits x.unsignedBits

/-! ## Rounding to the nearest number -/

/-- The quotient rounded to the nearest integer, a tie going to the even one. -/
def divHalfEven (num den : Nat) : Nat :=
  let q := num / den
  let twice := 2 * (num % den)
  if twice < den then q
  else if den < twice then q + 1
  else q + q % 2

/-- `num * 2 ^ e` as a quotient of natural numbers. -/
def scaleTwo (num den : Nat) (e : Int) : Nat × Nat :=
  if 0 ≤ e then (num * power 2 e.toNat, den) else (num, den * power 2 (-e).toNat)

/-- The exponent `e` for which the mantissa of `num / den` has 53 bits, or the least exponent. -/
def mantissaExponent (num den : Nat) : Int :=
  let k : Int := num.log2 - den.log2
  let (n, d) := scaleTwo num den (-k)
  max (-1074) (if d ≤ n then k - 52 else k - 53)

/-- The bits of the number nearest to `num / den`, which is not negative. A mantissa that rounds up
to 54 bits carries into the exponent field, and what is too large becomes infinity. -/
def nearestBits (num den : Nat) : Nat :=
  if num = 0 then 0
  else
    let e := mantissaExponent num den
    let (n, d) := scaleTwo num den (-e)
    min infinityBits ((e + 1074).toNat * power 2 52 + divHalfEven n d)

/-- The number with the given sign and unsigned bits. -/
def ofUnsigned (negative : Bool) (bits : Nat) : Number :=
  ⟨UInt64.ofNat (if negative then power 2 63 + bits else bits)⟩

/-- The number nearest to `num / den`. -/
def ofRatio (negative : Bool) (num den : Nat) : Number :=
  ofUnsigned negative (nearestBits num den)

/-- The number nearest to a natural number. -/
def ofNat (n : Nat) : Number :=
  ofRatio false n 1

/-- Infinity with the given sign. -/
def infinity (negative : Bool) : Number :=
  ofUnsigned negative infinityBits

/-- The value that is not a number. -/
def nan : Number :=
  ⟨0x7ff8000000000000⟩

/-! ## Arithmetic -/

/-- The machine's number with the same bits. -/
def toFloat (x : Number) : Float := Float.ofBits x.bits

/-- The bits of one of the machine's numbers. -/
def ofFloat (x : Float) : Number := ⟨x.toBits⟩

def zero : Number := ⟨0⟩

def add (x y : Number) : Number := ofFloat (x.toFloat + y.toFloat)

def sub (x y : Number) : Number := ofFloat (x.toFloat - y.toFloat)

def mul (x y : Number) : Number := ofFloat (x.toFloat * y.toFloat)

def div (x y : Number) : Number := ofFloat (x.toFloat / y.toFloat)

def neg (x : Number) : Number := ofFloat (-x.toFloat)

/-- Equality of values: the two zeros are equal, and `nan` differs from itself. -/
def eq (x y : Number) : Bool := x.toFloat == y.toFloat

def lt (x y : Number) : Bool := x.toFloat < y.toFloat

def le (x y : Number) : Bool := x.toFloat ≤ y.toFloat

/-- Either of the two zeros. -/
def isZero (x : Number) : Bool := x.unsignedBits = 0

end Number

end Xbase
