import Xbase.Number.Shortest

/-!
# Numbers as text

Two layouts of the shortest decimal and a reader.

* `Number.plain` writes every number in full, without an exponent;
* `Number.pointed` keeps a digit after the point and leaves the full form for an exponent below
  `1e-4` and from `1e16` on;
* `Number.ofText?` reads any decimal notation.
-/

namespace Xbase.Number

/-! ## Writing -/

/-- How the shortest decimal of a number is laid out. -/
structure Layout where
  /-- Powers of ten of the first digit that are written in full. -/
  inFull : Int → Bool
  /-- Whether a whole number written in full ends in `.0`. -/
  pointAlways : Bool

/-- The coefficient with the point at its place and no exponent. -/
def positional (pointAlways : Bool) (d : Decimal) : List Char :=
  let ds := d.digits
  if 0 ≤ d.exponent then
    ds ++ List.replicate d.exponent.toNat '0' ++ (if pointAlways then ['.', '0'] else [])
  else
    let places := (-d.exponent).toNat
    let padded := List.replicate (places + 1 - ds.length) '0' ++ ds
    padded.take (padded.length - places) ++ '.' :: padded.drop (padded.length - places)

/-- An integer with a minus sign if it needs one. -/
def signedDigits (n : Int) : List Char :=
  (if n < 0 then ['-'] else []) ++ Nat.toDigits 10 n.natAbs

/-- One digit before the point, the exponent after an `e`. -/
def scientific (d : Decimal) : List Char :=
  match d.digits with
  | [] => []
  | first :: rest =>
    first :: (if rest.isEmpty then [] else '.' :: rest) ++ 'e' :: signedDigits d.leading

/-- A number as text in the given layout. Only finite numbers other than zero can be too large or
too small for the full form, and `NaN` has no sign. -/
def Layout.write (layout : Layout) (x : Number) : String :=
  let sign := if x.isNegative then ['-'] else []
  match x.magnitude with
  | .nan => "NaN"
  | .infinite => String.ofList (sign ++ ['i', 'n', 'f'])
  | .finite m e =>
    let d := shortest x.unsignedBits m e
    String.ofList <| sign ++
      if m = 0 ∨ layout.inFull d.leading then positional layout.pointAlways d else scientific d

/-- Every digit, and a point only before a fraction. -/
def plainLayout : Layout := ⟨fun _ => true, false⟩

/-- Numbers from `1e-4` to below `1e16` are written in full, always with a point. -/
def pointedLayout : Layout := ⟨fun p => -4 ≤ p && p < 16, true⟩

def plain (x : Number) : String := plainLayout.write x

def pointed (x : Number) : String := pointedLayout.write x

/-! ## Reading -/

/-- The natural number that digits stand for. -/
def digitsValue (ds : List Char) : Nat :=
  ds.foldl (fun n c => 10 * n + (c.toNat - '0'.toNat)) 0

/-- The number with the given digits before and after the point, scaled by a power of ten. -/
def ofDigits (negative : Bool) (whole fraction : List Char) (power : Int) : Number :=
  ofDecimal negative ⟨digitsValue (whole ++ fraction), power - fraction.length⟩

/-- The sign at the start of a text, and what follows it. -/
def readSign : List Char → Bool × List Char
  | '-' :: rest => (true, rest)
  | '+' :: rest => (false, rest)
  | cs => (false, cs)

/-- The power of ten after the mark `e`; nothing stands for the power 0. -/
def readPower? : List Char → Option Int
  | [] => some 0
  | mark :: rest =>
    let (negative, ds) := readSign rest
    if mark.toLower = 'e' ∧ ds ≠ [] ∧ ds.all Char.isDigit then
      some (if negative then -(digitsValue ds) else digitsValue ds)
    else none

/-- Digits with a point somewhere among them and perhaps a power of ten. -/
def readDecimal? (negative : Bool) (cs : List Char) : Option Number := do
  let whole := cs.takeWhile Char.isDigit
  let rest := cs.dropWhile Char.isDigit
  let (fraction, rest) := match rest with
    | '.' :: more => (more.takeWhile Char.isDigit, more.dropWhile Char.isDigit)
    | _ => ([], rest)
  if whole = [] ∧ fraction = [] then none
  else return ofDigits negative whole fraction (← readPower? rest)

/-- Reads a decimal with optional sign, fraction and exponent, or the name of infinity or of what
is not a number, in any case. -/
def ofText? (s : String) : Option Number :=
  let (negative, cs) := readSign s.toList
  let word := String.ofList (cs.map Char.toLower)
  if word = "inf" ∨ word = "infinity" then some (infinity negative)
  else if word = "nan" then some nan
  else readDecimal? negative cs

end Xbase.Number
