/-!
# Sets of code points as flip points

A set of code points is stored as the increasing list of the points at which membership flips,
starting outside: the set `{3, 4, 9}` is `[3, 5, 9, 10]`. A code point belongs to the set when an
odd number of flip points lie at or below it.
-/

namespace Xbase.Text

/-- Membership of `n` in the set given by `flips`, when the points below stand for `inside`. -/
def flipped (inside : Bool) (n : Nat) : List Nat → Bool
  | [] => inside
  | p :: rest => if n < p then inside else flipped (!inside) n rest

/-- Whether the code point `n` belongs to the set with these flip points. -/
def inFlips (flips : List Nat) (n : Nat) : Bool :=
  flipped false n flips

end Xbase.Text
