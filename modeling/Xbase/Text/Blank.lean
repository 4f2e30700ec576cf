/-!
# Blank characters

`isBlank` is the Unicode property White_Space, which is what separates words of a program, and
`trimBlank` takes blanks off both ends of a text.
-/

namespace Xbase.Text

/-- The 25 characters of the Unicode property White_Space. -/
def isBlank (c : Char) : Bool :=
  let n := c.toNat
  (0x9 ≤ n && n ≤ 0xd) || n == 0x20 || n == 0x85 || n == 0xa0 || n == 0x1680 ||
    (0x2000 ≤ n && n ≤ 0x200a) || n == 0x2028 || n == 0x2029 || n == 0x202f || n == 0x205f ||
    n == 0x3000

/-- Drops the blanks at the end. -/
def trimBlankRight (cs : List Char) : List Char :=
  (cs.reverse.dropWhile isBlank).reverse

/-- Drops the blanks at both ends. -/
def trimBlank (cs : List Char) : List Char :=
  trimBlankRight (cs.dropWhile isBlank)

end Xbase.Text
