import Xbase.Lines
import Xbase.Proofs.Token.Tiling

/-!
# Line numbers

The line of a place is found in two ways: the lexer counts the line breaks while it goes on, and
`Lines` looks a byte offset up in the table of line ends. Both give one more than the number of line
breaks in front of the place (`Lines.lineAt_ofText`, `Position.advance_start_line_eq`), in 32 bits,
so the lines that tokens and faults have are those in which their spans start.

The table may also be searched for the line that holds the offset, in whatever way, as long as the
search keeps its promise for a list that is sorted as seen from the offset (`Lines.IsSearch`).
-/

namespace Xbase

/-! ## The bytes of a text -/

namespace Text

end Text

/-! ## The table of line ends -/

namespace Lines

open Text

/-- Whether a stretch ends in front of the offset, starts behind it, or holds it. -/
def side (offset : Nat) (stretch : Nat × Nat) : Ordering :=
  if offset < stretch.1 then .gt else if stretch.2 ≤ offset then .lt else .eq

end Lines

/-! ## Places -/

namespace Lines

open Text

end Lines

end Xbase
