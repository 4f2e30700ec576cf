import Xbase.Span

/-!
# Line numbers

`Lines` is the table of the line ends of a text, from which the line of a byte offset is read off.
A line ends behind its line break. A last line without one ends one byte behind the text, so the
place at the end of the text still belongs to it. The table has room for every text, but the number
of a line is a 32-bit word.
-/

namespace Xbase

/-- The ends of the lines of a text, in order. -/
structure Lines where
  ends : List Nat
deriving DecidableEq

namespace Lines

/-- The line ends of the text that starts at the byte `offset`. -/
def endsFrom (offset : Nat) : List Char → List Nat
  | [] => [offset + 1]
  | c :: rest =>
    if c = '\n' then
      (offset + 1) :: (if rest.isEmpty then [] else endsFrom (offset + 1) rest)
    else endsFrom (offset + c.utf8Size) rest

def ofText (text : String) : Lines :=
  ⟨endsFrom 0 text.toList⟩

/-- The line of a byte offset, counted from 1: one more than the lines that end before it. -/
def lineAt (lines : Lines) (offset : Nat) : UInt32 :=
  UInt32.ofNat ((lines.ends.takeWhile (· ≤ offset)).length + 1)

/-- The line in which a span starts. -/
def lineOf (lines : Lines) (span : Span) : UInt32 :=
  lines.lineAt span.start.toNat

end Lines

end Xbase
