import Xbase.Text.Dump

/-!
# Spans

A span is a stretch of the bytes of a source text. Both numbers are 32-bit words, so a place beyond
`2 ^ 32` bytes keeps its low bits only.
-/

namespace Xbase

/-- The stretch of `length` bytes from the byte `start` on. -/
structure Span where
  start : UInt32
  length : UInt32
deriving DecidableEq, Inhabited

namespace Span

/-- The span from `start` up to `stop`; it is empty if `stop` is not behind `start`. -/
def ofBounds (start stop : Nat) : Span :=
  ⟨UInt32.ofNat start, UInt32.ofNat (stop - start)⟩

/-- The first byte behind the span. -/
def stop (s : Span) : UInt32 :=
  s.start + s.length

/-- The least span that holds both. -/
def merge (a b : Span) : Span :=
  let start := min a.start b.start
  ⟨start, max a.stop b.stop - start⟩

/-- The span of all of a list of spans. -/
def mergeAll? : List Span → Option Span
  | [] => none
  | s :: rest => some (rest.foldl merge s)

/-- The span with its field names. -/
def dump (s : Span) : String :=
  Text.Dump.record "Span" [("start", toString s.start.toNat), ("length", toString s.length.toNat)]

end Span

end Xbase
