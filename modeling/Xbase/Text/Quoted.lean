import Xbase.Text.Extender
import Xbase.Text.Ignorable
import Xbase.Text.Unprintable

/-!
# Quoted text

A text is shown between two quotation marks on one line: the mark itself, the backslash and the
usual controls are written with a backslash, and every character that has no appearance of its own
is written by its code point.
-/

namespace Xbase.Text

/-- The code point in hexadecimal between braces, as in `\u{301}`. -/
def codePointEscape (c : Char) : String :=
  "\\u\x7b" ++ String.ofList (Nat.toDigits 16 c.toNat) ++ "\x7d"

/-- One character of a text that stands between two marks `mark`. -/
def escapeChar (mark c : Char) : String :=
  if c = '\x00' then "\\0"
  else if c = '\t' then "\\t"
  else if c = '\r' then "\\r"
  else if c = '\n' then "\\n"
  else if c = '\\' then "\\\\"
  else if c = mark then "\\" ++ String.singleton c
  else if isExtender c || isIgnorable c || isUnprintable c then codePointEscape c
  else String.singleton c

/-- A text between double quotation marks. -/
def quote (s : String) : String :=
  "\"" ++ String.join (s.toList.map (escapeChar '"')) ++ "\""

/-- A character between single quotation marks. -/
def quoteChar (c : Char) : String :=
  "\x27" ++ escapeChar '\x27' c ++ "\x27"

end Xbase.Text
