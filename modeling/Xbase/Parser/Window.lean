import Xbase.Parser.Basic

/-!
# The window of a parser

A parser sees two tokens, the next one and the one behind it, and asks the lexer for one more token
whenever it reads one. So a fault of the text is met two tokens ahead of where the parser reads. The
first fault is kept, and from then on the end of the source stands in its place, so that the parser
comes to an end.
-/

namespace Xbase

/-- The two tokens that a parser sees, the lexer that gives the next one, and the fault that it has
given, if it has given one. -/
structure Window where
  lexer : Lexer
  current : Token
  following : Token
  fatal : Option LexError
deriving DecidableEq

namespace Window

/-- Asks the lexer for one more token, unless a fault has been met. -/
def pull (lexer : Lexer) : (fatal : Option LexError) → Token × Lexer × Option LexError
  | some e => (e.endToken, lexer, some e)
  | none =>
    match lexer.next with
    | (.ok token, lexer') => (token, lexer', none)
    | (.error e, lexer') => (e.endToken, lexer', some e)

/-- The window in front of the first token. -/
def ofLexer (lexer : Lexer) : Window :=
  let (current, lexer, fatal) := pull lexer none
  let (following, lexer, fatal) := pull lexer fatal
  ⟨lexer, current, following, fatal⟩

/-- Moves the window on by one token. -/
def advance (w : Window) : Window :=
  let (token, lexer, fatal) := pull w.lexer w.fatal
  ⟨lexer, w.following, token, fatal⟩

/-- Moves the window on by some tokens. -/
def advanceBy (w : Window) : (count : Nat) → Window
  | 0 => w
  | count + 1 => w.advance.advanceBy count

end Window

/-- The window of a parser of the text of the lexer that is in the state `s`: it has been moved on
by the tokens that have been read. -/
def Lexer.windowAt (lx : Lexer) (s : ParseState) : Window :=
  (Window.ofLexer lx).advanceBy (lx.stream.tokens.length - s.rest.length)

end Xbase
