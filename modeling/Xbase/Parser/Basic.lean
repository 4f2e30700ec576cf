import Xbase.SyntaxError
import Xbase.Token.Lexer

/-!
# Parsers

A parser reads tokens off the front of a stream, may record syntax errors, and either succeeds or
fails. What it has read and recorded stays read and recorded when it fails, so parsing can go on
behind the fault.
-/

namespace Xbase

/-- The tokens still to be read and the errors recorded so far. -/
structure ParseState where
  rest : List Token
  /-- The end of the source, which stands behind the last token as often as it is looked at. -/
  stop : Token
  errors : List SyntaxError
deriving DecidableEq

namespace ParseState

/-- The state before the first token. -/
def ofStream (ts : TokenStream) : ParseState :=
  ⟨ts.tokens, ts.stop, []⟩

/-- The next token. -/
def current (s : ParseState) : Token :=
  s.rest.headD s.stop

/-- The token behind the next one. -/
def following (s : ParseState) : Token :=
  s.rest.tail.headD s.stop

/-- A bound for the depth of every recursion from here: each level of nesting and each turn of a
loop reads a token, and no rule calls another more than twice without reading one. -/
def budget (s : ParseState) : Nat :=
  2 * s.rest.length + 2

end ParseState

/-- A function that reads tokens. -/
def Parser (α : Type) : Type :=
  ParseState → Option α × ParseState

namespace Parser

instance : Monad Parser where
  pure a := fun s => (some a, s)
  bind p f := fun s =>
    match p s with
    | (some a, s') => f a s'
    | (none, s') => (none, s')

/-- Fails without recording anything. -/
def fail {α : Type} : Parser α :=
  fun s => (none, s)

/-- Looks at the next token. -/
def current : Parser Token :=
  fun s => (some s.current, s)

/-- Looks at the token behind the next one. -/
def following : Parser Token :=
  fun s => (some s.following, s)

/-- Reads the next token. -/
def advance : Parser Token :=
  fun s => (some s.current, { s with rest := s.rest.tail })

/-- Records a fault at the next token. -/
def report (fault : SyntaxFault) : Parser Unit :=
  fun s =>
    let token := s.current
    (some (), { s with errors := s.errors ++ [⟨fault, token.span, token.line, token.col⟩] })

/-- Records a fault at the next token and fails. -/
def failWith {α : Type} (fault : SyntaxFault) : Parser α := do
  report fault
  fail

/-- Succeeds also if the parser fails, and says which. -/
def attempt {α : Type} (p : Parser α) : Parser (Option α) :=
  fun s =>
    let (a, s') := p s
    (some a, s')

/-- Reads the next token if it is of the given kind, and says whether it was. -/
def eat (kind : Kind) : Parser Bool := do
  if (← current).kind = kind then
    let _ ← advance
    return true
  else return false

/-- Reads a token of the given kind or fails. -/
def expect (kind : Kind) : Parser Token := do
  let actual := (← current).kind
  if actual = kind then advance else failWith (.unexpectedToken actual kind)

/-- Reads a token of the given kind; if another one stands there this is recorded, and parsing goes
on as if the token had been there. -/
def demand (kind : Kind) : Parser Unit := do
  let _ ← attempt (expect kind)

/-- Reads a name. -/
def expectName : Parser Token := do
  let token ← current
  if token.kind = .name then advance else failWith (.nonIdentifier token.kind)

/-- Skips line breaks. -/
def skipNewlines : Parser Unit :=
  fun s => (some (), { s with rest := s.rest.dropWhile (·.kind = .newline) })

/-- Skips to the end of the line. -/
def skipLine : Parser Unit :=
  fun s => (some (), { s with rest := s.rest.dropWhile (·.kind ≠ .newline) })

/-- Reads one or more items with commas between them, `count` at most. -/
def commaList {α : Type} (item : Parser α) : (count : Nat) → Parser (List α)
  | 0 => fail
  | count + 1 => do
    let first ← item
    if ← eat (.symbol .comma) then
      let more ← commaList item count
      return first :: more
    else return [first]

/-- Reads one or more items with commas between them. -/
def commaSeparated {α : Type} (item : Parser α) : Parser (List α) :=
  fun s => commaList item s.budget s

end Parser

end Xbase
