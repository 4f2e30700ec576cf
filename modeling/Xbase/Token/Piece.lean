import Xbase.Text.Blank
import Xbase.Token.Basic

/-!
# Pieces of text

A text is cut into pieces: tokens, line breaks, semicolons, blanks and comments, and pieces that are
at fault. `piece` says what the next piece is and how many characters it has.
-/

namespace Xbase

/-- What a piece of text is. -/
inductive Piece where
  /-- A token that is not a word. -/
  | token (kind : Kind)
  /-- A name or a keyword. -/
  | word
  | newline
  | semicolon
  /-- A blank or a comment. -/
  | skipped
  | fault (f : LexFault)
deriving DecidableEq

namespace Piece

/-- The characters that start a word. -/
def isWordStart (c : Char) : Bool :=
  c.isAlpha || c == '_'

/-- The characters that go on with a word. -/
def isWordPart (c : Char) : Bool :=
  c.isAlphanum || c == '_'

/-- The three quotation marks; a string ends at the mark that opened it. -/
def isMark (c : Char) : Bool :=
  c == '\x27' || c == '"' || c == '\x60'

/-- The symbols that are no start of a longer one. -/
def single? : Char → Option Symbol
  | '(' => some .leftParen
  | ')' => some .rightParen
  | '[' => some .leftBracket
  | ']' => some .rightBracket
  | '{' => some .leftBrace
  | '}' => some .rightBrace
  | ',' => some .comma
  | '?' => some .question
  | _ => none

/-- The operators: the symbol of the character alone, and the one with `=` behind it. -/
def operator? : Char → Option (Symbol × Symbol)
  | ':' => some (.colon, .colonEqual)
  | '+' => some (.plus, .plusEqual)
  | '-' => some (.minus, .minusEqual)
  | '*' => some (.star, .starEqual)
  | '/' => some (.slash, .slashEqual)
  | '=' => some (.equal, .equalEqual)
  | '!' => some (.bang, .bangEqual)
  | '<' => some (.less, .lessEqual)
  | '>' => some (.greater, .greaterEqual)
  | _ => none

/-- The count of the characters in front of the next line break. -/
def lineLength (cs : List Char) : Nat :=
  (cs.takeWhile (· != '\n')).length

/-- The count of the characters up to and with the end of a block comment. -/
def commentLength? : List Char → Option Nat
  | [] => none
  | '*' :: '/' :: _ => some 2
  | _ :: rest => (commentLength? rest).map (· + 1)

/-- A slash that opens a comment, or else the operator. -/
def slash (rest : List Char) : Piece × Nat :=
  match rest with
  | '/' :: more => (.skipped, 2 + lineLength more)
  | '*' :: more =>
    match commentLength? more with
    | some n => (.skipped, 2 + n)
    | none => (.fault .unclosedComment, 2 + more.length)
  | '=' :: _ => (.token (.symbol .slashEqual), 2)
  | _ => (.token (.symbol .slash), 1)

/-- A truth value such as `.T.`, or else a point. -/
def dot (rest : List Char) : Piece × Nat :=
  match rest with
  | letter :: '.' :: _ =>
    if letter.toLower = 't' then (.token (.logical true), 3)
    else if letter.toLower = 'f' then (.token (.logical false), 3)
    else (.token (.symbol .dot), 1)
  | _ => (.token (.symbol .dot), 1)

/-- A string, which ends at the next mark of the same form. -/
def string (mark : Char) (rest : List Char) : Piece × Nat :=
  let body := rest.takeWhile (· != mark)
  if body.length < rest.length then (.token .string, body.length + 2)
  else (.fault .unclosedString, rest.length + 1)

/-- The count of the characters of a number behind its first digit. A point belongs to the number
only if a digit follows it. -/
def numberLength (rest : List Char) : Nat :=
  let whole := (rest.takeWhile Char.isDigit).length
  match rest.dropWhile Char.isDigit with
  | '.' :: digit :: more =>
    if digit.isDigit then whole + 2 + (more.takeWhile Char.isDigit).length else whole
  | _ => whole

end Piece

open Piece in
/-- The piece that starts with the character `c`, and the count of its characters. -/
def piece (c : Char) (rest : List Char) : Piece × Nat :=
  if c = '\n' then (.newline, 1)
  else if c = ';' then (.semicolon, 1)
  else if Text.isBlank c then (.skipped, 1)
  else if let some s := single? c then (.token (.symbol s), 1)
  else if c = '/' then slash rest
  else if c = '&' ∧ rest.head? = some '&' then (.skipped, 1 + lineLength rest)
  else if let some (alone, withEqual) := operator? c then
    if rest.head? = some '=' then (.token (.symbol withEqual), 2) else (.token (.symbol alone), 1)
  else if c = '.' then dot rest
  else if isMark c then string c rest
  else if c.isDigit then (.token .number, numberLength rest + 1)
  else if isWordStart c then (.word, (rest.takeWhile isWordPart).length + 1)
  else (.fault (.unrecognized c), 1)

end Xbase
