import Xbase.Number.Text
import Xbase.Token.Basic

/-!
# Tokens as text

A token is described by its kind, its lexeme and the value it stands for. The listings put a place
in front of the description or dump the whole record.
-/

namespace Xbase

namespace Token

/-- The value of a literal, `null` for every other token. -/
def literal (t : Token) : String :=
  match t.kind with
  | .number => (Number.ofText? t.lexeme).elim "null" Number.pointed
  | .string => t.stringValue
  | .logical b => if b then "true" else "false"
  | _ => "null"

/-- Kind, lexeme and value. The lexeme of a line break is not shown. -/
def describe (t : Token) : String :=
  let lexeme := if t.kind = .newline ∨ t.kind = .endOfFile then "" else t.lexeme
  s!"{t.kind.label} {lexeme} {t.literal}"

/-- The description behind line and column. -/
def listing (t : Token) : String :=
  s!"({t.line}:{t.col}) {t.describe}"

/-- The record with its field names. -/
def dump (t : Token) : String :=
  Text.Dump.record "Token" [("kind", t.kind.dump), ("lexeme", Text.quote t.lexeme),
    ("span", t.span.dump), ("line", toString t.line), ("col", toString t.col)]

end Token

namespace LexError

/-- The fault behind its line. -/
def brief (e : LexError) : String :=
  s!"[line {e.line}] Error: {e.fault.message}"

/-- The fault in a listing of tokens. -/
def listing (e : LexError) : String :=
  let what := match e.fault with
    | .unrecognized c => "UNEXPECTED_CHAR " ++ String.singleton c
    | .unclosedString => "UNTERMINATED_STRING null"
    | .unclosedComment => "UNTERMINATED_COMMENT null"
  s!"({e.line}:{e.col}) ERROR {what}"

/-- The record with its field names. -/
def dump (e : LexError) : String :=
  Text.Dump.record "LexicalError" [("kind", e.fault.dump), ("span", e.span.dump),
    ("line", toString e.line), ("col", toString e.col)]

end LexError

end Xbase
