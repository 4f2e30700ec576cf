import Xbase.Token.Basic

/-!
# Syntax errors

What a program lacks at a token, with a code, a message and the place of the token.
-/

namespace Xbase

/-- What is wrong with a program at a token. -/
inductive SyntaxFault where
  | unexpectedToken (actual expected : Kind)
  | nonExpression (actual : Kind)
  | nonIdentifier (actual : Kind)
  | nonCaseBranch (actual : Kind)
  | unknownType (name : String)
  | invalidNumber (lexeme : String)
deriving DecidableEq

/-- A fault of a program with its place. -/
structure SyntaxError where
  fault : SyntaxFault
  span : Span
  line : UInt32
  col : UInt32
deriving DecidableEq

namespace SyntaxFault

/-- The name of the fault. -/
def label : SyntaxFault → String
  | unexpectedToken .. => "UnexpectedToken"
  | nonExpression _ => "NonExpression"
  | nonIdentifier _ => "NonIdentifier"
  | nonCaseBranch _ => "NonCaseBranch"
  | unknownType _ => "UnknownType"
  | invalidNumber _ => "InvalidNumber"

/-- The code of the fault. -/
def code : SyntaxFault → String
  | unexpectedToken .. => "SY001"
  | nonExpression _ => "SY002"
  | nonIdentifier _ => "SY003"
  | nonCaseBranch _ => "SY004"
  | unknownType _ => "SY005"
  | invalidNumber _ => "SY006"

/-- What is wrong, in words. -/
def message : SyntaxFault → String
  | unexpectedToken actual expected => s!"expected {expected.label} but found {actual.label}"
  | nonExpression actual => s!"expected an expression but found {actual.label}"
  | nonIdentifier actual => s!"expected a name but found {actual.label}"
  | nonCaseBranch actual => s!"expected a CASE branch but found {actual.label}"
  | unknownType name => s!"unknown type {name}"
  | invalidNumber lexeme => s!"invalid numeric literal {lexeme}"

/-- The fault in dumps. -/
def dump (f : SyntaxFault) : String :=
  match f with
  | unexpectedToken actual expected =>
    Text.Dump.record f.label [("actual", actual.dump), ("expected", expected.dump)]
  | nonExpression actual | nonIdentifier actual | nonCaseBranch actual =>
    Text.Dump.wrap f.label actual.dump
  | unknownType text | invalidNumber text => Text.Dump.wrap f.label (Text.quote text)

end SyntaxFault

namespace SyntaxError

/-- What is wrong, and where. -/
def message (e : SyntaxError) : String :=
  s!"Syntax error at ({e.line}:{e.col}) {e.fault.message}."

/-- The record with its field names. -/
def dump (e : SyntaxError) : String :=
  Text.Dump.record "ParserError" [("kind", e.fault.dump), ("span", e.span.dump),
    ("line", toString e.line), ("col", toString e.col)]

end SyntaxError

end Xbase
