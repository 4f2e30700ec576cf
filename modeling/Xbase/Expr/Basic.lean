import Xbase.Number.Text
import Xbase.Span
import Xbase.Text.Quoted

/-!
# Expressions

An expression is a tree of literals, names and operators. Every node knows, or can find out from
its parts, which bytes of the source it came from (`Expr.span`).
-/

namespace Xbase

/-! ## Operators -/

/-- The operators with one operand. -/
inductive UnaryOp where
  | not | negate
deriving DecidableEq

/-- The operators that work on the values of both operands. -/
inductive BinaryOp where
  | multiply | divide | add | subtract
  | less | lessEqual | greater | greaterEqual
  | equal | notEqual
deriving DecidableEq

/-- The operators that may leave the right operand alone. -/
inductive LogicOp where
  | and | or
deriving DecidableEq

/-- The operators that store a value under a name: `assign` in the binding that is in sight,
`bind` always in the current scope, and the others by way of an arithmetic operator. -/
inductive AssignOp where
  | assign | bind
  | add | subtract | multiply | divide
deriving DecidableEq

/-- The sign of the operator. -/
def UnaryOp.sign : UnaryOp → String
  | not => "!"
  | negate => "-"

/-- The operator in dumps. -/
def UnaryOp.dump : UnaryOp → String
  | not => "Bang"
  | negate => "Minus"

/-- The sign of the operator. -/
def BinaryOp.sign : BinaryOp → String
  | multiply => "*"
  | divide => "/"
  | add => "+"
  | subtract => "-"
  | less => "<"
  | lessEqual => "<="
  | greater => ">"
  | greaterEqual => ">="
  | equal => "=="
  | notEqual => "!="

/-- The operator in dumps. -/
def BinaryOp.dump : BinaryOp → String
  | multiply => "Multiply"
  | divide => "Divide"
  | add => "Add"
  | subtract => "Subtract"
  | less => "LessThan"
  | lessEqual => "LessThanEqual"
  | greater => "GreaterThan"
  | greaterEqual => "GreaterThanEqual"
  | equal => "EqualEqual"
  | notEqual => "BangEqual"

/-- The word for the operator. -/
def LogicOp.sign : LogicOp → String
  | and => "AND"
  | or => "OR"

/-- The operator in dumps. -/
def LogicOp.dump : LogicOp → String
  | and => "And"
  | or => "Or"

/-- The sign of the operator. -/
def AssignOp.sign : AssignOp → String
  | assign => "="
  | bind => ":="
  | add => "+="
  | subtract => "-="
  | multiply => "*="
  | divide => "/="

/-- The operator in dumps. -/
def AssignOp.dump : AssignOp → String
  | assign => "Assign"
  | bind => "Bind"
  | add => "AddAssign"
  | subtract => "SubtractAssign"
  | multiply => "MultiplyAssign"
  | divide => "DivideAssign"

/-- The arithmetic that a compound assignment does on the value it replaces. -/
def AssignOp.compound? : AssignOp → Option BinaryOp
  | assign | bind => none
  | add => some .add
  | subtract => some .subtract
  | multiply => some .multiply
  | divide => some .divide

/-! ## Trees -/

/-- The expressions without parts. -/
inductive Atom where
  | number (n : Number)
  | logical (b : Bool)
  | null
  | name (s : String)
  | string (s : String)
deriving DecidableEq

/-- The atom in dumps. -/
def Atom.dump : Atom → String
  | number n => Text.Dump.wrap "Number" n.pointed
  | logical b => Text.Dump.wrap "Bool" (Text.Dump.logical b)
  | null => "Null"
  | name s => Text.Dump.wrap "Identifier" (Text.quote s)
  | string s => Text.Dump.wrap "StringLiteral" (Text.quote s)

/-- Expressions. The span of an operator with one operand is that of its sign, the span of a call is
that of the closing parenthesis, and the span of a conditional is all of it. The target of an
assignment may be any expression; whether it is a name shows when it is evaluated. -/
inductive Expr where
  | atom (a : Atom) (span : Span)
  | unary (op : UnaryOp) (operand : Expr) (span : Span)
  | binary (op : BinaryOp) (left right : Expr)
  | assign (op : AssignOp) (target value : Expr)
  | logic (op : LogicOp) (left right : Expr)
  | call (callee : Expr) (args : List Expr) (span : Span)
  | iif (condition yes no : Expr) (span : Span)

namespace Expr

/-- The bytes of the source that the expression came from. -/
def span : Expr → Span
  | atom _ s => s
  | unary _ operand s => s.merge operand.span
  | binary _ left right => left.span.merge right.span
  | assign _ target value => target.span.merge value.span
  | logic _ left right => left.span.merge right.span
  | call callee _ s => callee.span.merge s
  | iif _ _ _ s => s

/-- The name, if the expression is nothing but a name. -/
def name? : Expr → Option String
  | atom (.name s) _ => some s
  | _ => none

end Expr

end Xbase
