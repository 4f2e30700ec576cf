import Xbase.Expr.Basic

/-!
# Faults of evaluation

Why an evaluation stops, with a code, a message and the bytes of the source at fault.
-/

namespace Xbase

/-- The types that messages speak of. -/
inductive ValueType where
  | numeric | character | logical | function | null | none
deriving DecidableEq

/-- The word for the type. -/
def ValueType.word : ValueType → String
  | numeric => "numeric"
  | character => "character"
  | logical => "logical"
  | function => "function"
  | null => "null"
  | none => "none"

/-- Why an evaluation stops. Operators are given by their sign. -/
inductive EvalFault where
  | undefinedVariable (name : String)
  | invalidArgument
  | typeMismatch (left : ValueType) (sign : String) (right : ValueType)
  | unsupportedOperator (sign : String) (type : ValueType)
  | divisionByZero
  | tooManyArguments (name : String) (expected actual : Nat)
  | unexpectedArguments (name : String)
  | nameInUse (name : String)
  | invalidAssignmentTarget
  | nonLogicalCondition (type : ValueType)
  | nonLogicalOperand (sign : String) (type : ValueType)
  | notCallable (type : ValueType)
  | strayLoopControl (word : String)
deriving DecidableEq

/-- A fault with the bytes of the source at fault. -/
structure EvalError where
  fault : EvalFault
  span : Span
deriving DecidableEq

namespace EvalFault

/-- The name of the fault. -/
def label : EvalFault → String
  | undefinedVariable _ => "UndefinedVariable"
  | invalidArgument => "InvalidArgument"
  | typeMismatch .. => "TypeMismatch"
  | unsupportedOperator .. => "UnsupportedOperator"
  | divisionByZero => "DivisionByZero"
  | tooManyArguments .. => "TooManyArguments"
  | unexpectedArguments _ => "UnexpectedArguments"
  | nameInUse _ => "NameInUse"
  | invalidAssignmentTarget => "InvalidAssignmentTarget"
  | nonLogicalCondition _ => "NonLogicalCondition"
  | nonLogicalOperand .. => "NonLogicalOperand"
  | notCallable _ => "NotCallable"
  | strayLoopControl _ => "StrayLoopControl"

/-- The code of the fault. -/
def code : EvalFault → String
  | undefinedVariable _ => "RT001"
  | invalidArgument => "RT002"
  | typeMismatch .. => "RT003"
  | unsupportedOperator .. => "RT004"
  | divisionByZero => "RT005"
  | tooManyArguments .. => "RT006"
  | unexpectedArguments _ => "RT007"
  | nameInUse _ => "RT008"
  | invalidAssignmentTarget => "RT009"
  | nonLogicalCondition _ => "RT010"
  | nonLogicalOperand .. => "RT011"
  | notCallable _ => "RT012"
  | strayLoopControl _ => "RT013"

/-- What is wrong, in words. -/
def message : EvalFault → String
  | undefinedVariable name => s!"variable not found: {name}"
  | invalidArgument => "function argument value, type, or count is invalid"
  | typeMismatch left sign right =>
    s!"operator/operand type mismatch: {left.word} {sign} {right.word}"
  | unsupportedOperator sign type => s!"operator {sign} is not supported for {type.word}"
  | divisionByZero => "division by zero"
  | tooManyArguments name expected actual =>
    s!"too many arguments: {name} takes {expected} but got {actual}"
  | unexpectedArguments name => s!"function {name} takes no arguments"
  | nameInUse name => s!"name in use: {name}"
  | invalidAssignmentTarget => "left hand side of assignment must be a variable"
  | nonLogicalCondition type => s!"data type mismatch: condition must be logical, got {type.word}"
  | nonLogicalOperand sign type => s!"operand of {sign} must be logical, got {type.word}"
  | notCallable type => s!"{type.word} is not a function"
  | strayLoopControl word => s!"{word} outside of a loop"

/-- The fault with its field names. -/
def dump (f : EvalFault) : String :=
  match f with
  | undefinedVariable text | unexpectedArguments text | nameInUse text | strayLoopControl text =>
    Text.Dump.wrap f.label (Text.quote text)
  | nonLogicalCondition type | notCallable type =>
    Text.Dump.wrap f.label (Text.quote type.word)
  | typeMismatch left sign right =>
    Text.Dump.record f.label [("lhs", Text.quote left.word), ("operator", Text.quote sign),
      ("rhs", Text.quote right.word)]
  | unsupportedOperator sign type | nonLogicalOperand sign type =>
    Text.Dump.record f.label [("operator", Text.quote sign), ("type_name", Text.quote type.word)]
  | tooManyArguments name expected actual =>
    Text.Dump.record f.label [("name", Text.quote name), ("expected", toString expected),
      ("actual", toString actual)]
  | invalidArgument | divisionByZero | invalidAssignmentTarget => f.label

end EvalFault

/-- The record with its field names. -/
def EvalError.dump (e : EvalError) : String :=
  Text.Dump.record "RuntimeError" [("kind", e.fault.dump), ("span", e.span.dump)]

end Xbase
