import Xbase.Program.Dump
import Xbase.Value.Fault

/-!
# Values

What expressions evaluate to, how values are shown, and what operators and built-in functions do
with them.
-/

namespace Xbase

/-- A scope is known by its number. -/
abbrev ScopeId := Nat

/-- A declared function without the scope that it was declared in. -/
structure Routine where
  name : Ident
  params : List Ident
  body : Block

/-- The built-in functions. -/
inductive Native where
  | len | type
deriving DecidableEq

/-- Values. A function carries the scope that it was declared in; `none` is what a statement without
a value yields. -/
inductive Value where
  | number (n : Number)
  | string (s : String)
  | logical (b : Bool)
  | function (routine : Routine) (home : ScopeId)
  | native (n : Native)
  | null
  | none

namespace Native

def name : Native → String
  | len => "len"
  | type => "type"

/-- The count of arguments. -/
def arity : Native → Nat
  | len | type => 1

/-- The function in dumps. -/
def dump : Native → String
  | len => "NativeLen"
  | type => "NativeType"

end Native

namespace Value

/-! ## Types and texts -/

def type : Value → ValueType
  | number _ => .numeric
  | string _ => .character
  | logical _ => .logical
  | function .. | native _ => .function
  | null => .null
  | none => .none

/-- The letter that stands for the type. -/
def typeCode : Value → String
  | number _ => "N"
  | string _ => "C"
  | logical _ => "L"
  | null => "X"
  | function .. | native _ | none => "U"

/-- Whether the statement yielded no value. -/
def isNone : Value → Bool
  | none => true
  | _ => false

/-- The value as it is printed. Both zeros are `0`. -/
def text : Value → String
  | number n => if n.isZero then "0" else n.plain
  | string s => s
  | logical b => if b then ".T." else ".F."
  | function routine _ => "<function " ++ routine.name.name ++ ">"
  | native n => "<function " ++ n.name ++ ">"
  | null => ".NULL."
  | none => ""

/-- The value with its field names. The body and the scope of a function are left out. -/
def dump : Value → String
  | number n => Text.Dump.wrap "Number" n.pointed
  | string s => Text.Dump.wrap "String" (Text.quote s)
  | logical b => Text.Dump.wrap "Boolean" (Text.Dump.logical b)
  | function routine _ =>
    Text.Dump.wrap "Function" (Text.Dump.openRecord "Function"
      [("name", Text.quote routine.name.name),
        ("parameters", Text.Dump.list (routine.params.map Ident.dump))])
  | native n => Text.Dump.wrap "NativeFunction" n.dump
  | null => "Null"
  | none => "None"

/-! ## Operators -/

/-- Whether two values are of the same form. Declared and built-in functions are two forms. -/
def sameForm : Value → Value → Bool
  | number _, number _ | string _, string _ | logical _, logical _ | function .., function ..
  | native _, native _ | null, null | none, none => true
  | _, _ => false

/-- Why an operator cannot be applied: its operands are of two forms, or of one that it does not
know. -/
def mismatch (sign : String) (left right : Value) : EvalFault :=
  if left.sameForm right then .unsupportedOperator sign left.type
  else .typeMismatch left.type sign right.type

/-- Logical negation. -/
def not : Value → Except EvalFault Value
  | logical b => .ok (logical (!b))
  | _ => .error .invalidArgument

/-- Change of sign. -/
def negate : Value → Except EvalFault Value
  | number n => .ok (number n.neg)
  | _ => .error .invalidArgument

/-- The text without the blanks U+0020 at its end. -/
def dropTrailingSpaces (s : String) : String :=
  String.ofList (s.toList.reverse.dropWhile (· == ' ')).reverse

end Value

/-- An operator on numbers. Only division can fail. -/
def BinaryOp.onNumbers (op : BinaryOp) (x y : Number) : Except EvalFault Value :=
  match op with
  | multiply => .ok (.number (x.mul y))
  | divide => if y.isZero then .error .divisionByZero else .ok (.number (x.div y))
  | add => .ok (.number (x.add y))
  | subtract => .ok (.number (x.sub y))
  | less => .ok (.logical (x.lt y))
  | lessEqual => .ok (.logical (x.le y))
  | greater => .ok (.logical (y.lt x))
  | greaterEqual => .ok (.logical (y.le x))
  | equal => .ok (.logical (x.eq y))
  | notEqual => .ok (.logical (!x.eq y))

/-- An operator on texts, if it knows texts. The difference drops the blanks between the two. -/
def BinaryOp.onStrings? (op : BinaryOp) (x y : String) : Option Value :=
  match op with
  | add => some (.string (x ++ y))
  | subtract => some (.string (Value.dropTrailingSpaces x ++ y))
  | equal => some (.logical (x == y))
  | notEqual => some (.logical (x != y))
  | _ => none

/-- An operator on truth values, if it knows truth values. -/
def BinaryOp.onLogicals? (op : BinaryOp) (x y : Bool) : Option Value :=
  match op with
  | equal => some (.logical (x == y))
  | notEqual => some (.logical (x != y))
  | _ => none

/-- An operator on two values. -/
def BinaryOp.apply (op : BinaryOp) (left right : Value) : Except EvalFault Value :=
  match left, right with
  | .number x, .number y => op.onNumbers x y
  | .string x, .string y =>
    (op.onStrings? x y).elim (.error (Value.mismatch op.sign left right)) .ok
  | .logical x, .logical y =>
    (op.onLogicals? x y).elim (.error (Value.mismatch op.sign left right)) .ok
  | _, _ => .error (Value.mismatch op.sign left right)

/-- An operator on one value. -/
def UnaryOp.apply : UnaryOp → Value → Except EvalFault Value
  | not, v => v.not
  | negate, v => v.negate

/-- A built-in function on its arguments: the count of the characters of a text, and the letter that
stands for a type. -/
def Native.call : Native → List Value → Except EvalFault Value
  | len, [.string s] => .ok (.number (.ofNat s.length))
  | type, [v] => .ok (.string v.typeCode)
  | _, _ => .error .invalidArgument

end Xbase
