import Xbase.Expr.Basic
import Xbase.Parser.Basic

/-!
# Parsing expressions

Operators bind by precedence. `exprAt min` reads an operand and then goes on as long as the next
operator binds tighter than `min`; the right operand of an operator is read at the precedence of
the operator, so operators of the same strength associate to the left. Assignments associate to the
right, for their value is read at the lowest precedence.
-/

namespace Xbase

/-- How tightly an operator binds, loosest first. -/
inductive Precedence where
  | lowest | assignment | or | and | equality | comparison | additive | multiplicative | unary
  | call
deriving DecidableEq

/-- The precedences as numbers: a tighter one is larger. -/
def Precedence.rank : Precedence → Nat
  | lowest => 0
  | assignment => 1
  | or => 2
  | and => 3
  | equality => 4
  | comparison => 5
  | additive => 6
  | multiplicative => 7
  | unary => 8
  | call => 9

def BinaryOp.precedence : BinaryOp → Precedence
  | multiply | divide => .multiplicative
  | add | subtract => .additive
  | less | lessEqual | greater | greaterEqual => .comparison
  | equal | notEqual => .equality

def LogicOp.precedence : LogicOp → Precedence
  | and => .and
  | or => .or

/-- How a token goes on with the expression to its left. -/
inductive Continuation where
  | binary (op : BinaryOp)
  | logic (op : LogicOp)
  | assign (op : AssignOp)
  | call
deriving DecidableEq

namespace Continuation

/-- What a token of the given kind means behind an expression. -/
def ofKind? : Kind → Option Continuation
  | .symbol .plus => some (.binary .add)
  | .symbol .minus => some (.binary .subtract)
  | .symbol .star => some (.binary .multiply)
  | .symbol .slash => some (.binary .divide)
  | .symbol .less => some (.binary .less)
  | .symbol .lessEqual => some (.binary .lessEqual)
  | .symbol .greater => some (.binary .greater)
  | .symbol .greaterEqual => some (.binary .greaterEqual)
  | .symbol .equalEqual => some (.binary .equal)
  | .symbol .bangEqual => some (.binary .notEqual)
  | .keyword .AND => some (.logic .and)
  | .keyword .OR => some (.logic .or)
  | .symbol .equal => some (.assign .assign)
  | .symbol .colonEqual => some (.assign .bind)
  | .symbol .plusEqual => some (.assign .add)
  | .symbol .minusEqual => some (.assign .subtract)
  | .symbol .starEqual => some (.assign .multiply)
  | .symbol .slashEqual => some (.assign .divide)
  | .symbol .leftParen => some .call
  | _ => none

def precedence : Continuation → Precedence
  | binary op => op.precedence
  | logic op => op.precedence
  | assign _ => .assignment
  | call => .call

end Continuation

namespace Parser

/-- The atom that a token is by itself, numbers apart. -/
def atom? (token : Token) : Option Atom :=
  match token.kind with
  | .string => some (.string token.stringValue)
  | .logical b => some (.logical b)
  | .keyword .NULL => some .null
  | .name => some (.name token.lexeme)
  | _ => none

/-- The number that the token stands for. -/
def number (token : Token) : Parser Expr := do
  let _ ← advance
  match Number.ofText? token.lexeme with
  | some n => return .atom (.number n) token.span
  | none => failWith (.invalidNumber token.lexeme)

/-- The sign of an operator with one operand. -/
def unary? : Kind → Option UnaryOp
  | .symbol .minus => some .negate
  | .symbol .bang => some .not
  | _ => none

mutual

/-- An expression whose operators outside parentheses bind tighter than `min`. -/
def exprAt : (depth : Nat) → (min : Precedence) → Parser Expr
  | 0, _ => fail
  | depth + 1, min => do
    let left ← operand depth
    climb depth min left

/-- An atom, a sign with its operand, an expression in parentheses or a conditional. -/
def operand : (depth : Nat) → Parser Expr
  | 0 => fail
  | depth + 1 => do
    let token ← current
    if token.kind = .number then number token
    else if let some a := atom? token then
      let _ ← advance
      return .atom a token.span
    else if let some op := unary? token.kind then
      let _ ← advance
      return .unary op (← exprAt depth .unary) token.span
    else if token.kind = .symbol .leftParen then
      let _ ← advance
      let inner ← exprAt depth .lowest
      let _ ← expect (.symbol .rightParen)
      return inner
    else if token.kind = .keyword .IIF then
      let _ ← advance
      let _ ← expect (.symbol .leftParen)
      let condition ← exprAt depth .lowest
      let _ ← expect (.symbol .comma)
      let yes ← exprAt depth .lowest
      let _ ← expect (.symbol .comma)
      let no ← exprAt depth .lowest
      let closing ← expect (.symbol .rightParen)
      return .iif condition yes no (token.span.merge closing.span)
    else failWith (.nonExpression token.kind)

/-- Goes on with the expression `left` while operators that bind tighter than `min` follow. -/
def climb : (depth : Nat) → (min : Precedence) → (left : Expr) → Parser Expr
  | 0, _, _ => fail
  | depth + 1, min, left => do
    match Continuation.ofKind? (← current).kind with
    | none => return left
    | some rule =>
      if rule.precedence.rank ≤ min.rank then return left
      else
        let _ ← advance
        match rule with
        | .binary op =>
          let right ← exprAt depth op.precedence
          climb depth min (.binary op left right)
        | .logic op =>
          let right ← exprAt depth op.precedence
          climb depth min (.logic op left right)
        | .assign op =>
          let value ← exprAt depth .lowest
          climb depth min (.assign op left value)
        | .call =>
          let noArgs := (← current).kind = .symbol .rightParen
          let args ← if noArgs then pure [] else commaList (exprAt depth .lowest) depth
          let closing ← expect (.symbol .rightParen)
          climb depth min (.call left args closing.span)

end

/-- One expression. If there is none, an error is recorded. -/
def expression : Parser Expr :=
  fun s => exprAt s.budget .lowest s

end Parser

end Xbase
