import Xbase.Eval.Control

/-!
# Evaluating programs

* `Eval.expr` evaluates an expression and `Eval.statement` runs a statement, each with a bound on
  the depth of the recursion;
* `Eval.program` runs a program.
-/

namespace Xbase.Eval

mutual

/-- Evaluates an expression in a scope. A fault of a compound assignment is reported at `whole`, the
bytes of the outermost expression. -/
def expr : (fuel : Nat) → (whole : Span) → (scope : ScopeId) → Expr → Eval Value
  | 0, _, _, _ => outOfFuel
  | fuel + 1, whole, scope, e =>
    let eval := expr fuel whole scope
    match e with
    | .atom a span => atom scope span a
    | .unary op operand _ => do
      let v ← eval operand
      located e.span (op.apply v)
    | .binary op left right => do
      let v ← eval left
      let w ← eval right
      located e.span (op.apply v w)
    | .logic op left right => do
      let b ← logicalOperand op left.span (← eval left)
      if b = decide (op = .or) then return .logical b
      else
        let c ← logicalOperand op right.span (← eval right)
        return .logical c
    | .assign op target value =>
      match target.name? with
      | none => fault .invalidAssignmentTarget target.span
      | some name =>
        match op.compound? with
        | none => do
          let v ← eval value
          if op = .bind then write (·.set scope name .priv v) else write (·.assign scope name v)
          return v
        | some arithmetic => do
          match ← read (·.owner? scope name) with
          | none => fault (.undefinedVariable name) target.span
          | some owner =>
            let v ← eval value
            match ← read (·.getLocal? owner name) with
            | none => fault (.undefinedVariable name) target.span
            | some current =>
              let w ← compound op arithmetic whole current v
              write (·.replaceLocal owner name w)
              return w
    | .call callee args _ => do
      let f ← eval callee
      let vs ← all eval args
      call (fun scope body => sequence (statement fuel scope) .none body) e.span f vs
    | .iif cond yes no _ => do
      if ← condition cond.span (← eval cond) then eval yes else eval no

/-- Runs a statement in a scope. -/
def statement : (fuel : Nat) → (scope : ScopeId) → Statement → Eval Flow
  | 0, _, _ => outOfFuel
  | fuel + 1, scope, s =>
    let eval := fun e : Expr => expr fuel e.span scope e
    let test := fun e : Expr => do condition e.span (← eval e)
    let run := sequence (statement fuel scope) .none
    match s with
    | .declare visibility d => do
      declare eval scope visibility d
      return .next .none
    | .declareAll visibility ds _ => do
      declareAll eval scope visibility ds
      return .next .none
    | .function name params body => do
      declareFunction scope ⟨name, params, body⟩
      return .next .none
    | .expr e => do return .next (← eval e)
    | .print args _ => do
      let vs ← all eval args
      printLine (" ".intercalate (vs.map Value.text))
      return .next .none
    | .ifThen cond yes no => do
      if ← test cond then run yes else no.elim (pure (.next .none)) run
    | .doCase branches otherwise => branch test run otherwise branches
    | .doWhile cond body => repeatWhile (test cond) (run body) fuel
    | .ret none _ => return .ret .none
    | .ret (some e) _ => do return .ret (← eval e)
    | .exit span => return .exit span
    | .loop span => return .loop span

end

/-- Runs a program in a scope: the value is that of a `RETURN`, or else of the last statement. -/
def program (fuel : Nat) (scope : ScopeId) (p : Program) : Eval Value := do
  result (← sequence (statement fuel scope) .none p)

/-- Evaluates an expression by itself. -/
def whole (fuel : Nat) (scope : ScopeId) (e : Expr) : Eval Value :=
  expr fuel e.span scope e

end Xbase.Eval
