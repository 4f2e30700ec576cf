import Xbase.Eval.Basic

/-!
# Calls, loops and declarations

The parts of evaluation that do not depend on how expressions and statements are evaluated: each
takes that as an argument. `Eval.sequence` runs statements in order, `Eval.branch` chooses among
branches, `Eval.repeatWhile` runs a loop, `Eval.call` calls a value and `Eval.declare` declares a
name.
-/

namespace Xbase.Eval

/-- The truth value of a condition. -/
def condition (span : Span) : Value → Eval Bool
  | .logical b => pure b
  | v => fault (.nonLogicalCondition v.type) span

/-- The truth value of an operand of `AND` or `OR`. -/
def logicalOperand (op : LogicOp) (span : Span) : Value → Eval Bool
  | .logical b => pure b
  | v => fault (.nonLogicalOperand op.sign v.type) span

/-- The value of an atom. A name must be in use in the scope or around it. -/
def atom (scope : ScopeId) (span : Span) : Atom → Eval Value
  | .number n => pure (.number n)
  | .logical b => pure (.logical b)
  | .null => pure .null
  | .string s => pure (.string s)
  | .name s => do
    match ← read (·.get? scope s) with
    | some v => return v
    | none => fault (.undefinedVariable s) span

/-- Binds the parameters of a function in the scope of the call. A missing argument is `.F.`. -/
def bindParams (scope : ScopeId) : List Ident → List Value → Store → Store
  | [], _, σ => σ
  | p :: params, [], σ => bindParams scope params [] (σ.set scope p.name .priv (.logical false))
  | p :: params, v :: args, σ => bindParams scope params args (σ.set scope p.name .priv v)

/-- What a function may not be called with. -/
def arityFault? (routine : Routine) (args : List Value) : Option EvalFault :=
  let expected := routine.params.length
  if expected = 0 ∧ args ≠ [] then some (.unexpectedArguments routine.name.name)
  else if expected < args.length then
    some (.tooManyArguments routine.name.name expected args.length)
  else none

/-- The value of a body that has ended. A loop cannot be left from outside of it. -/
def result : Flow → Eval Value
  | .next v | .ret v => pure v
  | .exit span => fault (.strayLoopControl "EXIT") span
  | .loop span => fault (.strayLoopControl "LOOP") span

/-- Calls a value. `run` runs a block in a scope. -/
def call (run : ScopeId → Block → Eval Flow) (span : Span) (callee : Value) (args : List Value) :
    Eval Value :=
  match callee with
  | .function routine home =>
    match arityFault? routine args with
    | some f => fault f span
    | none => do
      let scope ← enter (·.newCallScope home)
      write (bindParams scope routine.params args)
      result (← run scope routine.body)
  | .native n =>
    if args.length ≠ n.arity then fault .invalidArgument span
    else located span (n.call args)
  | v => fault (.notCallable v.type) span

/-- The value of a compound assignment, given the value it replaces. -/
def compound (op : AssignOp) (arithmetic : BinaryOp) (span : Span) (current v : Value) :
    Eval Value :=
  match current with
  | .number _ | .string _ => located span (arithmetic.apply current v)
  | _ => fault (.unsupportedOperator op.sign current.type) span

/-- Evaluates from left to right. -/
def all (eval : Expr → Eval Value) : List Expr → Eval (List Value)
  | [] => pure []
  | e :: rest => do
    let v ← eval e
    let vs ← all eval rest
    return v :: vs

/-- Runs statements in order until one of them does not lead to the next; the value is that of the
last one. -/
def sequence (run : Statement → Eval Flow) (last : Value) : List Statement → Eval Flow
  | [] => pure (.next last)
  | s :: rest => do
    match ← run s with
    | .next v => sequence run v rest
    | flow => return flow

/-- Runs the first branch whose condition holds. -/
def branch (test : Expr → Eval Bool) (run : Block → Eval Flow) (otherwise : Option Block) :
    List (Expr × Block) → Eval Flow
  | [] => otherwise.elim (pure (.next .none)) run
  | (e, body) :: rest => do
    if ← test e then run body else branch test run otherwise rest

/-- Runs `body` as long as `test` holds, `fuel` times at most. -/
def repeatWhile (test : Eval Bool) (body : Eval Flow) : (fuel : Nat) → Eval Flow
  | 0 => outOfFuel
  | fuel + 1 => do
    if ← test then
      match ← body with
      | .next _ | .loop _ => repeatWhile test body fuel
      | .exit _ => return .next .none
      | .ret v => return .ret v
    else return .next .none

/-- The value of a declared name without one. -/
def initialValue : Option DeclaredType → Value
  | some .string => .string ""
  | some .number => .number .zero
  | some .boolean | none => .logical false

/-- Declares a name. -/
def declare (eval : Expr → Eval Value) (scope : ScopeId) (visibility : Visibility)
    (d : Declarator) : Eval Unit := do
  let v ← d.initial?.elim (pure (initialValue d.type?)) eval
  write (·.set scope d.name.name visibility v)

/-- Declares names in order. -/
def declareAll (eval : Expr → Eval Value) (scope : ScopeId) (visibility : Visibility) :
    List Declarator → Eval Unit
  | [] => pure ()
  | d :: rest => do
    declare eval scope visibility d
    declareAll eval scope visibility rest

/-- Declares a function in a scope where its name is free. -/
def declareFunction (scope : ScopeId) (routine : Routine) : Eval Unit := do
  if ← read (·.containsLocal scope routine.name.name) then
    fault (.nameInUse routine.name.name) routine.name.span
  else write (·.declareFunction scope routine)

end Xbase.Eval
