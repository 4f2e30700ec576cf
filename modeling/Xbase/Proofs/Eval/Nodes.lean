import Xbase.Proofs.Eval.Stepwise
import Xbase.Proofs.Expr.Nodes

/-!
# Evaluating numbered nodes

`Eval.node` evaluates a node of an arena by its number, and `Eval.statementByNodes` runs a statement
with the nodes of its expressions. An error is reported with the number of the node whose own step
has failed; an error inside the body of a function that is called belongs to no node. Where a node
or the bytes of a node are missing, or where the parts of a node nest deeper than a bound, the
evaluation goes on as `missing`.

`Eval.node_statement` says that on the nodes of expressions this is the evaluation of the
expressions and statements, whatever `missing` is: nothing is ever missing, and no more levels are
needed than there are nodes. Only calls and loops can make an evaluation go on for ever.
-/

namespace Xbase.Eval

variable {α β : Type}

/-! ## Errors with their nodes -/

/-- How an evaluation ends; an error may be that of a node's own step. -/
inductive Report (α : Type) where
  | ok (a : α)
  | error (e : EvalError) (culprit : Option Nat)
  | outOfFuel

/-- An evaluation that reports the nodes that fail. -/
def Traced (α : Type) : Type :=
  Machine → Report α × Machine

namespace Traced

instance : Monad Traced where
  pure a := fun m => (.ok a, m)
  bind x f := fun m =>
    match x m with
    | (.ok a, m') => f a m'
    | (.error e culprit, m') => (.error e culprit, m')
    | (.outOfFuel, m') => (.outOfFuel, m')

/-- The evaluation, whose errors are those of `culprit`. -/
def tagged (culprit : Option Nat) (x : Eval α) : Traced α :=
  fun m =>
    match x m with
    | (.ok a, m') => (.ok a, m')
    | (.error e, m') => (.error e culprit, m')
    | (.outOfFuel, m') => (.outOfFuel, m')

instance : MonadLift Eval Traced where
  monadLift := tagged none

/-- A step of the node `i`. -/
def own (i : Nat) (x : Eval α) : Traced α :=
  tagged (some i) x

/-- The evaluation without the nodes that fail. -/
def erase (x : Traced α) : Eval α :=
  fun m =>
    match x m with
    | (.ok a, m') => (.ok a, m')
    | (.error e _, m') => (.error e, m')
    | (.outOfFuel, m') => (.outOfFuel, m')

/-- Forgetting the culprits commutes with running one computation after another. -/
@[simp] theorem erase_bind (x : Traced α) (f : α → Traced β) :
    (x >>= f).erase = x.erase >>= fun a => (f a).erase := by
  funext m
  simp only [erase, Bind.bind]
  rcases x m with ⟨_ | _ | _, m'⟩ <;> rfl

@[simp] theorem erase_tagged (culprit : Option Nat) (x : Eval α) :
    (tagged culprit x).erase = x := by
  funext m
  simp only [erase, tagged]
  rcases x m with ⟨_ | _ | _, m'⟩ <;> rfl

@[simp] theorem erase_lift (x : Eval α) : (liftM x : Traced α).erase = x :=
  erase_tagged none x

@[simp] theorem erase_own (i : Nat) (x : Eval α) : (own i x).erase = x :=
  erase_tagged (some i) x

@[simp] theorem erase_ite {c : Prop} [Decidable c] (x y : Traced α) :
    (if c then x else y).erase = if c then x.erase else y.erase :=
  apply_ite ..

end Traced

/-! ## Nodes -/

/-- The result that is there, or `missing`. -/
def present (missing : ∀ α : Type, Eval α) : Option α → Eval α
  | some a => pure a
  | none => missing α

/-- Whether the value is a function that can be called with the arguments. -/
def accepts (callee : Value) (args : List Value) : Bool :=
  match callee with
  | .function routine _ => (arityFault? routine args).isNone
  | _ => false

/-- Evaluates from left to right. -/
def each (eval : Nat → Traced Value) : List Nat → Traced (List Value)
  | [] => pure []
  | i :: rest => do
    let v ← eval i
    let vs ← each eval rest
    return v :: vs

/-- Runs a statement, given how to evaluate expressions and conditions and how to run a block. -/
def statementWith (eval : Expr → Eval Value) (test : Expr → Eval Bool) (run : Block → Eval Flow)
    (fuel : Nat) (scope : ScopeId) : Statement → Eval Flow
  | .declare visibility d => do
    declare eval scope visibility d
    return .next .none
  | .declareAll visibility ds _ => do
    declareAll eval scope visibility ds
    return .next .none
  | .function name params body => do
    declareFunction scope ⟨name, params, body⟩
    return .next .none
  | .expr e => do return .next (← eval e)
  | .print args _ => do
    let vs ← all eval args
    printLine (" ".intercalate (vs.map Value.text))
    return .next .none
  | .ifThen cond yes no => do
    if ← test cond then run yes else no.elim (pure (.next .none)) run
  | .doCase branches otherwise => branch test run otherwise branches
  | .doWhile cond body => repeatWhile (test cond) (run body) fuel
  | .ret none _ => return .ret .none
  | .ret (some e) _ => do return .ret (← eval e)
  | .exit span => return .exit span
  | .loop span => return .loop span

open Traced in
mutual

/-- Evaluates the node `i`, whose parts nest `depth` levels deep at most. The bytes of a node are
looked up also where no fault asks for them. -/
def node (missing : ∀ α : Type, Eval α) :
    (fuel depth : Nat) → (a : Arena) → (scope : ScopeId) → (i : Nat) → Traced Value
  | 0, _, _, _, _ => tagged none outOfFuel
  | _ + 1, 0, _, _, _ => tagged none (missing Value)
  | fuel + 1, depth + 1, a, scope, i => do
    let eval := node missing fuel depth a scope
    let spanOf := fun i : Nat => present missing (a.span? i)
    let span ← spanOf i
    match ← present missing a.nodes[i]? with
    | .atom x s => own i (atom scope s x)
    | .unary op operand _ =>
      let v ← eval operand
      own i (located span (op.apply v))
    | .binary op left right =>
      let v ← eval left
      let w ← eval right
      own i (located span (op.apply v w))
    | .logic op left right =>
      let v ← eval left
      let place ← spanOf left
      let b ← own i (logicalOperand op place v)
      if b = decide (op = .or) then return .logical b
      else
        let w ← eval right
        let place ← spanOf right
        let c ← own i (logicalOperand op place w)
        return .logical c
    | .assign op target value =>
      let place ← spanOf target
      match (← present missing a.nodes[target]?).name? with
      | none => own i (fault .invalidAssignmentTarget place)
      | some name =>
        match op.compound? with
        | none =>
          let v ← eval value
          if op = .bind then write (·.set scope name .priv v) else write (·.assign scope name v)
          return v
        | some arithmetic =>
          match ← read (·.owner? scope name) with
          | none => own i (fault (.undefinedVariable name) place)
          | some owner =>
            let v ← eval value
            match ← read (·.getLocal? owner name) with
            | none => own i (fault (.undefinedVariable name) place)
            | some current =>
              let whole ← spanOf a.root
              let w ← own i (compound op arithmetic whole current v)
              write (·.replaceLocal owner name w)
              return w
    | .call callee args _ =>
      let f ← eval callee
      let vs ← each eval args
      let run := fun scope body => sequence (statementByNodes missing fuel scope) .none body
      tagged (if accepts f vs then none else some i) (call run span f vs)
    | .iif cond yes no _ =>
      let v ← eval cond
      let place ← spanOf cond
      if ← own i (condition place v) then eval yes else eval no

/-- Runs a statement with the nodes of its expressions. -/
def statementByNodes (missing : ∀ α : Type, Eval α) :
    (fuel : Nat) → (scope : ScopeId) → Statement → Eval Flow
  | 0, _, _ => outOfFuel
  | fuel + 1, scope, s =>
    let eval := fun e : Expr =>
      let a := Arena.ofExpr e
      (node missing fuel a.nodes.size a scope a.root).erase
    let test := fun e : Expr => do
      let v ← eval e
      let a := Arena.ofExpr e
      let place ← present missing (a.span? a.root)
      condition place v
    statementWith eval test (sequence (statementByNodes missing fuel scope) .none) fuel scope s

end

/-! ## Nodes of expressions -/

theorem present_bind (missing : ∀ α : Type, Eval α) (a : α) (f : α → Eval β) :
    (present missing (some a) >>= f) = f a := rfl

theorem statement_succ (fuel : Nat) (scope : ScopeId) (s : Statement) :
    statement (fuel + 1) scope s =
      statementWith (whole fuel scope) (fun e => do condition e.span (← whole fuel scope e))
        (sequence (statement fuel scope) .none) fuel scope s := by
  cases s with
  | ret e? => cases e? <;> rfl
  | _ => rfl

/-- Evaluating nodes one after the other is evaluating their expressions, if it is so for each. -/
theorem each_erase {eval : Nat → Traced Value} {eval' : Expr → Eval Value} {is : List Nat}
    {es : List Expr} (h : List.Forall₂ (fun c x => (eval c).erase = eval' x) is es) :
    (each eval is).erase = all eval' es := by
  induction h with
  | nil => rfl
  | cons hd _ ih =>
    rw [each, all, Traced.erase_bind, hd]
    simp only [Traced.erase_bind, ih]
    rfl

/-- The node `c` of the arena is that of the expression `x` and is evaluated like it, where `whole`
are the bytes of the arena. -/
structure Follows (missing : ∀ α : Type, Eval α) (fuel depth : Nat) (a : Arena) (whole : Span)
    (scope : ScopeId) (c : Nat) (x : Expr) : Prop where
  eval : (node missing fuel depth a scope c).erase = expr fuel whole scope x
  span : a.span? c = some x.span
  node : ∃ t, a.nodes[c]? = some t ∧ t.name? = x.name?

/-- One step of the evaluation by nodes: if the children of a node evaluate as their expressions do,
so does the node. -/
theorem node_step {missing : ∀ α : Type, Eval α} {fuel depth : Nat} {a : Arena} {whole : Span}
    {scope : ScopeId} {i : Nat} {n : Expr} {head : Node}
    (hstatement : ∀ scope, statementByNodes missing fuel scope = statement fuel scope)
    (hroot : a.span? a.root = some whole) (get : a.nodes[i]? = some head)
    (hspan : a.span? i = some n.span) (heads : head.Heads n)
    (parts : List.Forall₂ (Follows missing fuel depth a whole scope) head.parts n.parts) :
    (node missing (fuel + 1) (depth + 1) a scope i).erase = expr (fuel + 1) whole scope n := by
  simp only [node, Traced.erase_bind, Traced.erase_lift, hspan, get, present_bind]
  cases heads with
  | atom => exact Traced.erase_own ..
  | unary =>
    obtain ⟨hoperand, -⟩ := List.forall₂_cons.1 parts
    simp only [Traced.erase_bind, Traced.erase_own, hoperand.eval]
    rfl
  | binary =>
    obtain ⟨hleft, hright⟩ := List.forall₂_cons.1 parts
    obtain ⟨hright, -⟩ := List.forall₂_cons.1 hright
    simp only [Traced.erase_bind, Traced.erase_own, hleft.eval, hright.eval]
    rfl
  | logic =>
    obtain ⟨hleft, hright⟩ := List.forall₂_cons.1 parts
    obtain ⟨hright, -⟩ := List.forall₂_cons.1 hright
    simp only [Traced.erase_bind, Traced.erase_own, Traced.erase_lift, Traced.erase_ite, hleft.eval,
      hleft.span, hright.eval, hright.span, present_bind]
    rfl
  | @assign op _ _ target value =>
    obtain ⟨htarget, hvalue⟩ := List.forall₂_cons.1 parts
    obtain ⟨hvalue, -⟩ := List.forall₂_cons.1 hvalue
    obtain ⟨t, ht, hname⟩ := htarget.node
    simp only [Traced.erase_bind, Traced.erase_lift, htarget.span, ht, hname, present_bind, expr]
    cases target.name? with
    | none => exact Traced.erase_own ..
    | some name =>
    cases op.compound? with
    | none =>
      simp only [Traced.erase_bind, Traced.erase_ite, Traced.erase_lift, hvalue.eval]
      rfl
    | some arithmetic =>
      simp only [Traced.erase_bind, Traced.erase_lift]
      congr 1
      funext owner?
      cases owner? with
      | none => exact Traced.erase_own ..
      | some owner =>
        simp only [Traced.erase_bind, Traced.erase_lift, hvalue.eval]
        congr 1
        funext v
        congr 1
        funext current?
        cases current? with
        | none => exact Traced.erase_own ..
        | some current =>
          simp only [Traced.erase_bind, Traced.erase_lift, Traced.erase_own, hroot, present_bind]
          rfl
  | call =>
    obtain ⟨hcallee, hargs⟩ := List.forall₂_cons.1 parts
    simp only [Traced.erase_bind, Traced.erase_tagged, hcallee.eval, hstatement,
      each_erase (hargs.imp fun c x hc => hc.eval)]
    rfl
  | iif =>
    obtain ⟨hcond, hbranches⟩ := List.forall₂_cons.1 parts
    obtain ⟨hyes, hno⟩ := List.forall₂_cons.1 hbranches
    obtain ⟨hno, -⟩ := List.forall₂_cons.1 hno
    simp only [Traced.erase_bind, Traced.erase_own, Traced.erase_lift, Traced.erase_ite, hcond.eval,
      hcond.span, hyes.eval, hno.eval, present_bind]
    rfl

/-- Nodes of expressions are evaluated like the expressions, and so are statements. -/
theorem node_statement (missing : ∀ α : Type, Eval α) (fuel : Nat) :
    (∀ {depth : Nat} {a : Arena} {whole : Span} {scope : ScopeId} {first i : Nat} {n : Expr},
      a.span? a.root = some whole → Arena.Lays a.nodes first i n → i < depth →
      (node missing fuel depth a scope i).erase = expr fuel whole scope n) ∧
    ∀ scope, statementByNodes missing fuel scope = statement fuel scope := by
  induction fuel with
  | zero => exact ⟨fun _ _ _ => by rw [node, expr, Traced.erase_tagged], fun _ => rfl⟩
  | succ fuel ih =>
    obtain ⟨hnode, hstatement⟩ := ih
    constructor
    · intro depth a whole scope first i n hroot hn hd
      obtain ⟨d, rfl⟩ := Nat.exists_eq_add_one_of_ne_zero (Nat.ne_zero_of_lt hd)
      have hspan := hn.span_eq
      obtain ⟨parts, get, heads⟩ := hn
      refine node_step hstatement hroot get hspan heads (parts.parts.imp ?_)
      rintro c x ⟨hc, f, hx⟩
      exact ⟨hnode hroot hx (Nat.lt_of_lt_of_le hc (Nat.lt_succ_iff.1 hd)), hx.span_eq, hx.name⟩
    · intro scope
      funext s
      have heval (e : Expr) : (node missing fuel (Arena.ofExpr e).nodes.size (Arena.ofExpr e) scope
          (Arena.ofExpr e).root).erase = whole fuel scope e := by
        obtain ⟨hlays, hsize⟩ := Arena.ofExpr_lays e
        exact hnode hlays.span_eq hlays (by omega)
      have hspan (e : Expr) : (Arena.ofExpr e).span? (Arena.ofExpr e).root = some e.span :=
        (Arena.ofExpr_lays e).1.span_eq
      rw [statementByNodes, statement_succ, hstatement]
      simp only [heval, hspan, present_bind]

/-- A node that lays out an expression evaluates as the expression does, once the culprits are
forgotten. -/
theorem node_erase (missing : ∀ α : Type, Eval α) (fuel : Nat) (scope : ScopeId) {depth : Nat}
    {a : Arena} {whole : Span} {first i : Nat} {n : Expr} (hroot : a.span? a.root = some whole)
    (h : Arena.Lays a.nodes first i n) (hd : i < depth) :
    (node missing fuel depth a scope i).erase = expr fuel whole scope n :=
  (node_statement missing fuel).1 hroot h hd

end Xbase.Eval
