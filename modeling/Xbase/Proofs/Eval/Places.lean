import Xbase.Proofs.Eval.Stepwise
import Xbase.Proofs.Store.Places

/-!
# Evaluation does not depend on places

`Eval.Forgets f x x'`: with all places forgotten, `x'` does what `x` does. It prints the same, ends
in the same way and leaves the same store, up to the places in functions and faults.

This holds of every expression and every statement and the same one without places
(`Eval.expr_statement_forgets`). So two programs that differ in their places only cannot be told
apart by running them (`Program.alike_of_map`).
-/

namespace Xbase

/-- Only functions have places in them. -/
theorem Value.map_of_homes {g : Span → Span} {v : Value} (h : v.homes = []) : v.map g = v := by
  cases v with
  | function routine home => cases h
  | _ => rfl

/-- The machine with the places of all functions changed. -/
def Machine.map (g : Span → Span) (m : Machine) : Machine := ⟨m.store.map g, m.output⟩

/-- The end of a statement with its places changed. -/
def Flow.map (g : Span → Span) : Flow → Flow
  | .next v => .next (v.map g)
  | .ret v => .ret (v.map g)
  | .exit span => .exit (g span)
  | .loop span => .loop (g span)

/-- The end of an evaluation with its result changed by `f` and the place of a fault by `g`. -/
def Outcome.map {α β : Type} (f : α → β) (g : Span → Span) : Outcome α → Outcome β
  | .ok a => .ok (f a)
  | .error e => .error ⟨e.fault, g e.span⟩
  | .outOfFuel => .outOfFuel

/-- Without places, an expression has none either. -/
theorem Expr.span_noPlace (e : Expr) : (e.map id noPlace).span = ⟨0, 0⟩ := by
  have hmerge : (⟨0, 0⟩ : Span).merge ⟨0, 0⟩ = ⟨0, 0⟩ := rfl
  induction e using Expr.span.induct with
  | case1 a s | case7 c yes no s => rfl
  | case2 op operand s ih | case6 operand args s ih =>
    rw [Expr.map, Expr.span, ih]
    exact hmerge
  | case3 op left right ihl ihr | case4 op left right ihl ihr | case5 op left right ihl ihr =>
    rw [Expr.map, Expr.span, ihl, ihr, hmerge]

theorem Expr.name?_map (g : Span → Span) (e : Expr) : (e.map id g).name? = e.name? := by
  cases e with
  | atom a s => cases a <;> rfl
  | _ => rfl

namespace Eval

/-- With all places forgotten, `x'` does what `x` does, and its result is changed by `f`. -/
def Forgets {α β : Type} (f : α → β) (x : Eval α) (x' : Eval β) : Prop :=
  ∀ m, x' (m.map noPlace) = ((x m).1.map f noPlace, (x m).2.map noPlace)

namespace Forgets

variable {α β γ δ : Type} {f : α → β} {h : γ → δ}

/-! ## Steps -/

theorem pure (a : α) : Forgets f (Pure.pure a) (Pure.pure (f a)) := fun _ => rfl

/-- Evaluations without places, one behind the other: the second one goes on with a value without
places. -/
theorem bind {x : Eval α} {x' : Eval β} {k : α → Eval γ} {k' : β → Eval δ} (hx : Forgets f x x')
    (hk : ∀ a, Forgets h (k a) (k' (f a))) : Forgets h (x >>= k) (x' >>= k') := by
  intro m
  have hxm := hx m
  rcases hrun : x m with ⟨_ | _ | _, m₁⟩
  all_goals rw [hrun] at hxm
  · rw [bind_ok hxm, bind_ok hrun]
    exact hk _ m₁
  · rw [bind_error hxm, bind_error hrun]
    rfl
  · rw [bind_outOfFuel hxm, bind_outOfFuel hrun]
    rfl

theorem outOfFuel : Forgets f Eval.outOfFuel Eval.outOfFuel := fun _ => rfl

theorem fault (F : EvalFault) (span : Span) :
    Forgets f (Eval.fault F span) (Eval.fault F ⟨0, 0⟩) := fun _ => rfl

theorem printLine (line : String) :
    Forgets id (Eval.printLine line) (Eval.printLine line) := fun _ => rfl

theorem read {r : Store → α} {r' : Store → β} (hr : ∀ σ, r' (σ.map noPlace) = f (r σ)) :
    Forgets f (Eval.read r) (Eval.read r') := by
  intro m
  exact Prod.ext (congrArg Outcome.ok (hr m.store)) rfl

theorem write {w w' : Store → Store} (hw : ∀ σ, w' (σ.map noPlace) = (w σ).map noPlace) :
    Forgets id (Eval.write w) (Eval.write w') := by
  intro m
  exact Prod.ext rfl (congrArg (Machine.mk · m.output) (hw m.store))

theorem newCallScope (home : ScopeId) :
    Forgets id (enter (·.newCallScope home)) (enter (·.newCallScope home)) := by
  intro m
  rw [enter, Machine.map, Store.newCallScope_map]
  rfl

/-! ## Values -/

/-- Results of operators have no places, so only the fault does. -/
theorem located {r : Except EvalFault Value} (span : Span) (hr : ∀ v, r = .ok v → v.homes = []) :
    Forgets (Value.map noPlace) (Eval.located span r) (Eval.located ⟨0, 0⟩ r) := by
  cases r with
  | error F => exact fault F span
  | ok v =>
    intro m
    have hv : v.map noPlace = v := Value.map_of_homes (hr v rfl)
    exact congrArg (fun u => (Outcome.ok u, m.map noPlace)) hv.symm

theorem condition (span : Span) (v : Value) :
    Forgets id (Eval.condition span v) (Eval.condition ⟨0, 0⟩ (v.map noPlace)) := by
  cases v with
  | logical b => exact pure b
  | _ => exact fault _ span

theorem logicalOperand (op : LogicOp) (span : Span) (v : Value) :
    Forgets id (Eval.logicalOperand op span v)
      (Eval.logicalOperand op ⟨0, 0⟩ (v.map noPlace)) := by
  cases v with
  | logical b => exact pure b
  | _ => exact fault _ span

theorem atom (scope : ScopeId) (span : Span) (a : Atom) :
    Forgets (Value.map noPlace) (Eval.atom scope span a) (Eval.atom scope ⟨0, 0⟩ a) := by
  cases a with
  | name s =>
    refine bind (read fun σ => σ.get?_map noPlace scope s) fun v? => ?_
    cases v? with
    | none => exact fault _ span
    | some v => exact pure v
  | _ => exact pure _

theorem compound (op : AssignOp) (arithmetic : BinaryOp) (span : Span) (current v : Value) :
    Forgets (Value.map noPlace) (Eval.compound op arithmetic span current v)
      (Eval.compound op arithmetic ⟨0, 0⟩ (current.map noPlace) (v.map noPlace)) := by
  have hlocated : Forgets (Value.map noPlace) (Eval.located span (arithmetic.apply current v))
      (Eval.located ⟨0, 0⟩ (arithmetic.apply (current.map noPlace) (v.map noPlace))) := by
    rw [BinaryOp.apply_map]
    exact located span fun _ => BinaryOp.homes_apply
  cases current with
  | number n | string s => exact hlocated
  | _ => exact fault _ span

/-- An assignment without places changes the store without places in the same way. -/
theorem update {value value' : Eval Value} (scope : ScopeId) (name : String) (span whole : Span)
    (op : AssignOp) (arithmetic : BinaryOp) (hvalue : Forgets (Value.map noPlace) value value') :
    Forgets (Value.map noPlace)
      (Eval.update scope name span value (Eval.compound op arithmetic whole))
      (Eval.update scope name ⟨0, 0⟩ value' (Eval.compound op arithmetic ⟨0, 0⟩)) := by
  refine bind (f := id) (read fun σ => σ.owner?_map noPlace scope name) fun owner? => ?_
  cases owner? with
  | none => exact fault _ span
  | some owner =>
    refine bind hvalue fun v => ?_
    refine bind (read fun σ => σ.getLocal?_map noPlace owner name) fun current? => ?_
    cases current? with
    | none => exact fault _ span
    | some current =>
      refine bind (compound op arithmetic whole current v) fun w => ?_
      exact bind (write fun σ => σ.replaceLocal_map noPlace owner name w) fun _ => pure w

/-! ## Calls and declarations -/

/-- A block without places is run statement by statement. -/
theorem sequence {run run' : Statement → Eval Flow}
    (hrun : ∀ s, Forgets (Flow.map noPlace) (run s) (run' (s.map id noPlace))) (last : Value)
    (ss : List Statement) :
    Forgets (Flow.map noPlace) (Eval.sequence run last ss)
      (Eval.sequence run' (last.map noPlace) (Statement.mapAll id noPlace ss)) := by
  induction ss generalizing last with
  | nil => exact pure (Flow.next last)
  | cons s ss ih =>
    refine bind (hrun s) fun flow => ?_
    cases flow with
    | next v => exact ih v
    | ret v => exact pure (Flow.ret v)
    | exit span => exact pure (Flow.exit span)
    | loop span => exact pure (Flow.loop span)

theorem result (flow : Flow) :
    Forgets (Value.map noPlace) (Eval.result flow) (Eval.result (flow.map noPlace)) := by
  cases flow with
  | next v | ret v => exact pure v
  | exit span | loop span => exact fault _ span

end Forgets

/-- Parameters get their arguments, wherever the function was declared. -/
theorem bindParams_map (g : Span → Span) (scope : ScopeId) (params : List Ident)
    (args : List Value) (σ : Store) :
    bindParams scope (params.map (Ident.map g)) (args.map (Value.map g)) (σ.map g) =
      (bindParams scope params args σ).map g := by
  induction params generalizing args σ with
  | nil => rfl
  | cons p params ih =>
    cases args with
    | nil =>
      have hset := σ.set_map g scope p.name .priv (.logical false)
      rw [bindParams, ← ih, ← hset]
      rfl
    | cons v args =>
      have hset := σ.set_map g scope p.name .priv v
      rw [bindParams, ← ih, ← hset]
      rfl

/-- Whether the count of arguments fits does not depend on places. -/
theorem arityFault?_map (g : Span → Span) (routine : Routine) (args : List Value) :
    arityFault? (routine.map g) (args.map (Value.map g)) = arityFault? routine args := by
  simp [arityFault?, Routine.map, Ident.map]

namespace Forgets

/-- A call runs a body that has no places either, as the function was declared without. -/
theorem call {run run' : ScopeId → Block → Eval Flow}
    (hrun : ∀ scope body, Forgets (Flow.map noPlace) (run scope body)
      (run' scope (Statement.mapAll id noPlace body))) (span : Span) (callee : Value)
    (args : List Value) :
    Forgets (Value.map noPlace) (Eval.call run span callee args)
      (Eval.call run' ⟨0, 0⟩ (callee.map noPlace) (args.map (Value.map noPlace))) := by
  cases callee with
  | function routine home =>
    rw [Value.map, Eval.call, Eval.call, arityFault?_map]
    split
    · exact fault _ span
    · refine bind (newCallScope home) fun scope => ?_
      refine bind (write fun σ => bindParams_map noPlace scope routine.params args σ) fun _ => ?_
      exact bind (hrun scope routine.body) fun flow => result flow
  | native n =>
    rw [Value.map, Eval.call, Eval.call, List.length_map, Native.call_map]
    split
    · exact fault _ span
    · exact located span fun _ => Native.homes_call
    all_goals
      intro _ _ h
      cases h
  | _ => exact fault _ span

theorem declare {eval eval' : Expr → Eval Value}
    (heval : ∀ e, Forgets (Value.map noPlace) (eval e) (eval' (e.map id noPlace))) (scope : ScopeId)
    (visibility : Visibility) (d : Declarator) :
    Forgets id (Eval.declare eval scope visibility d)
      (Eval.declare eval' scope visibility (d.map id noPlace)) := by
  refine bind (f := Value.map noPlace) ?_ fun v =>
    write fun σ => σ.set_map noPlace scope d.name.name visibility v
  rw [Declarator.map]
  cases d.initial? with
  | none =>
    cases d.type? with
    | none => exact pure (Value.logical false)
    | some type => cases type <;> exact pure (initialValue (some _))
  | some e => exact heval e

theorem declareAll {eval eval' : Expr → Eval Value}
    (heval : ∀ e, Forgets (Value.map noPlace) (eval e) (eval' (e.map id noPlace))) (scope : ScopeId)
    (visibility : Visibility) (ds : List Declarator) :
    Forgets id (Eval.declareAll eval scope visibility ds)
      (Eval.declareAll eval' scope visibility (ds.map (Declarator.map id noPlace))) := by
  induction ds with
  | nil => exact pure ()
  | cons d ds ih => exact bind (declare heval scope visibility d) fun _ => ih

theorem declareFunction (scope : ScopeId) (routine : Routine) :
    Forgets id (Eval.declareFunction scope routine)
      (Eval.declareFunction scope (routine.map noPlace)) := by
  have hwrite : Forgets id (Eval.write (·.declareFunction scope routine))
      (Eval.write (·.declareFunction scope (routine.map noPlace))) :=
    write fun σ => σ.declareFunction_map noPlace scope routine
  refine bind (f := id) (read fun σ => σ.containsLocal_map noPlace scope routine.name.name)
    fun bound => ?_
  cases bound with
  | true => exact fault _ routine.name.span
  | false => exact hwrite

/-! ## Control -/

theorem all {eval eval' : Expr → Eval Value}
    (heval : ∀ e, Forgets (Value.map noPlace) (eval e) (eval' (e.map id noPlace)))
    (es : List Expr) :
    Forgets (List.map (Value.map noPlace)) (Eval.all eval es)
      (Eval.all eval' (es.map (Expr.map id noPlace))) := by
  induction es with
  | nil => exact pure []
  | cons e es ih => exact bind (heval e) fun v => bind ih fun vs => pure (v :: vs)

theorem branch {test test' : Expr → Eval Bool} {run run' : Block → Eval Flow}
    (htest : ∀ e, Forgets id (test e) (test' (e.map id noPlace)))
    (hrun : ∀ b, Forgets (Flow.map noPlace) (run b) (run' (Statement.mapAll id noPlace b)))
    (otherwise : Option Block) (branches : List (Expr × Block)) :
    Forgets (Flow.map noPlace) (Eval.branch test run otherwise branches)
      (Eval.branch test' run' (otherwise.map (Statement.mapAll id noPlace))
        (Statement.mapCases id noPlace branches)) := by
  induction branches with
  | nil =>
    cases otherwise with
    | none => exact pure (Flow.next .none)
    | some body => exact hrun body
  | cons pair branches ih =>
    refine bind (htest pair.1) fun b => ?_
    cases b with
    | false => exact ih
    | true => exact hrun pair.2

/-- A loop without places makes the same turns. -/
theorem repeatWhile {test test' : Eval Bool} {body body' : Eval Flow}
    (htest : Forgets id test test') (hbody : Forgets (Flow.map noPlace) body body') (fuel : Nat) :
    Forgets (Flow.map noPlace) (Eval.repeatWhile test body fuel)
      (Eval.repeatWhile test' body' fuel) := by
  induction fuel with
  | zero => exact outOfFuel
  | succ fuel ih =>
    refine bind htest fun b => ?_
    cases b with
    | false => exact pure (Flow.next .none)
    | true =>
      refine bind hbody fun flow => ?_
      cases flow with
      | next v | loop span => exact ih
      | exit span => exact pure (Flow.next .none)
      | ret v => exact pure (Flow.ret v)

/-! ## Expressions and statements -/

/-- The rules of all expressions, from the evaluations that they call for with less fuel. -/
theorem expr_succ {fuel : Nat}
    (hexpr : ∀ whole scope e, Forgets (Value.map noPlace) (expr fuel whole scope e)
      (expr fuel ⟨0, 0⟩ scope (e.map id noPlace)))
    (hstatement : ∀ scope s, Forgets (Flow.map noPlace) (statement fuel scope s)
      (statement fuel scope (s.map id noPlace))) (whole : Span) (scope : ScopeId) (e : Expr) :
    Forgets (Value.map noPlace) (expr (fuel + 1) whole scope e)
      (expr (fuel + 1) ⟨0, 0⟩ scope (e.map id noPlace)) := by
  have heval := hexpr whole scope
  cases e with
  | atom a span => exact atom scope span a
  | unary op operand span =>
    refine bind (heval operand) fun v => ?_
    rw [UnaryOp.apply_map, Expr.span_noPlace]
    exact located _ fun _ => UnaryOp.homes_apply
  | binary op left right =>
    refine bind (heval left) fun v => bind (heval right) fun w => ?_
    rw [BinaryOp.apply_map, Expr.span_noPlace]
    exact located _ fun _ => BinaryOp.homes_apply
  | logic op left right =>
    refine bind (heval left) fun v => ?_
    rw [Expr.span_noPlace, Expr.span_noPlace]
    refine bind (logicalOperand op _ v) fun b => ?_
    dsimp only [id]
    split
    · exact pure (Value.logical b)
    · exact bind (heval right) fun w => bind (logicalOperand op _ w) fun c =>
        pure (Value.logical c)
  | assign op target value =>
    rw [Expr.map, Eval.expr, Eval.expr, Expr.name?_map, Expr.span_noPlace]
    cases target.name? with
    | none => exact fault _ _
    | some name =>
      cases op.compound? with
      | none =>
        refine bind (heval value) fun v => ?_
        dsimp only
        split
        · exact bind (write fun σ => σ.set_map noPlace scope name .priv v) fun _ => pure v
        · exact bind (write fun σ => σ.assign_map noPlace scope name v) fun _ => pure v
      | some arithmetic => exact update scope name _ whole op arithmetic (heval value)
  | call callee args span =>
    have hspan := (Expr.call callee args span).span_noPlace
    rw [Expr.map, Expr.mapAll_eq] at hspan ⊢
    rw [expr_call, expr_call, hspan]
    refine bind (heval callee) fun f => bind (all heval args) fun vs => ?_
    exact call (fun scope body => sequence (hstatement scope) .none body) _ f vs
  | iif cond yes no span =>
    refine bind (heval cond) fun v => ?_
    rw [Expr.span_noPlace]
    refine bind (condition _ v) fun b => ?_
    cases b with
    | false => exact heval no
    | true => exact heval yes

/-- The rules of all statements, from the evaluations that they call for with less fuel. -/
theorem statement_succ {fuel : Nat}
    (hexpr : ∀ whole scope e, Forgets (Value.map noPlace) (expr fuel whole scope e)
      (expr fuel ⟨0, 0⟩ scope (e.map id noPlace)))
    (hstatement : ∀ scope s, Forgets (Flow.map noPlace) (statement fuel scope s)
      (statement fuel scope (s.map id noPlace))) (scope : ScopeId) (s : Statement) :
    Forgets (Flow.map noPlace) (statement (fuel + 1) scope s)
      (statement (fuel + 1) scope (s.map id noPlace)) := by
  have heval (e : Expr) : Forgets (Value.map noPlace) (expr fuel e.span scope e)
      (expr fuel (e.map id noPlace).span scope (e.map id noPlace)) := by
    rw [Expr.span_noPlace]
    exact hexpr e.span scope e
  have htest (e : Expr) : Forgets id (expr fuel e.span scope e >>= Eval.condition e.span)
      (expr fuel (e.map id noPlace).span scope (e.map id noPlace) >>=
        Eval.condition (e.map id noPlace).span) := by
    refine bind (heval e) fun v => ?_
    rw [Expr.span_noPlace]
    exact condition e.span v
  have hrun (body : Block) :
      Forgets (Flow.map noPlace) (Eval.sequence (statement fuel scope) .none body)
        (Eval.sequence (statement fuel scope) .none (Statement.mapAll id noPlace body)) :=
    sequence (hstatement scope) .none body
  have hnext : Forgets (Flow.map noPlace) (Pure.pure (Flow.next .none)) (Pure.pure (.next .none)) :=
    pure (Flow.next .none)
  cases s with
  | declare visibility d => exact bind (declare heval scope visibility d) fun _ => hnext
  | declareAll visibility ds grouped =>
    exact bind (declareAll heval scope visibility ds) fun _ => hnext
  | function name params body =>
    exact bind (declareFunction scope ⟨name, params, body⟩) fun _ => hnext
  | expr e => exact bind (heval e) fun v => pure (Flow.next v)
  | print args span =>
    refine bind (all heval args) fun vs => ?_
    have htexts : (vs.map (Value.map noPlace)).map Value.text = vs.map Value.text := by
      rw [List.map_map]
      exact List.map_congr_left fun v _ => v.text_map noPlace
    rw [htexts]
    exact bind (printLine _) fun _ => hnext
  | ifThen cond yes no =>
    cases no with
    | none =>
      refine bind (htest cond) fun b => ?_
      cases b with
      | true => exact hrun yes
      | false => exact hnext
    | some no =>
      refine bind (htest cond) fun b => ?_
      cases b with
      | true => exact hrun yes
      | false => exact hrun no
  | doCase branches otherwise =>
    cases otherwise <;> exact branch htest hrun _ branches
  | doWhile cond body => exact repeatWhile (htest cond) (hrun body) fuel
  | ret value span =>
    cases value with
    | none => exact pure (Flow.ret .none)
    | some e => exact bind (heval e) fun v => pure (Flow.ret v)
  | exit span => exact pure (Flow.exit span)
  | loop span => exact pure (Flow.loop span)

end Forgets

/-- Without places, an expression and a statement are evaluated alike. -/
theorem expr_statement_forgets (fuel : Nat) :
    (∀ whole scope e, Forgets (Value.map noPlace) (expr fuel whole scope e)
      (expr fuel ⟨0, 0⟩ scope (e.map id noPlace))) ∧
    ∀ scope s, Forgets (Flow.map noPlace) (statement fuel scope s)
      (statement fuel scope (s.map id noPlace)) := by
  induction fuel with
  | zero => exact ⟨fun _ _ _ => .outOfFuel, fun _ _ => .outOfFuel⟩
  | succ fuel ih => exact ⟨.expr_succ ih.1 ih.2, .statement_succ ih.1 ih.2⟩

/-- A program without places does the same without places. -/
theorem program_forgets (fuel : Nat) (scope : ScopeId) (p : Program) :
    Forgets (Value.map noPlace) (program fuel scope p) (program fuel scope (p.map id noPlace)) :=
  .bind (.sequence ((expr_statement_forgets fuel).2 scope) .none p) fun flow => .result flow

end Eval

/-- The programs cannot be told apart, places aside: in every scope of every store and with every
amount of fuel they print the same, end in the same way and leave the same store. -/
structure Program.Alike (p q : Program) : Prop where
  outcome : ∀ fuel scope m, (Eval.program fuel scope p m).1.map (Value.map noPlace) noPlace =
    (Eval.program fuel scope q m).1.map (Value.map noPlace) noPlace
  output : ∀ fuel scope m,
    (Eval.program fuel scope p m).2.output = (Eval.program fuel scope q m).2.output
  store : ∀ fuel scope m, (Eval.program fuel scope p m).2.store.map noPlace =
    (Eval.program fuel scope q m).2.store.map noPlace

/-- Programs that differ in their places only cannot be told apart. -/
theorem Program.alike_of_map {p q : Program} (h : p.map id noPlace = q.map id noPlace) :
    p.Alike q := by
  have hrun (fuel : Nat) (scope : ScopeId) (m : Machine) :
      ((Eval.program fuel scope p m).1.map (Value.map noPlace) noPlace,
        (Eval.program fuel scope p m).2.map noPlace) =
      ((Eval.program fuel scope q m).1.map (Value.map noPlace) noPlace,
        (Eval.program fuel scope q m).2.map noPlace) := by
    rw [← Eval.program_forgets, ← Eval.program_forgets, h]
  constructor
  · intro fuel scope m
    exact (Prod.mk.inj (hrun fuel scope m)).1
  · intro fuel scope m
    exact (Machine.mk.inj (Prod.mk.inj (hrun fuel scope m)).2).2
  · intro fuel scope m
    exact (Machine.mk.inj (Prod.mk.inj (hrun fuel scope m)).2).1

theorem Outcome.map_eq_outOfFuel {α β : Type} {f : α → β} {g : Span → Span} {r : Outcome α} :
    r.map f g = .outOfFuel ↔ r = .outOfFuel := by
  cases r <;> simp [Outcome.map]

/-- Programs that cannot be told apart both terminate or both do not. -/
theorem Program.Alike.terminates {p q : Program} (h : p.Alike q) (scope : ScopeId) (m : Machine) :
    (∃ fuel, (Eval.program fuel scope p m).1 ≠ .outOfFuel) ↔
      ∃ fuel, (Eval.program fuel scope q m).1 ≠ .outOfFuel := by
  refine exists_congr fun fuel => not_congr ?_
  rw [← Outcome.map_eq_outOfFuel, h.outcome, Outcome.map_eq_outOfFuel]

end Xbase
