import Xbase.Proofs.Eval.Output

/-!
# Enough fuel

With more fuel an evaluation goes on where it ran out before, and if it came to an end, it comes to
the same end (`Eval.Continues`, `Eval.expr_grows`, `Eval.statement_grows`). So an evaluation has one
end at most, which it comes to with every amount of fuel that is enough:

* `Eval.Halts` says how an evaluation ends, if it does;
* `Eval.Prints` says what it has printed at some time, whether it ends or not.

`Eval.Congruent` says of a relation between evaluations that it is kept when they are put together.
Such a relation holds between the evaluations of an expression in two ways if it holds between those
of the parts (`Congruent.expr_succ`).
-/

namespace Xbase.Eval

variable {α β : Type}

/-! ## Relations between evaluations -/

/-- Evaluations are related to themselves, and stay related when they are put together. -/
structure Congruent (R : ∀ {α : Type}, Eval α → Eval α → Prop) : Prop where
  refl {α : Type} {x : Eval α} (h : Appends x) : R x x
  bind {α β : Type} {x y : Eval α} {f g : α → Eval β} (hx : R x y) (hf : ∀ a, R (f a) (g a)) :
    R (x >>= f) (y >>= g)

namespace Congruent

variable {R : ∀ {α : Type}, Eval α → Eval α → Prop} (h : Congruent R)

include h

theorem pure (a : α) : R (Pure.pure a) (Pure.pure a) :=
  h.refl fun _ _ => rfl

theorem fault (f : EvalFault) (span : Span) : R (fault f span : Eval α) (Eval.fault f span) :=
  h.refl fun _ _ => rfl

theorem read (f : Store → α) : R (read f) (Eval.read f) :=
  h.refl fun _ _ => rfl

theorem write (f : Store → Store) : R (write f) (Eval.write f) :=
  h.refl fun _ _ => rfl

theorem located (span : Span) (r : Except EvalFault α) : R (located span r) (Eval.located span r) :=
  h.refl (appends_located span r)

theorem condition (span : Span) (v : Value) : R (condition span v) (Eval.condition span v) :=
  h.refl (appends_stepwise.condition (K := []) span v)

theorem logicalOperand (op : LogicOp) (span : Span) (v : Value) :
    R (logicalOperand op span v) (Eval.logicalOperand op span v) :=
  h.refl (appends_stepwise.logicalOperand (K := []) op span v)

/-- Evaluations one after the other are related if each of them is. -/
theorem all {eval eval' : Expr → Eval Value} (heval : ∀ e, R (eval e) (eval' e)) (es : List Expr) :
    R (all eval es) (Eval.all eval' es) := by
  induction es with
  | nil => exact h.pure []
  | cons e es ih => exact h.bind (heval e) fun v => h.bind ih fun vs => h.pure (v :: vs)

/-- Blocks are related if their statements are, also where a statement ends the block. -/
theorem sequence {run run' : Statement → Eval Flow} (hrun : ∀ s, R (run s) (run' s)) (last : Value)
    (ss : List Statement) : R (sequence run last ss) (Eval.sequence run' last ss) := by
  induction ss generalizing last with
  | nil => exact h.pure (Flow.next last)
  | cons s ss ih =>
    refine h.bind (hrun s) fun flow => ?_
    cases flow with
    | next v => exact ih v
    | _ => exact h.pure _

/-- Calls are related if the bodies of functions are, whatever the callee is. -/
theorem call {run run' : ScopeId → Block → Eval Flow}
    (hrun : ∀ scope body, R (run scope body) (run' scope body)) (span : Span) (callee : Value)
    (args : List Value) : R (call run span callee args) (Eval.call run' span callee args) := by
  cases callee with
  | function routine home =>
    rw [Eval.call, Eval.call]
    split
    · exact h.fault _ span
    · refine h.bind (h.refl fun _ _ => rfl) fun scope => h.bind (h.write _) fun _ => ?_
      refine h.bind (hrun scope routine.body) fun flow => ?_
      cases flow with
      | next v | ret v => exact h.pure v
      | exit span | loop span => exact h.fault _ span
  | native n =>
    rw [Eval.call, Eval.call]
    split
    · exact h.fault _ span
    · exact h.located span _
  | _ => exact h.fault _ span

theorem declare {eval eval' : Expr → Eval Value} (heval : ∀ e, R (eval e) (eval' e))
    (scope : ScopeId) (visibility : Visibility) (d : Declarator) :
    R (declare eval scope visibility d) (Eval.declare eval' scope visibility d) := by
  rw [Eval.declare, Eval.declare]
  refine h.bind ?_ fun v => h.write _
  cases d.initial? with
  | none => exact h.pure _
  | some e => exact heval e

/-- Declarations are related if the values of the declarators are. -/
theorem declareAll {eval eval' : Expr → Eval Value} (heval : ∀ e, R (eval e) (eval' e))
    (scope : ScopeId) (visibility : Visibility) (ds : List Declarator) :
    R (declareAll eval scope visibility ds) (Eval.declareAll eval' scope visibility ds) := by
  induction ds with
  | nil => exact h.pure ()
  | cons d ds ih => exact h.bind (h.declare heval scope visibility d) fun _ => ih

/-- Case distinctions are related if their conditions and their blocks are. -/
theorem branch {test test' : Expr → Eval Bool} {run run' : Block → Eval Flow}
    (htest : ∀ e, R (test e) (test' e)) (hrun : ∀ body, R (run body) (run' body))
    (otherwise : Option Block) (branches : List (Expr × Block)) :
    R (branch test run otherwise branches) (Eval.branch test' run' otherwise branches) := by
  induction branches with
  | nil =>
    cases otherwise with
    | none => exact h.pure (Flow.next .none)
    | some body => exact hrun body
  | cons pair branches ih =>
    refine h.bind (htest pair.1) fun b => ?_
    cases b with
    | false => exact ih
    | true => exact hrun pair.2

/-- Assignments are related if the values and the ways to combine them are. -/
theorem update {value value' : Eval Value} {combine combine' : Value → Value → Eval Value}
    (hvalue : R value value') (hcombine : ∀ v w, R (combine v w) (combine' v w)) (scope : ScopeId)
    (name : String) (span : Span) :
    R (update scope name span value combine) (Eval.update scope name span value' combine') := by
  refine h.bind (h.read _) fun owner? => ?_
  cases owner? with
  | none => exact h.fault _ span
  | some owner =>
    refine h.bind hvalue fun v => h.bind (h.read _) fun current? => ?_
    cases current? with
    | none => exact h.fault _ span
    | some current =>
      exact h.bind (hcombine current v) fun w => h.bind (h.write _) fun _ => h.pure w

/-- The evaluations of an expression in two ways are related if those of its parts are. -/
theorem expr_succ {fuel fuel' : Nat} {whole whole' : Span} {scope : ScopeId}
    (hexpr : ∀ e, R (expr fuel whole scope e) (expr fuel' whole' scope e))
    (hinvoke : ∀ span f vs, R (invoke fuel span f vs) (invoke fuel' span f vs))
    (hcompound : ∀ op arithmetic current v, R (compound op arithmetic whole current v)
      (compound op arithmetic whole' current v)) (e : Expr) :
    R (expr (fuel + 1) whole scope e) (expr (fuel' + 1) whole' scope e) := by
  cases e with
  | atom a span => exact h.refl (appends_stepwise.atom (K := []) span a trivial)
  | unary op operand span => exact h.bind (hexpr operand) fun v => h.located _ _
  | binary op left right =>
    exact h.bind (hexpr left) fun v => h.bind (hexpr right) fun w => h.located _ _
  | logic op left right =>
    refine h.bind (hexpr left) fun v => h.bind (h.logicalOperand op _ v) fun b => ?_
    split
    · exact h.pure _
    · exact h.bind (hexpr right) fun w => h.bind (h.logicalOperand op _ w) fun c => h.pure _
  | assign op target value =>
    cases hname : target.name? with
    | none =>
      rw [expr_assign_of_no_name hname, expr_assign_of_no_name hname]
      exact h.fault _ _
    | some name =>
      cases hop : op.compound? with
      | none =>
        rw [expr_assign_simple hname hop, expr_assign_simple hname hop]
        refine h.bind (hexpr value) fun v => ?_
        split
        · exact h.bind (h.write _) fun _ => h.pure v
        · exact h.bind (h.write _) fun _ => h.pure v
      | some arithmetic =>
        rw [expr_assign_compound hname hop, expr_assign_compound hname hop]
        exact h.update (hexpr value) (hcompound op arithmetic) scope name _
  | call callee args span =>
    rw [expr_call, expr_call]
    exact h.bind (hexpr callee) fun f => h.bind (h.all hexpr args) fun vs => hinvoke _ f vs
  | iif cond yes no span =>
    refine h.bind (hexpr cond) fun v => h.bind (h.condition _ v) fun b => ?_
    cases b with
    | false => exact hexpr no
    | true => exact hexpr yes

end Congruent

/-! ## More fuel -/

/-- The truth value of the condition of a statement. -/
def test (fuel : Nat) (scope : ScopeId) (e : Expr) : Eval Bool := do
  condition e.span (← expr fuel e.span scope e)

/-- Runs a block. -/
def block (fuel : Nat) (scope : ScopeId) (body : Block) : Eval Flow :=
  sequence (statement fuel scope) .none body

/-- `y` goes on where `x` runs out of fuel. If `x` comes to an end, `y` comes to the same end, and
in any case it prints what `x` prints. -/
structure Continues (x y : Eval α) : Prop where
  run : ∀ m, y m = x m ∨ (x m).1 = .outOfFuel ∧ ∃ more, (y m).2.output = (x m).2.output ++ more
  appends : Appends y

namespace Continues

/-- Whatever only adds to the output continues a run that has just run out of fuel. -/
theorem outOfFuel {y : Eval α} (h : Appends y) : Continues outOfFuel y :=
  ⟨fun m => .inr ⟨rfl, h.output m⟩, h⟩

/-- More fuel can be added in portions. -/
theorem trans {x y z : Eval α} (hxy : Continues x y) (hyz : Continues y z) : Continues x z := by
  refine ⟨fun m => ?_, hyz.appends⟩
  obtain hx | ⟨hx, more, hmore⟩ := hxy.run m
  · rw [← hx]
    exact hyz.run m
  · refine .inr ⟨hx, ?_⟩
    obtain hy | ⟨-, more', hmore'⟩ := hyz.run m
    · exact ⟨more, by rw [hy, hmore]⟩
    · exact ⟨more ++ more', by rw [hmore', hmore, String.append_assoc]⟩

/-- A run that ran out of fuel in its first part is continued by the other run as a whole. -/
theorem bind {x y : Eval α} {f g : α → Eval β} (hx : Continues x y)
    (hf : ∀ a, Continues (f a) (g a)) : Continues (x >>= f) (y >>= g) := by
  refine ⟨fun m => ?_, hx.appends.bind fun a => (hf a).appends⟩
  obtain hy | ⟨hout, more, hmore⟩ := hx.run m
  · rcases hrun : x m with ⟨a | e | _, m₁⟩
    · rw [bind_ok hrun, bind_ok (hy.trans hrun)]
      exact (hf a).run m₁
    · rw [bind_error hrun, bind_error (hy.trans hrun)]
      exact .inl rfl
    · rw [bind_outOfFuel hrun, bind_outOfFuel (hy.trans hrun)]
      exact .inl rfl
  · -- whatever `y` goes on with prints behind what `x` has printed
    have hrun : x m = (.outOfFuel, (x m).2) := Prod.ext hout rfl
    rw [bind_outOfFuel hrun]
    refine .inr ⟨rfl, ?_⟩
    rcases hrun' : y m with ⟨a | e | _, m₁⟩
    all_goals rw [hrun'] at hmore
    · obtain ⟨more', hmore'⟩ := (hf a).appends.output m₁
      rw [bind_ok hrun']
      exact ⟨more ++ more', by rw [hmore', hmore, String.append_assoc]⟩
    · rw [bind_error hrun']
      exact ⟨more, hmore⟩
    · rw [bind_outOfFuel hrun']
      exact ⟨more, hmore⟩

end Continues

theorem continues_congruent : Congruent Continues where
  refl h := ⟨fun _ => .inl rfl, h⟩
  bind := Continues.bind

namespace Continues

/-- One more unit of fuel lets a loop make one more turn. -/
theorem repeatWhile {test test' : Eval Bool} {body body' : Eval Flow} (htest : Continues test test')
    (hbody : Continues body body') (fuel : Nat) :
    Continues (repeatWhile test body fuel) (Eval.repeatWhile test' body' (fuel + 1)) := by
  induction fuel with
  | zero =>
    exact outOfFuel (appends_stepwise.repeatWhile (K := []) htest.appends hbody.appends 1)
  | succ fuel ih =>
    refine htest.bind fun b => ?_
    cases b with
    | false => exact continues_congruent.pure _
    | true =>
      refine hbody.bind fun flow => ?_
      cases flow with
      | next v | loop span => exact ih
      | exit span => exact continues_congruent.pure _
      | ret v => exact continues_congruent.pure _

/-- The rules of all statements, from the evaluations that they call for. -/
theorem statement_succ {fuel : Nat} {scope : ScopeId}
    (hexpr : ∀ e : Expr, Continues (expr fuel e.span scope e) (expr (fuel + 1) e.span scope e))
    (hstatement : ∀ s, Continues (statement fuel scope s) (statement (fuel + 1) scope s))
    (s : Statement) :
    Continues (statement (fuel + 1) scope s) (statement (fuel + 1 + 1) scope s) := by
  have h := continues_congruent
  have htest (e : Expr) : Continues (test fuel scope e) (test (fuel + 1) scope e) :=
    (hexpr e).bind fun v => h.condition e.span v
  have hrun (body : Block) : Continues (block fuel scope body) (block (fuel + 1) scope body) :=
    h.sequence hstatement .none body
  cases s with
  | declare visibility d =>
    exact (h.declare hexpr scope visibility d).bind fun _ => h.pure _
  | declareAll visibility ds grouped =>
    exact (h.declareAll hexpr scope visibility ds).bind fun _ => h.pure _
  | function name params body =>
    exact h.refl ((appends_stepwise.expr_statement 1).2 (K := []) scope
      (.function name params body) trivial)
  | expr e => exact (hexpr e).bind fun v => h.pure _
  | print args span =>
    refine (h.all hexpr args).bind fun vs => Continues.bind ?_ fun _ => h.pure _
    exact h.refl (appends_stepwise.printLine (K := []) _)
  | ifThen cond yes no =>
    refine (htest cond).bind fun b => ?_
    cases b with
    | true => exact hrun yes
    | false =>
      cases no with
      | none => exact h.pure _
      | some no => exact hrun no
  | doCase branches otherwise => exact h.branch htest hrun otherwise branches
  | doWhile cond body => exact repeatWhile (htest cond) (hrun body) fuel
  | ret value span =>
    cases value with
    | none => exact h.pure _
    | some e => exact (hexpr e).bind fun v => h.pure _
  | exit span | loop span => exact h.pure _

end Continues

theorem expr_appends (fuel : Nat) (whole : Span) (scope : ScopeId) (e : Expr) :
    Appends (expr fuel whole scope e) :=
  (appends_stepwise.expr_statement fuel).1 (K := []) whole scope e trivial

theorem statement_appends (fuel : Nat) (scope : ScopeId) (s : Statement) :
    Appends (statement fuel scope s) :=
  (appends_stepwise.expr_statement fuel).2 (K := []) scope s trivial

/-- One more unit of fuel continues every run. The induction is on the fuel, for expressions and
statements at once. -/
theorem expr_statement_continues (fuel : Nat) :
    (∀ whole scope e, Continues (expr fuel whole scope e) (expr (fuel + 1) whole scope e)) ∧
    ∀ scope s, Continues (statement fuel scope s) (statement (fuel + 1) scope s) := by
  induction fuel with
  | zero =>
    exact ⟨fun whole scope e => .outOfFuel (expr_appends 1 whole scope e),
      fun scope s => .outOfFuel (statement_appends 1 scope s)⟩
  | succ fuel ih =>
    have h := continues_congruent
    refine ⟨fun whole scope e => ?_, fun scope s => ?_⟩
    · refine h.expr_succ (ih.1 whole scope) (fun span f vs => ?_) (fun op arithmetic v w => ?_) e
      · exact h.call (fun scope body => h.sequence (ih.2 scope) .none body) span f vs
      · obtain ⟨outcome, hrun, -⟩ := compound_run op arithmetic whole v w
        exact h.refl fun before m => by rw [hrun, hrun]
    · exact .statement_succ (fun e => ih.1 e.span scope e) (ih.2 scope) s

/-- An evaluation that goes on with more fuel. -/
def Grows (x : Nat → Eval α) : Prop :=
  ∀ fuel more, fuel ≤ more → Continues (x fuel) (x more)

/-- What holds for one more unit of fuel holds for any amount. -/
theorem Grows.of_succ {x : Nat → Eval α} (happends : ∀ fuel, Appends (x fuel))
    (hsucc : ∀ fuel, Continues (x fuel) (x (fuel + 1))) : Grows x := by
  intro fuel more hle
  induction hle with
  | refl => exact continues_congruent.refl (happends fuel)
  | step _ ih => exact ih.trans (hsucc _)

theorem expr_grows (whole : Span) (scope : ScopeId) (e : Expr) :
    Grows fun fuel => expr fuel whole scope e :=
  Grows.of_succ (fun fuel => expr_appends fuel whole scope e)
    fun fuel => (expr_statement_continues fuel).1 whole scope e

theorem statement_grows (scope : ScopeId) (s : Statement) :
    Grows fun fuel => statement fuel scope s :=
  Grows.of_succ (fun fuel => statement_appends fuel scope s)
    fun fuel => (expr_statement_continues fuel).2 scope s

theorem test_grows (scope : ScopeId) (e : Expr) : Grows fun fuel => test fuel scope e :=
  fun fuel more hle => (expr_grows e.span scope e fuel more hle).bind fun v =>
    continues_congruent.condition e.span v

theorem block_grows (scope : ScopeId) (body : Block) : Grows fun fuel => block fuel scope body :=
  fun fuel more hle => continues_congruent.sequence
    (fun s => statement_grows scope s fuel more hle) .none body

/-! ## Ends -/

/-- With some amount of fuel the evaluation comes to this end. -/
def Halts (x : Nat → Eval α) (m : Machine) (r : Outcome α) (m' : Machine) : Prop :=
  r ≠ .outOfFuel ∧ ∃ fuel, x fuel m = (r, m')

/-- With some amount of fuel the evaluation comes to print this text, and maybe more. -/
def Prints (x : Nat → Eval α) (m : Machine) (text : String) : Prop :=
  ∃ fuel more, (x fuel m).2.output = text ++ more

variable {x y : Nat → Eval α} {m m' : Machine} {r : Outcome α}

/-- A run that has ended is not changed by more fuel. -/
theorem Continues.eq_of_halts {x y : Eval α} (h : Continues x y) (hr : r ≠ .outOfFuel)
    (hx : x m = (r, m')) : y m = (r, m') := by
  obtain hy | ⟨hout, -⟩ := h.run m
  · exact hy.trans hx
  · rw [hx] at hout
    exact absurd hout hr

/-- Once there is enough fuel, more makes no difference. -/
theorem Halts.enough (h : Halts x m r m') (hx : Grows x) :
    ∃ fuel, ∀ more, fuel ≤ more → x more m = (r, m') := by
  obtain ⟨hr, fuel, hrun⟩ := h
  exact ⟨fuel, fun more hle => (hx fuel more hle).eq_of_halts hr hrun⟩

/-- A family of runs that continues another one ends where that one ends. -/
theorem Halts.of_continues (h : Halts x m r m')
    (hxy : ∀ fuel, ∃ more, Continues (x fuel) (y more)) : Halts y m r m' := by
  obtain ⟨hr, fuel, hrun⟩ := h
  obtain ⟨more, hmore⟩ := hxy fuel
  exact ⟨hr, more, hmore.eq_of_halts hr hrun⟩

/-- A family of runs that continues another one prints what that one prints, also without an end. -/
theorem Prints.of_continues {text : String} (h : Prints x m text)
    (hxy : ∀ fuel, ∃ more, Continues (x fuel) (y more)) : Prints y m text := by
  obtain ⟨fuel, rest, hrest⟩ := h
  obtain ⟨more, hmore⟩ := hxy fuel
  obtain hy | ⟨-, rest', hrest'⟩ := hmore.run m
  · exact ⟨more, rest, by rw [hy, hrest]⟩
  · exact ⟨more, rest ++ rest', by rw [hrest', hrest, String.append_assoc]⟩

/-- One unit of fuel more or less does not matter for whether a run ends. -/
theorem halts_succ (hzero : x 0 = outOfFuel) :
    Halts (fun fuel => x (fuel + 1)) m r m' ↔ Halts x m r m' := by
  constructor
  · rintro ⟨hr, fuel, hrun⟩
    exact ⟨hr, fuel + 1, hrun⟩
  · rintro ⟨hr, fuel, hrun⟩
    cases fuel with
    | zero =>
      rw [hzero] at hrun
      exact absurd (congrArg Prod.fst hrun).symm hr
    | succ fuel => exact ⟨hr, fuel, hrun⟩

theorem halts_pure {a : α} : Halts (fun _ => pure a) m r m' ↔ r = .ok a ∧ m' = m := by
  constructor
  · rintro ⟨-, fuel, hrun⟩
    cases hrun
    exact ⟨rfl, rfl⟩
  · rintro ⟨rfl, rfl⟩
    exact ⟨by simp, 0, rfl⟩

/-- Two evaluations, one after the other: the first one fails, or the second one follows. -/
theorem halts_bind {f : Nat → α → Eval β} {s : Outcome β} (hx : Grows x)
    (hf : ∀ a, Grows fun fuel => f fuel a) :
    Halts (fun fuel => x fuel >>= f fuel) m s m' ↔
      (∃ e, s = .error e ∧ Halts x m (.error e) m') ∨
        ∃ a m₁, Halts x m (.ok a) m₁ ∧ Halts (fun fuel => f fuel a) m₁ s m' := by
  constructor
  · rintro ⟨hs, fuel, hrun⟩
    dsimp only at hrun
    rcases hfirst : x fuel m with ⟨a | e | _, m₁⟩
    · rw [bind_ok hfirst] at hrun
      exact .inr ⟨a, m₁, ⟨by simp, fuel, hfirst⟩, hs, fuel, hrun⟩
    · rw [bind_error hfirst] at hrun
      cases hrun
      exact .inl ⟨e, rfl, by simp, fuel, hfirst⟩
    · rw [bind_outOfFuel hfirst] at hrun
      exact absurd (congrArg Prod.fst hrun).symm hs
  · rintro (⟨e, rfl, he⟩ | ⟨a, m₁, ha, hs⟩)
    · obtain ⟨-, fuel, hrun⟩ := he
      exact ⟨by simp, fuel, bind_error hrun⟩
    · -- enough fuel for both
      obtain ⟨fuel, hfirst⟩ := ha.enough hx
      obtain ⟨fuel', hsecond⟩ := hs.enough (hf a)
      refine ⟨hs.1, max fuel fuel', ?_⟩
      dsimp only
      rw [bind_ok (hfirst _ (Nat.le_max_left ..))]
      exact hsecond _ (Nat.le_max_right ..)

end Xbase.Eval
