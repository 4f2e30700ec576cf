import Xbase.Eval.Program

/-!
# Properties that evaluations have step by step

`Eval.Stepwise P Active` says that `P` holds of the steps of which evaluations are made and is kept
when they are put together. Such a property holds of every expression and every statement
(`Stepwise.expr_statement`), so its proof does not go through the evaluator case by case.

* `P K x g` may assume that the scopes `K`, to which the values at hand refer, exist, and has to
  show it of the scopes `g a` to which a result `a` refers.
* `Active` holds of the scopes in which statements are run: those of the calls that are going on.
-/

namespace Xbase

/-- The scope that a value refers to, if it is a declared function. -/
def Value.homes : Value → List ScopeId
  | .function _ home => [home]
  | _ => []

/-- The scope that the value of a statement refers to. -/
def Flow.homes : Flow → List ScopeId
  | .next v | .ret v => v.homes
  | .exit _ | .loop _ => []

/-! Operators and built-in functions make no functions. -/

/-- A binary operator returns no function. -/
theorem BinaryOp.homes_apply {op : BinaryOp} {v w u : Value} (h : op.apply v w = .ok u) :
    u.homes = [] := by
  unfold BinaryOp.apply at h
  split at h
  · unfold BinaryOp.onNumbers at h
    split at h <;> (try split at h) <;> cases h <;> rfl
  · unfold BinaryOp.onStrings? at h
    split at h <;> cases h <;> rfl
  · unfold BinaryOp.onLogicals? at h
    split at h <;> cases h <;> rfl
  · cases h

/-- A unary operator returns no function. -/
theorem UnaryOp.homes_apply {op : UnaryOp} {v u : Value} (h : op.apply v = .ok u) :
    u.homes = [] := by
  cases op <;> cases v <;> cases h <;> rfl

/-- A native function returns no function of the program. -/
theorem Native.homes_call {n : Native} {args : List Value} {v : Value} (h : n.call args = .ok v) :
    v.homes = [] := by
  unfold Native.call at h
  split at h <;> cases h <;> rfl

namespace Eval

section

variable {α β : Type} {x : Eval α} {f : α → Eval β} {m m' : Machine}

theorem bind_ok {a : α} (h : x m = (.ok a, m')) : (x >>= f) m = f a m' := by
  simp only [Bind.bind, h]

theorem bind_error {e : EvalError} (h : x m = (.error e, m')) : (x >>= f) m = (.error e, m') := by
  simp only [Bind.bind, h]

theorem read_bind (f : Store → α) (k : α → Eval β) : (read f >>= k) m = k (f m.store) m := rfl

theorem bind_outOfFuel (h : x m = (.outOfFuel, m')) : (x >>= f) m = (.outOfFuel, m') := by
  simp only [Bind.bind, h]

end

/-- Calls a value with some arguments. -/
def invoke (fuel : Nat) (span : Span) (callee : Value) (args : List Value) : Eval Value :=
  call (fun scope body => sequence (statement fuel scope) .none body) span callee args

theorem expr_call (fuel : Nat) (whole : Span) (scope : ScopeId) (callee : Expr) (args : List Expr)
    (span : Span) : expr (fuel + 1) whole scope (.call callee args span) = (do
      let f ← expr fuel whole scope callee
      let vs ← all (expr fuel whole scope) args
      invoke fuel (Expr.call callee args span).span f vs) := rfl

/-- The second half of a compound assignment: what is bound in the scope `owner` is combined with
the value. -/
def replace (owner : ScopeId) (name : String) (span : Span) (combine : Value → Value → Eval Value)
    (v : Value) : Eval Value := do
  match ← read (·.getLocal? owner name) with
  | none => fault (.undefinedVariable name) span
  | some current =>
    let w ← combine current v
    write (·.replaceLocal owner name w)
    return w

/-- A compound assignment: where the name is bound is found out before the value is evaluated. -/
def update (scope : ScopeId) (name : String) (span : Span) (value : Eval Value)
    (combine : Value → Value → Eval Value) : Eval Value := do
  match ← read (·.owner? scope name) with
  | none => fault (.undefinedVariable name) span
  | some owner => value >>= replace owner name span combine

/-- A compound assignment to a name that is bound nowhere fails before its value is evaluated. -/
theorem update_run (scope : ScopeId) (name : String) (span : Span) (value : Eval Value)
    (combine : Value → Value → Eval Value) (m : Machine) :
    update scope name span value combine m =
      match m.store.owner? scope name with
      | none => fault (.undefinedVariable name) span m
      | some owner => (value >>= replace owner name span combine) m := by
  rw [update, read_bind]
  cases m.store.owner? scope name <;> rfl

section

variable {fuel : Nat} {whole : Span} {scope : ScopeId} {op : AssignOp} {target value : Expr}
  {name : String}

theorem expr_assign_of_no_name (hname : target.name? = none) :
    expr (fuel + 1) whole scope (.assign op target value) =
      fault .invalidAssignmentTarget target.span := by
  rw [expr]
  simp only [hname]

theorem expr_assign_simple (hname : target.name? = some name) (hop : op.compound? = none) :
    expr (fuel + 1) whole scope (.assign op target value) = (do
      let v ← expr fuel whole scope value
      if op = .bind then write (·.set scope name .priv v) else write (·.assign scope name v)
      return v) := by
  rw [expr]
  simp only [hname, hop]

theorem expr_assign_compound {arithmetic : BinaryOp} (hname : target.name? = some name)
    (hop : op.compound? = some arithmetic) :
    expr (fuel + 1) whole scope (.assign op target value) =
      update scope name target.span (expr fuel whole scope value)
        (compound op arithmetic whole) := by
  rw [expr]
  simp only [hname, hop]
  rfl

/-- There is nothing to combine a value with. -/
theorem compound_assign_of_none {arithmetic : BinaryOp} {m : Machine}
    (hname : target.name? = some name) (hop : op.compound? = some arithmetic)
    (howner : m.store.owner? scope name = none) :
    expr (fuel + 1) whole scope (.assign op target value) m =
      (.error ⟨.undefinedVariable name, target.span⟩, m) := by
  rw [expr_assign_compound hname hop, update_run, howner]
  rfl

end

/-- The value of a compound assignment depends on the two values alone and is never a function. -/
theorem compound_run (op : AssignOp) (arithmetic : BinaryOp) (span : Span) (current v : Value) :
    ∃ outcome, (∀ m, compound op arithmetic span current v m = (outcome, m)) ∧
      ∀ w, outcome = .ok w → w.homes = [] := by
  have hlocated : ∃ outcome : Outcome Value,
      (∀ m, located span (arithmetic.apply current v) m = (outcome, m)) ∧
        ∀ w, outcome = .ok w → w.homes = [] := by
    cases hr : arithmetic.apply current v with
    | error f => exact ⟨.error ⟨f, span⟩, fun _ => rfl, fun _ hw => by cases hw⟩
    | ok u =>
      refine ⟨.ok u, fun _ => rfl, fun w hw => ?_⟩
      cases hw
      exact BinaryOp.homes_apply hr
  cases current with
  | number n | string s => exact hlocated
  | _ => exact ⟨.error ⟨_, span⟩, fun _ => rfl, fun _ hw => by cases hw⟩

/-- What the second half does depends on the value that is bound, and on nothing else. -/
theorem replace_run (owner : ScopeId) (name : String) (span : Span) (op : AssignOp)
    (arithmetic : BinaryOp) (whole : Span) (v : Value) (current? : Option Value) :
    ∃ outcome w?, ∀ m : Machine, m.store.getLocal? owner name = current? →
      replace owner name span (compound op arithmetic whole) v m =
        (outcome, match w? with
          | none => m
          | some w => { m with store := m.store.replaceLocal owner name w }) := by
  cases current? with
  | none =>
    refine ⟨.error ⟨.undefinedVariable name, span⟩, none, fun m hm => ?_⟩
    rw [replace, read_bind, hm]
    rfl
  | some current =>
    obtain ⟨outcome, hrun, -⟩ := compound_run op arithmetic whole current v
    cases outcome with
    | ok w =>
      refine ⟨.ok w, some w, fun m hm => ?_⟩
      rw [replace, read_bind, hm]
      exact bind_ok (hrun m)
    | error e =>
      refine ⟨.error e, none, fun m hm => ?_⟩
      rw [replace, read_bind, hm]
      exact bind_error (hrun m)
    | outOfFuel =>
      refine ⟨.outOfFuel, none, fun m hm => ?_⟩
      rw [replace, read_bind, hm]
      exact bind_outOfFuel (hrun m)

/-- The property `P` holds of every step and is kept when evaluations are put together. -/
structure Stepwise (P : ∀ {α : Type}, List ScopeId → Eval α → (α → List ScopeId) → Prop)
    (Active : ScopeId → Prop) : Prop where
  pure {α : Type} {K : List ScopeId} {a : α} {g : α → List ScopeId} (h : g a ⊆ K) :
    P K (Pure.pure a) g
  bind {α β : Type} {K : List ScopeId} {x : Eval α} {f : α → Eval β} {g : α → List ScopeId}
    {g' : β → List ScopeId} (hx : P K x g) (hf : ∀ a, P (g a ++ K) (f a) g') : P K (x >>= f) g'
  outOfFuel {α : Type} {K : List ScopeId} {g : α → List ScopeId} : P K outOfFuel g
  fault {α : Type} {K : List ScopeId} {g : α → List ScopeId} (f : EvalFault) (span : Span) :
    P K (fault f span) g
  printLine {K : List ScopeId} (line : String) : P K (printLine line) fun _ => []
  get? {K : List ScopeId} {scope : ScopeId} (name : String) (h : Active scope) :
    P K (read (·.get? scope name)) fun v? => v?.elim [] Value.homes
  containsLocal {K : List ScopeId} {scope : ScopeId} (name : String) (h : Active scope) :
    P K (read (·.containsLocal scope name)) fun _ => []
  set {K : List ScopeId} {scope : ScopeId} {v : Value} (name : String) (visibility : Visibility)
    (h : Active scope) (hv : v.homes ⊆ K) :
    P K (write (·.set scope name visibility v)) fun _ => []
  assign {K : List ScopeId} {scope : ScopeId} {v : Value} (name : String) (h : Active scope)
    (hv : v.homes ⊆ K) : P K (write (·.assign scope name v)) fun _ => []
  declareFunction {K : List ScopeId} {scope : ScopeId} (routine : Routine) (h : Active scope) :
    P K (write (·.declareFunction scope routine)) fun _ => []
  update {K : List ScopeId} {fuel : Nat} {whole : Span} {scope : ScopeId} {e : Expr} (name : String)
    (span : Span) (op : AssignOp) (arithmetic : BinaryOp) (h : Active scope)
    (hx : P K (expr fuel whole scope e) Value.homes) :
    P K (update scope name span (expr fuel whole scope e) (compound op arithmetic whole))
      Value.homes
  enter {α : Type} {K : List ScopeId} {home : ScopeId} {f : ScopeId → Eval α}
    {g : α → List ScopeId} (h : home ∈ K) (hf : ∀ scope, Active scope → P K (f scope) g) :
    P K (enter (·.newCallScope home) >>= f) g

namespace Stepwise

variable {P : ∀ {α : Type}, List ScopeId → Eval α → (α → List ScopeId) → Prop}
  {Active : ScopeId → Prop} (h : Stepwise P Active) {α : Type} {K : List ScopeId}
  {g : α → List ScopeId} {scope : ScopeId}

include h

/-! ## Values -/

theorem located {r : Except EvalFault α} (span : Span) (hr : ∀ a, r = .ok a → g a ⊆ K) :
    P K (located span r) g := by
  cases r with
  | error f => exact h.fault f span
  | ok a => exact h.pure (hr a rfl)

theorem condition (span : Span) (v : Value) : P K (condition span v) fun _ => [] := by
  cases v with
  | logical b => exact h.pure (List.nil_subset _)
  | _ => exact h.fault _ _

theorem logicalOperand (op : LogicOp) (span : Span) (v : Value) :
    P K (logicalOperand op span v) fun _ => [] := by
  cases v with
  | logical b => exact h.pure (List.nil_subset _)
  | _ => exact h.fault _ _

theorem atom (span : Span) (a : Atom) (hs : Active scope) :
    P K (atom scope span a) Value.homes := by
  cases a with
  | name s =>
    refine h.bind (h.get? s hs) fun v? => ?_
    cases v? with
    | none => exact h.fault _ _
    | some v => exact h.pure (List.subset_append_left _ _)
  | _ => exact h.pure (List.nil_subset _)

/-! ## Calls and declarations -/

/-- A block has a stepwise property if its statements do. -/
theorem sequence {run : Statement → Eval Flow} (hrun : ∀ {K} s, P K (run s) Flow.homes)
    (ss : List Statement) {last : Value} (hl : last.homes ⊆ K) :
    P K (sequence run last ss) Flow.homes := by
  induction ss generalizing K last with
  | nil => exact h.pure hl
  | cons s ss ih =>
    refine h.bind (hrun s) fun flow => ?_
    cases flow with
    | next v => exact ih (List.subset_append_left _ _)
    | _ => exact h.pure (List.subset_append_left _ _)

theorem bindParams (hs : Active scope) (params : List Ident) {args : List Value}
    (ha : args.flatMap Value.homes ⊆ K) :
    P K (write (bindParams scope params args)) fun _ => [] := by
  induction params generalizing args with
  | nil => exact h.pure (List.nil_subset _)
  | cons p params ih =>
    cases args with
    | nil =>
      exact h.bind (h.set p.name .priv hs (List.nil_subset _)) fun _ => ih (List.nil_subset _)
    | cons v args =>
      rw [List.flatMap_cons, List.append_subset] at ha
      exact h.bind (h.set p.name .priv hs ha.1) fun _ => ih ha.2

theorem result (flow : Flow) (hf : flow.homes ⊆ K) : P K (result flow) Value.homes := by
  cases flow with
  | next v | ret v => exact h.pure hf
  | exit span | loop span => exact h.fault _ _

/-- A call has a stepwise property if the bodies of functions do. -/
theorem call {run : ScopeId → Block → Eval Flow} (span : Span) {callee : Value} {args : List Value}
    (hrun : ∀ {K} scope body, Active scope → P K (run scope body) Flow.homes)
    (hc : callee.homes ⊆ K) (ha : args.flatMap Value.homes ⊆ K) :
    P K (call run span callee args) Value.homes := by
  cases callee with
  | function routine home =>
    rw [Eval.call]
    split
    · exact h.fault _ _
    · refine h.enter (hc (List.mem_singleton_self home)) fun scope hs => ?_
      refine h.bind (h.bindParams hs routine.params ha) fun _ => ?_
      exact h.bind (hrun scope routine.body hs) fun flow =>
        h.result flow (List.subset_append_left _ _)
  | native n =>
    rw [Eval.call]
    split
    · exact h.fault _ _
    · exact h.located span fun v hv => by rw [Native.homes_call hv]; exact List.nil_subset _
  | _ => exact h.fault _ _

theorem invoke_of_statement {fuel : Nat} (span : Span) {callee : Value} {args : List Value}
    (hstatement : ∀ {K} scope s, Active scope → P K (statement fuel scope s) Flow.homes)
    (hc : callee.homes ⊆ K) (ha : args.flatMap Value.homes ⊆ K) :
    P K (invoke fuel span callee args) Value.homes :=
  h.call span (fun scope body hs => h.sequence (fun s => hstatement scope s hs) body
    (List.nil_subset _)) hc ha

theorem declare {eval : Expr → Eval Value} (heval : ∀ {K} e, P K (eval e) Value.homes)
    (hs : Active scope) (visibility : Visibility) (d : Declarator) :
    P K (declare eval scope visibility d) fun _ => [] := by
  refine h.bind (g := Value.homes) ?_ fun v =>
    h.set d.name.name visibility hs (List.subset_append_left _ _)
  cases d.initial? with
  | none =>
    refine h.pure ?_
    cases d.type? with
    | none => exact List.nil_subset _
    | some type => cases type <;> exact List.nil_subset _
  | some e => exact heval e

theorem declareAll {eval : Expr → Eval Value} (heval : ∀ {K} e, P K (eval e) Value.homes)
    (hs : Active scope) (visibility : Visibility) (ds : List Declarator) :
    P K (declareAll eval scope visibility ds) fun _ => [] := by
  induction ds generalizing K with
  | nil => exact h.pure (List.nil_subset _)
  | cons d ds ih => exact h.bind (h.declare heval hs visibility d) fun _ => ih

theorem declareNewFunction (hs : Active scope) (routine : Routine) :
    P K (Eval.declareFunction scope routine) fun _ => [] := by
  refine h.bind (h.containsLocal _ hs) fun bound => ?_
  cases bound with
  | false => exact h.declareFunction routine hs
  | true => exact h.fault _ _

/-! ## Control -/

theorem all {eval : Expr → Eval Value} (heval : ∀ {K} e, P K (eval e) Value.homes)
    (es : List Expr) : P K (all eval es) (List.flatMap Value.homes) := by
  induction es generalizing K with
  | nil => exact h.pure (List.nil_subset _)
  | cons e es ih =>
    refine h.bind (heval e) fun v => h.bind ih fun vs => h.pure ?_
    rw [List.flatMap_cons, List.append_subset]
    exact ⟨List.subset_append_of_subset_right _ (List.subset_append_left _ _),
      List.subset_append_left _ _⟩

theorem branch {test : Expr → Eval Bool} {run : Block → Eval Flow}
    (htest : ∀ {K} e, P K (test e) fun _ => []) (hrun : ∀ {K} body, P K (run body) Flow.homes)
    (otherwise : Option Block) (branches : List (Expr × Block)) :
    P K (branch test run otherwise branches) Flow.homes := by
  induction branches generalizing K with
  | nil =>
    cases otherwise with
    | none => exact h.pure (List.nil_subset _)
    | some body => exact hrun body
  | cons pair branches ih =>
    refine h.bind (htest pair.1) fun b => ?_
    cases b with
    | false => exact ih
    | true => exact hrun pair.2

/-- A loop has a stepwise property if its condition and its body do, by induction on the fuel. -/
theorem repeatWhile {test : Eval Bool} {body : Eval Flow} (htest : ∀ {K}, P K test fun _ => [])
    (hbody : ∀ {K}, P K body Flow.homes) (fuel : Nat) :
    P K (repeatWhile test body fuel) Flow.homes := by
  induction fuel generalizing K with
  | zero => exact h.outOfFuel
  | succ fuel ih =>
    refine h.bind htest fun b => ?_
    cases b with
    | false => exact h.pure (List.nil_subset _)
    | true =>
      refine h.bind hbody fun flow => ?_
      cases flow with
      | next v | loop span => exact ih
      | exit span => exact h.pure (List.nil_subset _)
      | ret v => exact h.pure (List.subset_append_left _ _)

/-! ## Expressions and statements -/

/-- Expressions have a stepwise property with one more unit of fuel. -/
theorem expr_succ {fuel : Nat}
    (hexpr : ∀ {K} whole scope e, Active scope → P K (expr fuel whole scope e) Value.homes)
    (hstatement : ∀ {K} scope s, Active scope → P K (statement fuel scope s) Flow.homes)
    (whole : Span) (e : Expr) (hs : Active scope) :
    P K (expr (fuel + 1) whole scope e) Value.homes := by
  have heval := fun {K} e => @hexpr K whole scope e hs
  cases e with
  | atom a span => exact h.atom span a hs
  | unary op operand span =>
    refine h.bind (heval operand) fun v => h.located _ fun u hu => ?_
    rw [UnaryOp.homes_apply hu]
    exact List.nil_subset _
  | binary op left right =>
    refine h.bind (heval left) fun v => h.bind (heval right) fun w => h.located _ fun u hu => ?_
    rw [BinaryOp.homes_apply hu]
    exact List.nil_subset _
  | logic op left right =>
    refine h.bind (heval left) fun v => h.bind (h.logicalOperand op _ v) fun b => ?_
    split
    · exact h.pure (List.nil_subset _)
    · exact h.bind (heval right) fun w => h.bind (h.logicalOperand op _ w) fun c =>
        h.pure (List.nil_subset _)
  | assign op target value =>
    rw [Eval.expr]
    split
    · exact h.fault _ _
    · next name hname =>
      split
      · refine h.bind (heval value) fun v => ?_
        split
        · exact h.bind (h.set name .priv hs (List.subset_append_left _ _)) fun _ =>
            h.pure (List.subset_append_left _ _)
        · exact h.bind (h.assign name hs (List.subset_append_left _ _)) fun _ =>
            h.pure (List.subset_append_left _ _)
      · next arithmetic _ => exact h.update name _ op arithmetic hs (heval value)
  | call callee args span =>
    rw [expr_call]
    refine h.bind (heval callee) fun f => h.bind (h.all heval args) fun vs => ?_
    exact h.invoke_of_statement _ hstatement
      (List.subset_append_of_subset_right _ (List.subset_append_left _ _))
      (List.subset_append_left _ _)
  | iif cond yes no span =>
    refine h.bind (heval cond) fun v => h.bind (h.condition _ v) fun b => ?_
    cases b with
    | false => exact heval no
    | true => exact heval yes

/-- Statements have a stepwise property with one more unit of fuel. -/
theorem statement_succ {fuel : Nat}
    (hexpr : ∀ {K} whole scope e, Active scope → P K (expr fuel whole scope e) Value.homes)
    (hstatement : ∀ {K} scope s, Active scope → P K (statement fuel scope s) Flow.homes)
    (s : Statement) (hs : Active scope) :
    P K (statement (fuel + 1) scope s) Flow.homes := by
  have heval := fun {K} e => @hexpr K e.span scope e hs
  have htest : ∀ {K} (e : Expr), P K (do Eval.condition e.span (← expr fuel e.span scope e))
      fun _ => [] := fun e => h.bind (heval e) fun v => h.condition e.span v
  have hrun : ∀ {K} body, P K (Eval.sequence (statement fuel scope) .none body) Flow.homes :=
    fun body => h.sequence (fun s => hstatement scope s hs) body (List.nil_subset _)
  cases s with
  | declare visibility d =>
    exact h.bind (h.declare heval hs visibility d) fun _ => h.pure (List.nil_subset _)
  | declareAll visibility ds grouped =>
    exact h.bind (h.declareAll heval hs visibility ds) fun _ => h.pure (List.nil_subset _)
  | function name params body =>
    exact h.bind (h.declareNewFunction hs _) fun _ => h.pure (List.nil_subset _)
  | expr e => exact h.bind (heval e) fun v => h.pure (List.subset_append_left _ _)
  | print args span =>
    exact h.bind (h.all heval args) fun vs => h.bind (h.printLine _) fun _ =>
      h.pure (List.nil_subset _)
  | ifThen cond yes no =>
    refine h.bind (htest cond) fun b => ?_
    cases b with
    | true => exact hrun yes
    | false =>
      cases no with
      | none => exact h.pure (List.nil_subset _)
      | some no => exact hrun no
  | doCase branches otherwise => exact h.branch htest hrun otherwise branches
  | doWhile cond body => exact h.repeatWhile (htest cond) (hrun body) fuel
  | ret value span =>
    cases value with
    | none => exact h.pure (List.nil_subset _)
    | some e => exact h.bind (heval e) fun v => h.pure (List.subset_append_left _ _)
  | exit span | loop span => exact h.pure (List.nil_subset _)

/-- What holds of every step holds of the evaluation of every expression and statement. -/
theorem expr_statement (fuel : Nat) :
    (∀ {K} whole scope e, Active scope → P K (expr fuel whole scope e) Value.homes) ∧
    (∀ {K} scope s, Active scope → P K (statement fuel scope s) Flow.homes) := by
  induction fuel with
  | zero => exact ⟨fun _ _ _ _ => h.outOfFuel, fun _ _ _ => h.outOfFuel⟩
  | succ fuel ih =>
    exact ⟨fun whole _ e hs => h.expr_succ ih.1 ih.2 whole e hs,
      fun _ s hs => h.statement_succ ih.1 ih.2 s hs⟩

theorem invoke (fuel : Nat) (span : Span) (callee : Value) (args : List Value) :
    P (callee.homes ++ args.flatMap Value.homes) (invoke fuel span callee args) Value.homes :=
  h.invoke_of_statement span (h.expr_statement fuel).2 (List.subset_append_left _ _)
    (List.subset_append_right _ _)

/-- A program that runs in an active scope has every stepwise property. -/
theorem program (fuel : Nat) (p : Program) (hs : Active scope) :
    P K (program fuel scope p) Value.homes :=
  h.bind (h.sequence (fun s => (h.expr_statement fuel).2 scope s hs) p (List.nil_subset _))
    fun flow => h.result flow (List.subset_append_left _ _)

end Stepwise

end Eval

end Xbase
