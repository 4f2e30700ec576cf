import Xbase.Proofs.Eval.Nodes
import Xbase.Proofs.Program.Spans

/-!
# Where errors of evaluation point

`Eval.node` reports with an error the node whose own step has failed: an operator whose operands do
not fit, a name that is not in use, a value that cannot be called. `Arena.Points a culprit e` says
that the error `e` points at bytes of this node. One step does not: a compound assignment that
cannot combine its two values points at the bytes of the outermost expression. Only the errors
inside of functions that are called belong to no node.

`Eval.node_blames` says so of every error that is reported, along the rules of the evaluator:
`Eval.Fails` says what the errors of a single step are, and `Traced.Blames` is closed under
sequencing.
-/

namespace Xbase

/-- Where an error points, by the node to blame for it. -/
inductive Arena.Points (a : Arena) : (culprit : Option Nat) → (e : EvalError) → Prop
  /-- The error is at bytes of the node. -/
  | node {i : Nat} {e : EvalError} {s : Span} (hs : a.span? i = some s) (he : e.span.Within s) :
      Points a (some i) e
  /-- The node is a compound assignment that cannot combine two values, and the error is at the
  bytes of the root. -/
  | root {i : Nat} {e : EvalError} {op : AssignOp} {arithmetic : BinaryOp} {target value : Nat}
      {current v : Value} (hnode : a.nodes[i]? = some (.assign op target value))
      (hop : op.compound? = some arithmetic) (he : a.span? a.root = some e.span)
      (hfault : Eval.compound op arithmetic e.span current v = Eval.fault e.fault e.span) :
      Points a (some i) e
  /-- A node calls a function that takes the arguments, and the error is one of the call. -/
  | body {i callee : Nat} {args : List Nat} {e : EvalError} {s place : Span} {fuel : Nat}
      {f : Value} {vs : List Value} {m m' : Machine}
      (hnode : a.nodes[i]? = some (.call callee args s)) (haccepts : Eval.accepts f vs = true)
      (hrun : Eval.call (fun scope body => Eval.sequence (Eval.statement fuel scope) .none body)
        place f vs m = (.error e, m')) :
      Points a none e

theorem Arena.span?_atom {a : Arena} {i : Nat} {x : Atom} {s : Span}
    (get : a.nodes[i]? = some (.atom x s)) : a.span? i = some s := by
  have hi : i < a.nodes.size := (Array.getElem?_eq_some_iff.1 get).1
  obtain ⟨d, hd⟩ := Nat.exists_eq_add_one_of_ne_zero (Nat.ne_zero_of_lt hi)
  rw [span?, hd, spanWithin, get]
  rfl

namespace Eval

variable {α β : Type}

/-! ## Errors of single steps -/

/-- Every error of the evaluation satisfies `Q`. -/
def Fails (Q : EvalError → Prop) (x : Eval α) : Prop :=
  ∀ m e m', x m = (.error e, m') → Q e

namespace Fails

variable {Q : EvalError → Prop}

theorem pure (a : α) : Fails Q (Pure.pure a : Eval α) := nofun

theorem outOfFuel : Fails Q (Eval.outOfFuel : Eval α) := nofun

theorem read (f : Store → α) : Fails Q (Eval.read f) := nofun

theorem write (f : Store → Store) : Fails Q (Eval.write f) := nofun

theorem fault {f : EvalFault} {span : Span} (h : Q ⟨f, span⟩) :
    Fails Q (Eval.fault f span : Eval α) := by
  intro m e m' he
  cases he
  exact h

/-- An error of an operation has the place that it is given. -/
theorem located {span : Span} (h : ∀ f, Q ⟨f, span⟩) (r : Except EvalFault α) :
    Fails Q (Eval.located span r) := by
  cases r with
  | ok a => exact pure a
  | error f => exact fault (h f)

/-- An atom fails at its own place only. -/
theorem atom {span : Span} (h : ∀ f, Q ⟨f, span⟩) (scope : ScopeId) (a : Atom) :
    Fails Q (Eval.atom scope span a) := by
  cases a with
  | name s =>
    intro m e m' he
    rw [Eval.atom, read_bind] at he
    revert he
    cases m.store.get? scope s with
    | some v => exact pure v m e m'
    | none => exact fault (h _) m e m'
  | _ => exact pure _

theorem logicalOperand {span : Span} (h : ∀ f, Q ⟨f, span⟩) (op : LogicOp) (v : Value) :
    Fails Q (Eval.logicalOperand op span v) := by
  cases v with
  | logical b => exact pure b
  | _ => exact fault (h _)

theorem condition {span : Span} (h : ∀ f, Q ⟨f, span⟩) (v : Value) :
    Fails Q (Eval.condition span v) := by
  cases v with
  | logical b => exact pure b
  | _ => exact fault (h _)

/-- A call that does not come to the body of a function fails in the place of the call. -/
theorem call {span : Span} (h : ∀ f, Q ⟨f, span⟩) (run : ScopeId → Block → Eval Flow)
    {callee : Value} {args : List Value} (hc : accepts callee args = false) :
    Fails Q (Eval.call run span callee args) := by
  cases callee with
  | function routine home =>
    rw [Eval.call]
    rw [accepts] at hc
    cases hf : arityFault? routine args with
    | some f => exact fault (h f)
    | none =>
      rw [hf] at hc
      cases hc
  | native n =>
    rw [Eval.call]
    split
    · exact fault (h _)
    · exact located h _
  | _ => exact fault (h _)

/-- Two values that cannot be combined are a fault in the given place. -/
theorem compound (op : AssignOp) (arithmetic : BinaryOp) (span : Span) (current v : Value) :
    Fails (fun e => e.span = span ∧
      Eval.compound op arithmetic e.span current v = Eval.fault e.fault e.span)
      (Eval.compound op arithmetic span current v) := by
  have hlocated : Fails (fun e => e.span = span ∧
      Eval.located e.span (arithmetic.apply current v) = Eval.fault e.fault e.span)
      (Eval.located span (arithmetic.apply current v)) := by
    cases arithmetic.apply current v with
    | ok w => exact pure w
    | error f => exact fault ⟨rfl, rfl⟩
  cases current with
  | number n | string s => exact hlocated
  | _ => exact fault ⟨rfl, rfl⟩

end Fails

/-! ## Errors of nodes -/

namespace Traced

/-- Every error satisfies `B` with the node that is to blame for it. -/
def Blames (B : Option Nat → EvalError → Prop) (x : Traced α) : Prop :=
  ∀ m e culprit m', x m = (.error e culprit, m') → B culprit e

variable {B : Option Nat → EvalError → Prop}

theorem lift_present (missing : ∀ α : Type, Eval α) (a : α) (f : α → Traced β) :
    ((liftM (present missing (some a)) : Traced α) >>= f) = f a := rfl

namespace Blames

theorem pure (a : α) : Blames B (Pure.pure a : Traced α) := nofun

/-- Evaluations one after the other blame what one of them blames. -/
theorem bind {x : Traced α} {f : α → Traced β} (hx : Blames B x) (hf : ∀ a, Blames B (f a)) :
    Blames B (x >>= f) := by
  intro m e culprit m' h
  rcases hrun : x m with ⟨a | ⟨e', culprit'⟩ | _, m₁⟩
  · simp only [Bind.bind, hrun] at h
    exact hf a m₁ e culprit m' h
  · simp only [Bind.bind, hrun] at h
    cases h
    exact hx m e culprit _ hrun
  · simp only [Bind.bind, hrun] at h
    cases h

/-- Every error of a tagged evaluation is blamed on its tag. -/
theorem tagged {culprit : Option Nat} {x : Eval α} (h : Fails (B culprit) x) :
    Blames B (tagged culprit x) := by
  intro m e culprit' m' hrun
  unfold Traced.tagged at hrun
  rcases hx : x m with ⟨a | e' | _, m₁⟩
  · rw [hx] at hrun
    cases hrun
  · rw [hx] at hrun
    cases hrun
    exact h m e _ hx
  · rw [hx] at hrun
    cases hrun

theorem read (f : Store → α) : Blames B (liftM (Eval.read f) : Traced α) := tagged (.read f)

theorem write (f : Store → Store) : Blames B (liftM (Eval.write f) : Traced Unit) :=
  tagged (.write f)

theorem ite {c : Prop} [Decidable c] {x y : Traced α} (hx : Blames B x) (hy : Blames B y) :
    Blames B (if c then x else y) := by
  split
  · exact hx
  · exact hy

/-- Nodes that are evaluated one after the other blame what one of them does. -/
theorem each {eval : Nat → Traced Value} {is : List Nat} (h : ∀ i ∈ is, Blames B (eval i)) :
    Blames B (each eval is) := by
  induction is with
  | nil => exact pure []
  | cons i is ih =>
    refine (h i (List.mem_cons_self ..)).bind fun v => ?_
    exact (ih fun j hj => h j (List.mem_cons_of_mem _ hj)).bind fun vs => pure (v :: vs)

end Blames

end Traced

section

variable {missing : ∀ α : Type, Eval α} {fuel depth : Nat} {a : Arena} {scope : ScopeId} {i : Nat}

open Traced

/-- The errors of a node are in their places if those of its parts are. -/
theorem node_step_blames {head : Node} {s whole : Span} (hroot : a.span? a.root = some whole)
    (get : a.nodes[i]? = some head) (hspan : a.span? i = some s)
    (hparts : ∀ c ∈ head.parts, (node missing fuel depth a scope c).Blames a.Points ∧
      (∃ t, a.nodes[c]? = some t) ∧ ∃ x, a.span? c = some x ∧ x.Within s) :
    (node missing (fuel + 1) (depth + 1) a scope i).Blames a.Points := by
  have hself (f : EvalFault) : a.Points (some i) ⟨f, s⟩ :=
    .node hspan ⟨Nat.le_refl _, Nat.le_refl _⟩
  have hpart {x : Span} (hx : x.Within s) (f : EvalFault) : a.Points (some i) ⟨f, x⟩ :=
    .node hspan hx
  simp only [node, hspan, get, lift_present]
  cases head with
  | atom x sp =>
    obtain rfl : sp = s := Option.some.inj ((Arena.span?_atom get).symm.trans hspan)
    exact .tagged (.atom hself scope x)
  | unary op operand sp =>
    obtain ⟨heval, -⟩ := hparts operand (List.mem_cons_self ..)
    exact heval.bind fun v => .tagged (.located hself _)
  | binary op left right =>
    obtain ⟨hleft, -⟩ := hparts left (by simp [Node.parts])
    obtain ⟨hright, -⟩ := hparts right (by simp [Node.parts])
    exact hleft.bind fun v => hright.bind fun w => .tagged (.located hself _)
  | logic op left right =>
    obtain ⟨hleft, -, x, hx, hxs⟩ := hparts left (by simp [Node.parts])
    obtain ⟨hright, -, y, hy, hys⟩ := hparts right (by simp [Node.parts])
    simp only [hx, hy, lift_present]
    refine hleft.bind fun v => (Blames.tagged (.logicalOperand (hpart hxs) op v)).bind fun b => ?_
    refine .ite (.pure _) (hright.bind fun w => ?_)
    exact (Blames.tagged (.logicalOperand (hpart hys) op w)).bind fun c => .pure _
  | assign op target value =>
    obtain ⟨-, ⟨t, ht⟩, x, hx, hxs⟩ := hparts target (by simp [Node.parts])
    obtain ⟨hvalue, -⟩ := hparts value (by simp [Node.parts])
    simp only [hx, ht, hroot, lift_present]
    cases t.name? with
    | none => exact .tagged (.fault (hpart hxs _))
    | some name =>
    cases hop : op.compound? with
    | none =>
      refine hvalue.bind fun v => .ite ?_ ?_
      · exact (Blames.write _).bind fun _ => .pure v
      · exact (Blames.write _).bind fun _ => .pure v
    | some arithmetic =>
      refine (Blames.read _).bind fun owner? => ?_
      cases owner? with
      | none => exact .tagged (.fault (hpart hxs _))
      | some owner =>
        refine hvalue.bind fun v => (Blames.read _).bind fun current? => ?_
        cases current? with
        | none => exact .tagged (.fault (hpart hxs _))
        | some current =>
          refine (Blames.tagged ?_).bind fun w => (Blames.write _).bind fun _ => .pure w
          intro m e m' he
          obtain ⟨hwhole, hfault⟩ := Fails.compound op arithmetic whole current v m e m' he
          exact .root get hop (hroot.trans (congrArg some hwhole.symm)) hfault
  | call callee args sp =>
    obtain ⟨hcallee, -⟩ := hparts callee (List.mem_cons_self ..)
    simp only [(node_statement missing fuel).2]
    refine hcallee.bind fun f => (Blames.each fun c hc =>
      (hparts c (List.mem_cons_of_mem _ hc)).1).bind fun vs => .tagged ?_
    split
    · next haccepts => exact fun m e m' hrun => .body get haccepts hrun
    · next haccepts => exact .call hself _ (Bool.eq_false_iff.2 haccepts)
  | iif cond yes no sp =>
    obtain ⟨hcond, -, x, hx, hxs⟩ := hparts cond (by simp [Node.parts])
    obtain ⟨hyes, -⟩ := hparts yes (by simp [Node.parts])
    obtain ⟨hno, -⟩ := hparts no (by simp [Node.parts])
    simp only [hx, lift_present]
    refine hcond.bind fun v => (Blames.tagged (.condition (hpart hxs) v)).bind fun b => ?_
    exact .ite hyes hno

/-- The errors of the nodes of an expression are in their places. -/
theorem node_blames {whole : Span} {tokens : List Token} (hroot : a.span? a.root = some whole)
    {first : Nat} {n : Expr} (hn : Arena.Lays a.nodes first i n) (hd : i < depth)
    (hnests : n.Nests tokens) : (node missing fuel depth a scope i).Blames a.Points := by
  induction fuel generalizing depth first i n with
  | zero =>
    rw [node]
    exact .tagged .outOfFuel
  | succ fuel ih =>
    obtain ⟨d, rfl⟩ := Nat.exists_eq_add_one_of_ne_zero (Nat.ne_zero_of_lt hd)
    have hspan := hn.span_eq
    obtain ⟨parts, get, -⟩ := hn
    refine node_step_blames hroot get hspan fun c hc => ?_
    obtain ⟨x, hx, hlt, f, hlays⟩ := parts.of_mem hc
    obtain ⟨t, ht, -⟩ := hlays.name
    refine ⟨ih hlays (Nat.lt_of_lt_of_le hlt (Nat.lt_succ_iff.1 hd)) (hnests.part hx), ⟨t, ht⟩, ?_⟩
    exact ⟨x.span, hlays.span_eq, hnests.self.within x hx⟩

end

end Eval

/-! ## Errors of a text -/

/-- An error that is reported for the nodes of an expression is an error of the expression. If a
node is to blame, it points at bytes of that node; the exception is a compound assignment that
cannot combine its two values, which points at the bytes of the whole expression. No node is to
blame only for an error inside of a function that one of the nodes calls. -/
theorem errors_point {text : String} (hsize : text.utf8ByteSize < 2 ^ 32) {a : Arena}
    (h : a.OfText text) {missing : ∀ α : Type, Eval α} {fuel : Nat} {scope : ScopeId}
    {m m' : Machine} {err : EvalError} {culprit : Option Nat}
    (hrun : Eval.node missing fuel a.nodes.size a scope a.root m = (.error err culprit, m')) :
    a.Points culprit err ∧
    ∃ e, a.tree? = some e ∧ Eval.whole fuel scope e m = (.error err, m') := by
  obtain ⟨e, he, rfl⟩ := h.expr
  obtain ⟨hlays, -⟩ := Arena.ofExpr_lays e
  refine ⟨?_, e, hlays.tree _ hlays.lt_size, ?_⟩
  · exact Eval.node_blames hlays.span_eq hlays hlays.lt_size (he.nests hsize) _ _ _ _ hrun
  · have hvalue := Eval.node_erase missing fuel scope hlays.span_eq hlays hlays.lt_size
    rw [Eval.whole, ← hvalue, Eval.Traced.erase, hrun]

theorem errors_point_operand :
    let text := "x == (x AND NULL)"
    let a : Arena := ⟨#[.atom (.name "x") ⟨0, 1⟩, .atom (.name "x") ⟨6, 1⟩, .atom .null ⟨12, 4⟩,
      .logic .and 1 2, .binary .equal 0 3], 4⟩
    let m : Machine := ⟨Store.empty.newGlobal.2.set 0 "x" .priv (.logical true), ""⟩
    let err : EvalError := ⟨.nonLogicalOperand "AND" .null, ⟨12, 4⟩⟩
    text.utf8ByteSize < 2 ^ 32 ∧ a.OfText text ∧
    Eval.node (fun _ => Eval.outOfFuel) 9 a.nodes.size a 0 a.root m = (.error err (some 3), m) ∧
    a.Points (some 3) err ∧ ∃ e, a.tree? = some e ∧ Eval.whole 9 0 e m = (.error err, m) := by
  intro text a m err
  have hsize : text.utf8ByteSize < 2 ^ 32 := by decide
  have h : a.OfText text := .inl ⟨.ofStream (.ofText text), ⟨List.suffix_rfl, rfl⟩, by cbv⟩
  have hrun : Eval.node (fun _ => Eval.outOfFuel) 9 a.nodes.size a 0 a.root m =
      (.error err (some 3), m) := rfl
  exact ⟨hsize, h, hrun, errors_point hsize h hrun⟩

/-- A compound assignment inside of another expression points outside of itself. -/
theorem compound_points_outside :
    let text := "LOCAL x\n? x == (x += x)"
    let a : Arena := ⟨#[.atom (.name "x") ⟨10, 1⟩, .atom (.name "x") ⟨16, 1⟩,
      .atom (.name "x") ⟨21, 1⟩, .assign .add 1 2, .binary .equal 0 3], 4⟩
    let m : Machine := ⟨Store.empty.newGlobal.2.set 0 "x" .loc (.logical false), ""⟩
    let err : EvalError := ⟨.unsupportedOperator "+=" .logical, ⟨10, 12⟩⟩
    a.OfText text ∧
    Eval.node (fun _ => Eval.outOfFuel) 9 a.nodes.size a 0 a.root m = (.error err (some 3), m) ∧
    a.span? 3 = some ⟨16, 6⟩ ∧ ¬ err.span.Within ⟨16, 6⟩ := by
  intro text a m err
  have hfault : (TokenStream.ofText text).fault = none := by cbv
  have harenas : Program.arenas ((Parser.program (.ofStream (.ofText text))).1.getD []) = [a] := by
    cbv
  refine ⟨.inr ⟨_, parse_of_fault_none hfault, ?_⟩, rfl, by decide, by decide⟩
  rw [harenas]
  exact List.mem_singleton_self a

end Xbase
