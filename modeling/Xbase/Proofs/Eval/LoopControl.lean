import Xbase.Proofs.Eval.Stepwise
import Xbase.Proofs.Store.Binding

/-!
# Well-placed loop control

`Statement.placed` says that every `EXIT` and every `LOOP` of a statement lies in a loop of the same
function body, or of the top level. A program of this form never ends in the fault of loop control
that goes astray (`Eval.program_not_stray`).

A function may be called long after its declaration, in another scope and through another name, so
the store has to remember that the bodies of functions are well placed (`Store.Sound`). It says so
of the scopes from some number on: a run that starts in a new global scope knows no others.
`Eval.Safe` is the property of evaluations that keeps it, closed under sequencing.
-/

namespace Xbase

/-! ## Programs -/

mutual

/-- Every `EXIT` and `LOOP` lies in a loop of the same body; `inside` says whether the statement
itself lies in one. The body of a function starts anew. -/
def Statement.placed (inside : Bool) : Statement → Bool
  | .exit _ | .loop _ => inside
  | .function _ _ body => Statement.placedAll false body
  | .ifThen _ yes none => Statement.placedAll inside yes
  | .ifThen _ yes (some no) => Statement.placedAll inside yes && Statement.placedAll inside no
  | .doCase branches none => Statement.placedCases inside branches
  | .doCase branches (some body) =>
    Statement.placedCases inside branches && Statement.placedAll inside body
  | .doWhile _ body => Statement.placedAll true body
  | .declare .. | .declareAll .. | .expr _ | .print .. | .ret .. => true

/-- The same of several statements. -/
def Statement.placedAll (inside : Bool) : List Statement → Bool
  | [] => true
  | s :: rest => s.placed inside && Statement.placedAll inside rest

/-- The same of the branches of a case distinction. -/
def Statement.placedCases (inside : Bool) : List (Expr × List Statement) → Bool
  | [] => true
  | (_, body) :: rest => Statement.placedAll inside body && Statement.placedCases inside rest

end

/-- No `EXIT` and no `LOOP` of the program lies outside of the loops. -/
def Program.placed (p : Program) : Bool := Statement.placedAll false p

theorem Statement.placedAll_iff {inside : Bool} {ss : List Statement} :
    Statement.placedAll inside ss = true ↔ ∀ s ∈ ss, s.placed inside = true := by
  induction ss with
  | nil => simp [Statement.placedAll]
  | cons s ss ih => simp [Statement.placedAll, ih]

theorem Statement.placedCases_iff {inside : Bool} {branches : List (Expr × List Statement)} :
    Statement.placedCases inside branches = true ↔
      ∀ pair ∈ branches, Statement.placedAll inside pair.2 = true := by
  induction branches with
  | nil => simp [Statement.placedCases]
  | cons pair branches ih => simp [Statement.placedCases, ih]

/-! ## Values and faults -/

/-- A function was declared in a scope from `n` on, and its body is well placed. -/
def Value.Sound (n : Nat) : Value → Prop
  | .function routine home => n ≤ home ∧ Statement.placedAll false routine.body = true
  | _ => True

/-- A statement asks for a loop to be left only if it lies in one. -/
def Flow.Sound (n : Nat) (inside : Bool) : Flow → Prop
  | .next v | .ret v => v.Sound n
  | .exit _ | .loop _ => inside = true

/-- Whether the fault is that of loop control outside of loops. -/
def EvalFault.isStray : EvalFault → Bool
  | strayLoopControl _ => true
  | _ => false

/-- A value that is no function is sound in any store. -/
theorem Value.sound_of_homes {n : Nat} {v : Value} (h : v.homes = []) : v.Sound n := by
  cases v with
  | function routine home => cases h
  | _ => trivial

/-- No binary operator fails with a stray `EXIT` or `LOOP`. -/
theorem BinaryOp.isStray_apply {op : BinaryOp} {v w : Value} {f : EvalFault}
    (h : op.apply v w = .error f) : f.isStray = false := by
  have hmismatch (sign : String) (v w : Value) : (Value.mismatch sign v w).isStray = false := by
    unfold Value.mismatch
    split <;> rfl
  unfold BinaryOp.apply at h
  split at h
  · unfold BinaryOp.onNumbers at h
    split at h <;> (try split at h) <;> cases h
    rfl
  · next x y =>
    cases hr : op.onStrings? x y with
    | none =>
      rw [hr] at h
      cases h
      exact hmismatch _ _ _
    | some u =>
      rw [hr] at h
      cases h
  · next x y =>
    cases hr : op.onLogicals? x y with
    | none =>
      rw [hr] at h
      cases h
      exact hmismatch _ _ _
    | some u =>
      rw [hr] at h
      cases h
  · cases h
    exact hmismatch _ _ _

/-- No unary operator fails with a stray `EXIT` or `LOOP`. -/
theorem UnaryOp.isStray_apply {op : UnaryOp} {v : Value} {f : EvalFault}
    (h : op.apply v = .error f) : f.isStray = false := by
  cases op <;> cases v <;> cases h <;> rfl

/-- No native function fails with a stray `EXIT` or `LOOP`. -/
theorem Native.isStray_call {n : Native} {args : List Value} {f : EvalFault}
    (h : n.call args = .error f) : f.isStray = false := by
  unfold Native.call at h
  split at h <;> cases h
  rfl

theorem Eval.isStray_arityFault? {routine : Routine} {args : List Value} {f : EvalFault}
    (h : Eval.arityFault? routine args = some f) : f.isStray = false := by
  unfold Eval.arityFault? at h
  dsimp only at h
  split at h
  · cases h
    rfl
  · split at h <;> cases h
    rfl

/-! ## Stores -/

namespace Store

/-- There are `n` scopes at least, the scopes from `n` on do not know the others, and they keep
nothing but sound values. -/
structure Sound (n : Nat) (σ : Store) : Prop where
  size : n ≤ σ.scopes.size
  parent : ∀ id parent, n ≤ id → σ.parent? id = some parent → n ≤ parent
  global : ∀ id, n ≤ id → n ≤ σ.globalOf id
  value : ∀ id name b, n ≤ id → σ.binding? id name = some b → b.value.Sound n

variable {σ : Store} {n : Nat} {id : ScopeId} {name : String} {v : Value}

namespace Sound

theorem put (h : σ.Sound n) {b : Binding} (hb : b.value.Sound n) : (σ.put id name b).Sound n := by
  refine ⟨by rw [size_put]; exact h.size, by simpa using h.parent, by simpa using h.global, ?_⟩
  intro id' name' b' hid hb'
  rw [binding?_put] at hb'
  split at hb'
  · cases hb'
    exact hb
  · exact h.value id' name' b' hid hb'

theorem set (h : σ.Sound n) (visibility : Visibility) (hv : v.Sound n) :
    (σ.set id name visibility v).Sound n := by
  rw [set_eq]
  exact h.put hv

theorem replaceLocal (h : σ.Sound n) (hv : v.Sound n) : (σ.replaceLocal id name v).Sound n := by
  cases hb : σ.binding? id name with
  | none =>
    rw [replaceLocal_of_none hb]
    exact h
  | some b =>
    rw [replaceLocal_of_some hb]
    exact h.put hv

theorem assign (h : σ.Sound n) (hv : v.Sound n) : (σ.assign id name v).Sound n := by
  rw [Store.assign]
  split
  · exact h.replaceLocal hv
  · exact h.set .priv hv

theorem declareFunction (h : σ.Sound n) (hid : n ≤ id) {routine : Routine}
    (hr : Statement.placedAll false routine.body = true) :
    (σ.declareFunction id routine).Sound n := by
  rw [declareFunction_eq]
  exact h.put ⟨hid, hr⟩

/-- A new empty scope keeps a store sound if it knows scopes from `n` on only. -/
theorem push (h : σ.Sound n) {s : Scope} (hs : s.entries = [])
    (hparent : ∀ parent, s.parent = some parent → n ≤ parent)
    (hglobal : ∀ g, s.global = some g → n ≤ g) : (σ.push s).2.Sound n := by
  refine ⟨Nat.le_trans h.size (by simp), fun id parent hid hp => ?_, fun id hid => ?_,
    fun id name b hid hb => ?_⟩
  · rw [parent?_push] at hp
    split at hp
    · exact hparent parent hp
    · exact h.parent id parent hid hp
  · rw [globalOf_eq, global?_push]
    split
    · cases hg : s.global with
      | none => exact hid
      | some g => exact hglobal g hg
    · exact h.global id hid
  · rw [binding?_push hs] at hb
    exact h.value id name b hid hb

theorem newCallScope (h : σ.Sound n) {home : ScopeId} (hh : n ≤ home) :
    (σ.newCallScope home).2.Sound n := by
  refine h.push rfl (fun parent hp => ?_) fun g hg => ?_
  · cases hp
    exact hh
  · cases hg
    exact h.global home hh

/-- A new global scope knows no others. -/
theorem newGlobal (σ : Store) : σ.newGlobal.2.Sound σ.scopes.size := by
  have hnone (id : ScopeId) (hid : σ.scopes.size ≤ id) : σ.scopes[id]? = none :=
    Array.getElem?_eq_none hid
  have hσ : σ.Sound σ.scopes.size := by
    refine ⟨Nat.le_refl _, fun id parent hid hp => ?_, fun id hid => ?_,
      fun id name b hid hb => ?_⟩
    · simp [parent?, hnone id hid] at hp
    · simpa [globalOf, hnone id hid] using hid
    · simp [binding?, entry?, hnone id hid] at hb
  have hpush : (σ.push ⟨[], none, none⟩).2.Sound σ.scopes.size :=
    hσ.push rfl (fun _ hp => by cases hp) fun _ hg => by cases hg
  have hlen : ((σ.push ⟨[], none, none⟩).2.set σ.scopes.size Native.len.name .pub
      (.native .len)).Sound σ.scopes.size := hpush.set .pub trivial
  exact hlen.set .pub trivial

/-- From a scope from `n` on, only such scopes are found. -/
theorem inheritedOwner? (h : σ.Sound n) (hid : n ≤ id) {owner : ScopeId}
    (ho : σ.inheritedOwner? id name = some owner) : n ≤ owner := by
  fun_induction Store.inheritedOwner? σ id name with
  | case1 => cases ho
  | case2 id parent hp hlt hin =>
    cases ho
    exact h.parent id _ hid hp
  | case3 id parent hp hlt hin ih => exact ih (h.parent id parent hid hp) ho
  | case4 => cases ho

/-- A scope from `n` on sees sound values only. -/
theorem get? (h : σ.Sound n) (hid : n ≤ id) (hv : σ.get? id name = some v) : v.Sound n := by
  rw [Store.get?] at hv
  obtain ⟨owner, ho, hv⟩ := Option.bind_eq_some_iff.1 hv
  have howner : n ≤ owner := by
    rw [owner?] at ho
    split at ho
    · cases ho
      exact hid
    · exact h.inheritedOwner? hid ho
  rw [getLocal?_eq] at hv
  obtain ⟨b, hb, rfl⟩ := Option.map_eq_some_iff.1 hv
  exact h.value owner name b howner hb

end Sound

end Store

/-! ## Evaluations -/

/-- The evaluation ends with a result for which `Q` holds, in a fault that is none of loop control,
or not at all. -/
def Outcome.Safe {α : Type} (Q : α → Prop) : Outcome α → Prop
  | .ok a => Q a
  | .error e => e.fault.isStray = false
  | .outOfFuel => True

namespace Eval

/-- From a sound store, the evaluation leads to a sound store, and it ends well. -/
def Safe {α : Type} (n : Nat) (x : Eval α) (Q : α → Prop) : Prop :=
  ∀ m, m.store.Sound n → (x m).2.store.Sound n ∧ (x m).1.Safe Q

variable {α β : Type} {n : Nat} {scope : ScopeId}

namespace Safe

variable {Q : α → Prop}

theorem pure {a : α} (h : Q a) : Safe n (Pure.pure a) Q := fun _ hm => ⟨hm, h⟩

theorem outOfFuel : Safe n (outOfFuel : Eval α) Q := fun _ hm => ⟨hm, trivial⟩

/-- A fault is safe unless it is a stray `EXIT` or `LOOP`. -/
theorem fault {f : EvalFault} (span : Span) (h : f.isStray = false) :
    Safe n (fault f span : Eval α) Q := fun _ hm => ⟨hm, h⟩

/-- Safe computations run one after the other are safe; the second may assume what the first
returns. -/
theorem bind {x : Eval α} {f : α → Eval β} {R : β → Prop} (hx : Safe n x Q)
    (hf : ∀ a, Q a → Safe n (f a) R) : Safe n (x >>= f) R := by
  intro m hm
  obtain ⟨hstore, houtcome⟩ := hx m hm
  rcases hrun : x m with ⟨outcome, m'⟩
  rw [hrun] at hstore houtcome
  cases outcome with
  | ok a =>
    rw [bind_ok hrun]
    exact hf a houtcome m' hstore
  | error e =>
    rw [bind_error hrun]
    exact ⟨hstore, houtcome⟩
  | outOfFuel =>
    rw [bind_outOfFuel hrun]
    exact ⟨hstore, trivial⟩

theorem read {f : Store → α} (h : ∀ σ : Store, σ.Sound n → Q (f σ)) : Safe n (read f) Q :=
  fun m hm => ⟨hm, h m.store hm⟩

theorem write {f : Store → Store} (h : ∀ σ : Store, σ.Sound n → (f σ).Sound n) :
    Safe n (write f) fun _ => True :=
  fun m hm => ⟨h m.store hm, trivial⟩

theorem located {r : Except EvalFault α} (span : Span) (hf : ∀ f, r = .error f → f.isStray = false)
    (ha : ∀ a, r = .ok a → Q a) : Safe n (located span r) Q := by
  cases r with
  | error f => exact fault span (hf f rfl)
  | ok a => exact pure (ha a rfl)

theorem condition (span : Span) (v : Value) : Safe n (condition span v) fun _ => True := by
  cases v with
  | logical b => exact pure trivial
  | _ => exact fault _ rfl

theorem logicalOperand (op : LogicOp) (span : Span) (v : Value) :
    Safe n (logicalOperand op span v) fun _ => True := by
  cases v with
  | logical b => exact pure trivial
  | _ => exact fault _ rfl

theorem atom (hs : n ≤ scope) (span : Span) (a : Atom) :
    Safe n (atom scope span a) (Value.Sound n) := by
  cases a with
  | name s =>
    have hread : Safe n (Eval.read (·.get? scope s)) fun v? => ∀ v, v? = some v → v.Sound n :=
      read fun σ hσ v hv => hσ.get? hs hv
    refine hread.bind fun v? hv => ?_
    cases v? with
    | none => exact fault _ rfl
    | some v => exact pure (hv v rfl)
  | _ => exact pure trivial

theorem compound (op : AssignOp) (arithmetic : BinaryOp) (span : Span) (current v : Value) :
    Safe n (compound op arithmetic span current v) (Value.Sound n) := by
  have hlocated : Safe n (Eval.located span (arithmetic.apply current v)) (Value.Sound n) :=
    located span (fun _ => BinaryOp.isStray_apply)
      fun _ hu => Value.sound_of_homes (BinaryOp.homes_apply hu)
  cases current with
  | number x | string s => exact hlocated
  | _ => exact fault _ rfl

theorem all {eval : Expr → Eval Value} (heval : ∀ e, Safe n (eval e) (Value.Sound n))
    (es : List Expr) : Safe n (all eval es) fun vs => ∀ v ∈ vs, v.Sound n := by
  induction es with
  | nil => exact pure fun _ hv => by cases hv
  | cons e es ih =>
    refine (heval e).bind fun v hv => ih.bind fun vs hvs => pure fun w hw => ?_
    rcases List.mem_cons.1 hw with rfl | hw
    · exact hv
    · exact hvs w hw

/-! ## Control -/

variable {inside : Bool} {run : Statement → Eval Flow}

/-- A block of safe statements is safe, also where a statement leaves it early. -/
theorem sequence {ss : List Statement} {last : Value} (hl : last.Sound n)
    (hrun : ∀ s ∈ ss, Safe n (run s) (Flow.Sound n inside)) :
    Safe n (sequence run last ss) (Flow.Sound n inside) := by
  induction ss generalizing last with
  | nil => exact pure hl
  | cons s ss ih =>
    refine (hrun s List.mem_cons_self).bind fun flow hflow => ?_
    cases flow with
    | next v => exact ih hflow fun s hs => hrun s (List.mem_cons_of_mem _ hs)
    | _ => exact pure hflow

/-- A case distinction is safe if its conditions and all its blocks are. -/
theorem branch {test : Expr → Eval Bool} {run : Block → Eval Flow} {otherwise : Option Block}
    {branches : List (Expr × Block)} (htest : ∀ e, Safe n (test e) fun _ => True)
    (hbranches : ∀ pair ∈ branches, Safe n (run pair.2) (Flow.Sound n inside))
    (hotherwise : ∀ body, otherwise = some body → Safe n (run body) (Flow.Sound n inside)) :
    Safe n (branch test run otherwise branches) (Flow.Sound n inside) := by
  induction branches with
  | nil =>
    cases otherwise with
    | none => exact pure trivial
    | some body => exact hotherwise body rfl
  | cons pair branches ih =>
    refine (htest pair.1).bind fun b _ => ?_
    cases b with
    | true => exact hbranches pair List.mem_cons_self
    | false => exact ih fun p hp => hbranches p (List.mem_cons_of_mem _ hp)

/-- A loop takes care of what its body asks for, and asks for nothing itself. -/
theorem repeatWhile {test : Eval Bool} {body : Eval Flow} (htest : Safe n test fun _ => True)
    (hbody : Safe n body (Flow.Sound n true)) (fuel : Nat) :
    Safe n (repeatWhile test body fuel) (Flow.Sound n inside) := by
  induction fuel with
  | zero => exact outOfFuel
  | succ fuel ih =>
    refine htest.bind fun b _ => ?_
    cases b with
    | false => exact pure trivial
    | true =>
      refine hbody.bind fun flow hflow => ?_
      cases flow with
      | next v | loop span => exact ih
      | exit span => exact pure trivial
      | ret v => exact pure hflow

/-! ## Calls and declarations -/

/-- Where nothing asks for a loop to be left, nothing goes astray. -/
theorem result {flow : Flow} (h : flow.Sound n false) : Safe n (result flow) (Value.Sound n) := by
  cases flow with
  | next v | ret v => exact pure h
  | exit span | loop span => cases h

theorem bindParams (params : List Ident) {args : List Value} (ha : ∀ v ∈ args, v.Sound n)
    {σ : Store} (hσ : σ.Sound n) : (bindParams scope params args σ).Sound n := by
  induction params generalizing args σ with
  | nil => exact hσ
  | cons p params ih =>
    cases args with
    | nil => exact ih ha (hσ.set .priv trivial)
    | cons v args =>
      exact ih (fun w hw => ha w (List.mem_cons_of_mem _ hw))
        (hσ.set .priv (ha v List.mem_cons_self))

theorem enter {home : ScopeId} (hh : n ≤ home) :
    Safe n (enter (·.newCallScope home)) fun scope => n ≤ scope :=
  fun _ hm => ⟨hm.newCallScope hh, hm.size⟩

/-- A call is safe: the body of a function has no `EXIT` or `LOOP` outside a loop, so none leaves
it. -/
theorem call {run : ScopeId → Block → Eval Flow} (span : Span) {callee : Value} {args : List Value}
    (hrun : ∀ scope body, n ≤ scope → Statement.placedAll false body = true →
      Safe n (run scope body) (Flow.Sound n false))
    (hc : callee.Sound n) (ha : ∀ v ∈ args, v.Sound n) :
    Safe n (call run span callee args) (Value.Sound n) := by
  cases callee with
  | function routine home =>
    rw [Eval.call]
    split
    · next f hf => exact fault span (isStray_arityFault? hf)
    · refine (enter hc.1).bind fun scope hs => ?_
      refine (write fun σ hσ => bindParams routine.params ha hσ).bind fun _ _ => ?_
      exact (hrun scope routine.body hs hc.2).bind fun flow hflow => result hflow
  | native f =>
    rw [Eval.call]
    split
    · exact fault span rfl
    · exact located span (fun _ => Native.isStray_call)
        fun _ hv => Value.sound_of_homes (Native.homes_call hv)
  | _ => exact fault span rfl

theorem declare {eval : Expr → Eval Value} (heval : ∀ e, Safe n (eval e) (Value.Sound n))
    (visibility : Visibility) (d : Declarator) :
    Safe n (declare eval scope visibility d) fun _ => True := by
  have hinitial (type? : Option DeclaredType) : (initialValue type?).Sound n := by
    unfold initialValue
    split <;> trivial
  have hvalue : Safe n (d.initial?.elim (Pure.pure (initialValue d.type?)) eval)
      (Value.Sound n) := by
    cases d.initial? with
    | none => exact pure (hinitial d.type?)
    | some e => exact heval e
  exact hvalue.bind fun v hv => write fun σ hσ => hσ.set visibility hv

theorem declareAll {eval : Expr → Eval Value} (heval : ∀ e, Safe n (eval e) (Value.Sound n))
    (visibility : Visibility) (ds : List Declarator) :
    Safe n (declareAll eval scope visibility ds) fun _ => True := by
  induction ds with
  | nil => exact pure trivial
  | cons d ds ih => exact (declare heval visibility d).bind fun _ _ => ih

theorem declareFunction (hs : n ≤ scope) {routine : Routine}
    (hr : Statement.placedAll false routine.body = true) :
    Safe n (declareFunction scope routine) fun _ => True := by
  refine bind (Q := fun _ => True) (read fun _ _ => trivial) fun bound _ => ?_
  cases bound with
  | false => exact write fun σ hσ => hσ.declareFunction hs hr
  | true => exact fault _ rfl

theorem update {x : Eval Value} (name : String) (span : Span) (op : AssignOp)
    (arithmetic : BinaryOp) (whole : Span) (hx : Safe n x (Value.Sound n)) :
    Safe n (update scope name span x (Eval.compound op arithmetic whole)) (Value.Sound n) := by
  refine bind (Q := fun _ => True) (read fun _ _ => trivial) fun owner? _ => ?_
  cases owner? with
  | none => exact fault _ rfl
  | some owner =>
    refine hx.bind fun v _ => bind (Q := fun _ => True) (read fun _ _ => trivial)
      fun current? _ => ?_
    cases current? with
    | none => exact fault _ rfl
    | some current =>
      refine (compound op arithmetic whole current v).bind fun w hw => ?_
      exact (write fun σ hσ => hσ.replaceLocal hw).bind fun _ _ => pure hw

end Safe

/-! ## Expressions and statements -/

/-- Expressions in the scopes from `n` on are safe with the given fuel. -/
def ExprSafe (n fuel : Nat) : Prop :=
  ∀ whole scope e, n ≤ scope → Safe n (expr fuel whole scope e) (Value.Sound n)

/-- Well-placed statements in the scopes from `n` on are safe with the given fuel. -/
def StatementSafe (n fuel : Nat) : Prop :=
  ∀ inside scope s, n ≤ scope → s.placed inside = true →
    Safe n (statement fuel scope s) (Flow.Sound n inside)

variable {fuel : Nat}

theorem StatementSafe.sequence (h : StatementSafe n fuel) {inside : Bool} (hs : n ≤ scope)
    {body : Block} (hb : Statement.placedAll inside body = true) :
    Safe n (sequence (statement fuel scope) .none body) (Flow.Sound n inside) :=
  Safe.sequence trivial fun s hmem =>
    h inside scope s hs (Statement.placedAll_iff.1 hb s hmem)

/-- Expressions are safe with one more unit of fuel. -/
theorem ExprSafe.succ (hexpr : ExprSafe n fuel) (hstatement : StatementSafe n fuel) :
    ExprSafe n (fuel + 1) := by
  intro whole scope e hs
  have heval := fun e => hexpr whole scope e hs
  cases e with
  | atom a span => exact Safe.atom hs span a
  | unary op operand span =>
    exact (heval operand).bind fun v _ => Safe.located _ (fun _ => UnaryOp.isStray_apply)
      fun _ hu => Value.sound_of_homes (UnaryOp.homes_apply hu)
  | binary op left right =>
    refine (heval left).bind fun v _ => (heval right).bind fun w _ => ?_
    exact Safe.located _ (fun _ => BinaryOp.isStray_apply)
      fun _ hu => Value.sound_of_homes (BinaryOp.homes_apply hu)
  | logic op left right =>
    refine (heval left).bind fun v _ => (Safe.logicalOperand op _ v).bind fun b _ => ?_
    split
    · exact Safe.pure trivial
    · exact (heval right).bind fun w _ => (Safe.logicalOperand op _ w).bind fun c _ =>
        Safe.pure trivial
  | assign op target value =>
    rw [expr]
    split
    · exact Safe.fault _ rfl
    · next name hname =>
      split
      · refine (heval value).bind fun v hv => ?_
        split
        · exact (Safe.write fun σ hσ => hσ.set .priv hv).bind fun _ _ => Safe.pure hv
        · exact (Safe.write fun σ hσ => hσ.assign hv).bind fun _ _ => Safe.pure hv
      · next arithmetic _ => exact Safe.update name _ op arithmetic whole (heval value)
  | call callee args span =>
    rw [expr_call]
    refine (heval callee).bind fun f hf => (Safe.all heval args).bind fun vs hvs => ?_
    exact Safe.call _ (fun scope body hs hb => hstatement.sequence hs hb) hf hvs
  | iif cond yes no span =>
    refine (heval cond).bind fun v _ => (Safe.condition _ v).bind fun b _ => ?_
    cases b with
    | true => exact heval yes
    | false => exact heval no

/-- Statements are safe with one more unit of fuel; a loop takes up what its body lets out. -/
theorem StatementSafe.succ (hexpr : ExprSafe n fuel) (hstatement : StatementSafe n fuel) :
    StatementSafe n (fuel + 1) := by
  intro inside scope s hs hp
  have heval : ∀ e : Expr, Safe n (expr fuel e.span scope e) (Value.Sound n) :=
    fun e => hexpr e.span scope e hs
  have htest : ∀ e : Expr, Safe n (do condition e.span (← expr fuel e.span scope e))
      fun _ => True := fun e => (heval e).bind fun v _ => Safe.condition e.span v
  have hrun {inside : Bool} {body : Block} (hb : Statement.placedAll inside body = true) :=
    hstatement.sequence hs hb
  cases s with
  | declare visibility d =>
    exact (Safe.declare heval visibility d).bind fun _ _ => Safe.pure trivial
  | declareAll visibility ds grouped =>
    exact (Safe.declareAll heval visibility ds).bind fun _ _ => Safe.pure trivial
  | function name params body =>
    have hdeclare : Safe n (declareFunction scope ⟨name, params, body⟩) fun _ => True :=
      Safe.declareFunction hs (by rwa [Statement.placed] at hp)
    exact hdeclare.bind fun _ _ => Safe.pure trivial
  | expr e => exact (heval e).bind fun v hv => Safe.pure hv
  | print args span =>
    refine (Safe.all heval args).bind fun vs _ => ?_
    exact Safe.bind (Q := fun _ => True) (fun m hm => ⟨hm, trivial⟩) fun _ _ => Safe.pure trivial
  | ifThen cond yes no =>
    refine (htest cond).bind fun b _ => ?_
    cases no with
    | none =>
      rw [Statement.placed] at hp
      cases b with
      | true => exact hrun hp
      | false => exact Safe.pure trivial
    | some no =>
      rw [Statement.placed, Bool.and_eq_true] at hp
      cases b with
      | true => exact hrun hp.1
      | false => exact hrun hp.2
  | doCase branches otherwise =>
    cases otherwise with
    | none =>
      rw [Statement.placed, Statement.placedCases_iff] at hp
      exact Safe.branch htest (fun pair hpair => hrun (hp pair hpair)) fun _ h => by cases h
    | some body =>
      rw [Statement.placed, Bool.and_eq_true, Statement.placedCases_iff] at hp
      refine Safe.branch htest (fun pair hpair => hrun (hp.1 pair hpair)) fun body' h => ?_
      cases h
      exact hrun hp.2
  | doWhile cond body =>
    rw [Statement.placed] at hp
    exact Safe.repeatWhile (htest cond) (hrun hp) fuel
  | ret value span =>
    cases value with
    | none => exact Safe.pure trivial
    | some e => exact (heval e).bind fun v hv => Safe.pure hv
  | exit span | loop span => exact Safe.pure hp

/-- Expressions and statements are safe with any amount of fuel. -/
theorem expr_statement_safe (n fuel : Nat) : ExprSafe n fuel ∧ StatementSafe n fuel := by
  induction fuel with
  | zero => exact ⟨fun _ _ _ _ => Safe.outOfFuel, fun _ _ _ _ _ => Safe.outOfFuel⟩
  | succ fuel ih => exact ⟨ExprSafe.succ ih.1 ih.2, StatementSafe.succ ih.1 ih.2⟩

/-- A program whose `EXIT` and `LOOP` all stand in loops runs safely. -/
theorem program_safe {p : Program} (hp : p.placed = true) (fuel : Nat) (hs : n ≤ scope) :
    Safe n (program fuel scope p) (Value.Sound n) :=
  ((expr_statement_safe n fuel).2.sequence hs hp).bind fun _ hflow => Safe.result hflow

/-- A program whose `EXIT` and `LOOP` statements all lie in loops of their own bodies, run in a new
global scope of any store, never ends in a fault of loop control, whatever it calls on its way. -/
theorem program_not_stray (p : Program) (hp : p.placed = true) (σ : Store) (fuel : Nat)
    (output word : String) (span : Span) :
    (program fuel σ.newGlobal.1 p ⟨σ.newGlobal.2, output⟩).1 ≠
      .error ⟨.strayLoopControl word, span⟩ := by
  intro herror
  have hsafe := program_safe hp fuel (Nat.le_refl σ.scopes.size) ⟨σ.newGlobal.2, output⟩
    (Store.Sound.newGlobal σ)
  have houtcome : Outcome.Safe _ (program fuel σ.newGlobal.1 p ⟨σ.newGlobal.2, output⟩).1 := hsafe.2
  rw [herror] at houtcome
  cases houtcome

theorem program_not_stray_nested :
    Program.placed [.function ⟨"f", default⟩ [] [.doWhile (.atom (.logical true) default)
        [.ifThen (.atom (.logical true) default) [.exit default] none],
        .ret (some (.atom (.logical true) default)) default],
      .doWhile (.call (.atom (.name "f") default) [] default) [.exit default]] = true ∧
    (program 9 0 [.function ⟨"f", default⟩ [] [.doWhile (.atom (.logical true) default)
        [.ifThen (.atom (.logical true) default) [.exit default] none],
        .ret (some (.atom (.logical true) default)) default],
      .doWhile (.call (.atom (.name "f") default) [] default) [.exit default]]
      ⟨Store.empty.newGlobal.2, ""⟩).1 ≠ .error ⟨.strayLoopControl "EXIT", default⟩ := by
  have h : Program.placed [.function ⟨"f", default⟩ [] [.doWhile (.atom (.logical true) default)
        [.ifThen (.atom (.logical true) default) [.exit default] none],
        .ret (some (.atom (.logical true) default)) default],
      .doWhile (.call (.atom (.name "f") default) [] default) [.exit default]] = true := by decide
  exact ⟨h, program_not_stray _ h .empty 9 "" "EXIT" default⟩

/-- Without a loop around it, loop control goes astray. -/
example : (program 2 0 [.exit default] ⟨Store.empty.newGlobal.2, ""⟩).1 =
    .error ⟨.strayLoopControl "EXIT", default⟩ := rfl

end Eval

end Xbase
