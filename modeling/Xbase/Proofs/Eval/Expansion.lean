import Xbase.Proofs.Eval.Fuel
import Xbase.Proofs.Eval.Places
import Xbase.Proofs.Store.Sight

/-!
# Compound assignments written out

`x += e` finds out where `x` is bound, evaluates `e` and then reads and writes the binding there.
`x = x + e` reads `x` first, evaluates `e`, and finds out then where to write. If `e` leaves `x` as
it is, the two do the same (`Eval.compound_expands`):

* `Store.Extends.owner?_eq`: a name keeps its owner as long as the scopes that were there keep
  their bindings of it;
* `Eval.expr_butPlace`: it makes no difference which expression `e` is a part of, but for the place
  of a fault;
* `compound_of_ok` and `compound_of_error`: both ways of combining two values fail together.
-/

namespace Xbase

/-! ## Owners -/

namespace Store

variable {σ τ : Store} {id owner : ScopeId} {name : String}

/-- Only scopes that exist see names. -/
theorem lt_of_owner? (h : σ.owner? id name = some owner) : id < σ.scopes.size := by
  rw [owner?] at h
  split at h
  · next hbound =>
    rw [containsLocal_eq, Option.isSome_iff_exists] at hbound
    obtain ⟨b, hb⟩ := hbound
    exact lt_of_binding? hb
  · rw [inheritedOwner?] at h
    split at h
    · cases h
    · next hp => exact lt_of_parent? hp

namespace Extends

/-- A name is found in the same scope if the older scopes keep it. -/
theorem inheritedOwner?_eq (h : σ.Extends τ)
    (hkeeps : ∀ id < σ.scopes.size, τ.binding? id name = σ.binding? id name)
    (hid : id < σ.scopes.size) : τ.inheritedOwner? id name = σ.inheritedOwner? id name := by
  have hin (id : ScopeId) (hid : id < σ.scopes.size) :
      τ.isInherited id name = σ.isInherited id name := by
    rw [isInherited_eq, isInherited_eq, hkeeps id hid]
  fun_induction Store.inheritedOwner? σ id name with
  | case1 id hp => rw [Store.inheritedOwner?, h.parent id hid, hp]
  | case2 id parent hp hlt hyes =>
    rw [Store.inheritedOwner?, h.parent id hid, hp]
    simp [hlt, hin parent (Nat.lt_trans hlt hid), hyes]
  | case3 id parent hp hlt hno ih =>
    have hparent := Nat.lt_trans hlt hid
    rw [Store.inheritedOwner?, h.parent id hid, hp]
    simp [hlt, hin parent hparent, hno, ih hparent]
  | case4 id parent hp hlt =>
    rw [Store.inheritedOwner?, h.parent id hid, hp]
    simp [hlt]

/-- If the scopes that were there keep their bindings of a name, the name keeps its owner. -/
theorem owner?_eq (h : σ.Extends τ)
    (hkeeps : ∀ id < σ.scopes.size, τ.binding? id name = σ.binding? id name)
    (hid : id < σ.scopes.size) : τ.owner? id name = σ.owner? id name := by
  rw [Store.owner?, Store.owner?, containsLocal_eq, containsLocal_eq, hkeeps id hid,
    h.inheritedOwner?_eq hkeeps hid]

end Extends

end Store

/-! ## Places of faults -/

/-- The same end, but for the place of a fault. -/
inductive Outcome.ButPlace {α : Type} : Outcome α → Outcome α → Prop
  | ok (a : α) : ButPlace (.ok a) (.ok a)
  | error (f : EvalFault) (span span' : Span) : ButPlace (.error ⟨f, span⟩) (.error ⟨f, span'⟩)
  | outOfFuel : ButPlace .outOfFuel .outOfFuel

theorem Outcome.ButPlace.refl {α : Type} (r : Outcome α) : r.ButPlace r := by
  cases r with
  | ok a => exact .ok a
  | error e => exact .error e.fault e.span e.span
  | outOfFuel => exact .outOfFuel

namespace Eval

variable {α β : Type}

/-- The evaluations do the same, but for the place of a fault. -/
def ButPlace (x y : Eval α) : Prop :=
  ∀ m, (x m).1.ButPlace (y m).1 ∧ (y m).2 = (x m).2

namespace ButPlace

variable {x y : Eval α}

theorem refl (x : Eval α) : ButPlace x x := fun m => ⟨.refl (x m).1, rfl⟩

theorem run (h : ButPlace x y) {m m' : Machine} {r : Outcome α} (hx : x m = (r, m')) :
    ∃ r', y m = (r', m') ∧ r.ButPlace r' := by
  obtain ⟨hr, hm⟩ := h m
  rw [hx] at hr hm
  exact ⟨(y m).1, Prod.ext rfl hm, hr⟩

/-- The place of a fault does not matter to what comes later. -/
theorem bind {f g : α → Eval β} (hx : ButPlace x y) (hf : ∀ a, ButPlace (f a) (g a)) :
    ButPlace (x >>= f) (y >>= g) := by
  intro m
  rcases hrun : x m with ⟨r, m₁⟩
  obtain ⟨r', hrun', hr⟩ := hx.run hrun
  cases hr with
  | ok a =>
    rw [bind_ok hrun, bind_ok hrun']
    exact hf a m₁
  | error f span span' =>
    rw [bind_error hrun, bind_error hrun']
    exact ⟨.error f span span', rfl⟩
  | outOfFuel =>
    rw [bind_outOfFuel hrun, bind_outOfFuel hrun']
    exact ⟨.outOfFuel, rfl⟩

theorem compound (op : AssignOp) (arithmetic : BinaryOp) (span span' : Span) (current v : Value) :
    ButPlace (compound op arithmetic span current v)
      (Eval.compound op arithmetic span' current v) := by
  have hlocated : ButPlace (located span (arithmetic.apply current v))
      (located span' (arithmetic.apply current v)) := by
    cases arithmetic.apply current v with
    | ok w => exact .refl _
    | error f => exact fun _ => ⟨.error f span span', rfl⟩
  cases current with
  | number n | string s => exact hlocated
  | _ => exact fun _ => ⟨.error _ span span', rfl⟩

end ButPlace

/-- To do the same but for the place of a fault is a congruence. -/
theorem butPlace_congruent : Congruent ButPlace where
  refl _ := ButPlace.refl _
  bind := ButPlace.bind

/-- Of the expression that it is a part of, an expression knows only where to place faults. -/
theorem expr_butPlace (fuel : Nat) (whole whole' : Span) (scope : ScopeId) (e : Expr) :
    ButPlace (expr fuel whole scope e) (expr fuel whole' scope e) := by
  induction fuel generalizing e with
  | zero => exact .refl _
  | succ fuel ih =>
    exact butPlace_congruent.expr_succ ih (fun _ _ _ => .refl _)
      (fun op arithmetic v w => .compound op arithmetic whole whole' v w) e

/-! ## Combining two values -/

variable {op : AssignOp} {arithmetic : BinaryOp} {current v w : Value}

/-- Values that can be combined at all can be combined in a compound assignment. -/
theorem compound_of_ok (hop : op.compound? = some arithmetic)
    (h : arithmetic.apply current v = .ok w) (span : Span) :
    compound op arithmetic span current v = pure w := by
  cases current with
  | number n | string s =>
    rw [compound, h]
    rfl
  | logical b => cases op <;> cases hop <;> cases v <;> cases h
  | _ => cases v <;> cases h

/-- Values that cannot be combined cannot be combined in a compound assignment either. It is only
for numbers and texts that the fault is the same. -/
theorem compound_of_error {f : EvalFault} (h : arithmetic.apply current v = .error f)
    (op : AssignOp) (span : Span) :
    ∃ f', compound op arithmetic span current v = fault f' span ∧
      (current.type = .numeric ∨ current.type = .character → f' = f) := by
  cases current with
  | number n | string s =>
    refine ⟨f, ?_, fun _ => rfl⟩
    rw [compound, h]
    rfl
  | _ =>
    refine ⟨_, rfl, fun htype => ?_⟩
    rcases htype with htype | htype <;> cases htype

/-! ## The two assignments -/

variable {fuel : Nat} {whole : Span} {scope : ScopeId} {name : String} {value : Expr}
  {m m' : Machine} {r : Outcome Value}

/-- The assignment that a compound assignment to the name stands for. The two spans are the places
where the name is written. -/
def expansion (name : String) (arithmetic : BinaryOp) (target left : Span) (value : Expr) : Expr :=
  .assign .assign (.atom (.name name) target)
    (.binary arithmetic (.atom (.name name) left) value)

theorem atom_of_none (h : m.store.get? scope name = none) (span : Span) :
    atom scope span (.name name) m = (.error ⟨.undefinedVariable name, span⟩, m) := by
  rw [atom, read_bind, h]
  rfl

theorem atom_of_some (h : m.store.get? scope name = some current) (span : Span) :
    atom scope span (.name name) m = (.ok current, m) := by
  rw [atom, read_bind, h]
  rfl

/-- A compound assignment fails where its value fails. -/
theorem compound_assign_of_error {target : Expr} (hname : target.name? = some name)
    (hop : op.compound? = some arithmetic) {owner : ScopeId}
    (howner : m.store.owner? scope name = some owner) {e : EvalError}
    (hvalue : expr fuel whole scope value m = (.error e, m')) :
    expr (fuel + 1) whole scope (.assign op target value) m = (.error e, m') := by
  rw [expr_assign_compound hname hop, update_run, howner]
  exact bind_error hvalue

theorem bind_run {x y : Eval α} {f : α → Eval β} (h : x m = y m') : (x >>= f) m = (y >>= f) m' := by
  simp only [Bind.bind, h]

/-- Written out, the name is read, the value is evaluated, the two are combined, and the result is
assigned to the name. -/
theorem expansion_of_ok (hget : m.store.get? scope name = some current)
    (hvalue : expr (fuel + 1) whole scope value m = (.ok v, m')) (target left : Span) :
    expr (fuel + 3) whole scope (expansion name arithmetic target left value) m = (do
      let w ← located (left.merge value.span) (arithmetic.apply current v)
      write (·.assign scope name w)
      return w : Eval Value) m' := by
  have hbinary :
      expr (fuel + 2) whole scope (.binary arithmetic (.atom (.name name) left) value) m =
      located (left.merge value.span) (arithmetic.apply current v) m' :=
    (bind_ok (atom_of_some hget left)).trans (bind_ok hvalue)
  rw [expansion, expr_assign_simple rfl rfl]
  exact bind_run hbinary

/-- The expanded assignment fails where its value fails, too. -/
theorem expansion_of_error (hget : m.store.get? scope name = some current) {e : EvalError}
    (hvalue : expr (fuel + 1) whole scope value m = (.error e, m')) (target left : Span) :
    expr (fuel + 3) whole scope (expansion name arithmetic target left value) m =
      (.error e, m') := by
  have hbinary :
      expr (fuel + 2) whole scope (.binary arithmetic (.atom (.name name) left) value) m =
      (.error e, m') :=
    (bind_ok (atom_of_some hget left)).trans (bind_error hvalue)
  rw [expansion, expr_assign_simple rfl rfl]
  exact bind_error hbinary

/-- The expanded assignment to a name that is bound nowhere fails at its left operand. -/
theorem expansion_of_none (hget : m.store.get? scope name = none) (target left : Span) :
    expr (fuel + 3) whole scope (expansion name arithmetic target left value) m =
      (.error ⟨.undefinedVariable name, left⟩, m) := by
  have hbinary :
      expr (fuel + 2) whole scope (.binary arithmetic (.atom (.name name) left) value) m =
      (.error ⟨.undefinedVariable name, left⟩, m) :=
    bind_error (atom_of_none hget left)
  rw [expansion, expr_assign_simple rfl rfl]
  exact bind_error hbinary

/-- The two assignments end alike: with the same value, or both in a fault, which is the same one if
the name is not in use or stands for a number or a text. -/
def EndAlike (seen : Option Value) (r r' : Outcome Value) : Prop :=
  (∃ w, r = .ok w ∧ r' = .ok w) ∨
    ∃ e e', r = .error e ∧ r' = .error e' ∧
      ((∀ v, seen = some v → v.type = .numeric ∨ v.type = .character) → e'.fault = e.fault)

theorem EndAlike.halt {seen : Option Value} {r r' : Outcome Value} (h : EndAlike seen r r') :
    r ≠ .outOfFuel ∧ r' ≠ .outOfFuel := by
  obtain ⟨w, rfl, rfl⟩ | ⟨e, e', rfl, rfl, -⟩ := h
  · exact ⟨by simp, by simp⟩
  · exact ⟨by simp, by simp⟩

section

variable (hwf : m.store.WellFormed) {owner : ScopeId} {b : Binding}
  (hop : op.compound? = some arithmetic) (howner : m.store.owner? scope name = some owner)
  (hb : m.store.binding? owner name = some b)
  (hkeeps : ∀ id < m.store.scopes.size, m'.store.binding? id name = m.store.binding? id name)
  {whole₁ whole₂ : Span} (hvalue₁ : expr (fuel + 1) whole₁ scope value m = (.ok v, m'))
  (hvalue₂ : expr (fuel + 1) whole₂ scope value m = (.ok v, m'))

include hwf hop howner hb hkeeps hvalue₁ hvalue₂

/-- Once `value` is evaluated, the two assignments combine the same values and write the result to
the same scope. -/
theorem compound_expands_of_ok (s₁ s₂ s₃ : Span) : ∃ r₁ r₂ m₁,
    expr (fuel + 2) whole₁ scope (.assign op (.atom (.name name) s₁) value) m = (r₁, m₁) ∧
    expr (fuel + 3) whole₂ scope (expansion name arithmetic s₂ s₃ value) m = (r₂, m₁) ∧
    EndAlike (m.store.get? scope name) r₁ r₂ := by
  have hget : m.store.get? scope name = some b.value := by
    rw [Store.get?_eq, howner, Option.bind_some, hb, Option.map_some]
  have hextends : m.store.Extends m'.store := by
    have hleads := expr_leads (fuel + 1) whole₁ scope value hwf
    rw [hvalue₁] at hleads
    exact hleads.extends
  have hname : (Expr.atom (.name name) s₁).name? = some name := rfl
  obtain ⟨current, hcurrent, hcompound⟩ := compound_assign_run hwf hname hop howner hvalue₁
  obtain rfl : current = b.value := by
    rw [Store.getLocal?_eq, hkeeps owner (Store.lt_of_binding? hb), hb] at hcurrent
    exact (Option.some.inj hcurrent).symm
  have hexpansion : expr (fuel + 3) whole₂ scope (expansion name arithmetic s₂ s₃ value) m = _ :=
    expansion_of_ok hget hvalue₂ s₂ s₃
  cases happly : arithmetic.apply b.value v with
  | ok w =>
    have hassign : m'.store.assign scope name w = m'.store.replaceLocal owner name w := by
      rw [Store.assign, hextends.owner?_eq hkeeps (Store.lt_of_owner? howner), howner]
    rw [compound_of_ok hop happly] at hcompound
    rw [happly] at hexpansion
    refine ⟨.ok w, .ok w, ⟨m'.store.replaceLocal owner name w, m'.output⟩, hcompound, ?_,
      .inl ⟨w, rfl, rfl⟩⟩
    rw [hexpansion, ← hassign]
    rfl
  | error f =>
    obtain ⟨f', hf', hsame⟩ := compound_of_error happly op whole₁
    rw [hf'] at hcompound
    rw [happly] at hexpansion
    refine ⟨.error ⟨f', whole₁⟩, .error ⟨f, _⟩, m', hcompound, hexpansion,
      .inr ⟨_, _, rfl, rfl, fun hseen => ?_⟩⟩
    exact (hsame (hseen b.value hget)).symm

end

/-- The two assignments with fuel that is enough. -/
theorem compound_expands_run (hwf : m.store.WellFormed) (hop : op.compound? = some arithmetic)
    (hr : r ≠ .outOfFuel) (hvalue : expr (fuel + 1) whole scope value m = (r, m'))
    (hkeeps : ∀ id < m.store.scopes.size, m'.store.binding? id name = m.store.binding? id name)
    (whole₁ whole₂ s₁ s₂ s₃ : Span) : ∃ r₁ r₂ m₁,
    expr (fuel + 2) whole₁ scope (.assign op (.atom (.name name) s₁) value) m = (r₁, m₁) ∧
    expr (fuel + 3) whole₂ scope (expansion name arithmetic s₂ s₃ value) m = (r₂, m₁) ∧
    EndAlike (m.store.get? scope name) r₁ r₂ := by
  cases howner : m.store.owner? scope name with
  | none =>
    have hget : m.store.get? scope name = none := by rw [Store.get?_eq, howner, Option.bind_none]
    exact ⟨_, _, m, compound_assign_of_none rfl hop howner, expansion_of_none hget s₂ s₃,
      .inr ⟨_, _, rfl, rfl, fun _ => rfl⟩⟩
  | some owner =>
    obtain ⟨b, hb⟩ := Store.binding?_of_owner? howner
    have hget : m.store.get? scope name = some b.value := by
      rw [Store.get?_eq, howner, Option.bind_some, hb, Option.map_some]
    obtain ⟨r₁, hvalue₁, hr₁⟩ := (expr_butPlace (fuel + 1) whole whole₁ scope value).run hvalue
    obtain ⟨r₂, hvalue₂, hr₂⟩ := (expr_butPlace (fuel + 1) whole whole₂ scope value).run hvalue
    cases hr₁ with
    | ok v =>
      cases hr₂
      exact compound_expands_of_ok hwf hop howner hb hkeeps hvalue₁ hvalue₂ s₁ s₂ s₃
    | error f span span₁ =>
      cases hr₂ with
      | error _ _ span₂ =>
        exact ⟨_, _, m', compound_assign_of_error rfl hop howner hvalue₁,
          expansion_of_error hget hvalue₂ s₂ s₃, .inr ⟨_, _, rfl, rfl, fun _ => rfl⟩⟩
    | outOfFuel => exact absurd rfl hr

/-- A compound assignment does what the assignment does that it stands for, in every scope of every
store that can be reached, if its right side comes to an end and leaves the name alone in all scopes
that were there before. Both print the same and leave the same store, and they end alike. This
holds whichever expressions they are parts of (`whole₁`, `whole₂`). -/
theorem compound_expands {σ : Store} (h : σ.Reachable) {scope : ScopeId} {name : String}
    {op : AssignOp} {arithmetic : BinaryOp} (hop : op.compound? = some arithmetic) {value : Expr}
    {output : String} {whole : Span} {r : Outcome Value} {m' : Machine}
    (hvalue : Halts (fun fuel => expr fuel whole scope value) ⟨σ, output⟩ r m')
    (hkeeps : ∀ id < σ.scopes.size, m'.store.binding? id name = σ.binding? id name)
    (whole₁ whole₂ s₁ s₂ s₃ : Span) : ∃ r₁ r₂ m₁,
    Halts (fun fuel => expr fuel whole₁ scope (.assign op (.atom (.name name) s₁) value))
      ⟨σ, output⟩ r₁ m₁ ∧
    Halts (fun fuel => expr fuel whole₂ scope (expansion name arithmetic s₂ s₃ value))
      ⟨σ, output⟩ r₂ m₁ ∧
    EndAlike (σ.get? scope name) r₁ r₂ := by
  obtain ⟨hr, fuel, hrun⟩ := hvalue
  cases fuel with
  | zero => exact absurd (congrArg Prod.fst hrun).symm hr
  | succ fuel =>
    obtain ⟨r₁, r₂, m₁, h₁, h₂, halike⟩ :=
      compound_expands_run (m := ⟨σ, output⟩) h.wellFormed hop hr hrun hkeeps whole₁ whole₂ s₁ s₂ s₃
    exact ⟨r₁, r₂, m₁, ⟨halike.halt.1, fuel + 2, h₁⟩, ⟨halike.halt.2, fuel + 3, h₂⟩, halike⟩

/-- The right side assigns to another name on its way. -/
theorem compound_expands_assign :
    let σ := Store.empty.newGlobal.2.set 0 "x" .loc (.string "a")
    let value : Expr := .assign .assign (.atom (.name "y") default) (.atom (.string "b") default)
    let m' : Machine := ⟨σ.assign 0 "y" (.string "b"), ""⟩
    σ.Reachable ∧ Halts (fun fuel => expr fuel default 0 value) ⟨σ, ""⟩ (.ok (.string "b")) m' ∧
    (∀ id < σ.scopes.size, m'.store.binding? id "x" = σ.binding? id "x") ∧
    ∃ r₁ r₂ m₁,
      Halts (fun fuel => expr fuel default 0 (.assign .add (.atom (.name "x") default) value))
        ⟨σ, ""⟩ r₁ m₁ ∧
      Halts (fun fuel => expr fuel default 0 (expansion "x" .add default default value))
        ⟨σ, ""⟩ r₂ m₁ ∧
      EndAlike (σ.get? 0 "x") r₁ r₂ := by
  intro σ value m'
  have h : σ.Reachable := .set 0 "x" .loc (.newGlobal .empty) fun _ hh => by cases hh
  have hvalue : Halts (fun fuel => expr fuel default 0 value) ⟨σ, ""⟩ (.ok (.string "b")) m' :=
    ⟨by simp, 2, rfl⟩
  have hsize : 0 < σ.scopes.size := by decide
  have hkeeps : ∀ id < σ.scopes.size, m'.store.binding? id "x" = σ.binding? id "x" := by
    intro id _
    obtain ⟨visibility, hwrites, -⟩ := Store.writes_assign hsize "y" (.string "b")
    exact hwrites.binding?_of_ne (by decide)
  exact ⟨h, hvalue, hkeeps, compound_expands h rfl hvalue hkeeps default default default default
    default⟩

end Eval

end Xbase
