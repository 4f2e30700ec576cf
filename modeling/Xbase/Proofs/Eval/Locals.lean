import Xbase.Proofs.Eval.Frame

/-!
# Calls do not depend on `LOCAL` names

Two stores that differ only in the `LOCAL` bindings of the scopes below `n` cannot be told apart by
a call that starts in them (`call_ignores_locals`): it prints the same, ends in the same way and
leaves stores that again differ in those bindings only.

The statements of the call run in scopes that are made after the first `n`. From there, the bindings
that differ are out of sight. A compound assignment looks up where its name is bound and evaluates
its value before it reads and writes the binding there; that the binding is still in sight then is
what `Store.Framed.isInherited` says.
-/

namespace Xbase

namespace Store

/-- The binding of a name in the scope `id`, if other scopes see it. -/
def shared? (σ : Store) (id : ScopeId) (name : String) : Option Binding :=
  (σ.binding? id name).filter fun b => b.visibility ≠ .loc

/-- The stores differ at most in the `LOCAL` bindings of the scopes below `n`. -/
structure SameButLocals (n : Nat) (σ τ : Store) : Prop where
  size : τ.scopes.size = σ.scopes.size
  parent : ∀ id, τ.parent? id = σ.parent? id
  global : ∀ id, τ.global? id = σ.global? id
  shared : ∀ id name, τ.shared? id name = σ.shared? id name
  own : ∀ id, n ≤ id → ∀ name, τ.binding? id name = σ.binding? id name

variable {n : Nat} {σ τ : Store} {id : ScopeId} {name : String}

theorem isInherited_eq_isSome_shared? : σ.isInherited id name = (σ.shared? id name).isSome := by
  rw [isInherited_eq, shared?, Option.isSome_filter]

theorem shared?_of_isInherited (h : σ.isInherited id name = true) :
    σ.shared? id name = σ.binding? id name := by
  obtain ⟨visibility, v, hloc, hb⟩ := isInherited_iff.1 h
  rw [shared?, hb]
  simp [hloc]

namespace SameButLocals

/-! ## Reading -/

theorem globalOf (h : SameButLocals n σ τ) (id : ScopeId) : τ.globalOf id = σ.globalOf id := by
  rw [globalOf_eq, globalOf_eq, h.global]

theorem isInherited (h : SameButLocals n σ τ) (id : ScopeId) (name : String) :
    τ.isInherited id name = σ.isInherited id name := by
  rw [isInherited_eq_isSome_shared?, isInherited_eq_isSome_shared?, h.shared]

/-- `LOCAL` bindings are not found from below, so they do not matter to the search. -/
theorem inheritedOwner? (h : SameButLocals n σ τ) (id : ScopeId) (name : String) :
    τ.inheritedOwner? id name = σ.inheritedOwner? id name :=
  inheritedOwner?_congr h.parent (fun id => h.isInherited id name) id

theorem containsLocal (h : SameButLocals n σ τ) (hid : n ≤ id) (name : String) :
    τ.containsLocal id name = σ.containsLocal id name := by
  rw [containsLocal_eq, containsLocal_eq, h.own id hid]

/-- A scope from `n` on finds the same owner of a name. -/
theorem owner? (h : SameButLocals n σ τ) (hid : n ≤ id) (name : String) :
    τ.owner? id name = σ.owner? id name := by
  rw [Store.owner?, Store.owner?, h.containsLocal hid, h.inheritedOwner?]

/-- Bindings that others see are the same in both stores, and so are all bindings of new scopes. -/
theorem binding? (h : SameButLocals n σ τ) (hid : id < n → σ.isInherited id name = true) :
    τ.binding? id name = σ.binding? id name := by
  by_cases hlt : id < n
  · have hin := hid hlt
    have hin' : τ.isInherited id name = true := by rw [h.isInherited, hin]
    rw [← shared?_of_isInherited hin, ← shared?_of_isInherited hin', h.shared]
  · exact h.own id (Nat.le_of_not_lt hlt) name

theorem getLocal? (h : SameButLocals n σ τ) (hid : id < n → σ.isInherited id name = true) :
    τ.getLocal? id name = σ.getLocal? id name := by
  rw [getLocal?_eq, getLocal?_eq, h.binding? hid]

/-- A scope from `n` on sees the same values. -/
theorem get? (h : SameButLocals n σ τ) (hid : n ≤ id) (name : String) :
    τ.get? id name = σ.get? id name := by
  rw [Store.get?, Store.get?, h.owner? hid]
  cases ho : σ.owner? id name with
  | none => rfl
  | some owner => exact h.getLocal? (isInherited_of_owner? hid ho)

/-! ## Writing -/

/-- The same binding put in both stores leaves the difference as it is. -/
theorem put (h : SameButLocals n σ τ) (id : ScopeId) (name : String) (b : Binding) :
    SameButLocals n (σ.put id name b) (τ.put id name b) := by
  refine ⟨by rw [size_put, size_put, h.size], fun id' => ?_, fun id' => ?_, fun id' name' => ?_,
    fun id' hid' name' => ?_⟩
  · rw [parent?_put, parent?_put, h.parent]
  · rw [global?_put, global?_put, h.global]
  · rw [shared?, shared?, binding?_put, binding?_put, h.size]
    split
    · rfl
    · exact h.shared id' name'
  · rw [binding?_put, binding?_put, h.size, h.own id' hid']

theorem set (h : SameButLocals n σ τ) (id : ScopeId) (name : String) (visibility : Visibility)
    (v : Value) : SameButLocals n (σ.set id name visibility v) (τ.set id name visibility v) := by
  rw [set_eq, set_eq, h.globalOf]
  exact h.put _ name _

theorem replaceLocal (h : SameButLocals n σ τ) (hid : id < n → σ.isInherited id name = true)
    (v : Value) : SameButLocals n (σ.replaceLocal id name v) (τ.replaceLocal id name v) := by
  have hτ := h.binding? hid
  cases hb : σ.binding? id name with
  | none =>
    rw [hb] at hτ
    rw [replaceLocal_of_none hb, replaceLocal_of_none hτ]
    exact h
  | some b =>
    rw [hb] at hτ
    rw [replaceLocal_of_some hb, replaceLocal_of_some hτ]
    exact h.put id name _

/-- An assignment in a scope from `n` on never reaches the `LOCAL` bindings below. -/
theorem assign (h : SameButLocals n σ τ) (hid : n ≤ id) (name : String) (v : Value) :
    SameButLocals n (σ.assign id name v) (τ.assign id name v) := by
  rw [Store.assign, Store.assign, h.owner? hid]
  cases ho : σ.owner? id name with
  | none => exact h.set id name .priv v
  | some owner => exact h.replaceLocal (isInherited_of_owner? hid ho) v

theorem declareFunction (h : SameButLocals n σ τ) (id : ScopeId) (routine : Routine) :
    SameButLocals n (σ.declareFunction id routine) (τ.declareFunction id routine) := by
  rw [declareFunction_eq, declareFunction_eq]
  exact h.put id _ _

theorem newCallScope (h : SameButLocals n σ τ) (home : ScopeId) :
    SameButLocals n (σ.newCallScope home).2 (τ.newCallScope home).2 := by
  rw [Store.newCallScope, Store.newCallScope, h.globalOf]
  refine ⟨by rw [size_push, size_push, h.size], fun id => ?_, fun id => ?_, fun id name => ?_,
    fun id hid name => ?_⟩
  · rw [parent?_push, parent?_push, h.size, h.parent]
  · rw [global?_push, global?_push, h.size, h.global]
  · rw [shared?, shared?, binding?_push rfl, binding?_push rfl]
    exact h.shared id name
  · rw [binding?_push rfl, binding?_push rfl, h.own id hid]

end SameButLocals

/-- A `LOCAL` binding more or less makes no other difference, as long as it hides no binding that
others see. -/
theorem sameButLocals_put (hid : id < n) (h : σ.shared? id name = none) (v : Value) :
    SameButLocals n σ (σ.put id name ⟨.loc, v⟩) := by
  refine ⟨size_put, fun _ => parent?_put, fun _ => global?_put, fun id' name' => ?_,
    fun id' hid' name' => ?_⟩
  · rw [shared?, binding?_put]
    split
    · next heq =>
      obtain ⟨rfl, rfl, -⟩ := heq
      exact h.symm
    · rfl
  · rw [binding?_put, if_neg]
    rintro ⟨rfl, -⟩
    exact absurd hid (Nat.not_lt.2 hid')

end Store

/-! ## Evaluations -/

/-- The machines have printed the same, and their stores differ at most in the `LOCAL` bindings of
the scopes below `n`, which are there. -/
structure Machine.Alike (n : Nat) (m m' : Machine) : Prop where
  size : n ≤ m.store.scopes.size
  store : m.store.SameButLocals n m'.store
  output : m'.output = m.output

namespace Eval

variable {n : Nat} {α β : Type}

/-- The evaluation does the same on machines that are alike. -/
def IgnoresLocals (n : Nat) (x : Eval α) : Prop :=
  ∀ m m' : Machine, m.Alike n m' → (x m').1 = (x m).1 ∧ (x m).2.Alike n (x m').2

namespace IgnoresLocals

theorem of_run {x : Eval α} {outcome : Outcome α} (h : ∀ m, x m = (outcome, m)) :
    IgnoresLocals n x := by
  intro m m' hm
  rw [h, h]
  exact ⟨rfl, hm⟩

theorem read {f : Store → α} (h : ∀ {σ τ : Store}, σ.SameButLocals n τ → f τ = f σ) :
    IgnoresLocals n (read f) :=
  fun _ _ hm => ⟨congrArg Outcome.ok (h hm.store), hm⟩

theorem write {f : Store → Store} (hsize : ∀ σ : Store, (f σ).scopes.size = σ.scopes.size)
    (h : ∀ {σ τ : Store}, σ.SameButLocals n τ → (f σ).SameButLocals n (f τ)) :
    IgnoresLocals n (write f) :=
  fun m _ hm => ⟨rfl, Nat.le_trans hm.size (Nat.le_of_eq (hsize m.store).symm), h hm.store,
    hm.output⟩

/-- Evaluations that ignore these bindings do so one after the other. -/
theorem bind {x : Eval α} {f : α → Eval β} (hx : IgnoresLocals n x)
    (hf : ∀ a, IgnoresLocals n (f a)) : IgnoresLocals n (x >>= f) := by
  intro m m' hm
  obtain ⟨houtcome, halike⟩ := hx m m' hm
  rcases hrun : x m with ⟨outcome, m₁⟩
  rcases hrun' : x m' with ⟨outcome', m₁'⟩
  rw [hrun, hrun'] at houtcome halike
  cases houtcome
  cases outcome with
  | ok a =>
    rw [bind_ok hrun, bind_ok hrun']
    exact hf a m₁ m₁' halike
  | error e =>
    rw [bind_error hrun, bind_error hrun']
    exact ⟨rfl, halike⟩
  | outOfFuel =>
    rw [bind_outOfFuel hrun, bind_outOfFuel hrun']
    exact ⟨rfl, halike⟩

/-- The binding that is replaced was in sight before the value was evaluated, so it is the same on
both machines afterwards. -/
theorem update {scope : ScopeId} {x : Eval Value} (name : String) (span : Span) (op : AssignOp)
    (arithmetic : BinaryOp) (whole : Span) (hs : n ≤ scope) (hframes : Frames n (fun _ => True) x)
    (hx : IgnoresLocals n x) :
    IgnoresLocals n (update scope name span x (compound op arithmetic whole)) := by
  intro m m' hm
  rw [update_run, update_run, hm.store.owner? hs]
  cases howner : m.store.owner? scope name with
  | none => exact ⟨rfl, hm⟩
  | some owner =>
    obtain ⟨houtcome, halike⟩ := hx m m' hm
    obtain ⟨-, hframed⟩ := hframes m ⟨hm.size, fun _ => trivial⟩
    rcases hrun : x m with ⟨outcome, m₁⟩
    rcases hrun' : x m' with ⟨outcome', m₁'⟩
    rw [hrun, hrun'] at houtcome halike
    rw [hrun] at hframed
    cases houtcome
    dsimp only
    cases outcome with
    | error e =>
      rw [bind_error hrun, bind_error hrun']
      exact ⟨rfl, halike⟩
    | outOfFuel =>
      rw [bind_outOfFuel hrun, bind_outOfFuel hrun']
      exact ⟨rfl, halike⟩
    | ok v =>
      have hin : owner < n → m₁.store.isInherited owner name = true := fun hlt =>
        hframed.isInherited hlt (Store.isInherited_of_owner? hs howner hlt)
      obtain ⟨outcome, w?, hreplace⟩ := replace_run owner name span op arithmetic whole v
        (m₁.store.getLocal? owner name)
      rw [bind_ok hrun, bind_ok hrun', hreplace m₁ rfl, hreplace m₁' (halike.store.getLocal? hin)]
      cases w? with
      | none => exact ⟨rfl, halike⟩
      | some w =>
        exact ⟨rfl, Nat.le_trans halike.size (Nat.le_of_eq Store.size_replaceLocal.symm),
          halike.store.replaceLocal hin w, halike.output⟩

/-- A call scope is new, so its own `LOCAL` bindings are not among those that are ignored. -/
theorem enter {home : ScopeId} {f : ScopeId → Eval α}
    (hf : ∀ scope, n ≤ scope → IgnoresLocals n (f scope)) :
    IgnoresLocals n (enter (·.newCallScope home) >>= f) := by
  intro m m' hm
  have hstore := hm.store.newCallScope home
  have hrun : (Eval.enter (·.newCallScope home) >>= f) m' =
      f m.store.scopes.size ⟨(m'.store.newCallScope home).2, m'.output⟩ := by
    rw [← hm.store.size]
    rfl
  rw [hrun]
  refine hf m.store.scopes.size hm.size ⟨(m.store.newCallScope home).2, m.output⟩ _
    ⟨?_, hstore, hm.output⟩
  exact Nat.le_trans hm.size (Nat.le_trans (Nat.le_succ _) (Nat.le_of_eq Store.size_push.symm))

end IgnoresLocals

/-- To ignore the `LOCAL` bindings of the scopes below `n` is a stepwise property from `n` on. -/
theorem ignoresLocals_stepwise :
    Stepwise (fun _ x _ => IgnoresLocals n x) fun scope => n ≤ scope where
  pure := fun _ => .of_run fun _ => rfl
  bind := fun hx hf => .bind hx hf
  outOfFuel := .of_run fun _ => rfl
  fault := fun _ _ => .of_run fun _ => rfl
  printLine := fun line _ _ hm =>
    ⟨rfl, hm.size, hm.store, congrArg (· ++ line ++ "\n") hm.output⟩
  get? := fun name hs => .read fun h => h.get? hs name
  containsLocal := fun name hs => .read fun h => h.containsLocal hs name
  set := fun name visibility _ _ => .write (fun _ => Store.size_set visibility) fun h =>
    h.set _ name visibility _
  assign := fun name hs _ => .write (fun _ => Store.size_assign) fun h => h.assign hs name _
  declareFunction := fun routine _ => .write (fun _ => Store.size_declareFunction routine) fun h =>
    h.declareFunction _ routine
  update := fun {_ fuel whole scope e} name span op arithmetic hs hx =>
    .update name span op arithmetic whole hs
      ((frames_stepwise.expr_statement fuel).1 (K := []) whole scope e hs) hx
  enter := fun _ hf => .enter hf

/-- Two stores that differ only in the `LOCAL` bindings of their scopes: a call of a function prints
the same in both, ends in the same value or fault, or in neither, and leaves two stores that again
differ only in the `LOCAL` bindings of the scopes that were there before. -/
theorem call_ignores_locals {σ τ : Store} (h : σ.SameButLocals σ.scopes.size τ) (fuel : Nat)
    (span : Span) (routine : Routine) (home : ScopeId) (args : List Value) (output : String) :
    let r := invoke fuel span (.function routine home) args ⟨σ, output⟩
    let r' := invoke fuel span (.function routine home) args ⟨τ, output⟩
    r'.1 = r.1 ∧ r'.2.output = r.2.output ∧ r.2.store.SameButLocals σ.scopes.size r'.2.store := by
  obtain ⟨houtcome, halike⟩ :=
    ignoresLocals_stepwise.invoke fuel span (.function routine home) args ⟨σ, output⟩ ⟨τ, output⟩
      ⟨Nat.le_refl _, h, rfl⟩
  exact ⟨houtcome, halike.output, halike.store⟩

/-- The function assigns to `x` and prints it, and in one of the stores its caller has a `LOCAL`
name `x`. -/
theorem call_ignores_locals_assign :
    let σ := Store.empty.newGlobal.2
    let τ := σ.put 0 "x" ⟨.loc, .null⟩
    let x : Expr := .atom (.name "x") ⟨0, 1⟩
    let routine : Routine :=
      ⟨⟨"f", ⟨0, 1⟩⟩, [],
        [.expr (.assign .assign x (.atom (.logical true) ⟨4, 3⟩)), .print [x] ⟨8, 1⟩]⟩
    let r := invoke 9 ⟨0, 3⟩ (.function routine 0) [] ⟨σ, ""⟩
    let r' := invoke 9 ⟨0, 3⟩ (.function routine 0) [] ⟨τ, ""⟩
    σ.SameButLocals σ.scopes.size τ ∧ r'.1 = r.1 ∧ r'.2.output = r.2.output ∧
      r.2.store.SameButLocals σ.scopes.size r'.2.store := by
  have h : Store.SameButLocals Store.empty.newGlobal.2.scopes.size Store.empty.newGlobal.2
      (Store.empty.newGlobal.2.put 0 "x" ⟨.loc, .null⟩) :=
    Store.sameButLocals_put (by decide) rfl .null
  exact ⟨h, call_ignores_locals h 9 _ _ _ _ _⟩

end Eval

end Xbase
