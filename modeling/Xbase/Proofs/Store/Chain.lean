import Mathlib.Logic.Relation
import Xbase.Proofs.Eval.Frame

/-!
# Chains of scopes

* `Store.Step` says what can be done to a store, and `Store.Leads` is any sequence of steps. A run
  of a program is such a sequence, however it ends (`Eval.program_leads`), so what a step keeps,
  every run keeps.
* `Store.Linked`: the links of each scope fit those of its parent, and `PUBLIC` names are bound in
  global scopes only. Every store that can be reached is linked (`Reachable.linked`).
* `Store.Extends`: links stay as they are, and so do the names that are bound.

In a linked store the parents of a scope lead to its global scope (`Linked.ends`), so the search for
the scope that owns a name comes to an end (`Linked.finds`).
-/

namespace Xbase

namespace Store

/-! ## Steps -/

/-- One operation on a store. Values refer to scopes that exist, and so does the parent of a scope
that is made. -/
inductive Step : Store → Store → Prop
  | newGlobal (σ : Store) : Step σ σ.newGlobal.2
  | newCallScope {σ : Store} {home : ScopeId} (hh : home < σ.scopes.size) :
      Step σ (σ.newCallScope home).2
  | set {σ : Store} {v : Value} (id : ScopeId) (name : String) (visibility : Visibility)
      (hv : v.Within σ) : Step σ (σ.set id name visibility v)
  | assign {σ : Store} {v : Value} (id : ScopeId) (name : String) (hv : v.Within σ) :
      Step σ (σ.assign id name v)
  | replaceLocal {σ : Store} {v : Value} (id : ScopeId) (name : String) (hv : v.Within σ) :
      Step σ (σ.replaceLocal id name v)
  | declareFunction (σ : Store) (id : ScopeId) (routine : Routine) :
      Step σ (σ.declareFunction id routine)

/-- Some operations, one after the other, lead from one store to the other. -/
def Leads : Store → Store → Prop :=
  Relation.ReflTransGen Step

variable {σ τ ρ : Store} {id : ScopeId} {name : String}

/-- Every operation keeps a store well-formed. -/
theorem Step.wellFormed (h : Step σ τ) (hσ : σ.WellFormed) : τ.WellFormed := by
  cases h with
  | newGlobal => exact hσ.newGlobal
  | newCallScope hh => exact hσ.newCallScope hh
  | set id name visibility hv => exact hσ.set id name visibility hv
  | assign id name hv => exact hσ.assign id name hv
  | replaceLocal id name hv => exact hσ.replaceLocal id name hv
  | declareFunction id routine => exact hσ.declareFunction id routine

/-- What every step keeps, every sequence of steps keeps. -/
theorem Leads.keeps {P : Store → Prop} (hstep : ∀ {σ τ : Store}, Step σ τ → P σ → P τ)
    (h : σ.Leads τ) (hσ : P σ) : P τ := by
  induction h with
  | refl => exact hσ
  | tail _ h ih => exact hstep h ih

/-! ## Links -/

/-- A parent is older than its child and has the same global scope, only global scopes have no
parent, and only they bind `PUBLIC` names. -/
structure Linked (σ : Store) : Prop where
  parent : ∀ id parent, σ.parent? id = some parent →
    parent < id ∧ σ.global? id = some (σ.globalOf parent)
  root : ∀ id, σ.parent? id = none → σ.global? id = none
  pub : ∀ id name v, σ.binding? id name = some ⟨.pub, v⟩ → σ.global? id = none

theorem linked_empty : empty.Linked where
  parent := fun id parent h => by simp [parent?, empty] at h
  root := fun id _ => by simp [global?, empty]
  pub := fun id name v h => by simp [binding?, entry?, empty] at h

/-- Only scopes that exist have a parent. -/
theorem lt_of_parent? {parent : ScopeId} (h : σ.parent? id = some parent) :
    id < σ.scopes.size := by
  obtain ⟨s, hs, -⟩ := Option.bind_eq_some_iff.1 h
  exact (Array.getElem?_eq_some_iff.1 hs).1

/-- Only scopes that exist bind names. -/
theorem lt_of_binding? {b : Binding} (h : σ.binding? id name = some b) : id < σ.scopes.size := by
  rw [binding?_eq] at h
  obtain ⟨e, he, -⟩ := Option.map_eq_some_iff.1 h
  obtain ⟨s, hs, -⟩ := Option.bind_eq_some_iff.1 he
  exact (Array.getElem?_eq_some_iff.1 hs).1

namespace Linked

theorem put (h : σ.Linked) {b : Binding} (hb : b.visibility = .pub → σ.global? id = none) :
    (σ.put id name b).Linked where
  parent := by simpa using h.parent
  root := by simpa using h.root
  pub := by
    intro id' name' v hv
    rw [global?_put]
    rw [binding?_put] at hv
    split at hv
    · next heq =>
      obtain ⟨rfl, -, -⟩ := heq
      cases hv
      exact hb rfl
    · exact h.pub id' name' v hv

theorem set (h : σ.Linked) (hσ : σ.WellFormed) (visibility : Visibility) (v : Value) :
    (σ.set id name visibility v).Linked := by
  rw [set_eq]
  apply h.put
  intro hpub
  rw [if_pos hpub]
  exact hσ.global?_globalOf id

theorem replaceLocal (h : σ.Linked) (v : Value) : (σ.replaceLocal id name v).Linked := by
  cases hb : σ.binding? id name with
  | none =>
    rw [replaceLocal_of_none hb]
    exact h
  | some b =>
    rw [replaceLocal_of_some hb]
    apply h.put
    intro hpub
    exact h.pub id name b.value (by rw [hb, ← hpub])

theorem assign (h : σ.Linked) (hσ : σ.WellFormed) (v : Value) :
    (σ.assign id name v).Linked := by
  rw [Store.assign]
  split
  · exact h.replaceLocal v
  · exact h.set hσ .priv v

theorem declareFunction (h : σ.Linked) (routine : Routine) :
    (σ.declareFunction id routine).Linked := by
  rw [declareFunction_eq]
  exact h.put fun hpub => by cases hpub

/-- A new scope is linked to the scopes that were there before, and those do not notice it. -/
theorem push (h : σ.Linked) {s : Scope} (hs : s.entries = [])
    (hparent : ∀ parent, s.parent = some parent →
      parent < σ.scopes.size ∧ s.global = some (σ.globalOf parent))
    (hroot : s.parent = none → s.global = none) : (σ.push s).2.Linked := by
  have hold (id : ScopeId) (hid : id < σ.scopes.size) :
      (σ.push s).2.global? id = σ.global? id := by
    rw [global?_push, if_neg (Nat.ne_of_lt hid)]
  have hglobal (id : ScopeId) (hid : id < σ.scopes.size) :
      (σ.push s).2.globalOf id = σ.globalOf id := by
    rw [globalOf_eq, globalOf_eq, hold id hid]
  refine ⟨fun id parent hp => ?_, fun id hp => ?_, fun id name v hv => ?_⟩
  · rw [parent?_push] at hp
    split at hp
    · next hid =>
      obtain ⟨hlt, hg⟩ := hparent parent hp
      rw [global?_push, if_pos hid, hglobal parent hlt, hid]
      exact ⟨hlt, hg⟩
    · have hid := lt_of_parent? hp
      obtain ⟨hlt, hg⟩ := h.parent id parent hp
      rw [hold id hid, hglobal parent (Nat.lt_trans hlt hid)]
      exact ⟨hlt, hg⟩
  · rw [parent?_push] at hp
    rw [global?_push]
    split at hp
    · next hid =>
      rw [if_pos hid]
      exact hroot hp
    · next hid =>
      rw [if_neg hid]
      exact h.root id hp
  · rw [binding?_push hs] at hv
    rw [hold id (lt_of_binding? hv)]
    exact h.pub id name v hv

/-- A call scope is linked below the scope that is called. -/
theorem newCallScope (h : σ.Linked) {home : ScopeId} (hh : home < σ.scopes.size) :
    (σ.newCallScope home).2.Linked := by
  refine h.push rfl (fun parent hp => ?_) fun hp => by cases hp
  cases hp
  exact ⟨hh, rfl⟩

theorem newGlobal (h : σ.Linked) (hσ : σ.WellFormed) : σ.newGlobal.2.Linked := by
  have hpush : (σ.push ⟨[], none, none⟩).2.Linked :=
    h.push rfl (fun parent hp => by cases hp) fun _ => rfl
  have hwf : (σ.push ⟨[], none, none⟩).2.WellFormed := hσ.push rfl fun g hg => by cases hg
  have hlen := hwf.set (v := .native .len) σ.scopes.size Native.len.name .pub
    fun _ hh => by cases hh
  exact (hpush.set hwf .pub _).set hlen .pub _

end Linked

/-- Every operation keeps the links of a well-formed store. -/
theorem Step.linked (h : Step σ τ) (hσ : σ.WellFormed ∧ σ.Linked) : τ.WellFormed ∧ τ.Linked := by
  refine ⟨h.wellFormed hσ.1, ?_⟩
  obtain ⟨hwf, hlinked⟩ := hσ
  cases h with
  | newGlobal => exact hlinked.newGlobal hwf
  | newCallScope hh => exact hlinked.newCallScope hh
  | set id name visibility hv => exact hlinked.set hwf visibility _
  | assign id name hv => exact hlinked.assign hwf _
  | replaceLocal id name hv => exact hlinked.replaceLocal _
  | declareFunction id routine => exact hlinked.declareFunction routine

/-! ## What stays -/

/-- The scopes of `σ` are still there in `τ` with their links, and the names that are bound in them
are still bound. -/
structure Extends (σ τ : Store) : Prop where
  size : σ.scopes.size ≤ τ.scopes.size
  parent : ∀ id < σ.scopes.size, τ.parent? id = σ.parent? id
  global : ∀ id < σ.scopes.size, τ.global? id = σ.global? id
  bound : ∀ id name, σ.containsLocal id name = true → τ.containsLocal id name = true

namespace Extends

theorem refl (σ : Store) : Extends σ σ :=
  ⟨Nat.le_refl _, fun _ _ => rfl, fun _ _ => rfl, fun _ _ h => h⟩

theorem trans (h₁ : Extends σ τ) (h₂ : Extends τ ρ) : Extends σ ρ := by
  refine ⟨Nat.le_trans h₁.size h₂.size, fun id hid => ?_, fun id hid => ?_, fun id name hb => ?_⟩
  · rw [h₂.parent id (Nat.lt_of_lt_of_le hid h₁.size), h₁.parent id hid]
  · rw [h₂.global id (Nat.lt_of_lt_of_le hid h₁.size), h₁.global id hid]
  · exact h₂.bound id name (h₁.bound id name hb)

theorem put (b : Binding) : Extends σ (σ.put id name b) := by
  refine ⟨by simp, fun _ _ => parent?_put, fun _ _ => global?_put, fun id' name' hb => ?_⟩
  rw [containsLocal_eq] at hb ⊢
  rw [binding?_put]
  split
  · rfl
  · exact hb

theorem set (visibility : Visibility) (v : Value) : Extends σ (σ.set id name visibility v) := by
  rw [set_eq]
  exact put _

theorem replaceLocal (v : Value) : Extends σ (σ.replaceLocal id name v) := by
  cases hb : σ.binding? id name with
  | none =>
    rw [replaceLocal_of_none hb]
    exact refl σ
  | some b =>
    rw [replaceLocal_of_some hb]
    exact put _

theorem push {s : Scope} (hs : s.entries = []) : Extends σ (σ.push s).2 := by
  refine ⟨by simp, fun id hid => ?_, fun id hid => ?_, fun id name hb => ?_⟩
  · rw [parent?_push, if_neg (Nat.ne_of_lt hid)]
  · rw [global?_push, if_neg (Nat.ne_of_lt hid)]
  · rwa [containsLocal_eq, binding?_push hs, ← containsLocal_eq]

end Extends

/-- Every operation keeps what is there. -/
theorem Step.extends (h : Step σ τ) : Extends σ τ := by
  cases h with
  | newGlobal => exact (Extends.push rfl).trans ((Extends.set .pub _).trans (Extends.set .pub _))
  | newCallScope hh => exact Extends.push rfl
  | set id name visibility hv => exact Extends.set visibility _
  | assign id name hv =>
    rw [Store.assign]
    split
    · exact Extends.replaceLocal _
    · exact Extends.set .priv _
  | replaceLocal id name hv => exact Extends.replaceLocal _
  | declareFunction id routine =>
    rw [declareFunction_eq]
    exact Extends.put _

/-- Sequences of operations keep what is there. -/
theorem Leads.extends (h : σ.Leads τ) : Extends σ τ :=
  h.keeps (P := Extends σ) (fun hstep hσ => hσ.trans hstep.extends) (Extends.refl σ)

/-! ## Chains -/

/-- The parents of the scope `id` lead to the scope `top`, which has none. -/
inductive Ends (σ : Store) : (id top : ScopeId) → Prop
  | top {id : ScopeId} (h : σ.parent? id = none) : Ends σ id id
  | up {id parent top : ScopeId} (h : σ.parent? id = some parent) (more : Ends σ parent top) :
      Ends σ id top

/-- The search in the ancestors of the scope `id` for one that lets others see the name ends with
this result. -/
inductive Climbs (σ : Store) (name : String) : (id : ScopeId) → (found : Option ScopeId) → Prop
  | top {id : ScopeId} (h : σ.parent? id = none) : Climbs σ name id none
  | found {id parent : ScopeId} (h : σ.parent? id = some parent)
      (hin : σ.isInherited parent name = true) : Climbs σ name id (some parent)
  | up {id parent : ScopeId} {found : Option ScopeId} (h : σ.parent? id = some parent)
      (hin : σ.isInherited parent name = false) (more : Climbs σ name parent found) :
      Climbs σ name id found

/-- The search for the scope that owns a name, from the scope `id` on, ends with this result. -/
inductive Finds (σ : Store) (name : String) : (id : ScopeId) → (found : Option ScopeId) → Prop
  | here {id : ScopeId} (h : σ.containsLocal id name = true) : Finds σ name id (some id)
  | above {id : ScopeId} {found : Option ScopeId} (h : σ.containsLocal id name = false)
      (more : Climbs σ name id found) : Finds σ name id found

/-- The scope that owns a name binds it. -/
theorem containsLocal_of_owner? {owner : ScopeId} (h : σ.owner? id name = some owner) :
    σ.containsLocal owner name = true := by
  rw [owner?] at h
  split at h
  · next hbound =>
    cases h
    exact hbound
  · obtain ⟨visibility, v, -, hb⟩ := isInherited_iff.1 (isInherited_of_inheritedOwner? h)
    rw [containsLocal_eq, hb]
    rfl

namespace Linked

/-- The parents of a scope lead to its global scope. -/
theorem ends (h : σ.Linked) (id : ScopeId) : σ.Ends id (σ.globalOf id) := by
  induction id using Nat.strongRecOn with
  | ind id ih =>
    cases hp : σ.parent? id with
    | none =>
      have hid : σ.globalOf id = id := by rw [globalOf_eq, h.root id hp, Option.getD_none]
      rw [hid]
      exact .top hp
    | some parent =>
      obtain ⟨hlt, hg⟩ := h.parent id parent hp
      have hid : σ.globalOf id = σ.globalOf parent := by rw [globalOf_eq, hg, Option.getD_some]
      rw [hid]
      exact .up hp (ih parent hlt)

/-- The search in the ancestors ends, for each parent is older than its child. -/
theorem climbs (h : σ.Linked) (id : ScopeId) (name : String) :
    σ.Climbs name id (σ.inheritedOwner? id name) := by
  fun_induction inheritedOwner? σ id name with
  | case1 id hp => exact .top hp
  | case2 id parent hp hlt hin => exact .found hp hin
  | case3 id parent hp hlt hin ih => exact .up hp (Bool.not_eq_true _ ▸ hin) ih
  | case4 id parent hp hlt => exact absurd (h.parent id parent hp).1 hlt

/-- The search for the scope that owns a name comes to an end. -/
theorem finds (h : σ.Linked) (id : ScopeId) (name : String) :
    σ.Finds name id (σ.owner? id name) := by
  rw [owner?]
  split
  · next hbound => exact .here hbound
  · next hbound => exact .above (Bool.not_eq_true _ ▸ hbound) (h.climbs id name)

end Linked

end Store

/-! ## Runs -/

namespace Eval

/-- In a well-formed store with the scopes `K`, the evaluation is a sequence of operations. -/
structure Operates {α : Type} (K : List ScopeId) (x : Eval α) (g : α → List ScopeId) : Prop where
  keeps : KeepsWellFormed K x g
  leads : ∀ m : Machine, m.store.WellFormed → (∀ k ∈ K, k < m.store.scopes.size) →
    m.store.Leads (x m).2.store

namespace Operates

variable {α β : Type} {K : List ScopeId} {g : α → List ScopeId}

/-- An evaluation that leaves the store as it is. -/
theorem of_same {x : Eval α} (hx : KeepsWellFormed K x g) (h : ∀ m, (x m).2.store = m.store) :
    Operates K x g :=
  ⟨hx, fun m _ _ => by rw [h]; exact .refl⟩

/-- An evaluation that is one operation. -/
theorem of_step {f : Store → Store} (hx : KeepsWellFormed K (write f) fun _ => [])
    (h : ∀ σ : Store, (∀ k ∈ K, k < σ.scopes.size) → σ.Step (f σ)) :
    Operates K (write f) fun _ => [] :=
  ⟨hx, fun m _ hK => .single (h m.store hK)⟩

theorem pure {a : α} (h : g a ⊆ K) : Operates K (Pure.pure a) g :=
  of_same (KeepsWellFormed.pure h) fun _ => rfl

theorem fault (f : EvalFault) (span : Span) : Operates K (fault f span) g :=
  of_same (KeepsWellFormed.fault f span) fun _ => rfl

theorem read {f : Store → α}
    (h : ∀ σ : Store, σ.WellFormed → ∀ k ∈ g (f σ), k < σ.scopes.size) : Operates K (read f) g :=
  of_same (KeepsWellFormed.read h) fun _ => rfl

/-- Two evaluations that are operations are so one after the other; the scopes in the first result
are known to the second. -/
theorem bind {x : Eval α} {f : α → Eval β} {g' : β → List ScopeId} (hx : Operates K x g)
    (hf : ∀ a, Operates (g a ++ K) (f a) g') : Operates K (x >>= f) g' := by
  refine ⟨hx.keeps.bind fun a => (hf a).keeps, fun m hm hK => ?_⟩
  have hfirst := hx.leads m hm hK
  obtain ⟨hwf, hsize, hg⟩ := hx.keeps m hm hK
  rcases hrun : x m with ⟨outcome, m'⟩
  rw [hrun] at hfirst hwf hsize hg
  cases outcome with
  | ok a =>
    have hK' : ∀ k ∈ g a ++ K, k < m'.store.scopes.size := by
      intro k hk
      rcases List.mem_append.1 hk with hk | hk
      · exact hg a rfl k hk
      · exact Nat.lt_of_lt_of_le (hK k hk) hsize
    rw [bind_ok hrun]
    exact hfirst.trans ((hf a).leads m' hwf hK')
  | error e =>
    rw [bind_error hrun]
    exact hfirst
  | outOfFuel =>
    rw [bind_outOfFuel hrun]
    exact hfirst

theorem compound (op : AssignOp) (arithmetic : BinaryOp) (span : Span) (current v : Value) :
    Operates K (compound op arithmetic span current v) Value.homes := by
  refine of_same (KeepsWellFormed.compound op arithmetic span current v) fun m => ?_
  obtain ⟨outcome, hrun, -⟩ := compound_run op arithmetic span current v
  rw [hrun]

theorem replaceLocal (owner : ScopeId) (name : String) {v : Value} (hv : v.homes ⊆ K) :
    Operates K (write (·.replaceLocal owner name v)) fun _ => [] :=
  of_step (KeepsWellFormed.write (fun _ hσ hK => hσ.replaceLocal owner name
    fun home hh => hK home (hv hh)) fun _ => Store.size_replaceLocal.symm)
    fun _ hK => .replaceLocal owner name fun home hh => hK home (hv hh)

theorem update {x : Eval Value} (scope : ScopeId) (name : String) (span : Span) (op : AssignOp)
    (arithmetic : BinaryOp) (whole : Span) (hx : Operates K x Value.homes) :
    Operates K (update scope name span x (Eval.compound op arithmetic whole)) Value.homes := by
  refine bind (g := fun _ => []) (read fun _ _ _ hk => by cases hk) fun owner? => ?_
  cases owner? with
  | none => exact fault _ _
  | some owner =>
    refine bind hx fun v => bind (g := fun _ => []) (read fun _ _ _ hk => by cases hk)
      fun current? => ?_
    cases current? with
    | none => exact fault _ _
    | some current =>
      refine bind (compound op arithmetic whole current v) fun w => ?_
      exact bind (replaceLocal owner name (List.subset_append_left _ _)) fun _ =>
        pure (List.subset_append_left _ _)

theorem enter {home : ScopeId} {f : ScopeId → Eval α} (hh : home ∈ K)
    (hf : ∀ scope, Operates K (f scope) g) : Operates K (enter (·.newCallScope home) >>= f) g := by
  refine ⟨KeepsWellFormed.enter hh fun scope => (hf scope).keeps, fun m hm hK => ?_⟩
  have hstep : m.store.Step (m.store.newCallScope home).2 := .newCallScope (hK home hh)
  have hK' : ∀ k ∈ K, k < (m.store.newCallScope home).2.scopes.size :=
    fun k hk => Nat.lt_of_lt_of_le (hK k hk) hstep.extends.size
  exact .head hstep ((hf m.store.scopes.size).leads ⟨(m.store.newCallScope home).2, m.output⟩
    (hstep.wellFormed hm) hK')

end Operates

/-- To be a sequence of operations is a stepwise property. -/
theorem operates_stepwise : Stepwise Operates fun _ => True where
  pure := Operates.pure
  bind := Operates.bind
  outOfFuel := .of_same keepsWellFormed_stepwise.outOfFuel fun _ => rfl
  fault := Operates.fault
  printLine := fun line => .of_same (keepsWellFormed_stepwise.printLine line) fun _ => rfl
  get? := fun name h => .of_same (keepsWellFormed_stepwise.get? name h) fun _ => rfl
  containsLocal := fun name h =>
    .of_same (keepsWellFormed_stepwise.containsLocal name h) fun _ => rfl
  set := fun name visibility h hv => .of_step (keepsWellFormed_stepwise.set name visibility h hv)
    fun _ hK => .set _ name visibility fun home hh => hK home (hv hh)
  assign := fun name h hv => .of_step (keepsWellFormed_stepwise.assign name h hv)
    fun _ hK => .assign _ name fun home hh => hK home (hv hh)
  declareFunction := fun routine h =>
    .of_step (keepsWellFormed_stepwise.declareFunction routine h)
      fun σ _ => .declareFunction σ _ routine
  update := fun name span op arithmetic _ hx => Operates.update _ name span op arithmetic _ hx
  enter := fun hh hf => Operates.enter hh fun scope => hf scope trivial

/-- A run of a program is a sequence of operations, however it ends. -/
theorem program_leads (fuel : Nat) (scope : ScopeId) (p : Program) {m : Machine}
    (h : m.store.WellFormed) : m.store.Leads (program fuel scope p m).2.store := by
  have hrun : Operates [] (program fuel scope p) Value.homes :=
    operates_stepwise.program fuel p trivial
  exact hrun.leads m h fun _ hk => by cases hk

/-- An expression changes the store by operations only. -/
theorem expr_leads (fuel : Nat) (whole : Span) (scope : ScopeId) (e : Expr) {m : Machine}
    (h : m.store.WellFormed) : m.store.Leads (expr fuel whole scope e m).2.store := by
  have hrun : Operates [] (expr fuel whole scope e) Value.homes :=
    (operates_stepwise.expr_statement fuel).1 whole scope e trivial
  exact hrun.leads m h fun _ hk => by cases hk

/-- Where the name of a compound assignment was bound, it is still bound when the value has been
evaluated, so the value that is bound there goes into the operation. -/
theorem compound_assign_run {fuel : Nat} {whole : Span} {scope owner : ScopeId} {op : AssignOp}
    {arithmetic : BinaryOp} {target value : Expr} {name : String} {m m' : Machine} {v : Value}
    (hwf : m.store.WellFormed) (htarget : target.name? = some name)
    (hop : op.compound? = some arithmetic) (howner : m.store.owner? scope name = some owner)
    (hvalue : expr fuel whole scope value m = (.ok v, m')) :
    ∃ current, m'.store.getLocal? owner name = some current ∧
      expr (fuel + 1) whole scope (.assign op target value) m = (do
        let w ← compound op arithmetic whole current v
        write (·.replaceLocal owner name w)
        return w : Eval Value) m' := by
  have hleads := expr_leads fuel whole scope value hwf
  rw [hvalue] at hleads
  have hbound := hleads.extends.bound owner name (Store.containsLocal_of_owner? howner)
  rw [Store.containsLocal_eq, Option.isSome_iff_exists] at hbound
  obtain ⟨b, hb⟩ := hbound
  have hcurrent : m'.store.getLocal? owner name = some b.value := by
    rw [Store.getLocal?_eq, hb]
    rfl
  refine ⟨b.value, hcurrent, ?_⟩
  rw [expr_assign_compound htarget hop, update_run, howner]
  dsimp only
  rw [bind_ok hvalue, replace, read_bind, hcurrent]

end Eval

namespace Store

/-- Every store that can be reached is well-formed and linked. -/
theorem Reachable.linked {σ : Store} (h : σ.Reachable) : σ.WellFormed ∧ σ.Linked := by
  induction h with
  | empty => exact ⟨wellFormed_empty, linked_empty⟩
  | newGlobal _ ih => exact (Step.newGlobal _).linked ih
  | newCallScope _ hh ih => exact (Step.newCallScope hh).linked ih
  | set id name visibility _ hv ih => exact (Step.set id name visibility hv).linked ih
  | assign id name _ hv ih => exact (Step.assign id name hv).linked ih
  | replaceLocal id name _ hv ih => exact (Step.replaceLocal id name hv).linked ih
  | declareFunction id routine _ ih => exact (Step.declareFunction _ id routine).linked ih
  | run fuel scope p output _ ih =>
    exact (Eval.program_leads fuel scope p ih.1).keeps
      (P := fun σ => σ.WellFormed ∧ σ.Linked) Step.linked ih

/-- In every store that can be reached:

* the parents of a scope lead to a global scope, which is the one the scope depends on;
* `PUBLIC` names are bound in global scopes only;
* whatever is done next, links stay as they are and names stay bound, and a run of a program,
  however it ends, is a sequence of operations too;
* the search for the scope that owns a name ends, and the scope binds the name;
* a compound assignment finds the value to replace where the name was bound before its right side
  was evaluated. -/
theorem Reachable.chains {σ : Store} (h : σ.Reachable) :
    (∀ id < σ.scopes.size, σ.Ends id (σ.globalOf id) ∧ σ.globalOf id < σ.scopes.size ∧
      σ.isGlobal (σ.globalOf id) = true) ∧
    (∀ id name v, σ.binding? id name = some ⟨.pub, v⟩ → σ.isGlobal id = true) ∧
    (∀ τ, σ.Leads τ → σ.Extends τ) ∧
    (∀ fuel scope p output, σ.Leads (Eval.program fuel scope p ⟨σ, output⟩).2.store) ∧
    (∀ id name, σ.Finds name id (σ.owner? id name) ∧
      ∀ owner, σ.owner? id name = some owner → σ.containsLocal owner name = true) ∧
    ∀ (fuel : Nat) (whole : Span) (scope owner : ScopeId) (op : AssignOp) (arithmetic : BinaryOp)
      (target value : Expr) (name output : String) (v : Value) (m : Machine),
      target.name? = some name → op.compound? = some arithmetic →
      σ.owner? scope name = some owner →
      Eval.expr fuel whole scope value ⟨σ, output⟩ = (.ok v, m) →
      ∃ current, m.store.getLocal? owner name = some current ∧
        Eval.expr (fuel + 1) whole scope (.assign op target value) ⟨σ, output⟩ = (do
          let w ← Eval.compound op arithmetic whole current v
          Eval.write (·.replaceLocal owner name w)
          return w : Eval Value) m := by
  obtain ⟨hwf, hlinked⟩ := h.linked
  refine ⟨fun id hid => ?_, fun id name v hv => ?_, fun τ => Leads.extends, ?_, ?_, ?_⟩
  · exact ⟨hlinked.ends id, hwf.globalOf_lt hid, isGlobal_iff.2 (hwf.global?_globalOf id)⟩
  · exact isGlobal_iff.2 (hlinked.pub id name v hv)
  · intro fuel scope p output
    exact Eval.program_leads fuel scope p (m := ⟨σ, output⟩) hwf
  · intro id name
    exact ⟨hlinked.finds id name, fun _ => containsLocal_of_owner?⟩
  · intro fuel whole scope owner op arithmetic target value name output v m
    exact Eval.compound_assign_run (m := ⟨σ, output⟩) hwf

theorem Reachable.chains_call :
    (Store.empty.newGlobal.2.newCallScope 0).2.Reachable ∧
    (Store.empty.newGlobal.2.newCallScope 0).2.Ends 1 0 ∧
    (Store.empty.newGlobal.2.newCallScope 0).2.Finds "len" 1
      ((Store.empty.newGlobal.2.newCallScope 0).2.owner? 1 "len") := by
  have h : (Store.empty.newGlobal.2.newCallScope 0).2.Reachable :=
    .newCallScope (.newGlobal .empty) (by decide)
  exact ⟨h, (h.chains.1 1 (by decide)).1, (h.chains.2.2.2.2.1 1 "len").1⟩

end Store

end Xbase
