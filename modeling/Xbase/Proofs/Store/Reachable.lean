import Xbase.Proofs.Eval.Stepwise
import Xbase.Proofs.Store.Binding

/-!
# Stores that can be reached

`Store.Reachable` holds of the stores that any sequence of operations and runs of programs leads to.
In each of them the links lead where they should and every function that is kept was declared in a
scope that exists (`Reachable.wellFormed`). Runs keep this because a function can only be called
after it was read from the store or handed over.
-/

namespace Xbase

/-- The scopes that the value refers to exist. -/
def Value.Within (v : Value) (σ : Store) : Prop :=
  ∀ home ∈ v.homes, home < σ.scopes.size

namespace Store

/-- The stores that can be reached. -/
inductive Reachable : Store → Prop
  | empty : Reachable .empty
  | newGlobal {σ : Store} (h : Reachable σ) : Reachable σ.newGlobal.2
  | newCallScope {σ : Store} {home : ScopeId} (h : Reachable σ) (hh : home < σ.scopes.size) :
      Reachable (σ.newCallScope home).2
  | set {σ : Store} {v : Value} (id : ScopeId) (name : String) (visibility : Visibility)
      (h : Reachable σ) (hv : v.Within σ) : Reachable (σ.set id name visibility v)
  | assign {σ : Store} {v : Value} (id : ScopeId) (name : String) (h : Reachable σ)
      (hv : v.Within σ) : Reachable (σ.assign id name v)
  | replaceLocal {σ : Store} {v : Value} (id : ScopeId) (name : String) (h : Reachable σ)
      (hv : v.Within σ) : Reachable (σ.replaceLocal id name v)
  | declareFunction {σ : Store} (id : ScopeId) (routine : Routine) (h : Reachable σ) :
      Reachable (σ.declareFunction id routine)
  | run {σ : Store} (fuel : Nat) (scope : ScopeId) (p : Program) (output : String)
      (h : Reachable σ) : Reachable (Eval.program fuel scope p ⟨σ, output⟩).2.store

/-- Links to global scopes lead to global scopes, and functions refer to scopes that exist. -/
structure WellFormed (σ : Store) : Prop where
  global : ∀ id g, σ.global? id = some g → g < σ.scopes.size ∧ σ.global? g = none
  within : ∀ id name b, σ.binding? id name = some b → b.value.Within σ

variable {σ : Store}

/-! ## Operations -/

theorem wellFormed_empty : empty.WellFormed :=
  ⟨fun _ _ h => by simp [global?, empty] at h,
    fun _ _ _ h => by simp [binding?, entry?, empty] at h⟩

namespace WellFormed

/-- The global scope of a scope that exists is global. -/
theorem global?_globalOf (h : σ.WellFormed) (id : ScopeId) : σ.global? (σ.globalOf id) = none := by
  rw [globalOf_eq]
  cases hg : σ.global? id with
  | none => exact hg
  | some g => exact (h.global id g hg).2

/-- The global scope of a scope of the store is one of its scopes. -/
theorem globalOf_lt (h : σ.WellFormed) {id : ScopeId} (hid : id < σ.scopes.size) :
    σ.globalOf id < σ.scopes.size := by
  rw [globalOf_eq]
  cases hg : σ.global? id with
  | none => exact hid
  | some g => exact (h.global id g hg).1

/-- An entry keeps the store well-formed if the scopes that its value refers to exist. -/
theorem put (h : σ.WellFormed) (id : ScopeId) (name : String) {b : Binding}
    (hb : id < σ.scopes.size → b.value.Within σ) : (σ.put id name b).WellFormed := by
  refine ⟨fun id g hg => ?_, fun id' name' b' hb' => ?_⟩
  · rw [global?_put] at hg ⊢
    rw [size_put]
    exact h.global id g hg
  · rw [Value.Within, size_put]
    rw [binding?_put] at hb'
    split at hb'
    · next hid =>
      cases hb'
      exact hb hid.2.2
    · exact h.within id' name' b' hb'

theorem set (h : σ.WellFormed) (id : ScopeId) (name : String) (visibility : Visibility) {v : Value}
    (hv : v.Within σ) : (σ.set id name visibility v).WellFormed := by
  rw [set_eq]
  exact h.put _ name fun _ => hv

theorem replaceLocal (h : σ.WellFormed) (id : ScopeId) (name : String) {v : Value}
    (hv : v.Within σ) : (σ.replaceLocal id name v).WellFormed := by
  cases hb : σ.binding? id name with
  | none =>
    rw [replaceLocal_of_none hb]
    exact h
  | some b =>
    rw [replaceLocal_of_some hb]
    exact h.put id name fun _ => hv

/-- An assignment gives a new value to the name where it is owned, or else declares a private name.
-/
theorem assign (h : σ.WellFormed) (id : ScopeId) (name : String) {v : Value} (hv : v.Within σ) :
    (σ.assign id name v).WellFormed := by
  rw [Store.assign]
  split
  · exact h.replaceLocal _ name hv
  · exact h.set id name .priv hv

theorem declareFunction (h : σ.WellFormed) (id : ScopeId) (routine : Routine) :
    (σ.declareFunction id routine).WellFormed := by
  rw [declareFunction_eq]
  refine h.put id _ fun hid home hhome => ?_
  rw [List.mem_singleton.1 hhome]
  exact hid

/-- A new scope without entries keeps the store well-formed if its global scope exists and is one.
-/
theorem push (h : σ.WellFormed) {s : Scope} (hs : s.entries = [])
    (hg : ∀ g, s.global = some g → g < σ.scopes.size ∧ σ.global? g = none) :
    (σ.push s).2.WellFormed := by
  refine ⟨fun id g hid => ?_, fun id name b hb => ?_⟩
  · have hold : g < σ.scopes.size ∧ σ.global? g = none := by
      rw [global?_push] at hid
      split at hid
      · exact hg g hid
      · exact h.global id g hid
    rw [size_push, global?_push, if_neg (Nat.ne_of_lt hold.1)]
    exact ⟨Nat.lt_succ_of_lt hold.1, hold.2⟩
  · rw [binding?_push hs] at hb
    rw [Value.Within, size_push]
    exact fun home hh => Nat.lt_succ_of_lt (h.within id name b hb home hh)

theorem newCallScope (h : σ.WellFormed) {home : ScopeId} (hh : home < σ.scopes.size) :
    (σ.newCallScope home).2.WellFormed := by
  refine h.push rfl fun g hg => ?_
  cases hg
  exact ⟨h.globalOf_lt hh, h.global?_globalOf home⟩

theorem newGlobal (h : σ.WellFormed) : σ.newGlobal.2.WellFormed := by
  have hpush : (σ.push ⟨[], none, none⟩).2.WellFormed := h.push rfl fun g hg => by cases hg
  exact (hpush.set _ _ .pub (fun _ hh => by cases hh)).set _ _ .pub (fun _ hh => by cases hh)

/-- What is in sight refers to scopes that exist. -/
theorem get?_within (h : σ.WellFormed) {id : ScopeId} {name : String} {v : Value}
    (hv : σ.get? id name = some v) : v.Within σ := by
  rw [Store.get?] at hv
  obtain ⟨owner, -, hv⟩ := Option.bind_eq_some_iff.1 hv
  rw [getLocal?_eq] at hv
  obtain ⟨b, hb, rfl⟩ := Option.map_eq_some_iff.1 hv
  exact h.within owner name b hb

end WellFormed

end Store

/-! ## Runs -/

namespace Eval

/-- In a well-formed store with the scopes `K`, the evaluation leads to one with the scopes that its
result refers to. -/
def KeepsWellFormed {α : Type} (K : List ScopeId) (x : Eval α) (g : α → List ScopeId) : Prop :=
  ∀ m, m.store.WellFormed → (∀ k ∈ K, k < m.store.scopes.size) →
    (x m).2.store.WellFormed ∧ m.store.scopes.size ≤ (x m).2.store.scopes.size ∧
      ∀ a, (x m).1 = .ok a → ∀ k ∈ g a, k < (x m).2.store.scopes.size

namespace KeepsWellFormed

variable {α β : Type} {K : List ScopeId}

/-- What the first part gives may refer to new scopes; the second part may use them. -/
theorem bind {x : Eval α} {f : α → Eval β} {g : α → List ScopeId} {g' : β → List ScopeId}
    (hx : KeepsWellFormed K x g) (hf : ∀ a, KeepsWellFormed (g a ++ K) (f a) g') :
    KeepsWellFormed K (x >>= f) g' := by
  intro m hm hK
  obtain ⟨hwf, hsize, hg⟩ := hx m hm hK
  rcases hrun : x m with ⟨outcome, m'⟩
  rw [hrun] at hwf hsize hg
  cases outcome with
  | ok a =>
    have hK' : ∀ k ∈ g a ++ K, k < m'.store.scopes.size := by
      intro k hk
      obtain hk | hk := List.mem_append.1 hk
      · exact hg a rfl k hk
      · exact Nat.lt_of_lt_of_le (hK k hk) hsize
    obtain ⟨hwf', hsize', hg'⟩ := hf a m' hwf hK'
    rw [bind_ok hrun]
    exact ⟨hwf', Nat.le_trans hsize hsize', hg'⟩
  | error e =>
    rw [bind_error hrun]
    exact ⟨hwf, hsize, fun _ h => by cases h⟩
  | outOfFuel =>
    rw [bind_outOfFuel hrun]
    exact ⟨hwf, hsize, fun _ h => by cases h⟩

theorem pure {a : α} {g : α → List ScopeId} (h : g a ⊆ K) : KeepsWellFormed K (Pure.pure a) g := by
  refine fun m hm hK => ⟨hm, Nat.le_refl _, fun b hb k hk => ?_⟩
  cases hb
  exact hK k (h hk)

theorem fault {g : α → List ScopeId} (f : EvalFault) (span : Span) :
    KeepsWellFormed K (fault f span) g :=
  fun _ hm _ => ⟨hm, Nat.le_refl _, fun _ h => by cases h⟩

theorem read {f : Store → α} {g : α → List ScopeId}
    (h : ∀ σ : Store, σ.WellFormed → ∀ k ∈ g (f σ), k < σ.scopes.size) :
    KeepsWellFormed K (read f) g := by
  refine fun m hm _ => ⟨hm, Nat.le_refl _, fun a ha => ?_⟩
  cases ha
  exact h m.store hm

theorem write {f : Store → Store} (hf : ∀ σ : Store, σ.WellFormed →
      (∀ k ∈ K, k < σ.scopes.size) → (f σ).WellFormed)
    (hsize : ∀ σ : Store, σ.scopes.size = (f σ).scopes.size) :
    KeepsWellFormed K (write f) fun _ => [] :=
  fun m hm hK => ⟨hf m.store hm hK, Nat.le_of_eq (hsize m.store), fun _ _ _ hk => by cases hk⟩

theorem compound (op : AssignOp) (arithmetic : BinaryOp) (span : Span) (current v : Value) :
    KeepsWellFormed K (compound op arithmetic span current v) Value.homes := by
  intro m hm _
  obtain ⟨outcome, hrun, hhomes⟩ := compound_run op arithmetic span current v
  rw [hrun]
  refine ⟨hm, Nat.le_refl _, fun w hw k hk => ?_⟩
  rw [hhomes w hw] at hk
  cases hk

/-- A new scope for a call is within the store as soon as its home is. -/
theorem enter {home : ScopeId} {f : ScopeId → Eval α} {g : α → List ScopeId} (hh : home ∈ K)
    (hf : ∀ scope, KeepsWellFormed K (f scope) g) :
    KeepsWellFormed K (enter (·.newCallScope home) >>= f) g := by
  intro m hm hK
  have hsize : (m.store.newCallScope home).2.scopes.size = m.store.scopes.size + 1 :=
    Store.size_push
  obtain ⟨hwf, hsize', hg⟩ := hf m.store.scopes.size ⟨(m.store.newCallScope home).2, m.output⟩
    (hm.newCallScope (hK home hh)) fun k hk => by rw [hsize]; exact Nat.lt_succ_of_lt (hK k hk)
  exact ⟨hwf, Nat.le_trans (by rw [hsize]; exact Nat.le_succ _) hsize', hg⟩

theorem replace (owner : ScopeId) (name : String) (span : Span) {v : Value}
    {combine : Value → Value → Eval Value}
    (hc : ∀ {K} v w, KeepsWellFormed K (combine v w) Value.homes) :
    KeepsWellFormed K (replace owner name span combine v) Value.homes := by
  refine bind (g := fun _ => []) (read fun _ _ _ hk => by cases hk) fun current? => ?_
  cases current? with
  | none => exact fault _ _
  | some current =>
    refine bind (hc current v) fun w => bind (write (fun σ hσ hK => ?_) fun σ => ?_) fun _ => ?_
    · exact hσ.replaceLocal owner name fun home hh => hK home (List.mem_append_left _ hh)
    · exact Store.size_replaceLocal.symm
    · exact pure (List.subset_append_left _ _)

theorem update {x : Eval Value} (scope : ScopeId) (name : String) (span : Span)
    {combine : Value → Value → Eval Value} (hx : KeepsWellFormed K x Value.homes)
    (hc : ∀ {K} v w, KeepsWellFormed K (combine v w) Value.homes) :
    KeepsWellFormed K (update scope name span x combine) Value.homes := by
  refine bind (g := fun _ => []) (read fun _ _ _ hk => by cases hk) fun owner? => ?_
  cases owner? with
  | none => exact fault _ _
  | some owner => exact bind hx fun v => replace owner name span hc

end KeepsWellFormed

/-- Every step of an evaluation keeps the store well-formed, so all evaluations do. -/
theorem keepsWellFormed_stepwise : Stepwise KeepsWellFormed fun _ => True where
  pure := KeepsWellFormed.pure
  bind := KeepsWellFormed.bind
  outOfFuel := fun _ hm _ => ⟨hm, Nat.le_refl _, fun _ h => by cases h⟩
  fault := KeepsWellFormed.fault
  printLine := fun line m hm _ => ⟨hm, Nat.le_refl _, fun _ _ _ hk => by cases hk⟩
  get? := fun {_ scope} name _ => KeepsWellFormed.read fun σ hσ => by
    cases hv : σ.get? scope name with
    | none => exact fun _ hk => by cases hk
    | some v => exact hσ.get?_within hv
  containsLocal := fun name _ => KeepsWellFormed.read fun _ _ _ hk => by cases hk
  set := fun name visibility _ hv => KeepsWellFormed.write
    (fun σ hσ hK => hσ.set _ name visibility fun home hh => hK home (hv hh))
    fun σ => (Store.size_set visibility).symm
  assign := fun name _ hv => KeepsWellFormed.write
    (fun σ hσ hK => hσ.assign _ name fun home hh => hK home (hv hh))
    fun σ => Store.size_assign.symm
  declareFunction := fun routine _ => KeepsWellFormed.write
    (fun σ hσ _ => hσ.declareFunction _ routine) fun σ => (Store.size_declareFunction routine).symm
  update := fun name span op arithmetic _ hx =>
    KeepsWellFormed.update _ name span hx fun v w => KeepsWellFormed.compound op arithmetic _ v w
  enter := fun hh hf => KeepsWellFormed.enter hh fun scope => hf scope trivial

/-- A program leaves a well-formed store behind, however it ends. -/
theorem program_wellFormed (fuel : Nat) (scope : ScopeId) (p : Program) {m : Machine}
    (h : m.store.WellFormed) : (program fuel scope p m).2.store.WellFormed := by
  have hrun : KeepsWellFormed [] (program fuel scope p) Value.homes :=
    keepsWellFormed_stepwise.program fuel p trivial
  exact (hrun m h fun _ hk => by cases hk).1

end Eval

/-- Every store that sessions can come to is well-formed. -/
theorem Store.Reachable.wellFormed {σ : Store} (h : σ.Reachable) : σ.WellFormed := by
  induction h with
  | empty => exact wellFormed_empty
  | newGlobal _ ih => exact ih.newGlobal
  | newCallScope _ hh ih => exact ih.newCallScope hh
  | set id name visibility _ hv ih => exact ih.set id name visibility hv
  | assign id name _ hv ih => exact ih.assign id name hv
  | replaceLocal id name _ hv ih => exact ih.replaceLocal id name hv
  | declareFunction id routine _ ih => exact ih.declareFunction id routine
  | run fuel scope p output _ ih => exact Eval.program_wellFormed fuel scope p ih

end Xbase
