import Xbase.Proofs.Store.Reachable

/-!
# What a call can do to the scopes that were there before

A call runs in a scope of its own. In the scopes that were there before, it can change the values of
bindings that are in sight of other scopes, and it can bind names for everyone in global scopes.
Names, visibilities and links stay otherwise, and so do the values of `LOCAL` names
(`call_frame`).

Scopes are numbered in the order in which they are made, so those that were there before are the
ones below some number `n`.
-/

namespace Xbase

/-- A binding is left as it is, or its value is replaced and others see it. -/
inductive Binding.Kept : (before after : Option Binding) → Prop
  | same (b? : Option Binding) : Kept b? b?
  | changed {visibility : Visibility} (h : visibility ≠ .loc) (v w : Value) :
      Kept (some ⟨visibility, v⟩) (some ⟨visibility, w⟩)

namespace Store

/-- Between the stores `σ` and `τ`, the scopes below `n` have kept their links and bindings, except
for `PUBLIC` names in scopes of `G`. -/
structure Framed (n : Nat) (G : ScopeId → Prop) (σ τ : Store) : Prop where
  parent : ∀ id < n, τ.parent? id = σ.parent? id
  global : ∀ id < n, τ.global? id = σ.global? id
  binding : ∀ id < n, ∀ name, Binding.Kept (σ.binding? id name) (τ.binding? id name) ∨
    G id ∧ ∃ v, τ.binding? id name = some ⟨.pub, v⟩

/-- There are `n` scopes at least, and those to which `PUBLIC` names go are in `G`. -/
structure Fits (n : Nat) (G : ScopeId → Prop) (σ : Store) : Prop where
  size : n ≤ σ.scopes.size
  global : ∀ id, G (σ.globalOf id)

variable {n : Nat} {G : ScopeId → Prop} {σ τ ρ : Store} {id : ScopeId} {name : String}

/-- A name is seen from below if it is bound and not `LOCAL`. -/
theorem isInherited_iff : σ.isInherited id name = true ↔
    ∃ visibility v, visibility ≠ .loc ∧ σ.binding? id name = some ⟨visibility, v⟩ := by
  rw [isInherited_eq]
  cases σ.binding? id name with
  | none => simp
  | some b => cases b; simp

/-- An ancestor that owns a name lets others see it. -/
theorem isInherited_of_inheritedOwner? {owner : ScopeId}
    (h : σ.inheritedOwner? id name = some owner) : σ.isInherited owner name = true := by
  fun_induction inheritedOwner? σ id name with
  | case1 => cases h
  | case2 id parent hp hlt hin =>
    cases h
    exact hin
  | case3 id parent hp hlt hin ih => exact ih h
  | case4 => cases h

/-- What a scope from `n` on finds below `n`, others see as well. -/
theorem isInherited_of_owner? {owner : ScopeId} (hid : n ≤ id)
    (h : σ.owner? id name = some owner) (hlt : owner < n) : σ.isInherited owner name = true := by
  rw [owner?] at h
  split at h
  · cases h
    exact absurd hlt (Nat.not_lt.2 hid)
  · exact isInherited_of_inheritedOwner? h

namespace Framed

theorem refl (σ : Store) : Framed n G σ σ :=
  ⟨fun _ _ => rfl, fun _ _ => rfl, fun _ _ _ => .inl (.same _)⟩

/-- What is kept in two steps is kept; a name that was made `PUBLIC` on the way stays so. -/
theorem trans (h₁ : Framed n G σ τ) (h₂ : Framed n G τ ρ) : Framed n G σ ρ := by
  refine ⟨fun id hid => (h₂.parent id hid).trans (h₁.parent id hid),
    fun id hid => (h₂.global id hid).trans (h₁.global id hid), fun id hid name => ?_⟩
  obtain hk₂ | hp₂ := h₂.binding id hid name
  · obtain hk₁ | ⟨hG, v, hv⟩ := h₁.binding id hid name
    · left
      generalize σ.binding? id name = b₁ at hk₁ hk₂
      generalize τ.binding? id name = b₂ at hk₁ hk₂
      generalize ρ.binding? id name = b₃ at hk₁ hk₂ ⊢
      cases hk₂ with
      | same => exact hk₁
      | changed hloc v w =>
        cases hk₁ with
        | same => exact .changed hloc v w
        | changed hloc u => exact .changed hloc u w
    · right
      rw [hv] at hk₂
      generalize ρ.binding? id name = b₃ at hk₂ ⊢
      cases hk₂ with
      | same => exact ⟨hG, v, rfl⟩
      | changed _ _ w => exact ⟨hG, w, rfl⟩
  · exact .inr hp₂

/-- Who lets others see a name goes on doing so. -/
theorem isInherited (h : Framed n G σ τ) (hid : id < n) (hin : σ.isInherited id name = true) :
    τ.isInherited id name = true := by
  obtain ⟨visibility, v, hloc, hb⟩ := isInherited_iff.1 hin
  rw [isInherited_iff]
  obtain hk | ⟨-, w, hw⟩ := h.binding id hid name
  · rw [hb] at hk
    generalize τ.binding? id name = b at hk ⊢
    cases hk with
    | same => exact ⟨visibility, v, hloc, rfl⟩
    | changed _ _ w => exact ⟨visibility, w, hloc, rfl⟩
  · exact ⟨.pub, w, by decide, hw⟩

theorem put {b : Binding} (h : id < n → G id ∧ b.visibility = .pub ∨
    Binding.Kept (σ.binding? id name) (some b)) : Framed n G σ (σ.put id name b) := by
  refine ⟨fun _ _ => parent?_put, fun _ _ => global?_put, fun id' hid name' => ?_⟩
  rw [binding?_put]
  split
  · next heq =>
    obtain ⟨rfl, rfl, -⟩ := heq
    obtain ⟨hG, hpub⟩ | hk := h hid
    · exact .inr ⟨hG, b.value, by rw [← hpub]⟩
    · exact .inl hk
  · exact .inl (.same _)

theorem set (hσ : σ.Fits n G) (hid : n ≤ id) (visibility : Visibility) (v : Value) :
    Framed n G σ (σ.set id name visibility v) := by
  rw [set_eq]
  refine put fun hlt => ?_
  split at hlt
  · next hpub =>
    rw [if_pos hpub]
    exact .inl ⟨hσ.global id, hpub⟩
  · exact absurd hlt (Nat.not_lt.2 hid)

/-- Values of names that others see can be replaced anywhere. -/
theorem replaceLocal (h : id < n → σ.isInherited id name = true) (v : Value) :
    Framed n G σ (σ.replaceLocal id name v) := by
  cases hb : σ.binding? id name with
  | none =>
    rw [replaceLocal_of_none hb]
    exact refl σ
  | some b =>
    rw [replaceLocal_of_some hb]
    refine put fun hid => .inr ?_
    obtain ⟨visibility, w, hloc, hb'⟩ := isInherited_iff.1 (h hid)
    rw [hb'] at hb
    cases hb
    rw [hb']
    exact .changed hloc w v

theorem assign (hσ : σ.Fits n G) (hid : n ≤ id) (v : Value) :
    Framed n G σ (σ.assign id name v) := by
  rw [Store.assign]
  split
  · next owner howner =>
    exact replaceLocal (isInherited_of_owner? hid howner) v
  · exact set hσ hid .priv v

theorem declareFunction (hid : n ≤ id) (routine : Routine) :
    Framed n G σ (σ.declareFunction id routine) := by
  rw [declareFunction_eq]
  exact put fun hlt => absurd hlt (Nat.not_lt.2 hid)

theorem newCallScope (hσ : σ.Fits n G) (home : ScopeId) :
    Framed n G σ (σ.newCallScope home).2 := by
  refine ⟨fun id hid => ?_, fun id hid => ?_, fun id _ name => ?_⟩
  · rw [Store.newCallScope, parent?_push, if_neg (Nat.ne_of_lt (Nat.lt_of_lt_of_le hid hσ.size))]
  · rw [Store.newCallScope, global?_push, if_neg (Nat.ne_of_lt (Nat.lt_of_lt_of_le hid hσ.size))]
  · rw [Store.newCallScope, binding?_push rfl]
    exact .inl (.same _)

end Framed

namespace Fits

theorem put (h : σ.Fits n G) {b : Binding} : (σ.put id name b).Fits n G :=
  ⟨by rw [size_put]; exact h.size, fun id' => by rw [globalOf_put]; exact h.global id'⟩

theorem set (h : σ.Fits n G) (visibility : Visibility) (v : Value) :
    (σ.set id name visibility v).Fits n G := by
  rw [set_eq]
  exact h.put

theorem replaceLocal (h : σ.Fits n G) (v : Value) : (σ.replaceLocal id name v).Fits n G := by
  cases hb : σ.binding? id name with
  | none =>
    rw [replaceLocal_of_none hb]
    exact h
  | some b =>
    rw [replaceLocal_of_some hb]
    exact h.put

theorem assign (h : σ.Fits n G) (v : Value) : (σ.assign id name v).Fits n G := by
  rw [Store.assign]
  split
  · exact h.replaceLocal v
  · exact h.set .priv v

theorem declareFunction (h : σ.Fits n G) (routine : Routine) :
    (σ.declareFunction id routine).Fits n G := by
  rw [declareFunction_eq]
  exact h.put

theorem newCallScope (h : σ.Fits n G) (home : ScopeId) : (σ.newCallScope home).2.Fits n G := by
  refine ⟨?_, fun id => ?_⟩
  · rw [Store.newCallScope, size_push]
    exact Nat.le_succ_of_le h.size
  · rw [globalOf_eq, Store.newCallScope, global?_push]
    split
    · exact h.global home
    · exact h.global id

end Fits

end Store

/-! ## Evaluations -/

namespace Eval

variable {n : Nat} {G : ScopeId → Prop} {α β : Type}

/-- The evaluation does no more to the scopes below `n` than calls can do. -/
def Frames (n : Nat) (G : ScopeId → Prop) (x : Eval α) : Prop :=
  ∀ m, m.store.Fits n G → (x m).2.store.Fits n G ∧ m.store.Framed n G (x m).2.store

namespace Frames

theorem of_store {x : Eval α} (h : ∀ m, (x m).2.store = m.store) : Frames n G x := by
  intro m hm
  rw [h]
  exact ⟨hm, .refl _⟩

/-- Evaluations that keep the frame do so one after the other. -/
theorem bind {x : Eval α} {f : α → Eval β} (hx : Frames n G x) (hf : ∀ a, Frames n G (f a)) :
    Frames n G (x >>= f) := by
  intro m hm
  obtain ⟨hfits, hframed⟩ := hx m hm
  rcases hrun : x m with ⟨outcome, m'⟩
  rw [hrun] at hfits hframed
  cases outcome with
  | ok a =>
    obtain ⟨hfits', hframed'⟩ := hf a m' hfits
    rw [bind_ok hrun]
    exact ⟨hfits', hframed.trans hframed'⟩
  | error e =>
    rw [bind_error hrun]
    exact ⟨hfits, hframed⟩
  | outOfFuel =>
    rw [bind_outOfFuel hrun]
    exact ⟨hfits, hframed⟩

theorem write {f : Store → Store}
    (h : ∀ σ : Store, σ.Fits n G → (f σ).Fits n G ∧ σ.Framed n G (f σ)) : Frames n G (write f) :=
  fun m hm => h m.store hm

/-- A compound assignment replaces a value that it has found from its scope, which the frame allows.
-/
theorem update {scope : ScopeId} {x : Eval Value} (name : String) (span : Span)
    (op : AssignOp) (arithmetic : BinaryOp) (whole : Span) (hs : n ≤ scope) (hx : Frames n G x) :
    Frames n G (update scope name span x (compound op arithmetic whole)) := by
  intro m hm
  rw [update_run]
  split
  · exact ⟨hm, .refl _⟩
  · next owner howner =>
    obtain ⟨hfits, hframed⟩ := hx m hm
    rcases hrun : x m with ⟨outcome, m'⟩
    rw [hrun] at hfits hframed
    cases outcome with
    | error e =>
      rw [bind_error hrun]
      exact ⟨hfits, hframed⟩
    | outOfFuel =>
      rw [bind_outOfFuel hrun]
      exact ⟨hfits, hframed⟩
    | ok v =>
      -- the binding that was in sight before the value was evaluated still is
      have hin : owner < n → m'.store.isInherited owner name = true := fun hlt =>
        hframed.isInherited hlt (Store.isInherited_of_owner? hs howner hlt)
      obtain ⟨outcome, w?, hreplace⟩ := replace_run owner name span op arithmetic whole v
        (m'.store.getLocal? owner name)
      rw [bind_ok hrun, hreplace m' rfl]
      cases w? with
      | none => exact ⟨hfits, hframed⟩
      | some w => exact ⟨hfits.replaceLocal w, hframed.trans (.replaceLocal hin w)⟩

/-- A call scope is not one of the scopes below `n`. -/
theorem enter {home : ScopeId} {f : ScopeId → Eval α}
    (hf : ∀ scope, n ≤ scope → Frames n G (f scope)) :
    Frames n G (enter (·.newCallScope home) >>= f) := by
  intro m hm
  obtain ⟨hfits, hframed⟩ := hf m.store.scopes.size hm.size
    ⟨(m.store.newCallScope home).2, m.output⟩ (hm.newCallScope home)
  exact ⟨hfits, (Store.Framed.newCallScope hm home).trans hframed⟩

end Frames

/-- To keep the frame is a stepwise property from `n` on. -/
theorem frames_stepwise : Stepwise (fun _ x _ => Frames n G x) fun scope => n ≤ scope where
  pure := fun _ => Frames.of_store fun _ => rfl
  bind := fun hx hf => Frames.bind hx hf
  outOfFuel := Frames.of_store fun _ => rfl
  fault := fun _ _ => Frames.of_store fun _ => rfl
  printLine := fun _ => Frames.of_store fun _ => rfl
  get? := fun _ _ => Frames.of_store fun _ => rfl
  containsLocal := fun _ _ => Frames.of_store fun _ => rfl
  set := fun _ visibility hs _ => Frames.write fun _ hσ =>
    ⟨hσ.set visibility _, .set hσ hs visibility _⟩
  assign := fun _ hs _ => Frames.write fun _ hσ => ⟨hσ.assign _, .assign hσ hs _⟩
  declareFunction := fun routine hs => Frames.write fun _ hσ =>
    ⟨hσ.declareFunction routine, .declareFunction hs routine⟩
  update := fun name span op arithmetic hs hx => Frames.update name span op arithmetic _ hs hx
  enter := fun _ hf => Frames.enter hf

/-- A call that starts in a store that can be reached, however it ends: every scope that was there
keeps its links, and of every name it keeps whether it is bound and who sees it, and the value if it
is `LOCAL`. The only exception are names that are bound `PUBLIC` in a global scope. -/
theorem call_frame {σ : Store} (h : σ.Reachable) (fuel : Nat) (span : Span) (routine : Routine)
    (home : ScopeId) (args : List Value) (output : String) {id : ScopeId}
    (hid : id < σ.scopes.size) :
    let τ := (invoke fuel span (.function routine home) args ⟨σ, output⟩).2.store
    τ.parent? id = σ.parent? id ∧ τ.global? id = σ.global? id ∧
      ∀ name, Binding.Kept (σ.binding? id name) (τ.binding? id name) ∨
        σ.isGlobal id = true ∧ ∃ v, τ.binding? id name = some ⟨.pub, v⟩ := by
  have hfits : σ.Fits σ.scopes.size fun g => σ.isGlobal g = true :=
    ⟨Nat.le_refl _, fun id => Store.isGlobal_iff.2 (h.wellFormed.global?_globalOf id)⟩
  obtain ⟨-, hframed⟩ :=
    frames_stepwise.invoke fuel span (.function routine home) args ⟨σ, output⟩ hfits
  exact ⟨hframed.parent id hid, hframed.global id hid, hframed.binding id hid⟩

/-- The function declares `x` for everyone, where its caller has a `LOCAL` name `x`. -/
theorem call_frame_public :
    let σ := Store.empty.newGlobal.2.set 0 "x" .loc .null
    let routine : Routine :=
      ⟨⟨"f", ⟨0, 1⟩⟩, [], [.declare .pub ⟨⟨"x", ⟨0, 1⟩⟩, none, none⟩]⟩
    let τ := (invoke 9 ⟨0, 3⟩ (.function routine 0) [] ⟨σ, ""⟩).2.store
    σ.Reachable ∧ 0 < σ.scopes.size ∧
      τ.parent? 0 = σ.parent? 0 ∧ τ.global? 0 = σ.global? 0 ∧
      ∀ name, Binding.Kept (σ.binding? 0 name) (τ.binding? 0 name) ∨
        σ.isGlobal 0 = true ∧ ∃ v, τ.binding? 0 name = some ⟨.pub, v⟩ := by
  have h : (Store.empty.newGlobal.2.set 0 "x" .loc .null).Reachable :=
    .set 0 "x" .loc (.newGlobal .empty) fun _ hh => by cases hh
  have hid : 0 < (Store.empty.newGlobal.2.set 0 "x" .loc .null).scopes.size := by decide
  exact ⟨h, hid, call_frame h 9 _ _ _ _ _ hid⟩

end Eval

end Xbase
