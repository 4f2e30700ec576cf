import Xbase.Store

/-!
# What the operations of the store do to its bindings

Seen through `binding?`, every operation that writes is a `put`: one binding of one scope is
replaced or added (`binding?_put`), and the links between scopes stay as they are.
-/

namespace Xbase.Store

variable {σ : Store} {id id' : ScopeId} {name name' : String} {b : Binding} {v : Value}

/-- The link from a scope to its global scope; a global scope has none. -/
def global? (σ : Store) (id : ScopeId) : Option ScopeId :=
  σ.scopes[id]?.bind Scope.global

theorem globalOf_eq (σ : Store) (id : ScopeId) : σ.globalOf id = (σ.global? id).getD id := rfl

theorem isGlobal_iff : σ.isGlobal id = true ↔ σ.global? id = none := Option.isNone_iff_eq_none

/-! ## One binding -/

/-- The store with one binding replaced or added. -/
def put (σ : Store) (id : ScopeId) (name : String) (b : Binding) : Store :=
  σ.modify id (·.insert name ⟨b.visibility, .ofValue id b.value⟩)

@[simp]
theorem size_put : (σ.put id name b).scopes.size = σ.scopes.size := by
  simp [put, modify]

/-- A binding that is put changes its own scope only. -/
theorem getElem?_put : (σ.put id name b).scopes[id']? =
    if id = id' then
      σ.scopes[id']?.map (·.insert name ⟨b.visibility, .ofValue id b.value⟩)
    else σ.scopes[id']? := by
  simp only [put, modify, Array.getElem?_modify]

@[simp]
theorem parent?_put : (σ.put id name b).parent? id' = σ.parent? id' := by
  simp only [parent?, getElem?_put]
  split
  · cases σ.scopes[id']? <;> rfl
  · rfl

@[simp]
theorem global?_put : (σ.put id name b).global? id' = σ.global? id' := by
  simp only [global?, getElem?_put]
  split
  · cases σ.scopes[id']? <;> rfl
  · rfl

@[simp]
theorem globalOf_put : (σ.put id name b).globalOf id' = σ.globalOf id' := by
  rw [globalOf_eq, globalOf_eq, global?_put]

theorem binding?_eq (σ : Store) (id : ScopeId) (name : String) : σ.binding? id name =
    (σ.scopes[id]?.bind (·.find? name)).map fun e => ⟨e.visibility, e.slot.toValue id⟩ := rfl

/-- The binding that is put is there, and all others are as before. -/
theorem binding?_put : (σ.put id name b).binding? id' name' =
    if id = id' ∧ name = name' ∧ id < σ.scopes.size then some b else σ.binding? id' name' := by
  rw [binding?_eq, binding?_eq, getElem?_put]
  by_cases hid : id = id'
  · subst hid
    by_cases hlt : id < σ.scopes.size
    · by_cases hname : name = name'
      · simp [hlt, hname, Scope.find?_insert]
      · simp [hlt, hname, Scope.find?_insert]
    · simp [hlt]
  · simp [hid]

/-! ## Reading through bindings -/

theorem containsLocal_eq (σ : Store) (id : ScopeId) (name : String) :
    σ.containsLocal id name = (σ.binding? id name).isSome := by
  rw [containsLocal, binding?, Option.isSome_map]

theorem getLocal?_eq (σ : Store) (id : ScopeId) (name : String) :
    σ.getLocal? id name = (σ.binding? id name).map (·.value) := by
  rw [getLocal?, binding?, Option.map_map]
  rfl

/-- Called functions see the names of a scope that are not local to it. -/
theorem isInherited_eq (σ : Store) (id : ScopeId) (name : String) :
    σ.isInherited id name = (σ.binding? id name).any (·.visibility ≠ .loc) := by
  rw [isInherited, binding?, Option.any_map]

/-- The search in the ancestors depends only on the parents and on who lets others see the name. -/
theorem inheritedOwner?_congr {τ : Store} (hparent : ∀ id, τ.parent? id = σ.parent? id)
    (hin : ∀ id, τ.isInherited id name = σ.isInherited id name) (id : ScopeId) :
    τ.inheritedOwner? id name = σ.inheritedOwner? id name := by
  fun_induction Store.inheritedOwner? σ id name with
  | case1 id hp => rw [inheritedOwner?, hparent, hp]
  | case2 id parent hp hlt hyes =>
    rw [inheritedOwner?, hparent, hp]
    simp [hlt, hin, hyes]
  | case3 id parent hp hlt hno ih =>
    rw [inheritedOwner?, hparent, hp]
    simp [hlt, hin, hno, ih]
  | case4 id parent hp hlt =>
    rw [inheritedOwner?, hparent, hp]
    simp [hlt]

/-! ## The operations that write -/

/-- A public name is put in the global scope, any other one in the scope itself. -/
theorem set_eq (σ : Store) (id : ScopeId) (name : String) (visibility : Visibility) (v : Value) :
    σ.set id name visibility v =
      σ.put (if visibility = .pub then σ.globalOf id else id) name ⟨visibility, v⟩ := rfl

/-- A function is put as a private name whose value refers back to the scope. -/
theorem declareFunction_eq (σ : Store) (id : ScopeId) (routine : Routine) :
    σ.declareFunction id routine =
      σ.put id routine.name.name ⟨.priv, .function routine id⟩ := by
  simp [declareFunction, put, Slot.ofValue]

/-- A replaced value keeps the visibility of its name. -/
theorem replaceLocal_of_some (h : σ.binding? id name = some b) :
    σ.replaceLocal id name v = σ.put id name ⟨b.visibility, v⟩ := by
  rw [binding?] at h
  obtain ⟨e, he, rfl⟩ := Option.map_eq_some_iff.1 h
  rw [replaceLocal, he]
  rfl

/-- There is nothing to replace where the name is not bound. -/
theorem replaceLocal_of_none (h : σ.binding? id name = none) : σ.replaceLocal id name v = σ := by
  rw [binding?, Option.map_eq_none_iff] at h
  rw [replaceLocal, h]

@[simp]
theorem size_set (visibility : Visibility) :
    (σ.set id name visibility v).scopes.size = σ.scopes.size := by
  rw [set_eq, size_put]

@[simp]
theorem size_declareFunction (routine : Routine) :
    (σ.declareFunction id routine).scopes.size = σ.scopes.size := by
  rw [declareFunction_eq, size_put]

@[simp]
theorem size_replaceLocal : (σ.replaceLocal id name v).scopes.size = σ.scopes.size := by
  cases hb : σ.binding? id name with
  | none => rw [replaceLocal_of_none hb]
  | some b => rw [replaceLocal_of_some hb, size_put]

@[simp]
theorem size_assign : (σ.assign id name v).scopes.size = σ.scopes.size := by
  rw [assign]
  split
  · exact size_replaceLocal
  · exact size_set _

/-! ## New scopes -/

variable {s : Scope}

@[simp]
theorem size_push : (σ.push s).2.scopes.size = σ.scopes.size + 1 := by
  simp [push]

theorem getElem?_push : (σ.push s).2.scopes[id]? =
    if id = σ.scopes.size then some s else σ.scopes[id]? := by
  simp only [push, Array.getElem?_push]

theorem parent?_push :
    (σ.push s).2.parent? id = if id = σ.scopes.size then s.parent else σ.parent? id := by
  simp only [parent?, getElem?_push]
  split <;> rfl

theorem global?_push :
    (σ.push s).2.global? id = if id = σ.scopes.size then s.global else σ.global? id := by
  simp only [global?, getElem?_push]
  split <;> rfl

/-- A new scope without entries adds no bindings. -/
theorem binding?_push (h : s.entries = []) :
    (σ.push s).2.binding? id name = σ.binding? id name := by
  rw [binding?_eq, binding?_eq, getElem?_push]
  split
  · next hid => simp [hid, Scope.find?, h, Scope.search]
  · rfl

end Xbase.Store
