import Xbase.Eval.Basic
import Xbase.Proofs.Program.Map
import Xbase.Proofs.Store.Binding

/-!
# Values and stores in other places

A function keeps its body, and with it the places of its parts. `map g` changes these places in
values, scopes and stores, and leaves everything else as it is.

No operation on values and no operation on stores depends on the places: each of them gives the same
before and after the change, up to the change.
-/

namespace Xbase

variable (g : Span → Span)

/-! ## Values -/

/-- The function with its places changed. -/
def Routine.map (r : Routine) : Routine :=
  ⟨r.name.map g, r.params.map (Ident.map g), Statement.mapAll id g r.body⟩

/-- The value with the places of a function changed. -/
def Value.map : Value → Value
  | .function routine home => .function (routine.map g) home
  | v => v

namespace Value

@[simp]
theorem typeCode_map (v : Value) : (v.map g).typeCode = v.typeCode := by
  cases v <;> rfl

@[simp]
theorem text_map (v : Value) : (v.map g).text = v.text := by
  cases v <;> rfl

end Value

/-! What operators and built-in functions make of values has no places. -/

theorem UnaryOp.apply_map (op : UnaryOp) (v : Value) : op.apply (v.map g) = op.apply v := by
  cases op <;> cases v <;> rfl

/-- No operator looks at the places in its operands. -/
theorem BinaryOp.apply_map (op : BinaryOp) (v w : Value) :
    op.apply (v.map g) (w.map g) = op.apply v w := by
  cases v <;> cases w <;> rfl

/-- No built-in function looks at the places in its arguments. -/
theorem Native.call_map (n : Native) (args : List Value) :
    n.call (args.map (Value.map g)) = n.call args := by
  match n, args with
  | .len, [] | .type, [] | .type, _ :: _ :: _ => rfl
  | .len, [v] | .len, v :: _ :: _ => cases v <;> rfl
  | .type, [v] => rw [List.map_singleton, call, call, Value.typeCode_map]

/-! ## Scopes -/

def Slot.map : Slot → Slot
  | .value v => .value (v.map g)
  | .declared routine => .declared (routine.map g)

namespace Slot

/-- What is read from a slot has the places of the slot. -/
theorem toValue_map (id : ScopeId) (slot : Slot) :
    (slot.map g).toValue id = (slot.toValue id).map g := by
  cases slot <;> rfl

theorem ofValue_map (id : ScopeId) (v : Value) : ofValue id (v.map g) = (ofValue id v).map g := by
  cases v with
  | function routine home =>
    rw [Value.map, ofValue, ofValue]
    split <;> rfl
  | _ => rfl

end Slot

def Entry.map (e : Entry) : Entry := ⟨e.visibility, e.slot.map g⟩

def Scope.map (s : Scope) : Scope :=
  { s with entries := s.entries.map (Prod.map id (Entry.map g)) }

namespace Scope

/-- Names are found by their letters, wherever the declarations stand. -/
theorem search_map (name : String) (entries : List (String × Entry)) :
    search name (entries.map (Prod.map id (Entry.map g))) =
      (search name entries).map (Entry.map g) := by
  induction entries with
  | nil => rfl
  | cons pair rest ih =>
    obtain ⟨key, entry⟩ := pair
    rw [List.map_cons, Prod.map, search, search, ih, id]
    split <;> rfl

/-- An entry goes to the same position, wherever the declarations stand. -/
theorem upsert_map (name : String) (entry : Entry) (entries : List (String × Entry)) :
    upsert name (entry.map g) (entries.map (Prod.map id (Entry.map g))) =
      (upsert name entry entries).map (Prod.map id (Entry.map g)) := by
  induction entries with
  | nil => rfl
  | cons pair rest ih =>
    obtain ⟨key, old⟩ := pair
    rw [List.map_cons, Prod.map, upsert, upsert, ih, id]
    split <;> rfl

theorem insert_map (s : Scope) (name : String) (entry : Entry) :
    (s.map g).insert name (entry.map g) = (s.insert name entry).map g := by
  rw [insert, map, upsert_map]
  rfl

end Scope

/-! ## Stores -/

/-- The store with the places of all functions in it changed. -/
def Store.map (σ : Store) : Store := ⟨σ.scopes.map (Scope.map g)⟩

namespace Store

variable (σ : Store) (id : ScopeId) (name : String)

theorem getElem?_map : (σ.map g).scopes[id]? = σ.scopes[id]?.map (Scope.map g) :=
  Array.getElem?_map ..

theorem entry?_map : Store.entry? (σ.map g) id name = (σ.entry? id name).map (Entry.map g) := by
  unfold entry?
  rw [getElem?_map]
  cases σ.scopes[id]? with
  | none => rfl
  | some s => exact Scope.search_map g name s.entries

theorem parent?_map : (σ.map g).parent? id = σ.parent? id := by
  unfold parent?
  rw [getElem?_map]
  cases σ.scopes[id]? <;> rfl

theorem globalOf_map : (σ.map g).globalOf id = σ.globalOf id := by
  unfold globalOf
  rw [getElem?_map]
  cases σ.scopes[id]? <;> rfl

theorem containsLocal_map : (σ.map g).containsLocal id name = σ.containsLocal id name := by
  rw [containsLocal, entry?_map, Option.isSome_map]
  rfl

theorem isInherited_map : (σ.map g).isInherited id name = σ.isInherited id name := by
  rw [isInherited, entry?_map, isInherited]
  cases σ.entry? id name <;> rfl

theorem getLocal?_map : (σ.map g).getLocal? id name = (σ.getLocal? id name).map (Value.map g) := by
  rw [getLocal?, entry?_map, getLocal?]
  cases σ.entry? id name with
  | none => rfl
  | some e => exact congrArg some (Slot.toValue_map g id e.slot)

theorem inheritedOwner?_map : (σ.map g).inheritedOwner? id name = σ.inheritedOwner? id name :=
  inheritedOwner?_congr (parent?_map g σ) (fun id => isInherited_map g σ id name) id

/-- The scope that a name belongs to does not depend on places. -/
theorem owner?_map : (σ.map g).owner? id name = σ.owner? id name := by
  rw [owner?, containsLocal_map, inheritedOwner?_map, owner?]

/-- A name has the same value up to places. -/
theorem get?_map : (σ.map g).get? id name = (σ.get? id name).map (Value.map g) := by
  rw [get?, owner?_map, get?]
  cases σ.owner? id name with
  | none => rfl
  | some owner => exact getLocal?_map g σ owner name

theorem modify_insert_map (entry : Entry) :
    (σ.map g).modify id (·.insert name (entry.map g)) =
      (σ.modify id (·.insert name entry)).map g := by
  have hscopes : (σ.scopes.map (Scope.map g)).modify id (·.insert name (entry.map g)) =
      (σ.scopes.modify id (·.insert name entry)).map (Scope.map g) := by
    apply Array.ext_getElem?
    intro i
    simp only [Array.getElem?_modify, Array.getElem?_map]
    split
    · cases σ.scopes[i]? with
      | none => rfl
      | some s => exact congrArg some (s.insert_map g name entry)
    · rfl
  exact congrArg Store.mk hscopes

/-- Declaring a name commutes with changing the places in a store. -/
theorem set_map (visibility : Visibility) (v : Value) :
    (σ.map g).set id name visibility (v.map g) = (σ.set id name visibility v).map g := by
  rw [set, globalOf_map, Slot.ofValue_map]
  exact modify_insert_map g σ _ name ⟨visibility, .ofValue _ v⟩

/-- Giving a name another value in its own scope commutes with changing places. -/
theorem replaceLocal_map (v : Value) :
    (σ.map g).replaceLocal id name (v.map g) = (σ.replaceLocal id name v).map g := by
  rw [replaceLocal, entry?_map, replaceLocal]
  cases σ.entry? id name with
  | none => rfl
  | some old =>
    dsimp only [Option.map_some]
    rw [Slot.ofValue_map]
    exact modify_insert_map g σ id name ⟨old.visibility, .ofValue id v⟩

/-- An assignment commutes with changing places, for it finds the same scope. -/
theorem assign_map (v : Value) :
    (σ.map g).assign id name (v.map g) = (σ.assign id name v).map g := by
  rw [assign, owner?_map, assign]
  cases σ.owner? id name with
  | none => exact set_map g σ id name .priv v
  | some owner => exact replaceLocal_map g σ owner name v

theorem declareFunction_map (routine : Routine) :
    (σ.map g).declareFunction id (routine.map g) = (σ.declareFunction id routine).map g :=
  modify_insert_map g σ id routine.name.name ⟨.priv, .declared routine⟩

/-- A new scope gets the same number. -/
theorem newCallScope_map :
    (σ.map g).newCallScope id = ((σ.newCallScope id).1, (σ.newCallScope id).2.map g) := by
  rw [newCallScope, globalOf_map, push, newCallScope, push]
  simp [map, Scope.map]

end Store

end Xbase
