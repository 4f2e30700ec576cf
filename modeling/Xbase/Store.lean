import Xbase.Value.Basic

/-!
# Scopes

The store holds the scopes of a run: global ones, and one for every call, which has the scope that
the function was declared in as its parent. A name is looked up in the current scope first and then
in its ancestors, where bindings declared `LOCAL` are out of sight.

A function is stored in the scope that it was declared in without that scope (`Slot.declared`); the
scope is put back when the slot is read. Other values are stored as they are.
-/

namespace Xbase

/-- What a scope keeps for a name. -/
inductive Slot where
  | value (v : Value)
  /-- A function that was declared in the scope that keeps it. -/
  | declared (routine : Routine)

/-- A slot and who sees it. -/
structure Entry where
  visibility : Visibility
  slot : Slot

/-- The bindings of a scope and the scopes it depends on. -/
structure Scope where
  entries : List (String × Entry)
  parent : Option ScopeId
  /-- The global scope of a scope that is not global itself. -/
  global : Option ScopeId

/-- A value and who sees it. -/
structure Binding where
  visibility : Visibility
  value : Value

namespace Slot

/-- How the scope `id` keeps a value. -/
def ofValue (id : ScopeId) : Value → Slot
  | .function routine home =>
    if home = id then .declared routine else .value (.function routine home)
  | v => .value v

/-- The value of a slot in the scope `id`. -/
def toValue (id : ScopeId) : Slot → Value
  | value v => v
  | declared routine => .function routine id

/-- A value that is kept in a scope comes back as it was. -/
@[simp]
theorem toValue_ofValue (id : ScopeId) (v : Value) : (ofValue id v).toValue id = v := by
  cases v with
  | function routine home =>
    by_cases h : home = id
    · simp [ofValue, toValue, h]
    · simp [ofValue, toValue, h]
  | _ => rfl

end Slot

namespace Scope

/-- The first of the entries with the given name. -/
def search (name : String) : List (String × Entry) → Option Entry
  | [] => none
  | (key, entry) :: rest => if key = name then some entry else search name rest

/-- The entry of a name. -/
def find? (s : Scope) (name : String) : Option Entry :=
  search name s.entries

/-- The entries with one of them replaced, or added behind the others. -/
def upsert (name : String) (entry : Entry) : List (String × Entry) → List (String × Entry)
  | [] => [(name, entry)]
  | (key, old) :: rest =>
    if key = name then (key, entry) :: rest else (key, old) :: upsert name entry rest

/-- Binds a name, whether it was bound or not. -/
def insert (s : Scope) (name : String) (entry : Entry) : Scope :=
  { s with entries := upsert name entry s.entries }

theorem search_upsert (name other : String) (entry : Entry) (entries : List (String × Entry)) :
    search other (upsert name entry entries) =
      if name = other then some entry else search other entries := by
  induction entries with
  | nil => rfl
  | cons pair rest ih =>
    obtain ⟨key, old⟩ := pair
    by_cases h : key = name
    · subst h
      by_cases h' : key = other <;> simp [upsert, search, h']
    · by_cases h' : key = other
      · subst h'
        simp [upsert, search, h, Ne.symm h]
      · simp [upsert, search, h, h', ih]

/-- A binding is found under its name, and the others are found as before. -/
theorem find?_insert (s : Scope) (name other : String) (entry : Entry) :
    (s.insert name entry).find? other = if name = other then some entry else s.find? other :=
  search_upsert name other entry s.entries

/-- The bound names in the order of their characters. -/
def names (s : Scope) : List String :=
  (s.entries.map Prod.fst).mergeSort (fun a b => decide (a ≤ b))

end Scope

/-- All scopes, by number. -/
structure Store where
  scopes : Array Scope

namespace Store

/-- No scopes at all. -/
def empty : Store := ⟨#[]⟩

/-- The entry of a name in the scope `id`. -/
def entry? (σ : Store) (id : ScopeId) (name : String) : Option Entry := do
  (← σ.scopes[id]?).find? name

/-- Changes the scope `id`. -/
def modify (σ : Store) (id : ScopeId) (f : Scope → Scope) : Store :=
  ⟨σ.scopes.modify id f⟩

/-! ## Reading -/

def parent? (σ : Store) (id : ScopeId) : Option ScopeId := do
  (← σ.scopes[id]?).parent

/-- The global scope that the scope `id` depends on. -/
def globalOf (σ : Store) (id : ScopeId) : ScopeId :=
  (σ.scopes[id]?.bind Scope.global).getD id

def isGlobal (σ : Store) (id : ScopeId) : Bool :=
  (σ.scopes[id]?.bind Scope.global).isNone

/-- Whether a name is bound in the scope `id` itself. -/
def containsLocal (σ : Store) (id : ScopeId) (name : String) : Bool :=
  (σ.entry? id name).isSome

/-- The value and visibility of a name in the scope `id` itself. -/
def binding? (σ : Store) (id : ScopeId) (name : String) : Option Binding :=
  (σ.entry? id name).map fun e => ⟨e.visibility, e.slot.toValue id⟩

/-- The value of a name in the scope `id` itself. -/
def getLocal? (σ : Store) (id : ScopeId) (name : String) : Option Value :=
  (σ.entry? id name).map (·.slot.toValue id)

/-- Whether the scopes below `id` see its binding of the name. -/
def isInherited (σ : Store) (id : ScopeId) (name : String) : Bool :=
  (σ.entry? id name).any (·.visibility ≠ .loc)

/-- The nearest ancestor with a binding of the name that is in sight. A parent is always older than
its child. -/
def inheritedOwner? (σ : Store) (id : ScopeId) (name : String) : Option ScopeId :=
  match σ.parent? id with
  | none => none
  | some parent =>
    if parent < id then
      if σ.isInherited parent name then some parent else σ.inheritedOwner? parent name
    else none
termination_by id

/-- The scope whose binding of the name is in sight from the scope `id`. -/
def owner? (σ : Store) (id : ScopeId) (name : String) : Option ScopeId :=
  if σ.containsLocal id name then some id else σ.inheritedOwner? id name

/-- The value of a name as seen from the scope `id`. -/
def get? (σ : Store) (id : ScopeId) (name : String) : Option Value := do
  σ.getLocal? (← σ.owner? id name) name

/-! ## Writing -/

/-- Binds a name in the scope `id`, or in its global scope if everyone is to see it. -/
def set (σ : Store) (id : ScopeId) (name : String) (visibility : Visibility) (v : Value) : Store :=
  let target := if visibility = .pub then σ.globalOf id else id
  σ.modify target (·.insert name ⟨visibility, .ofValue target v⟩)

/-- Replaces the value of a name that is bound in the scope `id`; who sees it stays. -/
def replaceLocal (σ : Store) (id : ScopeId) (name : String) (v : Value) : Store :=
  match σ.entry? id name with
  | some old => σ.modify id (·.insert name ⟨old.visibility, .ofValue id v⟩)
  | none => σ

/-- Replaces the value that is in sight; if there is none, binds the name in the scope `id`. -/
def assign (σ : Store) (id : ScopeId) (name : String) (v : Value) : Store :=
  match σ.owner? id name with
  | some owner => σ.replaceLocal owner name v
  | none => σ.set id name .priv v

/-- Binds a function in the scope that declares it. -/
def declareFunction (σ : Store) (id : ScopeId) (routine : Routine) : Store :=
  σ.modify id (·.insert routine.name.name ⟨.priv, .declared routine⟩)

/-! ## New scopes -/

/-- Adds a scope. -/
def push (σ : Store) (s : Scope) : ScopeId × Store :=
  (σ.scopes.size, ⟨σ.scopes.push s⟩)

/-- A scope for a call, below the scope `home`. -/
def newCallScope (σ : Store) (home : ScopeId) : ScopeId × Store :=
  σ.push ⟨[], some home, some (σ.globalOf home)⟩

/-- A global scope with the built-in functions. -/
def newGlobal (σ : Store) : ScopeId × Store :=
  let (id, σ) := σ.push ⟨[], none, none⟩
  (id, [Native.len, Native.type].foldl (fun σ n => σ.set id n.name .pub (.native n)) σ)

/-- The names bound in the scope `id`, and whether it is global. -/
def dumpScope (σ : Store) (id : ScopeId) : String :=
  let names := (σ.scopes[id]?.map Scope.names).getD []
  Text.Dump.openRecord "Environment"
    [("names", Text.Dump.list (names.map Text.quote)),
      ("is_global", Text.Dump.logical (σ.isGlobal id))]

end Store

end Xbase
