import Xbase.Proofs.Store.Sight

/-!
# Scopes as plain tables

A scope keeps a function that was declared in it without itself (`Slot.declared`) and puts itself
back when the function is read. `Tables` knows nothing of this: there each scope has a plain table
from names to bindings, and a list of the scopes above it.

* Each operation on a store does to its tables what the operation on tables does
  (`Store.tables_apply`), and so does any sequence of operations (`Store.tables_after`).
* Evaluation depends on nothing but the tables (`Eval.program_readsTables`).
* No scope keeps a function of its own as a plain value (`Store.Canonical`).

`Reachable.transparent` puts these together for every store that can be reached.
-/

namespace Xbase

/-! ## Entries -/

/-- A scope never keeps a function of its own as a plain value. -/
theorem Slot.ofValue_ne (id : ScopeId) (v : Value) (routine : Routine) :
    Slot.ofValue id v ≠ .value (.function routine id) := by
  cases v with
  | function routine' home =>
    by_cases h : home = id
    · simp [ofValue, h]
    · simp [ofValue, h]
  | _ => simp [ofValue]

theorem Scope.mem_upsert {name : String} {entry : Entry} {entries : List (String × Entry)}
    {pair : String × Entry} (h : pair ∈ upsert name entry entries) :
    pair.2 = entry ∨ pair ∈ entries := by
  induction entries with
  | nil =>
    rw [List.mem_singleton.1 h]
    exact .inl rfl
  | cons first rest ih =>
    rw [upsert] at h
    split at h
    · rcases List.mem_cons.1 h with rfl | h
      · exact .inl rfl
      · exact .inr (List.mem_cons_of_mem _ h)
    · rcases List.mem_cons.1 h with rfl | h
      · exact .inr List.mem_cons_self
      · exact (ih h).imp_right (List.mem_cons_of_mem _)

/-! ## Tables -/

/-- Scopes as plain tables from names to bindings. -/
structure Tables where
  size : Nat
  /-- The scopes above a scope, nearest first. -/
  above : ScopeId → List ScopeId
  /-- The link from a scope to its global scope; a global scope has none. -/
  global? : ScopeId → Option ScopeId
  binding? : ScopeId → String → Option Binding

namespace Tables

def empty : Tables := ⟨0, fun _ => [], fun _ => none, fun _ _ => none⟩

/-! ### Reading -/

def globalOf (t : Tables) (id : ScopeId) : ScopeId :=
  (t.global? id).getD id

def isGlobal (t : Tables) (id : ScopeId) : Bool :=
  (t.global? id).isNone

def containsLocal (t : Tables) (id : ScopeId) (name : String) : Bool :=
  (t.binding? id name).isSome

def getLocal? (t : Tables) (id : ScopeId) (name : String) : Option Value :=
  (t.binding? id name).map (·.value)

/-- The scope itself if it binds the name, or else the nearest one above where it is not `LOCAL`. -/
def owner? (t : Tables) (id : ScopeId) (name : String) : Option ScopeId :=
  if t.containsLocal id name then some id
  else (t.above id).find? fun higher => (t.binding? higher name).any (·.visibility ≠ .loc)

def get? (t : Tables) (id : ScopeId) (name : String) : Option Value :=
  (t.owner? id name).bind (t.getLocal? · name)

/-! ### Writing -/

/-- Replaces or adds one binding of a scope that exists. -/
def put (t : Tables) (id : ScopeId) (name : String) (b : Binding) : Tables :=
  { t with binding? := fun id' name' =>
      if id = id' ∧ name = name' ∧ id < t.size then some b else t.binding? id' name' }

def set (t : Tables) (id : ScopeId) (name : String) (visibility : Visibility) (v : Value) :
    Tables :=
  t.put (if visibility = .pub then t.globalOf id else id) name ⟨visibility, v⟩

def replaceLocal (t : Tables) (id : ScopeId) (name : String) (v : Value) : Tables :=
  match t.binding? id name with
  | some old => t.put id name ⟨old.visibility, v⟩
  | none => t

def assign (t : Tables) (id : ScopeId) (name : String) (v : Value) : Tables :=
  match t.owner? id name with
  | some owner => t.replaceLocal owner name v
  | none => t.set id name .priv v

def declareFunction (t : Tables) (id : ScopeId) (routine : Routine) : Tables :=
  t.put id routine.name.name ⟨.priv, .function routine id⟩

/-! ### New scopes -/

/-- Adds a scope without names. -/
def push (t : Tables) (above : List ScopeId) (global? : Option ScopeId) : Tables :=
  { t with
    size := t.size + 1
    above := fun id => if id = t.size then above else t.above id
    global? := fun id => if id = t.size then global? else t.global? id }

/-- A scope that does not exist can have nothing below it. -/
def newCallScope (t : Tables) (home : ScopeId) : Tables :=
  t.push (if home < t.size then home :: t.above home else []) (some (t.globalOf home))

def newGlobal (t : Tables) : Tables :=
  [Native.len, Native.type].foldl (fun new n => new.set t.size n.name .pub (.native n))
    (t.push [] none)

end Tables

namespace Store

/-- An operation on scopes. -/
inductive Op where
  | newGlobal
  | newCallScope (home : ScopeId)
  | set (id : ScopeId) (name : String) (visibility : Visibility) (v : Value)
  | assign (id : ScopeId) (name : String) (v : Value)
  | replaceLocal (id : ScopeId) (name : String) (v : Value)
  | declareFunction (id : ScopeId) (routine : Routine)

def apply (σ : Store) : Op → Store
  | .newGlobal => σ.newGlobal.2
  | .newCallScope home => (σ.newCallScope home).2
  | .set id name visibility v => σ.set id name visibility v
  | .assign id name v => σ.assign id name v
  | .replaceLocal id name v => σ.replaceLocal id name v
  | .declareFunction id routine => σ.declareFunction id routine

/-- The store after some operations. -/
def after (σ : Store) (ops : List Op) : Store :=
  ops.foldl apply σ

end Store

namespace Tables

def apply (t : Tables) : Store.Op → Tables
  | .newGlobal => t.newGlobal
  | .newCallScope home => t.newCallScope home
  | .set id name visibility v => t.set id name visibility v
  | .assign id name v => t.assign id name v
  | .replaceLocal id name v => t.replaceLocal id name v
  | .declareFunction id routine => t.declareFunction id routine

/-- The tables after some operations. -/
def after (t : Tables) (ops : List Store.Op) : Tables :=
  ops.foldl apply t

end Tables

namespace Store

variable {σ τ : Store} {id : ScopeId} {name : String} {b : Binding} {v : Value} {s : Scope}

/-! ## The tables of a store -/

/-- The scopes above the scope `id`, nearest first, as far as each is older than the one below it.
-/
def ancestors (σ : Store) (id : ScopeId) : List ScopeId :=
  match σ.parent? id with
  | none => []
  | some parent => if parent < id then parent :: σ.ancestors parent else []
termination_by id

/-- The tables that the store stands for. -/
def tables (σ : Store) : Tables :=
  ⟨σ.scopes.size, σ.ancestors, σ.global?, σ.binding?⟩

/-- A scope without a parent has no ancestors. -/
theorem ancestors_of_none (h : σ.parent? id = none) : σ.ancestors id = [] := by
  rw [ancestors, h]

theorem tables_empty : empty.tables = .empty := by
  have habove : empty.ancestors = fun _ => [] := by
    funext id
    apply ancestors_of_none
    simp [parent?, empty]
  have hglobal : empty.global? = fun _ => none := by
    funext id
    simp [global?, empty]
  have hbinding : empty.binding? = fun _ _ => none := by
    funext id name
    simp [binding?, entry?, empty]
  rw [tables, habove, hglobal, hbinding]
  rfl

/-! ### Reading -/

/-- The search from parent to parent is a search in the list of ancestors. -/
theorem inheritedOwner?_ancestors (σ : Store) (id : ScopeId) (name : String) :
    σ.inheritedOwner? id name = (σ.ancestors id).find? (σ.Shows name) := by
  fun_induction inheritedOwner? σ id name with
  | case1 id hp => rw [ancestors_of_none hp, List.find?_nil]
  | case2 id parent hp hlt hin =>
    rw [isInherited_eq] at hin
    have hshows : σ.Shows name parent = true := hin
    rw [ancestors, hp]
    simp [hlt, hshows]
  | case3 id parent hp hlt hin ih =>
    rw [isInherited_eq] at hin
    have hshows : ¬ σ.Shows name parent = true := hin
    rw [ancestors, hp]
    simp [hlt, hshows, ih]
  | case4 id parent hp hlt =>
    rw [ancestors, hp]
    simp [hlt]

/-- The tables find the same owner of a name as the chain of scopes. -/
theorem owner?_tables (σ : Store) (id : ScopeId) (name : String) :
    σ.tables.owner? id name = σ.owner? id name := by
  rw [owner?, containsLocal_eq, inheritedOwner?_ancestors]
  rfl

/-- The tables give a name the same value as the chain of scopes. -/
theorem get?_tables (σ : Store) (id : ScopeId) (name : String) :
    σ.tables.get? id name = σ.get? id name := by
  rw [Tables.get?, owner?_tables, get?_eq]
  rfl

/-- A store and tables give the same answers. -/
structure Agrees (σ : Store) (t : Tables) : Prop where
  size : t.size = σ.scopes.size
  globalOf : ∀ id, t.globalOf id = σ.globalOf id
  isGlobal : ∀ id, t.isGlobal id = σ.isGlobal id
  binding? : ∀ id name, t.binding? id name = σ.binding? id name
  containsLocal : ∀ id name, t.containsLocal id name = σ.containsLocal id name
  getLocal? : ∀ id name, t.getLocal? id name = σ.getLocal? id name
  owner? : ∀ id name, t.owner? id name = σ.owner? id name
  get? : ∀ id name, t.get? id name = σ.get? id name

theorem agrees_tables (σ : Store) : σ.Agrees σ.tables where
  size := rfl
  globalOf id := (globalOf_eq σ id).symm
  isGlobal _ := rfl
  binding? _ _ := rfl
  containsLocal id name := (containsLocal_eq σ id name).symm
  getLocal? id name := (getLocal?_eq σ id name).symm
  owner? := owner?_tables σ
  get? := get?_tables σ

/-! ### Writing -/

/-- The ancestors of a scope depend on the parents only. -/
theorem ancestors_congr (hparent : ∀ id, τ.parent? id = σ.parent? id) (id : ScopeId) :
    τ.ancestors id = σ.ancestors id := by
  fun_induction ancestors σ id with
  | case1 id hp => rw [ancestors_of_none (hparent id ▸ hp)]
  | case2 id parent hp hlt ih => rw [ancestors, hparent, hp, ← ih]; simp [hlt]
  | case3 id parent hp hlt => rw [ancestors, hparent, hp]; simp [hlt]

/-- A binding that is put in the store is put in the tables. -/
theorem tables_put (σ : Store) (id : ScopeId) (name : String) (b : Binding) :
    (σ.put id name b).tables = σ.tables.put id name b := by
  have habove : (σ.put id name b).ancestors = σ.ancestors :=
    funext (ancestors_congr fun _ => parent?_put)
  have hglobal : (σ.put id name b).global? = σ.global? := funext fun _ => global?_put
  have hbinding : (σ.put id name b).binding? = (σ.tables.put id name b).binding? :=
    funext fun _ => funext fun _ => binding?_put
  rw [tables, size_put, habove, hglobal, hbinding]
  rfl

theorem tables_set (σ : Store) (id : ScopeId) (name : String) (visibility : Visibility)
    (v : Value) : (σ.set id name visibility v).tables = σ.tables.set id name visibility v := by
  rw [set_eq, tables_put, globalOf_eq]
  rfl

theorem tables_declareFunction (σ : Store) (id : ScopeId) (routine : Routine) :
    (σ.declareFunction id routine).tables = σ.tables.declareFunction id routine := by
  rw [declareFunction_eq, tables_put]
  rfl

theorem tables_replaceLocal (σ : Store) (id : ScopeId) (name : String) (v : Value) :
    (σ.replaceLocal id name v).tables = σ.tables.replaceLocal id name v := by
  have hbinding : σ.tables.binding? id name = σ.binding? id name := rfl
  rw [Tables.replaceLocal, hbinding]
  cases hb : σ.binding? id name with
  | none => rw [replaceLocal_of_none hb]
  | some b => rw [replaceLocal_of_some hb, tables_put]

theorem tables_assign (σ : Store) (id : ScopeId) (name : String) (v : Value) :
    (σ.assign id name v).tables = σ.tables.assign id name v := by
  rw [assign, Tables.assign, owner?_tables]
  cases σ.owner? id name with
  | none => exact tables_set σ id name .priv v
  | some owner => exact tables_replaceLocal σ owner name v

/-! ### New scopes -/

/-- The scopes that were there before do not notice a new one. -/
theorem ancestors_push_of_ne (hid : id ≠ σ.scopes.size) :
    (σ.push s).2.ancestors id = σ.ancestors id := by
  fun_induction ancestors σ id with
  | case1 id hp =>
    apply ancestors_of_none
    rw [parent?_push, if_neg hid, hp]
  | case2 id parent hp hlt ih =>
    have hparent : parent ≠ σ.scopes.size := Nat.ne_of_lt (Nat.lt_trans hlt (lt_of_parent? hp))
    rw [ancestors, parent?_push, if_neg hid, hp, ← ih hparent]
    simp [hlt]
  | case3 id parent hp hlt =>
    rw [ancestors, parent?_push, if_neg hid, hp]
    simp [hlt]

/-- A new scope is a new row of the tables, which lists its ancestors. -/
theorem tables_push (hs : s.entries = []) : (σ.push s).2.tables =
    σ.tables.push ((σ.push s).2.ancestors σ.scopes.size) s.global := by
  have habove : (σ.push s).2.ancestors = fun id =>
      if id = σ.scopes.size then (σ.push s).2.ancestors σ.scopes.size else σ.ancestors id := by
    funext id
    by_cases hid : id = σ.scopes.size
    · rw [if_pos hid, hid]
    · rw [if_neg hid, ancestors_push_of_ne hid]
  have hglobal : (σ.push s).2.global? = fun id =>
      if id = σ.scopes.size then s.global else σ.global? id := funext fun _ => global?_push
  have hbinding : (σ.push s).2.binding? = σ.binding? :=
    funext fun _ => funext fun _ => binding?_push hs
  rw [tables, size_push, hglobal, hbinding]
  exact congrArg (Tables.mk _ · _ _) habove

theorem tables_newCallScope (σ : Store) (home : ScopeId) :
    (σ.newCallScope home).2.tables = σ.tables.newCallScope home := by
  have habove : (σ.newCallScope home).2.ancestors σ.scopes.size =
      if home < σ.scopes.size then home :: σ.ancestors home else [] := by
    rw [newCallScope, ancestors, parent?_push, if_pos rfl]
    by_cases hhome : home < σ.scopes.size
    · simp [hhome, ancestors_push_of_ne (Nat.ne_of_lt hhome)]
    · simp [hhome]
  rw [newCallScope] at habove ⊢
  rw [tables_push rfl, habove, globalOf_eq]
  rfl

theorem tables_newGlobal (σ : Store) : σ.newGlobal.2.tables = σ.tables.newGlobal := by
  have hpush : (σ.push ⟨[], none, none⟩).2.tables = σ.tables.push [] none := by
    rw [tables_push rfl, ancestors_of_none]
    rw [parent?_push, if_pos rfl]
  rw [newGlobal, Tables.newGlobal]
  simp only [List.foldl_cons, List.foldl_nil, tables_set, hpush]
  rfl

/-! ### All operations -/

/-- Every operation on the store is the same operation on its tables. -/
theorem tables_apply (σ : Store) (op : Op) : (σ.apply op).tables = σ.tables.apply op := by
  cases op with
  | newGlobal => exact tables_newGlobal σ
  | newCallScope home => exact tables_newCallScope σ home
  | set id name visibility v => exact tables_set σ id name visibility v
  | assign id name v => exact tables_assign σ id name v
  | replaceLocal id name v => exact tables_replaceLocal σ id name v
  | declareFunction id routine => exact tables_declareFunction σ id routine

/-- The tables follow the store along any operations. -/
theorem tables_after (σ : Store) (ops : List Op) : (σ.after ops).tables = σ.tables.after ops := by
  induction ops generalizing σ with
  | nil => rfl
  | cons op ops ih => exact (ih (σ.apply op)).trans (by rw [tables_apply]; rfl)

theorem after_append (σ : Store) (ops more : List Op) :
    σ.after (ops ++ more) = (σ.after ops).after more :=
  List.foldl_append

/-- Every step of the store is one of the operations. -/
theorem Step.exists_op (h : Step σ τ) : ∃ op, τ = σ.apply op := by
  cases h with
  | newGlobal => exact ⟨.newGlobal, rfl⟩
  | newCallScope hh => exact ⟨.newCallScope _, rfl⟩
  | set id name visibility hv => exact ⟨.set id name visibility _, rfl⟩
  | assign id name hv => exact ⟨.assign id name _, rfl⟩
  | replaceLocal id name hv => exact ⟨.replaceLocal id name _, rfl⟩
  | declareFunction id routine => exact ⟨.declareFunction id routine, rfl⟩

/-- A store that another one leads to is the result of operations on it. -/
theorem Leads.exists_after (h : σ.Leads τ) : ∃ ops, τ = σ.after ops := by
  induction h with
  | refl => exact ⟨[], rfl⟩
  | tail _ hstep ih =>
    obtain ⟨ops, rfl⟩ := ih
    obtain ⟨op, rfl⟩ := hstep.exists_op
    exact ⟨ops ++ [op], (after_append σ ops [op]).symm⟩

/-! ## What scopes keep -/

/-- No scope keeps a function that was declared in it as a plain value. -/
def Canonical (σ : Store) : Prop :=
  ∀ (id : ScopeId) (s : Scope), σ.scopes[id]? = some s → ∀ pair ∈ s.entries, ∀ routine,
    pair.2.slot ≠ .value (.function routine id)

theorem canonical_empty : empty.Canonical := by
  intro id s hs
  simp [empty] at hs

namespace Canonical

/-- A function that is put in its own scope is kept without its home. -/
theorem put (h : σ.Canonical) : (σ.put id name b).Canonical := by
  intro id' s hs pair hpair routine
  rw [getElem?_put] at hs
  split at hs
  · next heq =>
    subst heq
    obtain ⟨old, hold, rfl⟩ := Option.map_eq_some_iff.1 hs
    rcases Scope.mem_upsert hpair with hentry | hmem
    · rw [hentry]
      exact Slot.ofValue_ne id b.value routine
    · exact h id old hold pair hmem routine
  · exact h id' s hs pair hpair routine

theorem set (h : σ.Canonical) (visibility : Visibility) :
    (σ.set id name visibility v).Canonical := by
  rw [set_eq]
  exact h.put

theorem replaceLocal (h : σ.Canonical) : (σ.replaceLocal id name v).Canonical := by
  cases hb : σ.binding? id name with
  | none =>
    rw [replaceLocal_of_none hb]
    exact h
  | some b =>
    rw [replaceLocal_of_some hb]
    exact h.put

theorem push (h : σ.Canonical) (hs : s.entries = []) : (σ.push s).2.Canonical := by
  intro id s' hs' pair hpair routine
  rw [getElem?_push] at hs'
  split at hs'
  · cases hs'
    rw [hs] at hpair
    cases hpair
  · exact h id s' hs' pair hpair routine

theorem apply (h : σ.Canonical) (op : Op) : (σ.apply op).Canonical := by
  cases op with
  | newGlobal => exact ((h.push rfl).set .pub).set .pub
  | newCallScope home => exact h.push rfl
  | set id name visibility v => exact h.set visibility
  | assign id name v =>
    rw [Store.apply, Store.assign]
    split
    · exact h.replaceLocal
    · exact h.set .priv
  | replaceLocal id name v => exact h.replaceLocal
  | declareFunction id routine =>
    rw [Store.apply, declareFunction_eq]
    exact h.put

/-- Operations lead from canonical stores to canonical stores. -/
theorem after (h : σ.Canonical) (ops : List Op) : (σ.after ops).Canonical := by
  induction ops generalizing σ with
  | nil => exact h
  | cons op ops ih => exact ih (h.apply op)

end Canonical

end Store

/-! ## Runs -/

namespace Eval

variable {α β : Type}

/-- The evaluation depends on nothing but the tables: from two stores with the same tables it comes
to the same result, the same output and the same tables again. -/
def ReadsTables (x : Eval α) : Prop :=
  ∀ m m' : Machine, m'.store.tables = m.store.tables → m'.output = m.output →
    (x m').1 = (x m).1 ∧ (x m').2.store.tables = (x m).2.store.tables ∧
      (x m').2.output = (x m).2.output

namespace ReadsTables

/-- Computations that read the tables only, one after the other. -/
theorem bind {x : Eval α} {f : α → Eval β} (hx : ReadsTables x) (hf : ∀ a, ReadsTables (f a)) :
    ReadsTables (x >>= f) := by
  intro m m' htables houtput
  obtain ⟨hresult, htables', houtput'⟩ := hx m m' htables houtput
  rcases hrun : x m with ⟨a | e | _, m₁⟩
  all_goals
    rcases hrun' : x m' with ⟨r, m₁'⟩
    rw [hrun, hrun'] at hresult htables' houtput'
    cases hresult
  · rw [bind_ok hrun, bind_ok hrun']
    exact hf a m₁ m₁' htables' houtput'
  · rw [bind_error hrun, bind_error hrun']
    exact ⟨rfl, htables', houtput'⟩
  · rw [bind_outOfFuel hrun, bind_outOfFuel hrun']
    exact ⟨rfl, htables', houtput'⟩

/-- An evaluation that has the same result in every store and leaves it as it is. -/
theorem of_run {x : Eval α} {r : Outcome α} (h : ∀ m, x m = (r, m)) : ReadsTables x := by
  intro m m' htables houtput
  rw [h, h]
  exact ⟨rfl, htables, houtput⟩

theorem read {f : Store → α} (g : Tables → α) (h : ∀ σ : Store, f σ = g σ.tables) :
    ReadsTables (read f) := by
  intro m m' htables houtput
  refine ⟨congrArg Outcome.ok ?_, htables, houtput⟩
  rw [h, h, htables]

theorem write {f : Store → Store} (g : Tables → Tables) (h : ∀ σ, (f σ).tables = g σ.tables) :
    ReadsTables (write f) := by
  intro m m' htables houtput
  refine ⟨rfl, ?_, houtput⟩
  rw [Eval.write, Eval.write, h, h, htables]

theorem update {x : Eval Value} (scope : ScopeId) (name : String) (span whole : Span)
    (op : AssignOp) (arithmetic : BinaryOp) (hx : ReadsTables x) :
    ReadsTables (update scope name span x (compound op arithmetic whole)) := by
  have howner : ReadsTables (Eval.read (·.owner? scope name)) :=
    read (·.owner? scope name) fun σ => (σ.owner?_tables scope name).symm
  refine howner.bind fun owner? => ?_
  cases owner? with
  | none => exact of_run fun _ => rfl
  | some owner =>
    have hcurrent : ReadsTables (Eval.read (·.getLocal? owner name)) :=
      read (·.getLocal? owner name) fun σ => σ.getLocal?_eq owner name
    refine hx.bind fun v => hcurrent.bind fun current? => ?_
    cases current? with
    | none => exact of_run fun _ => rfl
    | some current =>
      obtain ⟨outcome, hrun, -⟩ := compound_run op arithmetic whole current v
      refine (of_run hrun).bind fun w => ?_
      have hwrite : ReadsTables (Eval.write (·.replaceLocal owner name w)) :=
        write (·.replaceLocal owner name w) fun σ => σ.tables_replaceLocal owner name w
      exact hwrite.bind fun _ => of_run fun _ => rfl

theorem enter (home : ScopeId) : ReadsTables (enter (·.newCallScope home)) := by
  intro m m' htables houtput
  have hsize : m'.store.scopes.size = m.store.scopes.size := congrArg Tables.size htables
  refine ⟨congrArg Outcome.ok hsize, ?_, houtput⟩
  rw [Eval.enter, Eval.enter]
  dsimp only
  rw [Store.tables_newCallScope, Store.tables_newCallScope, htables]

end ReadsTables

/-- To read the store through its tables only is a stepwise property. -/
theorem readsTables_stepwise : Stepwise (fun _ x _ => ReadsTables x) fun _ => True where
  pure _ := .of_run fun _ => rfl
  bind hx hf := hx.bind hf
  outOfFuel := .of_run fun _ => rfl
  fault _ _ := .of_run fun _ => rfl
  printLine line m m' htables houtput :=
    ⟨rfl, htables, by simp only [Eval.printLine, houtput]⟩
  get? name _ := .read (·.get? _ name) fun σ => (σ.get?_tables _ name).symm
  containsLocal name _ := .read (·.containsLocal _ name) fun σ => σ.containsLocal_eq _ name
  set name visibility _ _ := .write (·.set _ name visibility _)
    fun σ => σ.tables_set _ name visibility _
  assign name _ _ := .write (·.assign _ name _) fun σ => σ.tables_assign _ name _
  declareFunction routine _ := .write (·.declareFunction _ routine)
    fun σ => σ.tables_declareFunction _ routine
  update name span op arithmetic _ hx := hx.update _ name span _ op arithmetic
  enter _ hf := (ReadsTables.enter _).bind fun scope => hf scope trivial

/-- Every program reads the store through its tables only. -/
theorem program_readsTables (fuel : Nat) (scope : ScopeId) (p : Program) :
    ReadsTables (program fuel scope p) :=
  readsTables_stepwise.program (K := []) fuel p trivial

end Eval

namespace Store

/-- A store that can be reached is reached by operations alone. -/
theorem Reachable.leads {σ : Store} (h : σ.Reachable) : Store.empty.Leads σ := by
  induction h with
  | empty => exact .refl
  | newGlobal _ ih => exact ih.tail (.newGlobal _)
  | newCallScope _ hh ih => exact ih.tail (.newCallScope hh)
  | set id name visibility _ hv ih => exact ih.tail (.set id name visibility hv)
  | assign id name _ hv ih => exact ih.tail (.assign id name hv)
  | replaceLocal id name _ hv ih => exact ih.tail (.replaceLocal id name hv)
  | declareFunction id routine _ ih => exact ih.tail (.declareFunction _ id routine)
  | run fuel scope p output h ih =>
    exact ih.trans (Eval.program_leads fuel scope p (m := ⟨_, output⟩) h.wellFormed)

/-- How scopes keep functions makes no difference. In every store that can be reached:

* no scope keeps a function that was declared in it as a plain value;
* the store comes from some operations, and plain tables give the same answers after the same
  operations, now and after any others that follow;
* a run of a program is a sequence of operations too, and it is the same run from every store with
  the same tables. -/
theorem Reachable.transparent {σ : Store} (h : σ.Reachable) :
    σ.Canonical ∧
    (∃ ops, σ = Store.empty.after ops ∧
      ∀ more, (σ.after more).Agrees ((Tables.empty.after ops).after more)) ∧
    ∀ fuel scope p output, ∃ more,
      (Eval.program fuel scope p ⟨σ, output⟩).2.store = σ.after more ∧
      ∀ τ : Store, τ.tables = σ.tables →
        (Eval.program fuel scope p ⟨τ, output⟩).1 = (Eval.program fuel scope p ⟨σ, output⟩).1 ∧
        (Eval.program fuel scope p ⟨τ, output⟩).2.output =
          (Eval.program fuel scope p ⟨σ, output⟩).2.output ∧
        (Eval.program fuel scope p ⟨τ, output⟩).2.store.tables = σ.tables.after more := by
  obtain ⟨ops, hops⟩ := h.leads.exists_after
  refine ⟨?_, ⟨ops, hops, fun more => ?_⟩, fun fuel scope p output => ?_⟩
  · rw [hops]
    exact canonical_empty.after ops
  · have htables : (σ.after more).tables = (Tables.empty.after ops).after more := by
      rw [tables_after, hops, tables_after, tables_empty]
    rw [← htables]
    exact agrees_tables _
  · have hleads := Eval.program_leads fuel scope p (m := ⟨σ, output⟩) h.wellFormed
    obtain ⟨more, hmore⟩ := hleads.exists_after
    refine ⟨more, hmore, fun τ hτ => ?_⟩
    obtain ⟨hresult, htables, houtput⟩ :=
      Eval.program_readsTables fuel scope p ⟨σ, output⟩ ⟨τ, output⟩ hτ rfl
    refine ⟨hresult, houtput, ?_⟩
    rw [htables, hmore, tables_after]

/-- A call makes a function of its home `PUBLIC`, so the home keeps it without itself once more. -/
theorem Reachable.transparent_public :
    let routine : Routine := ⟨⟨"f", default⟩, [], default⟩
    let σ := ((Store.empty.newGlobal.2.declareFunction 0 routine).newCallScope 0).2.set 1 "g" .pub
      (.function routine 0)
    σ.Reachable ∧ (σ.entry? 0 "g").map (·.slot) = some (.declared routine) ∧ σ.Canonical ∧
    ∃ ops, σ = Store.empty.after ops ∧
      ∀ more, (σ.after more).Agrees ((Tables.empty.after ops).after more) := by
  intro routine σ
  have h : σ.Reachable := by
    refine .set 1 "g" .pub (.newCallScope (.declareFunction 0 routine (.newGlobal .empty)) ?_) ?_
    · decide
    · intro home hhome
      rw [List.mem_singleton.1 hhome]
      decide
  exact ⟨h, rfl, h.transparent.1, h.transparent.2.1⟩

end Store

end Xbase
