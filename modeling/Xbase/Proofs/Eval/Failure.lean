import Xbase.Proofs.Eval.Fuel

/-!
# What failed assignments and declarations leave behind

An assignment that fails has not written anything: the store and the output are those that its right
side leaves, or those from before if it did not come to its right side. A declaration that fails has
declared the names in front of the one whose value fails, and a function whose name is in use is not
declared at all. `Eval.failed_writes_nothing` puts these together.
-/

namespace Xbase.Eval

variable {α β : Type} {fuel : Nat} {whole : Span} {scope : ScopeId} {visibility : Visibility}
  {m m' : Machine} {err : EvalError}

/-- Of two evaluations, one after the other, the first one fails or the second one does. -/
theorem bind_eq_error {x : Eval α} {f : α → Eval β} : (x >>= f) m = (.error err, m') ↔
    x m = (.error err, m') ∨ ∃ a m₁, x m = (.ok a, m₁) ∧ f a m₁ = (.error err, m') := by
  rcases hrun : x m with ⟨a | e | _, m₁⟩
  · simp [bind_ok hrun, and_assoc]
  · simp [bind_error hrun]
  · simp [bind_outOfFuel hrun]

/-! ## Assignments -/

section

variable {op : AssignOp} {arithmetic : BinaryOp} {target value : Expr} {name : String}
  {owner : ScopeId}

/-- The second half of a compound assignment writes only if it succeeds. -/
theorem replace_error {span : Span} {v : Value}
    (h : replace owner name span (compound op arithmetic whole) v m = (.error err, m')) :
    m' = m := by
  rw [replace, read_bind] at h
  cases hcurrent : m.store.getLocal? owner name with
  | none =>
    rw [hcurrent] at h
    cases h
    rfl
  | some current =>
    rw [hcurrent] at h
    obtain ⟨outcome, hrun, -⟩ := compound_run op arithmetic whole current v
    obtain h | ⟨w, m₁, -, h⟩ := bind_eq_error.1 h
    · rw [hrun] at h
      cases h
      rfl
    · cases h

/-- An assignment without arithmetic fails only if its right side does. -/
theorem assign_simple_error (hname : target.name? = some name) (hop : op.compound? = none)
    (h : expr (fuel + 1) whole scope (.assign op target value) m = (.error err, m')) :
    expr fuel whole scope value m = (.error err, m') := by
  rw [expr_assign_simple hname hop] at h
  obtain h | ⟨v, m₁, -, h⟩ := bind_eq_error.1 h
  · exact h
  · split at h <;> cases h

/-- An assignment with arithmetic to a name that is in use leaves what its right side leaves if it
fails. -/
theorem assign_compound_error (hname : target.name? = some name)
    (hop : op.compound? = some arithmetic) (howner : m.store.owner? scope name = some owner)
    (h : expr (fuel + 1) whole scope (.assign op target value) m = (.error err, m')) :
    expr fuel whole scope value m = (.error err, m') ∨
      ∃ v, expr fuel whole scope value m = (.ok v, m') := by
  rw [expr_assign_compound hname hop, update_run, howner] at h
  obtain h | ⟨v, m₁, hvalue, h⟩ := bind_eq_error.1 h
  · exact .inl h
  · rw [replace_error h]
    exact .inr ⟨v, hvalue⟩

/-- How an assignment fails, and what it leaves behind. -/
theorem assign_error
    (h : Halts (fun fuel => expr fuel whole scope (.assign op target value)) m (.error err) m') :
    (target.name? = none ∧ err = ⟨.invalidAssignmentTarget, target.span⟩ ∧ m' = m) ∨
    ∃ name, target.name? = some name ∧
      ((op.compound?.isSome ∧ m.store.owner? scope name = none ∧
          err = ⟨.undefinedVariable name, target.span⟩ ∧ m' = m) ∨
        (op.compound?.isSome → (m.store.owner? scope name).isSome) ∧
          ∃ r, Halts (fun fuel => expr fuel whole scope value) m r m' ∧
            (r = .error err ∨ op.compound?.isSome ∧ ∃ v, r = .ok v)) := by
  obtain ⟨fuel, hrun⟩ := ((halts_succ rfl).2 h).2
  dsimp only at hrun
  cases hname : target.name? with
  | none =>
    rw [expr_assign_of_no_name hname] at hrun
    cases hrun
    exact .inl ⟨rfl, rfl, rfl⟩
  | some name =>
    refine .inr ⟨name, rfl, ?_⟩
    cases hop : op.compound? with
    | none =>
      have hvalue := assign_simple_error hname hop hrun
      exact .inr ⟨by simp, _, ⟨by simp, fuel, hvalue⟩, .inl rfl⟩
    | some arithmetic =>
      cases howner : m.store.owner? scope name with
      | none =>
        rw [compound_assign_of_none hname hop howner] at hrun
        cases hrun
        exact .inl ⟨rfl, rfl, rfl, rfl⟩
      | some owner =>
        refine .inr ⟨fun _ => rfl, ?_⟩
        obtain hvalue | ⟨v, hvalue⟩ := assign_compound_error hname hop howner hrun
        · exact ⟨_, ⟨by simp, fuel, hvalue⟩, .inl rfl⟩
        · exact ⟨_, ⟨by simp, fuel, hvalue⟩, .inr ⟨rfl, v, rfl⟩⟩

end

/-! ## Declarations -/

/-- The first value of a declared name: that of its initial expression, or else that of its type. -/
def initial (scope : ScopeId) (d : Declarator) (fuel : Nat) : Eval Value :=
  d.initial?.elim (pure (initialValue d.type?)) fun e => expr fuel e.span scope e

/-- The names are declared in order: each value is evaluated with the names in front of it already
declared. -/
inductive Declares (scope : ScopeId) (visibility : Visibility) :
    List Declarator → Machine → Machine → Prop
  | nil (m : Machine) : Declares scope visibility [] m m
  | cons {d : Declarator} {ds : List Declarator} {v : Value} {m m₁ m' : Machine}
      (hv : Halts (initial scope d) m (.ok v) m₁)
      (more : Declares scope visibility ds
        ⟨m₁.store.set scope d.name.name visibility v, m₁.output⟩ m') :
      Declares scope visibility (d :: ds) m m'

variable {d : Declarator} {ds : List Declarator}

theorem initial_grows : Grows (initial scope d) := by
  intro fuel more hle
  rw [initial, initial]
  cases d.initial? with
  | none => exact continues_congruent.pure _
  | some e => exact expr_grows e.span scope e fuel more hle

/-- Only an initial expression can fail. -/
theorem initial_error : Halts (initial scope d) m (.error err) m' ↔ ∃ e, d.initial? = some e ∧
    Halts (fun fuel => expr fuel e.span scope e) m (.error err) m' := by
  constructor
  · rintro ⟨hr, fuel, hrun⟩
    rw [initial] at hrun
    cases he : d.initial? with
    | none =>
      rw [he] at hrun
      cases hrun
    | some e =>
      rw [he] at hrun
      exact ⟨e, rfl, hr, fuel, hrun⟩
  · rintro ⟨e, he, hr, fuel, hrun⟩
    refine ⟨hr, fuel, ?_⟩
    rw [initial, he]
    exact hrun

/-- Declares a name, with the given fuel. -/
def declaration (scope : ScopeId) (visibility : Visibility) (d : Declarator) (fuel : Nat) :
    Eval Unit :=
  declare (fun e => expr fuel e.span scope e) scope visibility d

/-- Declares names in order, with the given fuel. -/
def declarations (scope : ScopeId) (visibility : Visibility) (ds : List Declarator) (fuel : Nat) :
    Eval Unit :=
  declareAll (fun e => expr fuel e.span scope e) scope visibility ds

theorem declaration_grows : Grows (declaration scope visibility d) :=
  fun fuel more hle => continues_congruent.declare
    (fun e => expr_grows e.span scope e fuel more hle) scope visibility d

theorem declarations_grows : Grows (declarations scope visibility ds) :=
  fun fuel more hle => continues_congruent.declareAll
    (fun e => expr_grows e.span scope e fuel more hle) scope visibility ds

theorem halts_write {f : Store → Store} {r : Outcome Unit} :
    Halts (fun _ => write f) m r m' ↔ r = .ok () ∧ m' = ⟨f m.store, m.output⟩ := by
  constructor
  · rintro ⟨-, fuel, hrun⟩
    cases hrun
    exact ⟨rfl, rfl⟩
  · rintro ⟨rfl, rfl⟩
    exact ⟨by simp, 0, rfl⟩

theorem halts_declaration {r : Outcome Unit} : Halts (declaration scope visibility d) m r m' ↔
    (∃ e, r = .error e ∧ Halts (initial scope d) m (.error e) m') ∨
      ∃ v m₁, Halts (initial scope d) m (.ok v) m₁ ∧
        r = .ok () ∧ m' = ⟨m₁.store.set scope d.name.name visibility v, m₁.output⟩ := by
  have heq : declaration scope visibility d = fun fuel => (do
      let v ← initial scope d fuel
      write (·.set scope d.name.name visibility v)) := rfl
  have hwrite (v : Value) : Grows fun _ => write (·.set scope d.name.name visibility v) :=
    fun _ _ _ => continues_congruent.write _
  rw [heq, halts_bind initial_grows hwrite]
  simp only [halts_write]

theorem declaration_ok : Halts (declaration scope visibility d) m (.ok ()) m' ↔
    ∃ v m₁, Halts (initial scope d) m (.ok v) m₁ ∧
      m' = ⟨m₁.store.set scope d.name.name visibility v, m₁.output⟩ := by
  simp [halts_declaration]

/-- A declaration of one name fails where its value fails. -/
theorem declaration_error : Halts (declaration scope visibility d) m (.error err) m' ↔
    ∃ e, d.initial? = some e ∧
      Halts (fun fuel => expr fuel e.span scope e) m (.error err) m' := by
  simp [halts_declaration, initial_error]

/-- A declaration of several names fails where the value of one of them fails. The names in front of
it are declared then, and the others are not. -/
theorem declarations_error : Halts (declarations scope visibility ds) m (.error err) m' ↔
    ∃ before d after e m₁, ds = before ++ d :: after ∧ d.initial? = some e ∧
      Declares scope visibility before m m₁ ∧
      Halts (fun fuel => expr fuel e.span scope e) m₁ (.error err) m' := by
  induction ds generalizing m with
  | nil =>
    constructor
    · rintro ⟨-, fuel, hrun⟩
      cases hrun
    · rintro ⟨before, d, after, e, m₁, heq, -⟩
      simp at heq
  | cons d ds ih =>
    have hcons : declarations scope visibility (d :: ds) = fun fuel => (do
        declaration scope visibility d fuel
        declarations scope visibility ds fuel) := rfl
    rw [hcons, halts_bind declaration_grows fun _ => declarations_grows]
    constructor
    · rintro (⟨_, heq, hfails⟩ | ⟨⟨⟩, m₁, hd, hmore⟩)
      · cases heq
        obtain ⟨e, he, hfails⟩ := declaration_error.1 hfails
        exact ⟨[], d, ds, e, m, rfl, he, .nil m, hfails⟩
      · obtain ⟨v, m₀, hv, rfl⟩ := declaration_ok.1 hd
        obtain ⟨before, d', after, e, m₂, rfl, he, hbefore, hfails⟩ := ih.1 hmore
        exact ⟨d :: before, d', after, e, m₂, rfl, he, .cons hv hbefore, hfails⟩
    · rintro ⟨before, d', after, e, m₂, heq, he, hbefore, hfails⟩
      cases hbefore with
      | nil =>
        cases heq
        exact .inl ⟨err, rfl, declaration_error.2 ⟨e, he, hfails⟩⟩
      | cons hv hmore =>
        cases heq
        exact .inr ⟨(), _, declaration_ok.2 ⟨_, _, hv, rfl⟩,
          ih.2 ⟨_, d', after, e, m₂, rfl, he, hmore, hfails⟩⟩

/-! ## Statements -/

/-- A statement without a value fails where what it does fails. -/
theorem halts_next_error {x : Nat → Eval Unit} (hx : Grows x) :
    Halts (fun fuel => (do x fuel; return .next .none : Eval Flow)) m (.error err) m' ↔
      Halts x m (.error err) m' := by
  have hnext : Grows fun _ => (return .next .none : Eval Flow) :=
    fun _ _ _ => continues_congruent.pure _
  rw [halts_bind hx fun _ => hnext]
  simp [halts_pure]

theorem statement_declare_error :
    Halts (fun fuel => statement fuel scope (.declare visibility d)) m (.error err) m' ↔
      Halts (declaration scope visibility d) m (.error err) m' := by
  rw [← halts_succ rfl]
  exact halts_next_error declaration_grows

theorem statement_declareAll_error {grouped : Bool} :
    Halts (fun fuel => statement fuel scope (.declareAll visibility ds grouped)) m (.error err) m' ↔
      Halts (declarations scope visibility ds) m (.error err) m' := by
  rw [← halts_succ rfl]
  exact halts_next_error declarations_grows

theorem declareFunction_error (routine : Routine) :
    declareFunction scope routine m = (.error err, m') ↔
      m.store.containsLocal scope routine.name.name = true ∧
        err = ⟨.nameInUse routine.name.name, routine.name.span⟩ ∧ m' = m := by
  rw [declareFunction, read_bind]
  by_cases hbound : m.store.containsLocal scope routine.name.name = true
  · simp [hbound, fault, eq_comm]
  · simp [hbound, write]

/-- The declaration of a function fails where its name is in use, and then it does nothing. -/
theorem statement_function_error {name : Ident} {params : List Ident} {body : Block} :
    Halts (fun fuel => statement fuel scope (.function name params body)) m (.error err) m' ↔
      m.store.containsLocal scope name.name = true ∧
        err = ⟨.nameInUse name.name, name.span⟩ ∧ m' = m := by
  have hgrows : Grows fun _ => declareFunction scope ⟨name, params, body⟩ :=
    fun _ _ _ => continues_congruent.refl
      (appends_stepwise.declareNewFunction (K := []) trivial ⟨name, params, body⟩)
  rw [← halts_succ rfl]
  refine (halts_next_error hgrows).trans ?_
  rw [← declareFunction_error ⟨name, params, body⟩]
  exact ⟨fun ⟨_, _, hrun⟩ => hrun, fun hrun => ⟨by simp, 0, hrun⟩⟩

/-- An assignment or declaration that fails, in any scope of any store, writes nothing of its own:

* a failed assignment leaves what it found if its target is no name or if there is nothing to
  combine its value with, and otherwise what its right side leaves, which may have failed itself;
* a declaration of one name fails if its value fails, and leaves what that leaves;
* a declaration of several names fails if the value of one of them fails, and leaves what that
  leaves after the names in front of it were declared in order;
* the declaration of a function fails if its name is in use, and leaves what it found. -/
theorem failed_writes_nothing (scope : ScopeId) (m : Machine) (err : EvalError) (m' : Machine) :
    (∀ whole op target value,
      Halts (fun fuel => expr fuel whole scope (.assign op target value)) m (.error err) m' →
        (target.name? = none ∧ err = ⟨.invalidAssignmentTarget, target.span⟩ ∧ m' = m) ∨
        ∃ name, target.name? = some name ∧
          ((op.compound?.isSome ∧ m.store.owner? scope name = none ∧
              err = ⟨.undefinedVariable name, target.span⟩ ∧ m' = m) ∨
            (op.compound?.isSome → (m.store.owner? scope name).isSome) ∧
              ∃ r, Halts (fun fuel => expr fuel whole scope value) m r m' ∧
                (r = .error err ∨ op.compound?.isSome ∧ ∃ v, r = .ok v))) ∧
    (∀ visibility d,
      Halts (fun fuel => statement fuel scope (.declare visibility d)) m (.error err) m' ↔
        ∃ e, d.initial? = some e ∧
          Halts (fun fuel => expr fuel e.span scope e) m (.error err) m') ∧
    (∀ visibility ds grouped,
      Halts (fun fuel => statement fuel scope (.declareAll visibility ds grouped)) m (.error err)
          m' ↔
        ∃ before d after e m₁, ds = before ++ d :: after ∧ d.initial? = some e ∧
          Declares scope visibility before m m₁ ∧
          Halts (fun fuel => expr fuel e.span scope e) m₁ (.error err) m') ∧
    ∀ name params body,
      Halts (fun fuel => statement fuel scope (.function name params body)) m (.error err) m' ↔
        m.store.containsLocal scope name.name = true ∧
          err = ⟨.nameInUse name.name, name.span⟩ ∧ m' = m :=
  ⟨fun _ _ _ _ => assign_error, fun _ _ => statement_declare_error.trans declaration_error,
    fun _ _ _ => statement_declareAll_error.trans declarations_error,
    fun _ _ _ => statement_function_error⟩

/-- Texts cannot be multiplied, so this assignment fails after its right side assigned to the same
name. -/
theorem failed_writes_nothing_multiply :
    let σ := Store.empty.newGlobal.2.set 0 "x" .loc (.string "a")
    let target : Expr := .atom (.name "x") default
    let value : Expr := .assign .assign target (.atom (.string "b") default)
    let m' : Machine := ⟨σ.assign 0 "x" (.string "b"), ""⟩
    let err : EvalError := ⟨.unsupportedOperator "*" .character, default⟩
    Halts (fun fuel => expr fuel default 0 (.assign .multiply target value)) ⟨σ, ""⟩ (.error err)
      m' ∧
    ((target.name? = none ∧ err = ⟨.invalidAssignmentTarget, target.span⟩ ∧ m' = ⟨σ, ""⟩) ∨
      ∃ name, target.name? = some name ∧
        ((AssignOp.multiply.compound?.isSome ∧ σ.owner? 0 name = none ∧
            err = ⟨.undefinedVariable name, target.span⟩ ∧ m' = ⟨σ, ""⟩) ∨
          (AssignOp.multiply.compound?.isSome → (σ.owner? 0 name).isSome) ∧
            ∃ r, Halts (fun fuel => expr fuel default 0 value) ⟨σ, ""⟩ r m' ∧
              (r = .error err ∨ AssignOp.multiply.compound?.isSome ∧ ∃ v, r = .ok v))) := by
  intro σ target value m' err
  have h : Halts (fun fuel => expr fuel default 0 (.assign .multiply target value)) ⟨σ, ""⟩
      (.error err) m' :=
    ⟨by simp, 3, rfl⟩
  exact ⟨h, (failed_writes_nothing 0 ⟨σ, ""⟩ err m').1 default .multiply target value h⟩

end Xbase.Eval
