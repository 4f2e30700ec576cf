import Xbase.Parser.Statement
import Xbase.Proofs.Grammar.Statement
import Xbase.Proofs.Parser.Expr

/-!
# The parser of statements reads the grammar

* `Parser.statements_silent`: statements that are read without an error are those of the grammar;
* `Grammar.Stmts.runs`: statements of the grammar are read without an error, as they are.

As with expressions, the depth of the recursion is never the reason for a failure.
-/

namespace Xbase

open Grammar

namespace Parser

variable {α : Type} {s : ParseState}

-- The rules of the compound statements are long sequences.
set_option synthInstance.maxSize 1000

/-! ## Reading only goes forward -/

instance : Forward ident := by
  unfold ident
  infer_instance

theorem typeOf_forward (x : Ident) : Forward (match DeclaredType.ofName? x.name with
    | some t => pure (some t)
    | none => failWith (.unknownType x.name)) := by
  split <;> infer_instance

instance : Forward typeClause := by
  have := typeOf_forward
  unfold typeClause
  infer_instance

instance : Forward declarator := by
  unfold declarator
  infer_instance

instance : Forward looseDeclarator := by
  unfold looseDeclarator
  infer_instance

theorem declared_forward (v : Visibility) (ds : List Declarator) : Forward (match ds with
    | [d] => pure (Statement.declare v d)
    | ds => pure (Statement.declareAll v ds false)) := by
  split <;> infer_instance

instance (v : Visibility) : Forward (declaration v) := by
  have := declared_forward v
  unfold declaration
  infer_instance

instance : Forward parameters := by
  unfold parameters
  infer_instance

instance : Forward returnStatement := by
  unfold returnStatement
  infer_instance

instance : Forward printStatement := by
  unfold printStatement
  infer_instance

instance : Forward endCase := by
  unfold endCase
  infer_instance

instance (body : Parser Block) [Forward body] : Forward (whileLoop body) := by
  unfold whileLoop
  infer_instance

/-- Statements, blocks and cases are read forward, at any depth. -/
theorem statement_forward (d : Nat) :
    Forward (statement d) ∧ (∀ ends, Forward (statements d ends)) ∧ Forward (cases d) := by
  induction d with
  | zero => exact ⟨.fail, fun _ => .fail, .fail⟩
  | succ d ih =>
    obtain ⟨ihStatement, ihStatements, ihCases⟩ := ih
    refine ⟨?_, fun ends => ?_, ?_⟩
    · unfold statement
      refine @Forward.bind _ _ _ _ inferInstance fun t => ?_
      split <;> try infer_instance
      refine @Forward.bind _ _ _ _ inferInstance fun t' => ?_
      split <;> infer_instance
    · unfold statements
      refine @Forward.bind _ _ _ _ inferInstance fun t => @Forward.ite _ _ _ _ _ inferInstance ?_
      refine @Forward.bind _ _ _ _ inferInstance fun first => ?_
      split <;> infer_instance
    · unfold cases
      infer_instance

instance (d : Nat) : Forward (statement d) := (statement_forward d).1

instance (d : Nat) (ends : List Keyword) : Forward (statements d ends) :=
  (statement_forward d).2.1 ends

instance (d : Nat) : Forward (cases d) := (statement_forward d).2.2

theorem statementsFrom_forward (d : Nat) (ends : List Keyword) (first? : Option Statement) :
    Forward (match first? with
      | some first => (eat .newline >>= fun _ => statements d ends >>= fun more =>
          pure (first :: more) : Parser Block)
      | none => skipLine >>= fun _ => eat .newline >>= fun _ => statements d ends) := by
  split <;> infer_instance

instance program_forward : Forward program :=
  .of_state (f := fun s => statements s.budget []) fun _ => inferInstance

/-! ## What is read without an error is in the grammar -/

theorem isOneOf_iff {ends : List Keyword} {k : Kind} :
    isOneOf ends k = true ↔ ∃ w ∈ ends, k = .keyword w := by
  simp only [isOneOf, List.any_eq_true, decide_eq_true_eq]
  exact exists_congr fun _ => and_congr_right fun _ => eq_comm

theorem endsStatement_iff {k : Kind} : endsStatement k = true ↔ EndsHere k := by
  simp [endsStatement, EndsHere, isOneOf_iff, closers, blockEnds, or_assoc]

/-- The tokens behind all line breaks in front are found by taking these off. -/
theorem newlines_dropWhile (ts : List Token) :
    Newlines ts (ts.dropWhile (·.kind = .newline)) := by
  induction ts with
  | nil => exact .none
  | cons t ts ih =>
    rw [List.dropWhile_cons]
    split
    · next ht => exact .more (by simpa using ht) ih
    · exact .none

/-- A list with commas is decided if its members are. -/
theorem commaSeparated_decides {item : Parser α} {R : List Token → α → List Token → Prop}
    (hitem : ∀ s : ParseState, s.Closed → Decides item s (R s.rest)) (hs : s.Closed) :
    Decides (commaSeparated item) s (CommaList R s.rest) :=
  commaList_decides (n := s.rest.length) (fun s hs _ => hitem s hs) s.budget s hs (Nat.le_refl _)
    (by unfold ParseState.budget; omega)

theorem expression_phrase (s : ParseState) (hs : s.Closed) :
    Decides expression s (Phrase 1 s.rest) :=
  (expression_decides hs).mono fun _ _ _ h => h.1

theorem ident_decides (s : ParseState) (hs : s.Closed) : Decides ident s (Name s.rest) := by
  have hname : Decides expectName s fun t after => s.rest = t :: after ∧ t.kind = .name := by
    by_cases h : headKind s.rest = .name
    · obtain ⟨t, ts, hr, ht⟩ := exists_cons_of_headKind h (by decide)
      exact .of_run (expectName_of_cons hr ht) (suffix_of_cons hr) ⟨hr, ht⟩
    · have hrun : expectName s = (none, s.record (.nonIdentifier s.current.kind)) := by
        rw [expectName_run, if_neg (by rwa [ParseState.current_kind hs])]
      exact .of_record hrun
  refine hname.bind fun t after _ ht => .pure ?_
  rw [ht.1]
  exact .mk ht.2

theorem typeClause_decides (s : ParseState) (hs : s.Closed) :
    Decides typeClause s (TypeClause s.rest) := by
  refine Decides.eat hs (by decide) (fun t ts hr ht => ?_) fun _ => .pure .absent
  refine (ident_decides { s with rest := ts } hs).bind fun x after _ hx => ?_
  split
  · next type htype =>
    refine .pure ?_
    rw [hr]
    exact .present ht hx htype
  · exact .of_record (failWith_run _ _)

/-- What is read without an error as a declarator is one. -/
theorem declarator_decides (s : ParseState) (hs : s.Closed) :
    Decides declarator s (Decl (Phrase 1) s.rest) := by
  refine (ident_decides s hs).bind fun x m₁ _ hx => ?_
  refine (typeClause_decides { s with rest := m₁ } hs).bind fun type? m₂ _ htype => ?_
  refine Decides.eat hs (by decide) (fun t ts hr ht => ?_) fun _ => .pure (.mk hx htype .absent)
  obtain rfl : m₂ = t :: ts := hr
  exact (expression_phrase { s with rest := ts } hs).bind fun e after _ he =>
    .pure (.mk hx htype (.present ht he))

theorem looseDeclarator_decides (s : ParseState) (hs : s.Closed) :
    Decides looseDeclarator s (LooseDecl (Phrase 1) s.rest) := by
  have skip (s : ParseState) : Decides skipNewlines s fun _ after => Newlines s.rest after :=
    .of_run rfl (List.dropWhile_suffix _) (newlines_dropWhile _)
  refine (skip s).bind fun _ m₁ _ h₁ => ?_
  refine (declarator_decides { s with rest := m₁ } hs).bind fun d m₂ _ hd => ?_
  exact (skip { s with rest := m₂ }).bind fun _ after _ h₂ => .pure (.mk h₁ hd h₂)

/-- What is read without an error as a declaration is one, in any of its three forms. -/
theorem declaration_decides {v : Visibility} (hs : s.Closed)
    (hk : s.current.kind = .keyword v.keyword) :
    Decides (declaration v) s (Stmt (Phrase 1) s.rest) := by
  obtain ⟨t, ts, hr, rfl⟩ := cons_of_kind hs (by rw [hk]; simp)
  rw [hr]
  refine Decides.advance hr (Decides.eat hs (by decide) (fun t₀ m₁ hr₀ h₀ => ?_) fun _ => ?_)
  · obtain rfl : ts = t₀ :: m₁ := hr₀
    refine (commaSeparated_decides looseDeclarator_decides (s := { s with rest := m₁ }) hs).bind
      fun ds m₂ _ hds => ?_
    refine Decides.expect hs (by decide) fun t₁ after hr₁ h₁ => .pure ?_
    obtain rfl : m₂ = t₁ :: after := hr₁
    exact .group hk h₀ hds h₁
  · refine (commaSeparated_decides declarator_decides (s := { s with rest := ts }) hs).bind
      fun ds after _ hds => ?_
    cases hds with
    | one hd => exact Decides.pure (.declare hk hd)
    | more hd ht hds =>
      cases hds with
      | one hd' => exact Decides.pure (.declareAll hk (.more hd ht (.one hd')))
      | more hd' ht' hds => exact Decides.pure (.declareAll hk (.more hd ht (.more hd' ht' hds)))

theorem returnStatement_decides (hs : s.Closed) (hk : s.current.kind = .keyword .RETURN) :
    Decides returnStatement s (Stmt (Phrase 1) s.rest) := by
  obtain ⟨t, ts, hr, rfl⟩ := cons_of_kind hs (by rw [hk]; decide)
  rw [hr]
  refine Decides.advance hr (Decides.current ?_)
  rw [ParseState.current_kind_of hs]
  split
  · next h => exact .pure (.retNone hk (endsStatement_iff.mp h))
  · exact (expression_phrase { s with rest := ts } hs).bind fun e after _ he => .pure (.ret hk he)

theorem printStatement_decides (hs : s.Closed) (hk : s.current.kind = .symbol .question) :
    Decides printStatement s (Stmt (Phrase 1) s.rest) := by
  obtain ⟨t, ts, hr, rfl⟩ := cons_of_kind hs (by rw [hk]; decide)
  rw [hr]
  refine Decides.advance hr (Decides.current ?_)
  rw [ParseState.current_kind_of hs]
  split
  · next h => exact .pure (.printNone hk (endsStatement_iff.mp h))
  · exact (commaSeparated_decides expression_phrase (s := { s with rest := ts }) hs).bind
      fun args after _ ha => .pure (.print hk ha)

/-- What is read without an error as parameters are parameters; to leave them out is fine. -/
theorem parameters_silent (hs : s.Closed) : Silent parameters s (Params s.rest) := by
  refine Silent.eat hs (by decide) (fun t ts hr ht => Silent.current ?_) fun _ => .pure .absent
  rw [hr, ParseState.current_kind_of hs]
  dsimp only
  split
  · refine Silent.pure_bind (Silent.demand hs (by decide) fun t' after hr' ht' => .pure ?_)
    obtain rfl : ts = t' :: after := hr'
    exact .empty ht ht'
  · refine (commaSeparated_decides ident_decides (s := { s with rest := ts }) hs).silent.bind
      fun params mid hp => ?_
    refine Silent.demand hs (by decide) fun t' after hr' ht' => .pure ?_
    obtain rfl : mid = t' :: after := hr'
    exact .names ht hp ht'

theorem phrase_length_lt (before : List Token) (e : Expr) (after : List Token)
    (h : Phrase 1 before e after) : after.length < before.length := h.length_lt

/-- What `statement` reads without an error at the depth `d`, if the depth is enough. -/
def StatementSilent (d : Nat) : Prop :=
  ∀ s : ParseState, s.Closed → 2 * s.rest.length + 1 ≤ d →
    Silent (statement d) s (Stmt (Phrase 1) s.rest)

/-- What `statements` reads without an error at the depth `d`, if the depth is enough. -/
def StatementsSilent (d : Nat) : Prop :=
  ∀ (ends : List Keyword) (s : ParseState), s.Closed → 2 * s.rest.length + 2 ≤ d →
    Silent (statements d ends) s fun ss after => Stmts (Phrase 1) s.rest ss after ∧
      (headKind after = .endOfFile ∨ isOneOf ends (headKind after) = true)

/-- What `cases` reads without an error at the depth `d`, if the depth is enough. -/
def CasesSilent (d : Nat) : Prop :=
  ∀ s : ParseState, s.Closed → 2 * s.rest.length + 1 ≤ d →
    Silent (cases d) s (Cases (Phrase 1) s.rest)

section

variable {d : Nat} {Q : α → List Token → Prop}

theorem Silent.expression {f : Expr → Parser α} [∀ e, Forward (f e)] (hs : s.Closed)
    (h : ∀ e after, Phrase 1 s.rest e after → after.length < s.rest.length →
      Silent (f e) { s with rest := after } Q) : Silent (Parser.expression >>= f) s Q :=
  (expression_phrase s hs).silent.bind fun e after he => h e after he he.length_lt

/-- A token that may be missing. -/
theorem Silent.eatOpt {k : Kind} {p : Parser α} (hs : s.Closed) (hk : k ≠ .endOfFile)
    (h : ∀ after, Opt k s.rest after → Silent p { s with rest := after } Q) :
    Silent (Parser.eat k >>= fun _ => p) s Q := by
  refine Silent.eat hs hk (fun t ts hr ht => h ts ?_) fun _ => h s.rest .absent
  rw [hr]
  exact .present ht

/-- A body is a line break and statements. -/
theorem StatementsSilent.body (ih : StatementsSilent d) {ends : List Keyword} {f : Block → Parser α}
    [∀ b, Forward (f b)] (hs : s.Closed) (hd : 2 * s.rest.length ≤ d)
    (h : ∀ b after, Body (Phrase 1) s.rest b after → after.length < s.rest.length →
      Silent (f b) { s with rest := after } Q) :
    Silent (demand .newline >>= fun _ => statements d ends >>= f) s Q := by
  refine Silent.demand hs (by decide) fun t ts hr ht => ?_
  rw [hr] at hd h
  rw [List.length_cons] at hd
  refine (ih ends { s with rest := ts } hs (by simp only; omega)).bind fun b after hb => ?_
  have hbody : Body (Phrase 1) (t :: ts) b after := .mk ht hb.1
  exact h b after hbody (hbody.length_lt phrase_length_lt)

/-- What is read without an error as a loop is one, with `DO` or without it. -/
theorem StatementsSilent.whileLoop (ih : StatementsSilent d) (hs : s.Closed)
    (hd : 2 * s.rest.length ≤ d + 2) (hk : headKind s.rest = .keyword .WHILE) {before : List Token}
    (hb : Opt (.keyword .DO) before s.rest) :
    Silent (Parser.whileLoop (statements d [.ENDDO])) s (Stmt (Phrase 1) before) := by
  obtain ⟨t, ts, hr, ht⟩ := exists_cons_of_headKind hk (by decide)
  rw [hr] at hb hd
  rw [List.length_cons] at hd
  refine Silent.advance hr (Silent.expression hs fun cond m₁ hc hl₁ => ?_)
  simp only at hl₁
  refine ih.body hs (by simp only; omega) fun body m₂ hbody _ => ?_
  refine Silent.demand hs (by decide) fun t' after hr' ht' => .pure ?_
  obtain rfl : m₂ = t' :: after := hr'
  exact .doWhile hb ht hc hbody ht'

theorem StatementsSilent.function (ih : StatementsSilent d) (hs : s.Closed)
    (hd : 2 * s.rest.length ≤ d) {t : Token} (ht : t.kind = .keyword .FUNCTION) :
    Silent (ident >>= fun name => parameters >>= fun params => demand .newline >>= fun _ =>
      statements d [.ENDFUNC] >>= fun body => demand (.keyword .ENDFUNC) >>= fun _ =>
      pure (Statement.function name params body)) s (Stmt (Phrase 1) (t :: s.rest)) := by
  refine (ident_decides s hs).silent.bind fun x m₁ hx => ?_
  have hl₁ := hx.length_lt
  refine (parameters_silent (s := { s with rest := m₁ }) hs).bind fun params m₂ hp => ?_
  have hl₂ := hp.length_le
  simp only at hl₂
  refine ih.body hs (by simp only; omega) fun body m₃ hbody _ => ?_
  refine Silent.demand hs (by decide) fun t' after hr' ht' => .pure ?_
  obtain rfl : m₃ = t' :: after := hr'
  exact .function ht hx hp hbody ht'

/-- What is read without an error behind `IF` completes the statement. -/
theorem StatementsSilent.ifThen (ih : StatementsSilent d) (hs : s.Closed)
    (hd : 2 * s.rest.length ≤ d) {t : Token} (ht : t.kind = .keyword .IF) :
    Silent (Parser.expression >>= fun cond => eat (.keyword .THEN) >>= fun _ =>
      demand .newline >>= fun _ => statements d [.ELSE, .ENDIF] >>= fun yes =>
      eat (.keyword .ELSE) >>= fun b => if b = true then
          demand .newline >>= fun _ => statements d [.ENDIF] >>= fun no =>
          demand (.keyword .ENDIF) >>= fun _ => pure (Statement.ifThen cond yes (some no))
        else demand (.keyword .ENDIF) >>= fun _ => pure (Statement.ifThen cond yes none))
      s (Stmt (Phrase 1) (t :: s.rest)) := by
  refine Silent.expression hs fun cond m₁ hc hl₁ => ?_
  refine Silent.eatOpt hs (by decide) fun m₂ hthen => ?_
  have hl₂ := hthen.length_le
  simp only at hl₂
  refine ih.body hs (by simp only; omega) fun yes m₃ hy hl₃ => ?_
  simp only at hl₃
  refine Silent.eat hs (by decide) (fun t₁ m₄ hr₁ ht₁ => ?_) fun _ => ?_
  · obtain rfl : m₃ = t₁ :: m₄ := hr₁
    rw [List.length_cons] at hl₃
    refine ih.body hs (by simp only; omega) fun no m₅ hn _ => ?_
    refine Silent.demand hs (by decide) fun t' after hr' ht' => .pure ?_
    obtain rfl : m₅ = t' :: after := hr'
    exact .ifElse ht hc hthen hy ht₁ hn ht'
  · refine Silent.demand hs (by decide) fun t' after hr' ht' => .pure ?_
    obtain rfl : m₃ = t' :: after := hr'
    exact .ifThen ht hc hthen hy ht'

theorem endCase_silent (hs : s.Closed) :
    Silent endCase s fun _ after => ∃ t, s.rest = t :: after ∧ t.kind = .keyword .ENDCASE := by
  refine Silent.current ?_
  rw [ParseState.current_kind hs]
  dsimp only
  split
  · next hk =>
    obtain ⟨t, ts, hr, ht⟩ := exists_cons_of_headKind hk (by decide)
    exact Silent.advance hr (.pure ⟨t, hr, ht⟩)
  · exact .of_recorded rfl List.prefix_rfl

/-- What is read without an error behind `DO CASE` completes the statement. -/
theorem StatementsSilent.doCase (ih : StatementsSilent d) (ihCases : CasesSilent d) (hs : s.Closed)
    (hd : 2 * s.rest.length ≤ d) {t t₁ : Token} (ht : t.kind = .keyword .DO)
    (h₁ : t₁.kind = .keyword .CASE) :
    Silent (demand .newline >>= fun _ => Parser.cases d >>= fun branches =>
      eat (.keyword .OTHERWISE) >>= fun b => if b = true then
          demand .newline >>= fun _ => statements d [.ENDCASE] >>= fun body =>
          endCase >>= fun _ => pure (Statement.doCase branches (some body))
        else endCase >>= fun _ => pure (Statement.doCase branches none))
      s (Stmt (Phrase 1) (t :: t₁ :: s.rest)) := by
  refine Silent.demand hs (by decide) fun t₂ m₁ hr₂ h₂ => ?_
  rw [hr₂] at hd ⊢
  rw [List.length_cons] at hd
  refine (ihCases { s with rest := m₁ } hs (by simp only; omega)).bind fun branches m₂ hb => ?_
  have hl₂ := hb.length_le phrase_length_lt
  simp only at hl₂
  refine Silent.eat hs (by decide) (fun t₃ m₃ hr₃ h₃ => ?_) fun _ => ?_
  · obtain rfl : m₂ = t₃ :: m₃ := hr₃
    rw [List.length_cons] at hl₂
    refine ih.body hs (by simp only; omega) fun body m₄ hbody _ => ?_
    refine (endCase_silent (s := { s with rest := m₄ }) hs).bind fun _ after hend => ?_
    obtain ⟨t', rfl, ht'⟩ := hend
    exact .pure (.doCaseElse ht h₁ h₂ hb h₃ hbody ht')
  · refine (endCase_silent (s := { s with rest := m₂ }) hs).bind fun _ after hend => ?_
    obtain ⟨t', rfl, ht'⟩ := hend
    exact .pure (.doCase ht h₁ h₂ hb ht')

/-- What is read without an error as cases are cases, at one more level. -/
theorem StatementsSilent.cases (ih : StatementsSilent d) (ihCases : CasesSilent d) :
    CasesSilent (d + 1) := by
  intro s hs hd
  unfold Parser.cases
  refine Silent.eat hs (by decide) (fun t ts hr ht => ?_) fun _ => .pure .nil
  rw [hr] at hd ⊢
  rw [List.length_cons] at hd
  refine Silent.expression hs fun cond m₁ hc hl₁ => ?_
  simp only at hl₁
  refine ih.body hs (by simp only; omega) fun body m₂ hbody hl₂ => ?_
  simp only at hl₂
  refine (ihCases { s with rest := m₂ } hs (by simp only; omega)).bind fun branches after hb => ?_
  exact .pure (.cons ht hc hbody hb)

/-- What is read without an error as a block is one, at one more level. -/
theorem StatementSilent.statements (ihStatement : StatementSilent d) (ih : StatementsSilent d) :
    StatementsSilent (d + 1) := by
  intro ends s hs hd
  unfold Parser.statements
  refine Silent.current ?_
  rw [ParseState.current_kind hs]
  dsimp only
  split
  · next h =>
    refine .pure ⟨.nil, ?_⟩
    simpa using h
  · have := statementsFrom_forward d ends
    refine (ihStatement s hs (by omega)).attempt.bind fun first? m₁ hfirst => ?_
    obtain ⟨first, rfl, hfirst⟩ := hfirst
    have hl₁ := hfirst.length_lt phrase_length_lt
    refine Silent.eatOpt hs (by decide) fun m₂ hn => ?_
    have hl₂ := hn.length_le
    simp only at hl₂
    refine (ih ends { s with rest := m₂ } hs (by simp only; omega)).bind fun ss after hss => ?_
    exact .pure ⟨.cons hfirst hn hss.1, hss.2⟩

/-- What is read without an error as a statement is one, by the token in front. -/
theorem StatementsSilent.statement (ih : StatementsSilent d) (ihCases : CasesSilent d) :
    StatementSilent (d + 1) := by
  intro s hs hd
  have hexpr : Silent (Parser.expression >>= fun e => pure (Statement.expr e)) s
      (Stmt (Phrase 1) s.rest) :=
    Silent.expression hs fun e after he _ => .pure (.expr he)
  unfold Parser.statement
  refine Silent.current ?_
  split
  · next hk => exact (declaration_decides (v := .loc) hs hk).silent
  · next hk => exact (declaration_decides (v := .priv) hs hk).silent
  · next hk => exact (declaration_decides (v := .pub) hs hk).silent
  · next hk =>
    obtain ⟨t, ts, hr, rfl⟩ := cons_of_kind hs (by rw [hk]; decide)
    rw [hr, List.length_cons] at hd
    rw [hr]
    exact Silent.advance hr (ih.function (s := { s with rest := ts }) hs (by simp only; omega) hk)
  · next hk => exact (returnStatement_decides hs hk).silent
  · next hk =>
    obtain ⟨t, ts, hr, rfl⟩ := cons_of_kind hs (by rw [hk]; decide)
    rw [hr, List.length_cons] at hd
    rw [hr]
    exact Silent.advance hr (ih.ifThen (s := { s with rest := ts }) hs (by simp only; omega) hk)
  · next hk =>
    obtain ⟨t, ts, hr, rfl⟩ := cons_of_kind hs (by rw [hk]; decide)
    rw [hr, List.length_cons] at hd
    refine Silent.following ?_
    rw [ParseState.following_kind hs, hr, List.tail_cons]
    split
    · next hk' =>
      obtain ⟨t₁, m₁, rfl, h₁⟩ := exists_cons_of_headKind hk' (by decide)
      rw [List.length_cons] at hd
      exact Silent.advance hr (Silent.advance rfl
        (ih.doCase ihCases (s := { s with rest := m₁ }) hs (by simp only; omega) hk h₁))
    · next hk' =>
      exact Silent.advance hr
        (ih.whileLoop (s := { s with rest := ts }) hs (by simp only; omega) hk' (.present hk))
    · rw [← hr]
      exact hexpr
  · next hk =>
    rw [ParseState.current_kind hs] at hk
    exact ih.whileLoop hs (by omega) hk .absent
  · next hk =>
    obtain ⟨t, ts, hr, rfl⟩ := cons_of_kind hs (by rw [hk]; decide)
    rw [hr]
    exact Silent.advance hr (.pure (.exit hk))
  · next hk =>
    obtain ⟨t, ts, hr, rfl⟩ := cons_of_kind hs (by rw [hk]; decide)
    rw [hr]
    exact Silent.advance hr (.pure (.loop hk))
  · next hk => exact (printStatement_decides hs hk).silent
  · exact hexpr

end

/-- Where the depth is enough, the statements that are read without an error are statements. -/
theorem statements_silent (d : Nat) : StatementSilent d ∧ StatementsSilent d ∧ CasesSilent d := by
  induction d with
  | zero => exact ⟨fun _ _ h => by omega, fun _ _ _ h => by omega, fun _ _ h => by omega⟩
  | succ d ih =>
    obtain ⟨ihStatement, ihStatements, ihCases⟩ := ih
    exact ⟨ihStatements.statement ihCases, ihStatement.statements ihStatements,
      ihStatements.cases ihCases⟩

/-- A program that is read without an error is one of the grammar. -/
theorem program_silent (hs : s.Closed) :
    Silent program s fun p after =>
      Stmts (Phrase 1) s.rest p after ∧ headKind after = .endOfFile := by
  intro h
  obtain ⟨p, hp, hstmts, hend⟩ := (statements_silent s.budget).2.1 [] s hs (Nat.le_refl _) h
  exact ⟨p, hp, hstmts, hend.resolve_right (by simp [isOneOf])⟩

/-! ## A statement of the grammar is read without an error

Behind a statement, and behind a declared name, no token may stand that would go on with it. -/

variable {d : Nat} {stop : Token} {errors : List SyntaxError} {before after : List Token}

theorem commaSeparated_runs {item : Parser α} {xs : List α}
    (h : CommaList (Runs item stop errors) before xs after) (hs : stop.kind = .endOfFile)
    (hk : headKind after ≠ .symbol .comma) :
    Runs (commaSeparated item) stop errors before xs after :=
  commaList_runs h hs hk (by simp only [ParseState.budget]; omega)

theorem current_kind_at (hs : stop.kind = .endOfFile) :
    (⟨before, stop, errors⟩ : ParseState).current.kind = headKind before :=
  ParseState.current_kind (s := ⟨before, stop, errors⟩) hs

theorem eat_absent {k : Kind} (hs : stop.kind = .endOfFile) (h : headKind before ≠ k) :
    eat k ⟨before, stop, errors⟩ = (some false, ⟨before, stop, errors⟩) :=
  eat_false (s := ⟨before, stop, errors⟩) hs h

theorem statement_declaration {v : Visibility} {t : Token} {ts : List Token} (hr : s.rest = t :: ts)
    (ht : t.kind = .keyword v.keyword) : statement (d + 1) s = declaration v s := by
  unfold statement
  rw [bind_some (current_run s), current_cons hr, ht]
  cases v <;> rfl

/-- A statement that starts as an expression does is read as one. -/
theorem statement_expr (hs : s.Closed) (h : startsExpr (headKind s.rest) = true) :
    statement (d + 1) s = (expression >>= fun e => pure (Statement.expr e)) s := by
  unfold statement
  rw [bind_some (current_run s), ParseState.current_kind hs]
  revert h
  generalize headKind s.rest = k
  intro h
  cases k with
  | keyword w => cases w <;> first | rfl | cases h
  | symbol w => cases w <;> first | rfl | cases h
  | _ => rfl

/-- A loop whose condition is read up to `mid`, and whose body is read up to `t'`. -/
theorem whileLoop_run (t : Token) {t' : Token} {cond : Expr} {ss : Block} {mid : List Token}
    (hc : expression ⟨before, stop, errors⟩ = (some cond, ⟨mid, stop, errors⟩))
    (hb : (demand .newline >>= fun _ => statements d [.ENDDO] >>= fun b =>
      demand (.keyword .ENDDO) >>= fun _ => pure (Statement.doWhile cond b)) ⟨mid, stop, errors⟩ =
      (demand (.keyword .ENDDO) >>= fun _ => pure (Statement.doWhile cond ss))
        ⟨t' :: after, stop, errors⟩) (ht' : t'.kind = .keyword .ENDDO) :
    whileLoop (statements d [.ENDDO]) ⟨t :: before, stop, errors⟩ =
      (some (.doWhile cond ss), ⟨after, stop, errors⟩) := by
  unfold whileLoop
  rw [bind_some (advance_of_cons rfl), bind_some hc, hb, bind_some (demand_of_cons rfl ht')]
  rfl

/-- The kinds of tokens that go on neither with a declaration nor with a list. -/
def Separates (k : Kind) : Prop :=
  k ≠ .keyword .AS ∧ k ≠ .symbol .equal ∧ k ≠ .symbol .comma

/-- What `statements` stops at. -/
def AtEnd (ends : List Keyword) (k : Kind) : Prop :=
  k = .endOfFile ∨ ∃ w ∈ ends, k = .keyword w

end Parser

namespace Grammar

open Xbase.Parser

/-- The kinds of tokens that a statement can start with. -/
def startsStmt : Kind → Bool
  | .keyword k => k ∈ [.LOCAL, .PRIVATE, .PUBLIC, .FUNCTION, .RETURN, .IF, .DO, .WHILE, .EXIT,
      .LOOP, .NULL, .IIF]
  | .symbol s => s = .question || startsExpr (.symbol s)
  | k => startsExpr k

theorem startsStmt_of_startsExpr {k : Kind} (h : startsExpr k = true) : startsStmt k = true := by
  cases k with
  | keyword w => cases w <;> first | rfl | cases h
  | symbol s => cases s <;> first | rfl | cases h
  | _ => exact h

/-- What starts a statement may stand behind another one and ends no block. -/
theorem startsStmt_separates {k : Kind} (h : startsStmt k = true) :
    Separates k ∧ k ≠ .newline ∧ ∀ ends, ends ⊆ blockEnds → ¬ AtEnd ends k := by
  refine ⟨?_, ?_, ?_⟩
  · refine ⟨?_, ?_, ?_⟩ <;> (rintro rfl; cases h)
  · rintro rfl
    cases h
  · rintro ends hends (rfl | ⟨w, hw, rfl⟩)
    · cases h
    · have hw := hends hw
      revert h
      cases w <;> first | (intro h; cases h; done) | simp [blockEnds] at hw

/-- What ends a block may stand behind a statement. -/
theorem atEnd_separates {ends : List Keyword} {k : Kind} (hends : ends ⊆ blockEnds)
    (h : AtEnd ends k) : Separates k ∧ k ≠ .newline := by
  obtain rfl | ⟨w, hw, rfl⟩ := h
  · exact ⟨⟨by decide, by decide, by decide⟩, by decide⟩
  · have hw := hends hw
    revert hw
    cases w <;> simp [blockEnds, Separates]

variable {stop : Token} {errors : List SyntaxError} {before after : List Token} {d : Nat}

theorem not_endsStatement {k : Kind} (h : startsExpr k = true) : ¬ endsStatement k = true := by
  rw [endsStatement_iff]
  rintro (rfl | rfl | ⟨w, hw, rfl⟩)
  · cases h
  · cases h
  · revert h
    cases w <;> first | (intro h; cases h; done) | simp [blockEnds] at hw

/-- A list whose items are read where nothing goes on with them. -/
theorem CommaList.follow {α : Type} {R R' : List Token → α → List Token → Prop} {P : Kind → Prop}
    (hR : ∀ before x after, R before x after → P (headKind after) → R' before x after)
    (hc : P (.symbol .comma)) {xs : List α} (h : CommaList R before xs after)
    (ha : P (headKind after)) : CommaList R' before xs after := by
  induction h with
  | one h => exact .one (hR _ _ _ h ha)
  | more h ht _ ih => exact .more (hR _ _ _ h (by rw [headKind_cons, ht]; exact hc)) ht (ih ha)

/-- A list starts as its items do. -/
theorem CommaList.starts {α : Type} {R : List Token → α → List Token → Prop} {k : Kind}
    (hR : ∀ before x after, R before x after → headKind before = k) {xs : List α}
    (h : CommaList R before xs after) : headKind before = k := by
  cases h with
  | one h => exact hR _ _ _ h
  | more h _ _ => exact hR _ _ _ h

theorem Name.starts {x : Ident} (h : Name before x after) : headKind before = .name := by
  cases h with
  | mk ht => exact ht

theorem Body.starts {E : List Token → Expr → List Token → Prop} {ss : List Statement}
    (h : Body E before ss after) : headKind before = .newline := by
  cases h with
  | mk ht _ => exact ht

theorem Decl.starts {E : List Token → Expr → List Token → Prop} {d : Declarator}
    (h : Decl E before d after) : headKind before = .name := by
  cases h with
  | mk hx _ _ => exact hx.starts

theorem Name.runs {x : Ident} (h : Name before x after) :
    Runs ident stop errors before x after := by
  refine ⟨?_, Nat.le_of_lt h.length_lt⟩
  cases h with
  | mk ht =>
    unfold ident
    rw [bind_some (expectName_of_cons rfl ht)]
    rfl

/-- All line breaks are skipped, if no more follow. -/
theorem Newlines.runs (h : Newlines before after) (hk : headKind after ≠ .newline) :
    skipNewlines ⟨before, stop, errors⟩ = (some (), ⟨after, stop, errors⟩) := by
  have hdrop : before.dropWhile (·.kind = .newline) = after := by
    induction h with
    | @none ts =>
      cases ts with
      | nil => rfl
      | cons t ts => exact List.dropWhile_cons_of_neg (by simpa using hk)
    | more ht _ ih =>
      rw [List.dropWhile_cons_of_pos (by simpa using ht)]
      exact ih hk
  rw [skipNewlines, hdrop]

section

variable (hs : stop.kind = .endOfFile)

include hs

/-- A whole expression is read as such. -/
theorem Whole.runs {e : Expr} (h : Whole before e after) :
    Runs expression stop errors before e after :=
  h.1.runs h.2 hs errors

theorem TypeClause.runs {type? : Option DeclaredType} (h : TypeClause before type? after)
    (hk : headKind after ≠ .keyword .AS) : Runs typeClause stop errors before type? after := by
  refine ⟨?_, h.length_le⟩
  unfold typeClause
  cases h with
  | absent =>
    rw [bind_some (eat_absent hs hk)]
    rfl
  | present ht hx htype =>
    rw [bind_some (eat_true rfl ht), if_pos rfl, bind_some hx.runs.1, htype]
    rfl

/-- A declarator is read as such if no type and no value could still follow. -/
theorem Decl.runs {d : Declarator} (h : Decl Whole before d after)
    (hk : headKind after ≠ .keyword .AS ∧ headKind after ≠ .symbol .equal) :
    Runs declarator stop errors before d after := by
  refine ⟨?_, Nat.le_of_lt (h.length_lt fun _ _ _ h => h.1.length_lt)⟩
  unfold declarator
  cases h with
  | mk hx htype hi =>
    rw [bind_some hx.runs.1]
    cases hi with
    | absent =>
      rw [bind_some (htype.runs hs hk.1).1, bind_some (eat_absent hs hk.2)]
      rfl
    | present ht he =>
      rw [bind_some (htype.runs hs (by rw [headKind_cons, ht]; decide)).1,
        bind_some (eat_true rfl ht), if_pos rfl, bind_some (he.runs hs).1]
      rfl

theorem LooseDecl.runs {d : Declarator} (h : LooseDecl Whole before d after)
    (hk : headKind after = .symbol .comma ∨ headKind after = .symbol .rightParen) :
    Runs looseDeclarator stop errors before d after := by
  refine ⟨?_, Nat.le_of_lt (h.length_lt fun _ _ _ h => h.1.length_lt)⟩
  have hafter : headKind after ≠ .newline ∧ headKind after ≠ .keyword .AS ∧
      headKind after ≠ .symbol .equal := by
    obtain hk | hk := hk <;> rw [hk] <;> decide
  unfold looseDeclarator
  cases h with
  | mk h₁ hd h₂ =>
    rw [bind_some (h₁.runs (by rw [hd.starts]; decide))]
    obtain rfl | hk := h₂.eq_or_newline
    · rw [bind_some (hd.runs hs hafter.2).1, bind_some (h₂.runs hafter.1)]
      rfl
    · rw [bind_some (hd.runs hs (by rw [hk]; decide)).1, bind_some (h₂.runs hafter.1)]
      rfl

/-- Parameters are read as such if what follows opens no list of them. -/
theorem Params.runs {params : List Ident} (h : Params before params after)
    (hk : headKind after ≠ .symbol .leftParen) :
    Runs parameters stop errors before params after := by
  refine ⟨?_, h.length_le⟩
  unfold parameters
  cases h with
  | absent =>
    rw [bind_some (eat_absent hs hk)]
    rfl
  | empty ht ht' =>
    rw [bind_some (eat_true rfl ht), if_pos rfl, bind_some (current_run _), current_cons rfl]
    dsimp only
    rw [if_pos ht', bind_some (pure_run _ _), bind_some (demand_of_cons rfl ht')]
    rfl
  | names ht hp ht' =>
    have hp' := commaSeparated_runs (hp.follow (P := fun _ => True)
      (fun _ _ _ h _ => (h.runs : Runs ident stop errors _ _ _)) trivial trivial) hs
      (by rw [headKind_cons, ht']; decide)
    rw [bind_some (eat_true rfl ht), if_pos rfl, bind_some (current_run _),
      current_kind_at hs]
    dsimp only
    rw [if_neg (by rw [hp.starts (fun _ _ _ h => h.starts)]; decide), bind_some hp'.1,
      bind_some (demand_of_cons rfl ht')]
    rfl

/-! ### Simple statements -/

theorem Stmt.runs_declare {v : Visibility} {t : Token} {d : Declarator}
    (h : Decl Whole before d after) (hk : Separates (headKind after)) :
    declaration v ⟨t :: before, stop, errors⟩ = (some (.declare v d), ⟨after, stop, errors⟩) := by
  have hlist : CommaList (Runs declarator stop errors) before [d] after :=
    .one (h.runs hs ⟨hk.1, hk.2.1⟩)
  unfold declaration
  rw [bind_some (advance_of_cons rfl), bind_some (eat_absent hs (by rw [h.starts]; decide)),
    if_neg Bool.false_ne_true, bind_some (commaSeparated_runs hlist hs hk.2.2).1]
  rfl

theorem Stmt.runs_declareAll {v : Visibility} {t : Token} {d d' : Declarator} {ds : List Declarator}
    (h : CommaList (Decl Whole) before (d :: d' :: ds) after) (hk : Separates (headKind after)) :
    declaration v ⟨t :: before, stop, errors⟩ =
      (some (.declareAll v (d :: d' :: ds) false), ⟨after, stop, errors⟩) := by
  have hlist : CommaList (Runs declarator stop errors) before (d :: d' :: ds) after :=
    h.follow (P := fun k => k ≠ .keyword .AS ∧ k ≠ .symbol .equal) (fun _ _ _ h hk => h.runs hs hk)
      (by decide) ⟨hk.1, hk.2.1⟩
  have hne : headKind before ≠ .symbol .leftParen := by
    rw [h.starts fun _ _ _ h => h.starts]
    decide
  unfold declaration
  rw [bind_some (advance_of_cons rfl), bind_some (eat_absent hs hne),
    if_neg Bool.false_ne_true, bind_some (commaSeparated_runs hlist hs hk.2.2).1]
  rfl

theorem Stmt.runs_group {v : Visibility} {t t₀ t₁ : Token} {ds : List Declarator}
    (h₀ : t₀.kind = .symbol .leftParen) (h : CommaList (LooseDecl Whole) before ds (t₁ :: after))
    (h₁ : t₁.kind = .symbol .rightParen) :
    declaration v ⟨t :: t₀ :: before, stop, errors⟩ =
      (some (.declareAll v ds true), ⟨after, stop, errors⟩) := by
  have hlist : CommaList (Runs looseDeclarator stop errors) before ds (t₁ :: after) :=
    h.follow (P := fun k => k = .symbol .comma ∨ k = .symbol .rightParen)
      (fun _ _ _ h hk => h.runs hs hk) (.inl rfl) (.inr h₁)
  have hne : headKind (t₁ :: after) ≠ .symbol .comma := by
    rw [headKind_cons, h₁]
    decide
  unfold declaration
  rw [bind_some (advance_of_cons rfl), bind_some (eat_true rfl h₀), if_pos rfl,
    bind_some (commaSeparated_runs hlist hs hne).1, bind_some (expect_of_cons rfl h₁)]
  rfl

theorem Stmt.runs_ret {t : Token} {e : Expr} (h : Whole before e after) :
    returnStatement ⟨t :: before, stop, errors⟩ =
      (some (.ret (some e) t.span), ⟨after, stop, errors⟩) := by
  have hne := not_endsStatement h.1.starts
  unfold returnStatement
  rw [bind_some (advance_of_cons rfl), bind_some (current_run _), current_kind_at hs, if_neg hne,
    bind_some (h.runs hs).1]
  rfl

theorem Stmt.runs_print {t : Token} {args : List Expr} (h : CommaList Whole before args after)
    (hk : headKind after ≠ .symbol .comma) :
    printStatement ⟨t :: before, stop, errors⟩ =
      (some (.print args t.span), ⟨after, stop, errors⟩) := by
  have hlist : CommaList (Runs expression stop errors) before args after :=
    h.follow (P := fun _ => True) (fun _ _ _ h _ => h.runs hs) trivial trivial
  have hne : ¬ endsStatement (headKind before) = true := by
    cases h with
    | one h | more h _ _ => exact not_endsStatement h.1.starts
  unfold printStatement
  rw [bind_some (advance_of_cons rfl), bind_some (current_run _), current_kind_at hs, if_neg hne,
    bind_some (commaSeparated_runs hlist hs hk).1]
  rfl

end

/-! ### Compound statements -/

/-- A statement starts with a token that starts statements. -/
theorem Stmt.starts {s : Statement} (h : Stmt Whole before s after) :
    startsStmt (headKind before) = true := by
  have keyword_of {t : Token} {w : Keyword} {ts : List Token} (ht : t.kind = .keyword w)
      (hw : startsStmt (.keyword w) = true) : startsStmt (headKind (t :: ts)) = true := by
    rw [headKind_cons, ht, hw]
  cases h with
  | @declare _ v _ _ _ ht _ | @declareAll _ v _ _ _ _ _ ht _ | @group _ _ _ v _ _ _ ht _ _ _ =>
    exact keyword_of ht (by cases v <;> rfl)
  | function ht _ _ _ _ | ret ht _ | retNone ht _ | ifThen ht _ _ _ _ | ifElse ht _ _ _ _ _ _
  | doCase ht _ _ _ _ | doCaseElse ht _ _ _ _ _ _ | exit ht | loop ht => exact keyword_of ht rfl
  | doWhile hd ht _ _ _ =>
    cases hd with
    | absent => exact keyword_of ht rfl
    | present hd => exact keyword_of hd rfl
  | print ht _ | printNone ht _ => rw [headKind_cons, ht]; rfl
  | expr h => exact startsStmt_of_startsExpr h.1.starts

theorem whole_length_lt (before : List Token) (e : Expr) (after : List Token)
    (h : Whole before e after) : after.length < before.length := h.1.length_lt

/-- An optional token is eaten if it is there, and nothing happens if it is not. -/
theorem Opt.runs {k : Kind} (h : Opt k before after) (hs : stop.kind = .endOfFile)
    (hk : headKind after ≠ k) {β : Type} {p : Parser β} :
    (eat k >>= fun _ => p) ⟨before, stop, errors⟩ = p ⟨after, stop, errors⟩ := by
  cases h with
  | absent => rw [bind_some (eat_absent hs hk)]
  | present ht => rw [bind_some (eat_true rfl ht)]

theorem Opt.separates (h : Opt .newline before after) (ha : Separates (headKind after)) :
    Separates (headKind before) := by
  cases h with
  | absent => exact ha
  | present ht =>
    rw [headKind_cons, ht]
    exact ⟨by decide, by decide, by decide⟩

/-- The body of a branch ends at the next branch or behind all of them. -/
theorem Cases.atEnd {branches : List (Expr × List Statement)}
    (h : Cases Whole before branches after)
    (ha : headKind after = .keyword .OTHERWISE ∨ headKind after = .keyword .ENDCASE) :
    AtEnd [.CASE, .OTHERWISE, .ENDCASE] (headKind before) := by
  cases h with
  | nil =>
    obtain ha | ha := ha
    · exact .inr ⟨_, .tail _ (.head _), ha⟩
    · exact .inr ⟨_, .tail _ (.tail _ (.head _)), ha⟩
  | cons ht _ _ _ => exact .inr ⟨_, .head _, ht⟩

theorem endCase_run {t : Token} (ht : t.kind = .keyword .ENDCASE) :
    endCase ⟨t :: after, stop, errors⟩ = (some (), ⟨after, stop, errors⟩) := by
  unfold endCase
  rw [bind_some (current_run _), current_cons rfl, if_pos ht, bind_some (advance_of_cons rfl)]
  rfl

/-- What follows a statement in a sequence neither goes on with it nor is read as a line break that
is not there. -/
theorem Stmts.separates {ss : List Statement} {ends : List Keyword}
    (h : Stmts Whole before ss after) (hends : ends ⊆ blockEnds)
    (ha : AtEnd ends (headKind after)) :
    Separates (headKind before) ∧ headKind before ≠ .newline := by
  cases h with
  | nil => exact atEnd_separates hends ha
  | cons h _ _ =>
    have := startsStmt_separates h.starts
    exact ⟨this.1, this.2.1⟩

mutual

/-- A statement in front of a token that does not go on with it is what `statement` reads. -/
theorem Stmt.runs {stop : Token} (hs : stop.kind = .endOfFile) (errors : List SyntaxError) {d : Nat}
    {before after : List Token} {s : Statement} :
    Stmt Whole before s after → Separates (headKind after) → 2 * before.length ≤ d →
    statement (d + 1) ⟨before, stop, errors⟩ = (some s, ⟨after, stop, errors⟩)
  | .declare ht h, hk, _ => by
    rw [statement_declaration rfl ht]
    exact Stmt.runs_declare hs h hk
  | .declareAll ht h, hk, _ => by
    rw [statement_declaration rfl ht]
    exact Stmt.runs_declareAll hs h hk
  | .group ht h₀ h h₁, _, _ => by
    rw [statement_declaration rfl ht]
    exact Stmt.runs_group hs h₀ h h₁
  | .function ht hx hp hb ht', _, hd => by
    have hl₁ := hx.length_lt
    have hl₂ := hp.length_le
    rw [List.length_cons] at hd
    unfold statement
    rw [bind_some (current_run _), current_cons rfl, ht]
    dsimp only
    rw [bind_some (advance_of_cons rfl), bind_some hx.runs.1,
      bind_some (hp.runs hs (by rw [hb.starts]; decide)).1,
      hb.runs hs errors (by decide) (.inr ⟨_, .head _, ht'⟩) (by omega),
      bind_some (demand_of_cons rfl ht')]
    rfl
  | .ret ht h, _, _ => by
    unfold statement
    rw [bind_some (current_run _), current_cons rfl, ht]
    exact Stmt.runs_ret hs h
  | .retNone ht h, _, _ => by
    unfold statement
    rw [bind_some (current_run _), current_cons rfl, ht]
    dsimp only
    unfold returnStatement
    rw [bind_some (advance_of_cons rfl), bind_some (current_run _), current_kind_at hs,
      if_pos (endsStatement_iff.mpr h)]
    rfl
  | .ifThen ht hc hthen hy ht', _, hd => by
    have hl₁ := hc.1.length_lt
    have hl₂ := hthen.length_le
    rw [List.length_cons] at hd
    unfold statement
    rw [bind_some (current_run _), current_cons rfl, ht]
    dsimp only
    rw [bind_some (advance_of_cons rfl), bind_some (hc.runs hs).1,
      hthen.runs hs (by rw [hy.starts]; decide),
      hy.runs hs errors (by decide) (.inr ⟨_, .tail _ (.head _), ht'⟩) (by omega),
      bind_some (eat_other rfl ht' (by decide)), if_neg Bool.false_ne_true,
      bind_some (pure_run _ _), bind_some (demand_of_cons rfl ht')]
    rfl
  | .ifElse ht hc hthen hy ht₁ hn ht', _, hd => by
    have hl₁ := hc.1.length_lt
    have hl₂ := hthen.length_le
    have hl₃ := hy.length_lt whole_length_lt
    rw [List.length_cons] at hd hl₃
    unfold statement
    rw [bind_some (current_run _), current_cons rfl, ht]
    dsimp only
    rw [bind_some (advance_of_cons rfl), bind_some (hc.runs hs).1,
      hthen.runs hs (by rw [hy.starts]; decide),
      hy.runs hs errors (by decide) (.inr ⟨_, .head _, ht₁⟩) (by omega),
      bind_some (eat_true rfl ht₁), if_pos rfl,
      hn.runs hs errors (by decide) (.inr ⟨_, .head _, ht'⟩) (by omega),
      bind_some (pure_run _ _), bind_some (demand_of_cons rfl ht')]
    rfl
  | .doCase ht h₁ h₂ hb ht', _, hd => by
    simp only [List.length_cons] at hd
    unfold statement
    rw [bind_some (current_run _), current_cons rfl, ht]
    dsimp only
    rw [bind_some (following_run _), following_cons rfl, h₁]
    dsimp only
    rw [bind_some (advance_of_cons rfl), bind_some (advance_of_cons rfl),
      bind_some (demand_of_cons rfl h₂), bind_some (hb.runs hs errors (.inr ht') (by omega)),
      bind_some (eat_other rfl ht' (by decide)), if_neg Bool.false_ne_true,
      bind_some (pure_run _ _), bind_some (endCase_run ht')]
    rfl
  | .doCaseElse ht h₁ h₂ hb h₃ ho ht', _, hd => by
    have hl := hb.length_le whole_length_lt
    simp only [List.length_cons] at hd hl
    unfold statement
    rw [bind_some (current_run _), current_cons rfl, ht]
    dsimp only
    rw [bind_some (following_run _), following_cons rfl, h₁]
    dsimp only
    rw [bind_some (advance_of_cons rfl), bind_some (advance_of_cons rfl),
      bind_some (demand_of_cons rfl h₂), bind_some (hb.runs hs errors (.inl h₃) (by omega)),
      bind_some (eat_true rfl h₃), if_pos rfl,
      ho.runs hs errors (by decide) (.inr ⟨_, .head _, ht'⟩) (by omega),
      bind_some (pure_run _ _), bind_some (endCase_run ht')]
    rfl
  | .doWhile hdo ht hc hb ht', _, hd => by
    have hl := hc.1.length_lt
    have hlo := hdo.length_le
    rw [List.length_cons] at hlo
    have hloop := fun t => whileLoop_run (d := d) t (hc.runs hs).1
      (hb.runs hs errors (by decide) (.inr ⟨_, .head _, ht'⟩) (by omega)) ht'
    unfold statement
    cases hdo with
    | absent =>
      rw [bind_some (current_run _), current_cons rfl, ht]
      exact hloop _
    | present hdo =>
      rw [bind_some (current_run _), current_cons rfl, hdo]
      dsimp only
      rw [bind_some (following_run _), following_cons rfl, ht]
      dsimp only
      rw [bind_some (advance_of_cons rfl)]
      exact hloop _
  | .exit ht, _, _ => by
    unfold statement
    rw [bind_some (current_run _), current_cons rfl, ht]
    rfl
  | .loop ht, _, _ => by
    unfold statement
    rw [bind_some (current_run _), current_cons rfl, ht]
    rfl
  | .print ht h, hk, _ => by
    unfold statement
    rw [bind_some (current_run _), current_cons rfl, ht]
    exact Stmt.runs_print hs h hk.2.2
  | .printNone ht h, _, _ => by
    unfold statement
    rw [bind_some (current_run _), current_cons rfl, ht]
    dsimp only
    unfold printStatement
    rw [bind_some (advance_of_cons rfl), bind_some (current_run _), current_kind_at hs,
      if_pos (endsStatement_iff.mpr h)]
    rfl
  | .expr h, _, _ => by
    rw [statement_expr (s := ⟨_, stop, errors⟩) hs h.1.starts, bind_some (h.runs hs).1]
    rfl

/-- Statements in front of a token that ends them are what `statements` reads. -/
theorem Stmts.runs {stop : Token} (hs : stop.kind = .endOfFile) (errors : List SyntaxError)
    {d : Nat} {before after : List Token} {ss : List Statement} {ends : List Keyword} :
    Stmts Whole before ss after → ends ⊆ blockEnds → AtEnd ends (headKind after) →
    2 * before.length + 2 ≤ d →
    statements d ends ⟨before, stop, errors⟩ = (some ss, ⟨after, stop, errors⟩)
  | .nil, _, ha, hd => by
    obtain ⟨d, rfl⟩ : ∃ d', d = d' + 1 := ⟨d - 1, by omega⟩
    unfold statements
    rw [bind_some (current_run _), current_kind_at hs,
      if_pos (by simpa [AtEnd, isOneOf_iff] using ha)]
    rfl
  | .cons h hn hs', hends, ha, hd => by
    obtain ⟨d, rfl⟩ : ∃ d', d = d' + 2 := ⟨d - 2, by omega⟩
    have hl₁ := h.length_lt whole_length_lt
    have hl₂ := hn.length_le
    have hsep := hs'.separates hends ha
    have hsep₁ := hn.separates hsep.1
    have hstart := (startsStmt_separates h.starts).2.2 ends hends
    unfold statements
    rw [bind_some (current_run _), current_kind_at hs,
      if_neg (by simpa [AtEnd, isOneOf_iff] using hstart), bind_some (attempt_run _ _),
      h.runs hs errors hsep₁ (by omega)]
    dsimp only
    rw [hn.runs hs hsep.2, bind_some (hs'.runs hs errors hends ha (by omega))]
    rfl

/-- The line break in front of a body, and the body. -/
theorem Body.runs {stop : Token} (hs : stop.kind = .endOfFile) (errors : List SyntaxError) {d : Nat}
    {before after : List Token} {ss : List Statement} {ends : List Keyword} {β : Type}
    {f : Block → Parser β} :
    Body Whole before ss after → ends ⊆ blockEnds → AtEnd ends (headKind after) →
    2 * before.length ≤ d →
    (demand .newline >>= fun _ => statements d ends >>= f) ⟨before, stop, errors⟩ =
      f ss ⟨after, stop, errors⟩
  | .mk ht hs', hends, ha, hd => by
    rw [List.length_cons] at hd
    rw [bind_some (demand_of_cons rfl ht), bind_some (hs'.runs hs errors hends ha (by omega))]

/-- The branches of a case distinction are what `cases` reads. -/
theorem Cases.runs {stop : Token} (hs : stop.kind = .endOfFile) (errors : List SyntaxError)
    {d : Nat} {before after : List Token} {branches : List (Expr × List Statement)} :
    Cases Whole before branches after →
    headKind after = .keyword .OTHERWISE ∨ headKind after = .keyword .ENDCASE →
    2 * before.length + 1 ≤ d →
    cases d ⟨before, stop, errors⟩ = (some branches, ⟨after, stop, errors⟩)
  | .nil, ha, hd => by
    obtain ⟨d, rfl⟩ : ∃ d', d = d' + 1 := ⟨d - 1, by omega⟩
    unfold cases
    rw [bind_some (eat_absent hs (by obtain ha | ha := ha <;> rw [ha] <;> decide))]
    rfl
  | .cons ht hc hb hs', ha, hd => by
    obtain ⟨d, rfl⟩ : ∃ d', d = d' + 1 := ⟨d - 1, by omega⟩
    have hl₁ := hc.1.length_lt
    have hl₂ := hb.length_lt whole_length_lt
    rw [List.length_cons] at hd
    unfold cases
    rw [bind_some (eat_true rfl ht), if_pos rfl, bind_some (hc.runs hs).1,
      hb.runs hs errors (by decide) (hs'.atEnd ha) (by omega),
      bind_some (hs'.runs hs errors ha (by omega))]
    rfl

end

end Grammar

end Xbase
