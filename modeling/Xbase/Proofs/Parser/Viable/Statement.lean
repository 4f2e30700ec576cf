import Xbase.Proofs.Parser.Agree.Statement
import Xbase.Proofs.Parser.Viable.Expr

/-!
# Statements in front of an early end

What is read of a program in a longer text is read where the text stops, or else the parser comes to
the end of its tokens and says so (`Parser.program_early`).

A block that comes to the end lacks the keyword that closes it. That keyword is demanded whatever
was recorded before, and so inside a block every early end looks like one. Only a statement that
stands by itself may stop at a missing name or behind a `DO`.
-/

namespace Xbase.Parser

open Repl

variable {α : Type} {s : ParseState} {more : TokenStream} {e : Bool} {d k : Nat}

-- The rules of the compound statements are long sequences.
set_option synthInstance.maxSize 1000

/-! ## Where no token is left -/

/-- Where no name is left, nothing behind it is read. -/
theorem ident_atStop (f : Ident → Parser α) : AtStop (ident >>= f) :=
  .of_expectName (g := fun t => f ⟨t.lexeme, t.span⟩) (funext fun s => by
    unfold ident
    simp only [bind_run]
    obtain ⟨_ | t, s'⟩ := expectName s <;> rfl)

instance : AtStop ident := .of_expectName rfl

instance : AtStop typeClause := by
  refine ⟨fun s hs hr => .of_same hr (bind_some (eat_false hs ?_))⟩
  rw [hr]
  decide

instance : AtStop declarator := by
  unfold declarator
  infer_instance

instance : AtStop looseDeclarator := by
  unfold looseDeclarator
  infer_instance

theorem declared_atStop (v : Visibility) (ds : List Declarator) : AtStop (match ds with
    | [d] => pure (Statement.declare v d)
    | ds => pure (Statement.declareAll v ds false)) := by
  split <;> infer_instance

instance : AtStop parameters := by
  unfold parameters
  infer_instance

theorem endCase_misses (hs : s.Closed) (hr : s.rest = []) : Misses endCase s := by
  have hkind := current_kind_end hs hr
  have hne : s.current.kind ≠ .keyword .ENDCASE := hkind.trans_ne (by decide)
  exact .of_record hr ((endCase_eq s).trans (if_neg hne)) (by rw [hkind]; rfl)

instance : AtStop endCase := ⟨fun _ hs hr => .of_misses (endCase_misses hs hr)⟩

instance (d : Nat) (ends : List Keyword) : AtStop (statements d ends) := by
  cases d with
  | zero => exact AtStop.fail
  | succ d => exact ⟨fun _ hs hr => .of_same hr (statements_nil hs hr)⟩

instance (d : Nat) : AtStop (cases d) := by
  cases d with
  | zero => exact AtStop.fail
  | succ d => exact ⟨fun _ hs hr => .of_same hr (cases_nil hs hr)⟩

instance (body : Parser Block) [AtStop body] : AtStop (whileLoop body) := by
  unfold whileLoop
  infer_instance

theorem demand_misses {w : Keyword} {f : Unit → Parser α} [∀ u, Forward (f u)] (hs : s.Closed)
    (hr : s.rest = []) : Misses (demand (.keyword w) >>= f) s := by
  have hkind := current_kind_end hs hr
  have hne : s.current.kind ≠ .keyword w := hkind.trans_ne (by simp)
  have hdemand : Misses (demand (.keyword w)) s :=
    .of_record hr ((demand_run _ s).trans (if_neg hne)) (by rw [hkind]; rfl)
  exact hdemand.bind

/-- A keyword that is not there leaves it to the other branch to say what is missing. -/
theorem eat_misses {w : Keyword} {f : Bool → Parser α} (hs : s.Closed) (hr : s.rest = [])
    (h : Misses (f false) s) : Misses (eat (.keyword w) >>= f) s := by
  have hno : eat (.keyword w) s = (some false, s) := eat_false hs (by rw [hr]; simp [headKind])
  obtain ⟨a?, new, hrun, hnew⟩ := h
  exact ⟨a?, new, (bind_some hno).trans hrun, hnew⟩

/-! ## Parts of statements -/

theorem Viable.ident {f f' : Ident → Parser α} [∀ x, Forward (f' x)] (hs : s.Closed)
    (h : ∀ t ts, s.rest = t :: ts → t.kind = .name →
      Viable more e (f ⟨t.lexeme, t.span⟩) (f' ⟨t.lexeme, t.span⟩) { s with rest := ts }) :
    Viable more e (Parser.ident >>= f) (Parser.ident >>= f') s := by
  have hstop : AtStop (Parser.ident >>= f) := ident_atStop f
  refine Viable.require (g := fun t => ⟨t.lexeme, t.span⟩) hs (fun hr hk => ?_) (fun hk => ?_) h
  · exact bind_some (expectName_of_cons hr hk)
  · exact ⟨none, _, bind_none ((expectName_run _).trans (if_neg hk))⟩

theorem ident_viable (hs : s.Closed) : Viable more e ident ident s :=
  Viable.expectName hs fun _ _ _ _ => .pure _

theorem typeClause_viable (hs : s.Closed) : Viable more e typeClause typeClause s := by
  have hstop : AtStop typeClause := inferInstance
  have := typeOf_forward
  unfold typeClause at hstop ⊢
  refine Viable.eat hs (fun t ts _ _ => ?_) fun _ _ _ _ => .pure _
  refine Viable.ident hs fun x xs _ _ => ?_
  split
  · exact .pure _
  · exact .of_record (failWith_run _ _) rfl

theorem declarator_viable (hs : s.Closed) : Viable more e declarator declarator s := by
  refine Viable.ident hs fun x m₁ _ _ => ?_
  refine Viable.bind hs (typeClause_viable hs) fun type? m₂ _ => ?_
  refine Viable.eat hs (fun t ts _ _ => ?_) fun _ _ _ _ => .pure _
  exact Viable.bind hs (expression_viable hs) fun _ _ _ => .pure _

/-- Line breaks around a name may be the last tokens. -/
theorem looseDeclarator_viable (hs : s.Closed) :
    Viable more e looseDeclarator looseDeclarator s := by
  refine Viable.skipNewlines hs fun m₁ _ => ?_
  refine Viable.bind hs (declarator_viable hs) fun x m₂ _ => ?_
  exact Viable.skipNewlines hs fun _ _ => .pure _

theorem declaration_viable {v : Visibility} (hs : s.Closed) :
    Viable more e (declaration v) (declaration v) s := by
  have := declared_forward v
  have := declared_atStop v
  refine Viable.advance hs fun t ts _ => Viable.eat hs (fun t₁ m₁ _ _ => ?_) fun _ _ _ _ => ?_
  · refine Viable.bind hs (.commaSeparated hs fun _ hs => looseDeclarator_viable hs)
      fun ds m₂ _ => ?_
    exact Viable.expect hs fun _ _ _ _ => .pure _
  · refine Viable.bind hs (.commaSeparated hs fun _ hs => declarator_viable hs) fun ds m₂ _ => ?_
    split <;> exact .pure _

theorem parameters_viable (hs : s.Closed) : Viable more e parameters parameters s := by
  refine Viable.eat hs (fun t ts _ _ => ?_) fun _ _ _ _ => .pure _
  refine Viable.current hs fun t₁ ts₁ _ => Viable.ite (fun _ => ?_) fun _ => ?_
  · refine Viable.bind hs (.pure []) fun xs m₁ _ => ?_
    exact Viable.demand hs fun _ _ _ _ => .pure _
  · refine Viable.bind hs (.commaSeparated hs fun _ hs => ident_viable hs) fun xs m₁ _ => ?_
    exact Viable.demand hs fun _ _ _ _ => .pure _

theorem returnStatement_viable (hs : s.Closed) :
    Viable more e returnStatement returnStatement s := by
  refine Viable.advance hs fun t ts _ => Viable.current hs fun t₁ ts₁ _ => ?_
  refine Viable.ite (fun _ => .pure _) fun _ => ?_
  exact Viable.bind hs (expression_viable hs) fun _ _ _ => .pure _

theorem printStatement_viable (hs : s.Closed) :
    Viable more e printStatement printStatement s := by
  refine Viable.advance hs fun t ts _ => Viable.current hs fun t₁ ts₁ _ => ?_
  refine Viable.ite (fun _ => .pure _) fun _ => ?_
  exact Viable.bind hs (.commaSeparated hs fun _ hs => expression_viable hs) fun _ _ _ => .pure _

theorem Viable.endCase {f f' : Unit → Parser α} [∀ u, AtStop (f u)] [∀ u, Forward (f' u)]
    (hs : s.Closed) (h : ∀ t ts, s.rest = t :: ts → t.kind = .keyword .ENDCASE →
      Viable more e (f ()) (f' ()) { s with rest := ts }) :
    Viable more e (Parser.endCase >>= f) (Parser.endCase >>= f') s := by
  refine Viable.require (g := fun _ => ()) hs (fun {s t ts} hr hk => ?_) (fun hk => ?_) h
  · rw [endCase_eq, current_cons hr, if_pos hk, hr]
    rfl
  · exact ⟨some (), _, (endCase_eq _).trans (if_neg hk)⟩

/-! ## Blocks -/

/-- `statement` is viable at the depth `d`, if the depth is enough. -/
def StatementViable (more : TokenStream) (k d : Nat) : Prop :=
  ∀ s : ParseState, s.Closed → s.rest ≠ [] → 2 * s.rest.length + 1 ≤ d →
    Viable more false (statement d) (statement (k + d)) s

/-- Blocks are viable at the depth `d`, if the depth is enough. -/
def BlockViable (more : TokenStream) (k d : Nat) : Prop :=
  ∀ (ends : List Keyword) (s : ParseState), s.Closed → 2 * s.rest.length + 2 ≤ d →
    Viable more true (statements d ends) (statements (k + d) ends) s

/-- `cases` is viable at the depth `d`, if the depth is enough. -/
def CasesViable (more : TokenStream) (k d : Nat) : Prop :=
  ∀ s : ParseState, s.Closed → 2 * s.rest.length + 1 ≤ d →
    Viable more true (cases d) (cases (k + d)) s

/-- A block behind a line break. -/
theorem BlockViable.body (ih : BlockViable more k d) {ends : List Keyword}
    {f f' : Block → Parser α} [∀ b, AtStop (f b)] [∀ b, Forward (f' b)] (hs : s.Closed)
    (hd : 2 * s.rest.length + 2 ≤ d)
    (hend : ∀ s₁ : ParseState, s₁.Closed → Ends true (statements d ends) s₁ →
      Ends e (statements d ends >>= f) s₁)
    (h : ∀ b after, after <:+ s.rest → Viable more e (f b) (f' b) { s with rest := after }) :
    Viable more e (demand .newline >>= fun _ => statements d ends >>= f)
      (demand .newline >>= fun _ => statements (k + d) ends >>= f') s := by
  refine Viable.demand hs fun t ts hr _ => ?_
  have hsuf : ts <:+ s.rest := suffix_of_cons hr
  have hle := hsuf.length_le
  refine (ih ends { s with rest := ts } hs (by simp only; omega)).seq (hend _ hs) ?_
  intro b after hafter _
  exact h b after (hafter.trans hsuf)

/-- A block that comes to the end before the keyword that closes it. -/
theorem BlockViable.closed (ih : BlockViable more k d) {ends : List Keyword}
    {f f' : Block → Parser α} [∀ b, AtStop (f b)] [∀ b, Forward (f' b)] (hs : s.Closed)
    (hd : 2 * s.rest.length + 2 ≤ d)
    (hmiss : ∀ b (s₁ : ParseState), s₁.Closed → s₁.rest = [] → Misses (f b) s₁)
    (h : ∀ b after, after <:+ s.rest → Viable more e (f b) (f' b) { s with rest := after }) :
    Viable more e (demand .newline >>= fun _ => statements d ends >>= f)
      (demand .newline >>= fun _ => statements (k + d) ends >>= f') s :=
  ih.body hs hd (fun _ hs₁ hends => hends.bind_misses hs₁ hmiss) h

theorem BlockViable.whileLoop (ih : BlockViable more k d) (hs : s.Closed)
    (hd : 2 * s.rest.length ≤ d) :
    Viable more e (whileLoop (statements d [.ENDDO]))
      (whileLoop (statements (k + d) [.ENDDO])) s := by
  refine Viable.advance hs fun t ts hr => Viable.bind hs (expression_viable hs) fun c m₁ hsuf => ?_
  have hle := hsuf.length_le
  rw [hr, List.length_cons] at hd
  refine ih.closed hs (by simp only at hle ⊢; omega) (fun _ _ => demand_misses) fun b m₂ _ => ?_
  exact Viable.demand hs fun _ _ _ _ => .pure _

theorem CasesViable.succ (ihBlock : BlockViable more k d) (ih : CasesViable more k d) :
    CasesViable more k (d + 1) := by
  intro s hs hd
  show Viable more true (cases (d + 1)) (cases (k + d + 1)) s
  unfold cases
  refine Viable.eat hs (fun t ts hr _ => ?_) fun _ _ _ _ => .pure _
  rw [hr, List.length_cons] at hd
  obtain ⟨c, rfl⟩ : ∃ c, d = c + 1 := ⟨d - 1, by omega⟩
  refine Viable.bind hs (expression_viable hs) fun cond m₁ hsuf₁ => ?_
  have hle₁ := hsuf₁.length_le
  simp only at hle₁
  refine ihBlock.body hs (by simp only; omega) (fun s₁ hs₁ hends => ?_) fun b m₂ hsuf₂ => ?_
  · exact hends.bind_same hs₁ fun b s₂ hs₂ hr₂ => ⟨[(cond, b)], bind_some (cases_nil hs₂ hr₂)⟩
  · have hle₂ := hsuf₂.length_le
    simp only at hle₂
    refine (ih { s with rest := m₂ } hs (by simp only; omega)).seq (fun hends => ?_)
      fun _ _ _ _ => .pure _
    exact hends.bind_same hs fun bs s₂ _ _ => ⟨(cond, b) :: bs, rfl⟩

/-! ## Forms of statements -/

/-- All that matters of the second token is what it says behind `DO`. -/
theorem Form.ofKinds_of_ne {first : Kind} (h : first ≠ .keyword .DO) (second second' : Kind) :
    ofKinds first second = ofKinds first second' := by
  unfold ofKinds
  split <;> first | rfl | exact absurd rfl h

theorem BlockViable.ifThen (ih : BlockViable more k d) (hs : s.Closed)
    (hd : 2 * s.rest.length ≤ d) :
    Viable more e (Form.ifThen.rule (statements d) (cases d))
      (Form.ifThen.rule (statements (k + d)) (cases (k + d))) s := by
  refine Viable.advance hs fun t ts hr => Viable.bind hs (expression_viable hs) fun c m₁ hsuf₁ => ?_
  rw [hr, List.length_cons] at hd
  have hle₁ := hsuf₁.length_le
  simp only at hle₁
  -- The same follows whether `THEN` is there or not.
  have hrest {m₂ : List Token} (hle₂ : m₂.length ≤ ts.length) :
      Viable more e
        (demand .newline >>= fun _ => statements d [.ELSE, .ENDIF] >>= fun yes =>
          eat (.keyword .ELSE) >>= fun b => if b = true then
            demand .newline >>= fun _ => statements d [.ENDIF] >>= fun no =>
            demand (.keyword .ENDIF) >>= fun _ => pure (Statement.ifThen c yes (some no))
          else demand (.keyword .ENDIF) >>= fun _ => pure (Statement.ifThen c yes none))
        (demand .newline >>= fun _ => statements (k + d) [.ELSE, .ENDIF] >>= fun yes =>
          eat (.keyword .ELSE) >>= fun b => if b = true then
            demand .newline >>= fun _ => statements (k + d) [.ENDIF] >>= fun no =>
            demand (.keyword .ENDIF) >>= fun _ => pure (Statement.ifThen c yes (some no))
          else demand (.keyword .ENDIF) >>= fun _ => pure (Statement.ifThen c yes none))
        { s with rest := m₂ } := by
    refine ih.closed hs (by simp only; omega)
      (fun _ _ hs₁ hr₁ => eat_misses hs₁ hr₁ (demand_misses hs₁ hr₁)) fun yes m₃ hsuf₃ => ?_
    have hle₃ := hsuf₃.length_le
    refine Viable.eat hs (fun t₁ m₄ hr₄ _ => ?_) fun _ _ _ _ => ?_
    · have hle₄ := (suffix_of_cons hr₄).length_le
      refine ih.closed hs (by simp only at *; omega) (fun _ _ => demand_misses) fun no m₅ _ => ?_
      exact Viable.demand hs fun _ _ _ _ => .pure _
    · exact Viable.demand hs fun _ _ _ _ => .pure _
  refine Viable.eat hs (fun t₁ m₂ hr₂ _ => ?_) fun _ _ _ _ => ?_
  · exact hrest ((suffix_of_cons hr₂).length_le.trans hle₁)
  · exact hrest hle₁

theorem BlockViable.doCase (ih : BlockViable more k d) (ihCases : CasesViable more k d)
    (hs : s.Closed) (hd : 2 * s.rest.length ≤ d) :
    Viable more e (Form.doCase.rule (statements d) (cases d))
      (Form.doCase.rule (statements (k + d)) (cases (k + d))) s := by
  refine Viable.advance hs fun t ts hr => Viable.advance hs fun t₁ m₁ hr₁ => ?_
  refine Viable.demand hs fun t₂ m₂ hr₂ _ => ?_
  have hle₁ : m₁.length ≤ ts.length := (suffix_of_cons hr₁).length_le
  have hle₂ : m₂.length ≤ m₁.length := (suffix_of_cons hr₂).length_le
  rw [hr, List.length_cons] at hd
  -- Without the closing keyword, the end of the source is an error, with branches or without.
  refine (ihCases { s with rest := m₂ } hs (by simp only; omega)).seq (fun hends => ?_)
    fun bs m₃ hsuf₃ _ => ?_
  · exact hends.bind_misses hs fun _ _ hs₁ hr₁ => eat_misses hs₁ hr₁ (endCase_misses hs₁ hr₁).bind
  · have hle₃ := hsuf₃.length_le
    refine Viable.eat hs (fun t₃ m₄ hr₄ _ => ?_) fun _ _ _ _ => ?_
    · have hle₄ := (suffix_of_cons hr₄).length_le
      refine ih.closed hs (by simp only at *; omega)
        (fun _ _ hs₁ hr₁ => (endCase_misses hs₁ hr₁).bind) fun o m₅ _ => ?_
      exact Viable.endCase hs fun _ _ _ _ => .pure _
    · exact Viable.endCase hs fun _ _ _ _ => .pure _

theorem BlockViable.function (ih : BlockViable more k d) (hs : s.Closed)
    (hd : 2 * s.rest.length ≤ d) :
    Viable more e (Form.function.rule (statements d) (cases d))
      (Form.function.rule (statements (k + d)) (cases (k + d))) s := by
  refine Viable.advance hs fun t ts hr => Viable.ident hs fun x m₁ hr₁ _ => ?_
  have hle₁ : m₁.length ≤ ts.length := (suffix_of_cons hr₁).length_le
  refine Viable.bind hs (parameters_viable hs) fun xs m₂ hsuf₂ => ?_
  have hle₂ := hsuf₂.length_le
  rw [hr, List.length_cons] at hd
  refine ih.closed hs (by simp only at *; omega) (fun _ _ => demand_misses) fun b m₃ _ => ?_
  exact Viable.demand hs fun _ _ _ _ => .pure _

/-- The rule of a form of statement is viable. -/
theorem BlockViable.rule (ih : BlockViable more k d) (ihCases : CasesViable more k d)
    (hs : s.Closed) (hd : 2 * s.rest.length ≤ d) (form : Form) :
    Viable more false (form.rule (statements d) (cases d))
      (form.rule (statements (k + d)) (cases (k + d))) s := by
  cases form with
  | declaration v => exact declaration_viable hs
  | function => exact ih.function hs hd
  | ret => exact returnStatement_viable hs
  | ifThen => exact ih.ifThen hs hd
  | doCase => exact ih.doCase ihCases hs hd
  | doWhile =>
    refine Viable.advance hs fun t ts hr => ih.whileLoop hs ?_
    rw [hr, List.length_cons] at hd
    simp only
    omega
  | whileOnly => exact ih.whileLoop hs hd
  | exit | loop => exact Viable.advance hs fun _ _ _ => .pure _
  | print => exact printStatement_viable hs
  | expr => exact Viable.bind hs (expression_viable hs) fun _ _ _ => .pure _

/-- A `DO` with nothing behind it is no expression. -/
theorem loneDo_ends {t : Token} (hs : s.Closed) (hr : s.rest = [t]) (hk : t.kind = .keyword .DO) :
    Ends false (statement (d + 1)) s := by
  have hcurrent : s.current = t := current_cons hr
  have hform : Form.ofKinds s.current.kind s.following.kind = .expr := by
    rw [hcurrent, hk, ParseState.following_kind hs, hr]
    rfl
  have hno : NoOperand s.current := by
    rw [hcurrent]
    refine ⟨?_, ?_, ?_, ?_, ?_⟩ <;> simp [atom?, unary?, hk]
  have hexpr : expression s = (none, s.record (.nonExpression s.current.kind)) :=
    bind_none (operand_other hno)
  have hrun : statement (d + 1) s = (none, s.record (.nonExpression s.current.kind)) := by
    rw [statement_succ, hform]
    exact bind_none hexpr
  rw [ParseState.record, hcurrent] at hrun
  refine .failed _ hrun ?_ (.inr ⟨_, rfl, .loneDo hk ?_⟩)
  · rw [hr]
    simp [hk]
  · rw [hr]

theorem BlockViable.statement (ih : BlockViable more k d) (ihCases : CasesViable more k d) :
    StatementViable more k (d + 1) := by
  intro s hs hne hd
  show Viable more false (Parser.statement (d + 1)) (Parser.statement (k + d + 1)) s
  obtain ⟨t, ts, hr⟩ := List.exists_cons_of_ne_nil hne
  have hr' : (s.extend more).rest = t :: (ts ++ more.tokens) := extend_rest_of_cons hr
  by_cases hdo : t.kind = .keyword .DO ∧ ts = []
  · obtain ⟨hk, rfl⟩ := hdo
    exact fun _ _ _ => .inr (loneDo_ends hs hr hk)
  · have hform : Form.ofKinds (s.extend more).current.kind (s.extend more).following.kind =
        Form.ofKinds s.current.kind s.following.kind := by
      rw [current_cons hr, current_cons hr']
      by_cases hk : t.kind = .keyword .DO
      · obtain ⟨u, us, rfl⟩ := List.exists_cons_of_ne_nil fun hts => hdo ⟨hk, hts⟩
        rw [following_cons hr, following_cons hr']
      · exact Form.ofKinds_of_ne hk _ _
    refine .step List.suffix_rfl (statement_succ d s) ?_ (ih.rule ihCases hs (by omega) _)
    rw [statement_succ, hform]

/-! ## Programs -/

/-- A statement that stops too early ends the turn: what is left of its line is skipped. -/
theorem Ends.turn (hs : s.Closed) (h : Ends false (statement d) s) : Ends true (turn d) s := by
  have heat (errors : List SyntaxError) :
      (eat .newline ⟨[], s.stop, errors⟩).2 = ⟨[], s.stop, errors⟩ := by
    rw [eat_false (s := ⟨[], s.stop, errors⟩) hs (by simp [headKind])]
  cases h with
  | @failed after new run line early =>
    have hskip : after.dropWhile (·.kind ≠ .newline) = [] := by
      simpa using line
    refine .passed (a := none) new ?_ early fun he => by cases he
    rw [turn_run, afterStatement, run]
    show (some none, (eat .newline ⟨after.dropWhile _, _, _⟩).2) = _
    rw [hskip, heat]
  | @passed first new run early _ =>
    refine .passed (a := some first) new ?_ early fun he => by cases he
    rw [turn_run, afterStatement, run]
    show (some (some first), (eat .newline ⟨[], _, _⟩).2) = _
    rw [heat]

/-- A turn that is read without an error has read a statement. -/
theorem turn_silent {a : Option Statement} {rest : List Token} (hs : s.Closed)
    (hd : 2 * s.rest.length + 1 ≤ d) (h : turn d s = (some a, { s with rest := rest })) :
    ∃ first mid, a = some first ∧ statement d s = (some first, { s with rest := mid }) ∧
      finishLine (some first) { s with rest := mid } = (some a, { s with rest := rest }) := by
  obtain ⟨first?, mid, hfirst, hline⟩ := bind_silent h
  have hrun : statement d s = (first?, { s with rest := mid }) := by
    rw [attempt_run, Prod.mk.injEq, Option.some.injEq] at hfirst
    exact Prod.ext hfirst.1 hfirst.2
  obtain ⟨first, hsome, -⟩ := (statements_silent d).1 s hs hd (by rw [hrun])
  obtain rfl : first? = some first := by rw [← hsome, hrun]
  refine ⟨first, mid, ?_, hrun, hline⟩
  obtain ⟨b, hb⟩ := eat_fst .newline ({ s with rest := mid } : ParseState)
  have hsame := hline.symm.trans (bind_some (Prod.ext hb rfl))
  exact Option.some.inj (congrArg Prod.fst hsame)

theorem StatementViable.turn (ih : StatementViable more k d) (hstop : more.stop.kind = .endOfFile)
    (hk : 2 * more.tokens.length ≤ k) (hs : s.Closed) (hne : s.rest ≠ [])
    (hd : 2 * s.rest.length + 1 ≤ d) : Viable more true (turn d) (turn (k + d)) s := by
  intro a rest h
  have hlength : (s.extend more).rest.length = s.rest.length + more.tokens.length :=
    List.length_append
  obtain ⟨first, mid, rfl, hrun', hline'⟩ := turn_silent (s := s.extend more) hstop (by omega) h
  obtain ⟨after, hsuf, hrun, rfl⟩ | hends := ih s hs hne hd first mid hrun'
  · have hline : Viable more true (finishLine (some first)) (finishLine (some first))
        { s with rest := after } :=
      Viable.eat hs (fun _ _ _ _ => .pure _) fun _ _ _ _ => .pure _
    have hturn : Parser.turn d s = finishLine (some first) { s with rest := after } :=
      bind_some ((attempt_run _ s).trans (by rw [hrun]))
    obtain ⟨after', hsuf', hread, hrest⟩ | hends := hline _ _ hline'
    · exact .inl ⟨after', hsuf'.trans hsuf, hturn.trans hread, hrest⟩
    · exact .inr (hends.step hsuf hturn)
  · exact .inr (hends.turn hs)

theorem StatementViable.block (ihStatement : StatementViable more k d) (ih : BlockViable more k d)
    (hstop : more.stop.kind = .endOfFile) (hk : 2 * more.tokens.length ≤ k) :
    BlockViable more k (d + 1) := by
  intro ends s hs hd
  show Viable more true (statements (d + 1) ends) (statements (k + d + 1) ends) s
  by_cases hr : s.rest = []
  · exact .of_stop hs hr
  obtain ⟨t, ts, hrest⟩ := List.exists_cons_of_ne_nil hr
  have hcurrent : (s.extend more).current = s.current := by
    rw [current_cons hrest, current_cons (extend_rest_of_cons hrest)]
  by_cases hends : (s.current.kind = .endOfFile || isOneOf ends s.current.kind) = true
  · refine .step (q := pure []) List.suffix_rfl ?_ ?_ (.pure [])
    · rw [statements_succ, if_pos hends]
      rfl
    · rw [statements_succ, hcurrent, if_pos hends]
      rfl
  · obtain ⟨c, rfl⟩ : ∃ c, d = c + 1 := ⟨d - 1, by rw [hrest, List.length_cons] at hd; omega⟩
    refine .step List.suffix_rfl ((statements_succ _ ends s).trans (if_neg hends))
      ((statements_succ _ ends _).trans (if_neg (by rwa [hcurrent]))) ?_
    have hturn := ihStatement.turn hstop hk hs hr (by omega)
    refine hturn.seq (fun h => h.bind_same hs fun first? s₁ hs₁ hr₁ => ?_) ?_
    · exact ⟨first?.toList ++ [], bind_some (statements_nil hs₁ hr₁)⟩
    · intro first? after hsuf hrun
      have hlt := turn_consumes (c + 1) hs hr
      rw [hrun] at hlt
      refine (ih ends { s with rest := after } hs (by simp only at *; omega)).seq (fun h => ?_)
        fun _ _ _ _ => .pure _
      exact h.bind_same hs fun b s₁ _ _ => ⟨first?.toList ++ b, rfl⟩

/-- Where the depth is enough, statements are viable. -/
theorem statements_viable (hstop : more.stop.kind = .endOfFile) (hk : 2 * more.tokens.length ≤ k)
    (d : Nat) : StatementViable more k d ∧ BlockViable more k d ∧ CasesViable more k d := by
  induction d with
  | zero =>
    exact ⟨fun _ _ _ h => absurd h (by omega), fun _ _ _ h => absurd h (by omega),
      fun _ _ h => absurd h (by omega)⟩
  | succ d ih =>
    obtain ⟨ihStatement, ihBlock, ihCases⟩ := ih
    exact ⟨ihBlock.statement ihCases, ihStatement.block ihBlock hstop hk, ihCases.succ ihBlock⟩

/-- If a program is read without an error in a longer text, what is recorded where the text stops
comes from the early end. -/
theorem program_early (hs : s.Closed) (hstop : more.stop.kind = .endOfFile)
    (h : (program (s.extend more)).2.errors = s.errors) :
    ∃ new, (program s).2.errors = s.errors ++ new ∧ Early s.rest new := by
  obtain ⟨p, hp, -⟩ := program_silent (s := s.extend more) hstop h
  have hrun : program (s.extend more) =
      (some p, { s.extend more with rest := (program (s.extend more)).2.rest }) :=
    Prod.ext hp (Forward.silent_state h)
  have hviable := (statements_viable hstop (Nat.le_refl _) s.budget).2.1 [] s hs (Nat.le_refl _)
  rw [program, budget_extend] at hrun
  obtain ⟨after, -, hread, -⟩ | hends := hviable p _ hrun
  · exact ⟨[], by rw [program, hread, List.append_nil], .inl .nil⟩
  · cases hends with
    | failed new run _ early => exact ⟨new, congrArg (·.2.errors) run, early⟩
    | passed new run early _ => exact ⟨new, congrArg (·.2.errors) run, early⟩

end Xbase.Parser
