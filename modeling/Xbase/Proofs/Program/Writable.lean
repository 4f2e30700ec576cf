import Xbase.Proofs.Number.Text
import Xbase.Proofs.Parser.Statement
import Xbase.Proofs.Parser.Yields
import Xbase.Proofs.Token.Lexical

/-!
# Programs that can be written down

`Program.Writable` says what is needed to write a program as text and read it back: its numbers are
literals, every string leaves one of the marks unused, its names are names, and a list of declared
names is as long as its form asks for.

`Parser.program_yields`: whatever the parser makes of a text, with or without syntax errors, is such
a program.
-/

namespace Xbase

/-! ## What can be written -/

/-- The atom has a text that stands for it. -/
def Atom.Writable : Atom → Prop
  | .number n => n.Literal
  | .string s => ∃ mark, Piece.isMark mark = true ∧ mark ∉ s.toList
  | .name s => IsName s
  | .logical _ | .null => True

namespace Expr

mutual

/-- All atoms of the expression can be written. -/
def Writable : Expr → Prop
  | atom a _ => a.Writable
  | unary _ operand _ => operand.Writable
  | binary _ left right | assign _ left right | logic _ left right =>
    left.Writable ∧ right.Writable
  | call callee args _ => callee.Writable ∧ AllWritable args
  | iif condition yes no _ => condition.Writable ∧ yes.Writable ∧ no.Writable

/-- Each of the expressions can be written. -/
def AllWritable : List Expr → Prop
  | [] => True
  | e :: rest => e.Writable ∧ AllWritable rest

end

theorem allWritable_of_forall {es : List Expr} (h : ∀ e ∈ es, e.Writable) : AllWritable es := by
  induction es with
  | nil => trivial
  | cons e es ih =>
    exact ⟨h e (List.mem_cons_self ..), ih fun e he => h e (List.mem_cons_of_mem _ he)⟩

end Expr

/-- Name and first value can be written. -/
structure Declarator.Writable (d : Declarator) : Prop where
  name : IsName d.name.name
  initial : ∀ e ∈ d.initial?, e.Writable

namespace Statement

mutual

/-- The parts of the statement can be written. Names between parentheses are one at least, and
without parentheses several. -/
def Writable : Statement → Prop
  | declare _ d => d.Writable
  | declareAll _ ds grouped =>
    (∀ d ∈ ds, d.Writable) ∧ if grouped then ds ≠ [] else 2 ≤ ds.length
  | function name params body =>
    IsName name.name ∧ (∀ x ∈ params, IsName x.name) ∧ AllWritable body
  | expr e => e.Writable
  | print args _ => ∀ e ∈ args, e.Writable
  | ifThen condition yes none => condition.Writable ∧ AllWritable yes
  | ifThen condition yes (some no) => condition.Writable ∧ AllWritable yes ∧ AllWritable no
  | doCase branches none => CasesWritable branches
  | doCase branches (some body) => CasesWritable branches ∧ AllWritable body
  | doWhile condition body => condition.Writable ∧ AllWritable body
  | ret value _ => ∀ e ∈ value, e.Writable
  | exit _ | loop _ => True

/-- Each of the statements can be written. -/
def AllWritable : List Statement → Prop
  | [] => True
  | s :: rest => s.Writable ∧ AllWritable rest

/-- Each of the branches can be written. -/
def CasesWritable : List (Expr × List Statement) → Prop
  | [] => True
  | (condition, body) :: rest => condition.Writable ∧ AllWritable body ∧ CasesWritable rest

end

end Statement

/-- The program can be written down. -/
def Program.Writable (p : Program) : Prop := Statement.AllWritable p

/-! ## What parsers yield -/

/-- The texts of all tokens fit their kinds. -/
def ParseState.Lexical (s : ParseState) : Prop :=
  s.stop.Lexical ∧ ∀ t ∈ s.rest, t.Lexical

theorem ParseState.Lexical.current {s : ParseState} (h : s.Lexical) : s.current.Lexical := by
  obtain ⟨rest, stop, errors⟩ := s
  cases rest with
  | nil => exact h.1
  | cons t ts => exact h.2 t (List.mem_cons_self ..)

namespace Parser

instance : Steady ParseState.Lexical where
  forward hstop hrest hs := ⟨hstop ▸ hs.1, fun t ht => hs.2 t (hrest.subset ht)⟩

/-- Every result of `p` satisfies `Q`, whatever is left unread or recorded. -/
abbrev Yields {α : Type} (p : Parser α) (Q : α → Prop) : Prop :=
  YieldsFrom ParseState.Lexical p Q

theorem current_yields : Yields current Token.Lexical := by
  intro s hs t ht
  cases ht
  exact hs.current

/-- A name that is read is spelled like a name, as the lexer makes no other. -/
theorem expectName_yields : Yields expectName fun t => IsName t.lexeme := by
  intro s hs t ht
  rw [expectName_run] at ht
  split at ht
  · next hk =>
    cases ht
    have hlex := hs.current
    rw [Token.Lexical, hk] at hlex
    exact hlex
  · cases ht

/-! ## Expressions -/

/-- The atom of a token of a text is one that can be written down. -/
theorem atom?_writable {t : Token} {a : Atom} (ht : t.Lexical) (h : atom? t = some a) :
    a.Writable := by
  cases leaf_of_atom? h with
  | number hk _ => simp [atom?, hk] at h
  | logical _ | null _ => trivial
  | name hk =>
    rw [Token.Lexical, hk] at ht
    exact ht
  | string hk =>
    rw [Token.Lexical, hk] at ht
    obtain ⟨mark, body, hlexeme, hmark, hbody⟩ := ht
    refine ⟨mark, hmark, ?_⟩
    simpa [Token.stringValue, hlexeme] using hbody

/-- Expressions that are read from a text can be written down. The induction is on the depth, for
the three rules at once. -/
theorem exprAt_yields (d : Nat) :
    (∀ min, Yields (exprAt d min) Expr.Writable) ∧ Yields (operand d) Expr.Writable ∧
      ∀ min left, left.Writable → Yields (climb d min left) Expr.Writable := by
  induction d with
  | zero => exact ⟨fun _ => .fail, .fail, fun _ _ _ => .fail⟩
  | succ d ih =>
    obtain ⟨ihExpr, ihOperand, ihClimb⟩ := ih
    have (min : Precedence) : Forward (exprAt d min) := (exprAt_forward d).1 min
    have : Forward (operand d) := (exprAt_forward d).2.1
    have (min : Precedence) (left : Expr) : Forward (climb d min left) :=
      (exprAt_forward d).2.2 min left
    refine ⟨fun min => ihOperand.bind fun left hleft => ihClimb min left hleft, ?_, ?_⟩
    · unfold operand
      refine current_yields.bind fun t ht => ?_
      split
      · next hk =>
        unfold number
        refine .seq fun _ => ?_
        split
        · next n hn =>
          rw [Token.Lexical, hk] at ht
          obtain ⟨c, cs, hlexeme, hc⟩ := ht
          have hliteral : n.Literal := Number.literal_of_ofText? hlexeme hc hn
          exact .pure hliteral
        · exact .failWith _
      split
      · next a ha =>
        have hatom : a.Writable := atom?_writable ht ha
        exact .seq fun _ => .pure hatom
      split
      · exact .seq fun _ => (ihExpr _).bind fun e he => .pure he
      refine .ite (fun _ => ?_) fun _ => .ite (fun _ => ?_) fun _ => .failWith _
      · exact .seq fun _ => (ihExpr _).bind fun e he => .seq fun _ => .pure he
      · exact .seq fun _ => .seq fun _ => (ihExpr _).bind fun cond hcond => .seq fun _ =>
          (ihExpr _).bind fun yes hyes => .seq fun _ => (ihExpr _).bind fun no hno =>
          .seq fun _ => .pure ⟨hcond, hyes, hno⟩
    · intro min left hleft
      unfold climb
      refine .seq fun t => ?_
      split
      · exact .pure hleft
      refine .ite (fun _ => .pure hleft) fun _ => .seq fun _ => ?_
      split
      · exact (ihExpr _).bind fun right hright => ihClimb _ _ ⟨hleft, hright⟩
      · exact (ihExpr _).bind fun right hright => ihClimb _ _ ⟨hleft, hright⟩
      · exact (ihExpr _).bind fun right hright => ihClimb _ _ ⟨hleft, hright⟩
      · have close (args : List Expr) (hargs : ∀ e ∈ args, e.Writable) :
            Yields (expect (.symbol .rightParen) >>= fun closing =>
              climb d min (.call left args closing.span)) Expr.Writable :=
          .seq fun _ => ihClimb _ _ ⟨hleft, Expr.allWritable_of_forall hargs⟩
        refine .seq fun _ => .ite (fun _ => ?_) fun _ => ?_
        · exact close [] (by simp)
        · exact ((ihExpr _).commaList d).bind fun args hargs => close args hargs.2

theorem expression_yields : Yields expression Expr.Writable :=
  fun s hs => (exprAt_yields s.budget).1 _ s hs

/-! ## Statements -/

theorem ident_yields : Yields ident fun x => IsName x.name :=
  expectName_yields.bind fun _ ht => .pure ht

theorem declarator_yields : Yields declarator Declarator.Writable := by
  refine ident_yields.bind fun x hx => .seq fun type? => .seq fun _ =>
    .ite (fun _ => ?_) fun _ => ?_
  · exact expression_yields.bind fun e he => .pure ⟨hx, by simpa using he⟩
  · exact .pure ⟨hx, by simp⟩

theorem looseDeclarator_yields : Yields looseDeclarator Declarator.Writable :=
  .seq fun _ => declarator_yields.bind fun _ hd => .seq fun _ => .pure hd

/-- Declarations keep to names and expressions of the text. -/
theorem declaration_yields (v : Visibility) : Yields (declaration v) Statement.Writable := by
  refine .seq fun _ => .seq fun _ => .ite (fun _ => ?_) fun _ => ?_
  · exact looseDeclarator_yields.commaSeparated.bind fun ds hds => .seq fun _ =>
      .pure ⟨hds.2, by simpa using hds.1⟩
  · refine declarator_yields.commaSeparated.bind fun ds hds => ?_
    match ds, hds with
    | [], hds => exact absurd rfl hds.1
    | [d], hds => exact .pure (hds.2 d (List.mem_singleton_self d))
    | d :: d' :: ds, hds => exact .pure ⟨hds.2, by simp⟩

theorem parameters_yields : Yields parameters fun params => ∀ x ∈ params, IsName x.name := by
  have close (params : List Ident) (h : ∀ x ∈ params, IsName x.name) :
      Yields (demand (.symbol .rightParen) >>= fun _ => pure params)
        fun params => ∀ x ∈ params, IsName x.name := .seq fun _ => .pure h
  refine .seq fun _ => .ite (fun _ => .seq fun _ => .ite (fun _ => ?_) fun _ => ?_) fun _ => ?_
  · exact close [] (by simp)
  · exact ident_yields.commaSeparated.bind fun params hp => close params hp.2
  · exact .pure (by simp)

theorem returnStatement_yields : Yields returnStatement Statement.Writable := by
  refine .seq fun _ => .seq fun _ => .ite (fun _ => .pure ?_) fun _ => ?_
  · intro e he
    cases he
  · refine expression_yields.bind fun e he => .pure ?_
    simpa [Statement.Writable] using he

theorem printStatement_yields : Yields printStatement Statement.Writable := by
  refine .seq fun _ => .seq fun _ => .ite (fun _ => .pure ?_) fun _ => ?_
  · intro e he
    cases he
  · exact expression_yields.commaSeparated.bind fun args ha => .pure ha.2

theorem whileLoop_yields {body : Parser Block} [Forward body]
    (h : Yields body Statement.AllWritable) : Yields (whileLoop body) Statement.Writable :=
  .seq fun _ => expression_yields.bind fun _ he => .seq fun _ => h.bind fun _ hss =>
    .seq fun _ => .pure ⟨he, hss⟩

/-- Statements that are read from a text can be written down, with all blocks and branches in them.
-/
theorem statement_yields (d : Nat) :
    Yields (statement d) Statement.Writable ∧
      (∀ ends, Yields (statements d ends) Statement.AllWritable) ∧
      Yields (cases d) Statement.CasesWritable := by
  induction d with
  | zero => exact ⟨.fail, fun _ => .fail, .fail⟩
  | succ d ih =>
    obtain ⟨ihStatement, ihStatements, ihCases⟩ := ih
    have hexpr : Yields (expression >>= fun e => pure (Statement.expr e)) Statement.Writable :=
      expression_yields.bind fun e he => .pure he
    refine ⟨?_, fun ends => ?_, ?_⟩
    · unfold statement
      refine .seq fun t => ?_
      split
      · exact declaration_yields _
      · exact declaration_yields _
      · exact declaration_yields _
      · exact .seq fun _ => ident_yields.bind fun x hx => parameters_yields.bind fun params hp =>
          .seq fun _ => (ihStatements _).bind fun body hb => .seq fun _ => .pure ⟨hx, hp, hb⟩
      · exact returnStatement_yields
      · refine .seq fun _ => expression_yields.bind fun e he => .seq fun _ => .seq fun _ =>
          (ihStatements _).bind fun yes hyes => .seq fun _ => .ite (fun _ => ?_) fun _ => ?_
        · exact .seq fun _ => (ihStatements _).bind fun no hno => .pure_bind (.seq fun _ =>
            .pure ⟨he, hyes, hno⟩)
        · exact .pure_bind (.seq fun _ => .pure ⟨he, hyes⟩)
      · refine .seq fun t' => ?_
        split
        · refine .seq fun _ => .seq fun _ => .seq fun _ => ihCases.bind fun branches hb =>
            .seq fun _ => .ite (fun _ => ?_) fun _ => ?_
          · exact .seq fun _ => (ihStatements _).bind fun body hbody => .pure_bind (.seq fun _ =>
              .pure ⟨hb, hbody⟩)
          · exact .pure_bind (.seq fun _ => .pure hb)
        · exact .seq fun _ => whileLoop_yields (ihStatements _)
        · exact hexpr
      · exact whileLoop_yields (ihStatements _)
      · exact .seq fun _ => .pure trivial
      · exact .seq fun _ => .pure trivial
      · exact printStatement_yields
      · exact hexpr
    · unfold statements
      refine .seq fun t => .ite (fun _ => .pure trivial) fun _ => ?_
      refine ihStatement.attempt.bind fun first? hfirst => ?_
      split
      · next first =>
        exact .seq fun _ => (ihStatements _).bind fun more hmore => .pure ⟨hfirst first rfl, hmore⟩
      · exact .seq fun _ => .seq fun _ => ihStatements _
    · unfold cases
      refine .seq fun _ => .ite (fun _ => ?_) fun _ => .pure trivial
      exact expression_yields.bind fun e he => .seq fun _ => (ihStatements _).bind fun body hb =>
        ihCases.bind fun more hmore => .pure ⟨he, hb, hmore⟩

/-- Every program that is read can be written down. -/
theorem program_yields : Yields program Program.Writable :=
  fun s hs => (statement_yields s.budget).2.1 [] s hs

end Parser

end Xbase
