import Xbase.Proofs.Grammar.Accepts
import Xbase.Proofs.Parser.Nodes
import Xbase.Proofs.Parser.Progress
import Xbase.Proofs.Parser.Yields
import Xbase.Proofs.Program.Map

/-!
# Where expressions come from

`Expr.OfText text e` says that the expression `e` is read somewhere in a text, from a state in which
some of its tokens are left. Every expression of a program is one that is read in its text, whatever
syntax errors there are around it (`Program.ofText`), and so is every expression that is given as
nodes (`Arena.OfText.expr`).
-/

namespace Xbase

/-- The state is one in which some of the tokens have been read. -/
structure ParseState.Of (ts : TokenStream) (s : ParseState) : Prop where
  rest : s.rest <:+ ts.tokens
  stop : s.stop = ts.stop

/-- The expression is read somewhere in the text. -/
def Expr.OfText (text : String) (e : Expr) : Prop :=
  ∃ s : ParseState, s.Of (.ofText text) ∧ (Parser.expression s).1 = some e

/-- The nodes are those of an expression that is read somewhere in the text, by itself or as a part
of the program. -/
def Arena.OfText (text : String) (a : Arena) : Prop :=
  (∃ s : ParseState, s.Of (.ofText text) ∧ (Parser.arena s).1 = some a) ∨
  ∃ parsed, parse text = .ok parsed ∧ a ∈ parsed.program.arenas

namespace Parser

instance (ts : TokenStream) : Steady (ParseState.Of ts) where
  forward hstop hrest hs := ⟨hrest.trans hs.rest, hstop.trans hs.stop⟩

section

variable {I : ParseState → Prop} [Steady I] {Q : Expr → Prop}
  (hexpr : YieldsFrom I expression Q)

include hexpr

/-- The initial value of a declarator is an expression that is read. -/
theorem declarator_exprs :
    YieldsFrom I declarator fun d => ∀ e ∈ d.initial?.toList, Q e := by
  refine .seq fun _ => .seq fun _ => .seq fun _ => .ite (fun _ => ?_) fun _ => ?_
  · exact hexpr.bind fun e he => .pure (by simpa using he)
  · exact .pure (by simp)

theorem declaration_exprs (v : Visibility) :
    YieldsFrom I (declaration v) fun s => ∀ e ∈ s.exprs, Q e := by
  have hlist (ds : List Declarator) (h : ∀ d ∈ ds, ∀ e ∈ d.initial?.toList, Q e) :
      ∀ e ∈ ds.flatMap (·.initial?.toList), Q e := by
    intro e he
    obtain ⟨d, hd, he⟩ := List.mem_flatMap.1 he
    exact h d hd e he
  have hloose : YieldsFrom I looseDeclarator fun d => ∀ e ∈ d.initial?.toList, Q e :=
    .seq fun _ => (declarator_exprs hexpr).bind fun _ hd => .seq fun _ => .pure hd
  refine .seq fun _ => .seq fun _ => .ite (fun _ => ?_) fun _ => ?_
  · exact hloose.commaSeparated.bind fun ds hds => .seq fun _ => .pure (hlist ds hds.2)
  · refine (declarator_exprs hexpr).commaSeparated.bind fun ds hds => ?_
    match ds, hds with
    | [], hds => exact absurd rfl hds.1
    | [d], hds => exact .pure (hds.2 d (List.mem_singleton_self d))
    | d :: d' :: ds, hds => exact .pure (hlist _ hds.2)

theorem returnStatement_exprs :
    YieldsFrom I returnStatement fun s => ∀ e ∈ s.exprs, Q e := by
  refine .seq fun _ => .seq fun _ => .ite (fun _ => .pure ?_) fun _ => ?_
  · simp [Statement.exprs]
  · exact hexpr.bind fun e he => .pure (by simpa [Statement.exprs] using he)

theorem printStatement_exprs :
    YieldsFrom I printStatement fun s => ∀ e ∈ s.exprs, Q e := by
  refine .seq fun _ => .seq fun _ => .ite (fun _ => .pure ?_) fun _ => ?_
  · simp [Statement.exprs]
  · exact hexpr.commaSeparated.bind fun args ha => .pure ha.2

theorem whileLoop_exprs {body : Parser Block} [Forward body]
    (h : YieldsFrom I body fun ss => ∀ e ∈ Statement.exprsAll ss, Q e) :
    YieldsFrom I (whileLoop body) fun s => ∀ e ∈ s.exprs, Q e :=
  .seq fun _ => hexpr.bind fun _ he => .seq fun _ => h.bind fun _ hss => .seq fun _ =>
    .pure (List.forall_mem_cons.2 ⟨he, hss⟩)

/-- The expressions of a statement are read by the rule for expressions, if those of its blocks are.
-/
theorem Form.rule_exprs {block : List Keyword → Parser Block}
    {branches : Parser (List (Expr × Block))} [∀ ends, Forward (block ends)] [Forward branches]
    (hblock : ∀ ends, YieldsFrom I (block ends) fun ss => ∀ e ∈ Statement.exprsAll ss, Q e)
    (hbranches : YieldsFrom I branches fun bs => ∀ e ∈ Statement.exprsCases bs, Q e) (form : Form) :
    YieldsFrom I (form.rule block branches) fun s => ∀ e ∈ s.exprs, Q e := by
  cases form with
  | declaration v => exact declaration_exprs hexpr v
  | function =>
    exact .seq fun _ => .seq fun _ => .seq fun _ => .seq fun _ => (hblock _).bind fun body hbody =>
      .seq fun _ => .pure hbody
  | ret => exact returnStatement_exprs hexpr
  | ifThen =>
    refine .seq fun _ => hexpr.bind fun cond hcond => .seq fun _ => .seq fun _ =>
      (hblock _).bind fun yes hyes => .seq fun _ => .ite (fun _ => ?_) fun _ => ?_
    · refine .seq fun _ => (hblock _).bind fun no hno => .seq fun _ => .pure ?_
      exact List.forall_mem_append.2 ⟨List.forall_mem_cons.2 ⟨hcond, hyes⟩, hno⟩
    · exact .seq fun _ => .pure (List.forall_mem_cons.2 ⟨hcond, hyes⟩)
  | doCase =>
    refine .seq fun _ => .seq fun _ => .seq fun _ => hbranches.bind fun bs hbs => .seq fun _ =>
      .ite (fun _ => ?_) fun _ => ?_
    · exact .seq fun _ => (hblock _).bind fun body hbody => .seq fun _ =>
        .pure (List.forall_mem_append.2 ⟨hbs, hbody⟩)
    · exact .seq fun _ => .pure hbs
  | doWhile => exact .seq fun _ => whileLoop_exprs hexpr (hblock _)
  | whileOnly => exact whileLoop_exprs hexpr (hblock _)
  | exit | loop => exact .seq fun _ => .pure (List.forall_mem_nil _)
  | print => exact printStatement_exprs hexpr
  | expr => exact hexpr.bind fun e he => .pure (List.forall_mem_singleton.2 he)

/-- What holds of every expression that is read holds of the expressions of every statement. -/
theorem statement_exprs (d : Nat) :
    YieldsFrom I (statement d) (fun s => ∀ e ∈ s.exprs, Q e) ∧
      (∀ ends, YieldsFrom I (statements d ends) fun ss => ∀ e ∈ Statement.exprsAll ss, Q e) ∧
      YieldsFrom I (cases d) fun bs => ∀ e ∈ Statement.exprsCases bs, Q e := by
  induction d with
  | zero => exact ⟨.fail, fun _ => .fail, .fail⟩
  | succ d ih =>
    obtain ⟨ihStatement, ihStatements, ihCases⟩ := ih
    refine ⟨fun s hs => ?_, fun ends => ?_, ?_⟩
    · rw [statement_succ]
      exact Form.rule_exprs hexpr ihStatements ihCases _ s hs
    · unfold statements
      refine .seq fun t => .ite (fun _ => .pure (List.forall_mem_nil _)) fun _ => ?_
      refine ihStatement.attempt.bind fun first? hfirst => ?_
      split
      · next first =>
        exact .seq fun _ => (ihStatements _).bind fun more hmore =>
          .pure (List.forall_mem_append.2 ⟨hfirst first rfl, hmore⟩)
      · exact .seq fun _ => .seq fun _ => ihStatements _
    · unfold cases
      refine .seq fun _ => .ite (fun _ => ?_) fun _ => .pure (List.forall_mem_nil _)
      refine hexpr.bind fun cond hcond => .seq fun _ => (ihStatements _).bind fun body hbody =>
        ihCases.bind fun more hmore => .pure ?_
      exact List.forall_mem_append.2 ⟨List.forall_mem_cons.2 ⟨hcond, hbody⟩, hmore⟩

end

end Parser

/-- The expressions of a program are read in its text. -/
theorem Program.ofText {text : String} {parsed : Parsed} (h : parse text = .ok parsed) :
    ∀ e ∈ Statement.exprsAll parsed.program, e.OfText text := by
  have hstart : (ParseState.ofStream (.ofText text)).Of (.ofText text) := ⟨List.suffix_rfl, rfl⟩
  have hread : Parser.YieldsFrom (ParseState.Of (.ofText text)) Parser.expression
      (Expr.OfText text) := fun s hs e he => ⟨s, hs, he⟩
  rw [(parse_ok h).2]
  cases hrun : (Parser.program (.ofStream (.ofText text))).1 with
  | none => exact List.forall_mem_nil _
  | some p => exact (Parser.statement_exprs hread _).2.1 [] _ hstart p hrun

/-- The tokens of an expression of a text are some of those of the text. -/
theorem Expr.OfText.phrase {text : String} {e : Expr} (h : e.OfText text) :
    ∃ before after, Grammar.Phrase 1 before e after ∧
      before <:+ (TokenStream.ofText text).tokens := by
  obtain ⟨s, hs, he⟩ := h
  have hclosed : s.Closed := by
    rw [ParseState.Closed, hs.stop]
    exact (Lexer.ofText text).stream_stop
  obtain ⟨e', after, hrun, -, hphrase, -⟩ | ⟨fault, after, hrun, -⟩ :=
    Parser.expression_decides hclosed
  · rw [hrun] at he
    cases he
    exact ⟨s.rest, after, hphrase, hs.rest⟩
  · rw [hrun] at he
    cases he

/-- An arena of a text is the layout of an expression of it. -/
theorem Arena.OfText.expr {text : String} {a : Arena} (h : a.OfText text) :
    ∃ e : Expr, e.OfText text ∧ a = .ofExpr e := by
  obtain ⟨s, hs, ha⟩ | ⟨parsed, hparse, ha⟩ := h
  · rw [Parser.arena_run] at ha
    obtain ⟨e, he, rfl⟩ := Option.map_eq_some_iff.1 ha
    exact ⟨e, ⟨s, hs, he⟩, rfl⟩
  · obtain ⟨e, he, rfl⟩ := List.mem_map.1 ha
    exact ⟨e, Program.ofText hparse e he, rfl⟩

end Xbase
