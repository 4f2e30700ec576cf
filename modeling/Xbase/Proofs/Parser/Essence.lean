import Xbase.Proofs.Parser.Window
import Xbase.Proofs.Token.Case

/-!
# What the parser does not look at

The parser looks at the text of numbers, strings and names, and knows all other tokens by their
kind. `Parser.Overlooks p p'` says so: where texts that do not matter are left out, `p` does what
`p'` does in the presence of all texts. It is closed under sequencing, and so it is shown along the
rules of the parser, as `Parser.Forward` is. The two parsers differ only in tokens they hold.
-/

namespace Xbase

/-- The state without texts that do not matter. -/
def ParseState.essence (s : ParseState) : ParseState :=
  ⟨s.rest.map Token.essence, s.stop.essence, s.errors⟩

theorem ParseState.current_essence (s : ParseState) : s.essence.current = s.current.essence := by
  obtain ⟨_ | ⟨t, ts⟩, stop, errors⟩ := s <;> rfl

theorem ParseState.following_essence (s : ParseState) :
    s.essence.following = s.following.essence := by
  obtain ⟨_ | ⟨t, _ | ⟨t', ts⟩⟩, stop, errors⟩ := s <;> rfl

theorem ParseState.tail_essence (s : ParseState) :
    ({ s.essence with rest := s.essence.rest.tail } : ParseState) =
      ({ s with rest := s.rest.tail } : ParseState).essence := by
  obtain ⟨_ | ⟨t, ts⟩, stop, errors⟩ := s <;> rfl

theorem ParseState.record_essence (s : ParseState) (fault : SyntaxFault) :
    s.essence.record fault = (s.record fault).essence := by
  obtain ⟨_ | ⟨t, ts⟩, stop, errors⟩ := s <;> rfl

theorem ParseState.budget_essence (s : ParseState) : s.essence.budget = s.budget := by
  rw [budget, budget, essence, List.length_map]

namespace Parser

variable {α β : Type}

-- The rules of the compound statements are long sequences.
set_option synthInstance.maxSize 1000

/-- Without the texts that do not matter, `p` does what `p'` does. -/
class Overlooks (p p' : Parser α) : Prop where
  run : ∀ s : ParseState, p s.essence = ((p' s).1, (p' s).2.essence)

/-- Without the texts that do not matter, `p` reads the same token, without its text if that does
not matter. -/
class OverlooksToken (p : Parser Token) : Prop where
  run : ∀ s : ParseState, p s.essence = ((p s).1.map Token.essence, (p s).2.essence)

namespace Overlooks

/-- A parser that is chosen by the state. -/
theorem of_state (f f' : ParseState → Parser α) (h : ∀ s, Overlooks (f s.essence) (f' s)) :
    Overlooks (fun s => f s s) fun s => f' s s :=
  ⟨fun s => (h s).run s⟩

instance pure (a : α) : Overlooks (Pure.pure a) (Pure.pure a) := ⟨fun _ => rfl⟩

instance fail : Overlooks (Parser.fail : Parser α) Parser.fail := ⟨fun _ => rfl⟩

instance current : OverlooksToken Parser.current :=
  ⟨fun s => Prod.ext (congrArg some s.current_essence) rfl⟩

instance advance : OverlooksToken Parser.advance :=
  ⟨fun s => by obtain ⟨_ | ⟨t, ts⟩, stop, errors⟩ := s <;> rfl⟩

instance report (fault : SyntaxFault) : Overlooks (Parser.report fault) (Parser.report fault) :=
  ⟨fun s => by obtain ⟨_ | ⟨t, ts⟩, stop, errors⟩ := s <;> rfl⟩

instance skipNewlines : Overlooks Parser.skipNewlines Parser.skipNewlines :=
  ⟨fun s => by
    simp only [Parser.skipNewlines, ParseState.essence, List.dropWhile_map, Function.comp_def]⟩

instance skipLine : Overlooks Parser.skipLine Parser.skipLine :=
  ⟨fun s => by
    simp only [Parser.skipLine, ParseState.essence, List.dropWhile_map, Function.comp_def]⟩

instance bind (p p' : Parser α) (f f' : α → Parser β) [hp : Overlooks p p']
    [hf : ∀ a, Overlooks (f a) (f' a)] : Overlooks (p >>= f) (p' >>= f') := by
  refine ⟨fun s => ?_⟩
  rw [bind_run, bind_run, hp.run]
  obtain ⟨_ | a, s₁⟩ := p' s
  · rfl
  · exact (hf a).run s₁

/-- A token may have lost its text when the parser goes on with it. -/
theorem bind_of {p : Parser Token} {f f' : Token → Parser α} [hp : OverlooksToken p]
    {P : Token → Prop} (hP : ∀ s t s', p s = (some t, s') → P t)
    (hf : ∀ t, P t → Overlooks (f t.essence) (f' t)) : Overlooks (p >>= f) (p >>= f') := by
  refine ⟨fun s => ?_⟩
  rw [bind_run, bind_run, hp.run]
  rcases hrun : p s with ⟨_ | t, s₁⟩
  · rfl
  · exact (hf t (hP s t s₁ hrun)).run s₁

instance bindToken (p : Parser Token) (f f' : Token → Parser α) [OverlooksToken p]
    [hf : ∀ t, Overlooks (f t.essence) (f' t)] : Overlooks (p >>= f) (p >>= f') :=
  bind_of (P := fun _ => True) (fun _ _ _ _ => trivial) fun t _ => hf t

instance failWith (fault : SyntaxFault) :
    Overlooks (Parser.failWith fault : Parser α) (Parser.failWith fault) := by
  unfold Parser.failWith
  infer_instance

instance attempt (p p' : Parser α) [hp : Overlooks p p'] :
    Overlooks (Parser.attempt p) (Parser.attempt p') :=
  ⟨fun s => by rw [attempt_run, attempt_run, hp.run]⟩

instance ite {c : Prop} [Decidable c] (p p' q q' : Parser α) [Overlooks p p'] [Overlooks q q'] :
    Overlooks (if c then p else q) (if c then p' else q') := by
  split <;> infer_instance

/-- What is known from the condition can be used. -/
theorem ite_of {c : Prop} [Decidable c] {p p' q q' : Parser α} (hp : c → Overlooks p p')
    (hq : Overlooks q q') : Overlooks (if c then p else q) (if c then p' else q') := by
  split
  · exact hp ‹_›
  · exact hq

instance eat (k : Kind) : Overlooks (Parser.eat k) (Parser.eat k) := by
  unfold Parser.eat
  infer_instance

instance expect (k : Kind) : OverlooksToken (Parser.expect k) :=
  ⟨fun s => by
    rw [expect_run, expect_run, s.current_essence, s.tail_essence, s.record_essence]
    split <;> rfl⟩

instance expectName : OverlooksToken Parser.expectName :=
  ⟨fun s => by
    rw [expectName_run, expectName_run, s.current_essence, s.tail_essence, s.record_essence]
    split <;> rfl⟩

instance demand (k : Kind) : Overlooks (Parser.demand k) (Parser.demand k) :=
  ⟨fun s => by
    rw [demand_run, demand_run, s.current_essence, s.tail_essence, s.record_essence]
    split <;> rfl⟩

instance commaList (item item' : Parser α) [Overlooks item item'] (n : Nat) :
    Overlooks (Parser.commaList item n) (Parser.commaList item' n) := by
  induction n with
  | zero => exact fail
  | succ n ih =>
    unfold Parser.commaList
    infer_instance

instance commaSeparated (item item' : Parser α) [Overlooks item item'] :
    Overlooks (Parser.commaSeparated item) (Parser.commaSeparated item') :=
  of_state (fun s => Parser.commaList item s.budget) (fun s => Parser.commaList item' s.budget)
    fun s => by
      rw [s.budget_essence]
      infer_instance

end Overlooks

/-! ## Expressions -/

/-- The text of a number matters, so nothing is overlooked. -/
theorem number_overlooks {t : Token} (h : t.kind = .number) :
    Overlooks (number t.essence) (number t) := by
  rw [Token.essence_of_hasText (by rw [h]; rfl)]
  unfold number
  refine @Overlooks.bindToken _ _ _ _ inferInstance fun _ => ?_
  split <;> infer_instance

/-- The text of a token is in the atom only where it matters. -/
theorem atom?_essence (t : Token) : atom? t.essence = atom? t := by
  obtain ⟨kind, lexeme, span, line, col⟩ := t
  cases kind with
  | keyword k => cases k <;> rfl
  | symbol s | logical b | number | string | name | newline | endOfFile => rfl

/-- Expressions are read without the texts that do not matter, at any depth. -/
theorem exprAt_overlooks (d : Nat) :
    (∀ min, Overlooks (exprAt d min) (exprAt d min)) ∧ Overlooks (operand d) (operand d) ∧
      ∀ min left, Overlooks (climb d min left) (climb d min left) := by
  induction d with
  | zero => exact ⟨fun _ => .fail, .fail, fun _ _ => .fail⟩
  | succ d ih =>
    obtain ⟨ihExpr, ihOperand, ihClimb⟩ := ih
    refine ⟨fun min => ?_, ?_, fun min left => ?_⟩
    · unfold exprAt
      infer_instance
    · unfold operand
      refine @Overlooks.bindToken _ _ _ _ inferInstance fun t => ?_
      refine .ite_of (fun hk => number_overlooks hk) ?_
      rw [atom?_essence]
      split
      · infer_instance
      dsimp only [Token.essence]
      split
      · infer_instance
      refine @Overlooks.ite _ _ _ _ _ _ _ inferInstance ?_
      refine @Overlooks.ite _ _ _ _ _ _ _ ?_ inferInstance
      infer_instance
    · unfold climb
      refine @Overlooks.bindToken _ _ _ _ inferInstance fun t => ?_
      dsimp only [Token.essence]
      split
      · infer_instance
      refine @Overlooks.ite _ _ _ _ _ _ _ inferInstance
        (@Overlooks.bindToken _ _ _ _ inferInstance fun _ => ?_)
      split <;> infer_instance

instance : Overlooks expression expression :=
  .of_state (fun s => exprAt s.budget .lowest) (fun s => exprAt s.budget .lowest) fun s => by
    rw [s.budget_essence]
    exact (exprAt_overlooks s.budget).1 _

/-! ## Statements -/

/-- A name keeps its text. -/
instance : Overlooks ident ident := by
  have hname : ∀ s t s', expectName s = (some t, s') → t.kind = .name := by
    intro s t s' h
    rw [expectName_run] at h
    split at h
    · cases h
      assumption
    · cases h
  refine Overlooks.bind_of hname fun t ht => ?_
  rw [Token.essence_of_hasText (by rw [ht]; rfl)]
  infer_instance

instance : Overlooks typeClause typeClause := by
  unfold typeClause
  have (x : Ident) : Overlooks
      (match DeclaredType.ofName? x.name with
        | some t => pure (some t)
        | none => failWith (.unknownType x.name))
      (match DeclaredType.ofName? x.name with
        | some t => pure (some t)
        | none => failWith (.unknownType x.name)) := by
    split <;> infer_instance
  infer_instance

instance : Overlooks declarator declarator := by
  unfold declarator
  infer_instance

instance : Overlooks looseDeclarator looseDeclarator := by
  unfold looseDeclarator
  infer_instance

instance (v : Visibility) : Overlooks (declaration v) (declaration v) := by
  unfold declaration
  have (ds : List Declarator) : Overlooks
      (match ds with
        | [d] => pure (Statement.declare v d)
        | ds => pure (Statement.declareAll v ds false))
      (match ds with
        | [d] => pure (Statement.declare v d)
        | ds => pure (Statement.declareAll v ds false)) := by
    split <;> infer_instance
  infer_instance

instance : Overlooks parameters parameters := by
  unfold parameters
  infer_instance

instance : Overlooks returnStatement returnStatement := by
  unfold returnStatement
  infer_instance

instance : Overlooks printStatement printStatement := by
  unfold printStatement
  infer_instance

instance : Overlooks endCase endCase := by
  unfold endCase
  infer_instance

instance (body body' : Parser Block) [Overlooks body body'] :
    Overlooks (whileLoop body) (whileLoop body') := by
  unfold whileLoop
  infer_instance

theorem Form.rule_overlooks (form : Form) (block : List Keyword → Parser Block)
    (branches : Parser (List (Expr × Block))) [∀ ends, Overlooks (block ends) (block ends)]
    [Overlooks branches branches] :
    Overlooks (form.rule block branches) (form.rule block branches) := by
  cases form <;> (unfold Form.rule; infer_instance)

/-- Statements are read without the texts that do not matter, at any depth. -/
theorem statement_overlooks (d : Nat) :
    Overlooks (statement d) (statement d) ∧
      (∀ ends, Overlooks (statements d ends) (statements d ends)) ∧
      Overlooks (cases d) (cases d) := by
  induction d with
  | zero => exact ⟨.fail, fun _ => .fail, .fail⟩
  | succ d ih =>
    obtain ⟨ihStatement, ihStatements, ihCases⟩ := ih
    refine ⟨⟨fun s => ?_⟩, fun ends => ?_, ?_⟩
    · rw [statement_succ, statement_succ, s.current_essence, s.following_essence]
      exact (Form.rule_overlooks ..).run s
    · unfold statements
      refine @Overlooks.bindToken _ _ _ _ inferInstance fun t =>
        @Overlooks.ite _ _ _ _ _ _ _ inferInstance ?_
      refine @Overlooks.bind _ _ _ _ _ _ inferInstance fun first => ?_
      split <;> infer_instance
    · unfold cases
      infer_instance

instance : Overlooks program program :=
  .of_state (fun s => statements s.budget []) (fun s => statements s.budget []) fun s => by
    rw [s.budget_essence]
    exact (statement_overlooks s.budget).2.1 []

end Parser

/-- Texts with streams that differ in lexemes that do not matter are read in the same way. -/
theorem Lexer.parseFrom_essence {lx lx' : Lexer} (h : lx'.stream.essence = lx.stream.essence) :
    lx'.parseFrom (.ofStream lx'.stream) = lx.parseFrom (.ofStream lx.stream) := by
  have hprogram : Parser.Overlooks Parser.program Parser.program := inferInstance
  have hstate : (ParseState.ofStream lx'.stream).essence =
      (ParseState.ofStream lx.stream).essence :=
    congrArg ParseState.ofStream h
  have hrun := hprogram.run (.ofStream lx'.stream)
  rw [hstate, hprogram.run] at hrun
  obtain ⟨hread, hleft⟩ := Prod.mk.inj hrun
  -- What is left out of tokens is neither in the fault nor in the errors.
  have hfault := congrArg TokenStream.fault h
  have herrors := congrArg ParseState.errors hleft
  simp only [TokenStream.essence, ParseState.essence] at hfault herrors
  rw [parseFrom_ofStream, parseFrom_ofStream, hfault, hread, herrors]

end Xbase
