import Xbase.Proofs.Grammar.Accepts
import Xbase.Proofs.Parser.Agree.Basic
import Xbase.Proofs.Parser.Progress
import Xbase.Proofs.Token.Next

/-!
# What syntax errors say

A syntax error is recorded at the token that is next, whatever the error is about.
`SyntaxFault.Names f t` says that `t` is the token that the fault `f` is about, and
`SyntaxError.Recorded tokens x` where the two stand: most faults are found at the token they name,
but the name of an unknown type and a number that cannot be read have been read already, so that the
error is at the token behind.

`Parser.Records` says of a parser that it records no other errors. It is shown along the rules of
the parser, as `Parser.Forward` is. The lexer makes numbers only of what can be read, and so no
program has an error about a number (`Parser.program_errors_ne_invalidNumber`).
-/

namespace Xbase

/-! ## Errors and tokens -/

/-- The fault is one that the token has. -/
def SyntaxFault.Names (f : SyntaxFault) (t : Token) : Prop :=
  match f with
  | unexpectedToken actual expected => t.kind = actual ∧ actual ≠ expected
  | nonExpression actual => t.kind = actual
  | nonIdentifier actual => t.kind = actual ∧ actual ≠ .name
  | nonCaseBranch actual => t.kind = actual ∧ actual ≠ .keyword .ENDCASE
  | unknownType name => t.kind = .name ∧ t.lexeme = name ∧ DeclaredType.ofName? name = none
  | invalidNumber lexeme => t.kind = .number ∧ t.lexeme = lexeme ∧ Number.ofText? lexeme = none

/-- The fault is found when the token it is about has been read. -/
def SyntaxFault.isLate : SyntaxFault → Bool
  | unknownType _ | invalidNumber _ => true
  | _ => false

/-- The error is at the token it is about, or at the one behind it, by the kind of the fault. -/
inductive SyntaxError.Recorded (tokens : List Token) (x : SyntaxError) : Prop
  | here {t : Token} (hf : x.fault.isLate = false) (ht : t ∈ tokens) (hx : x.At t)
      (hn : x.fault.Names t)
  | behind {t₀ t : Token} (hf : x.fault.isLate = true) (ht : [t₀, t] <:+: tokens) (hx : x.At t)
      (hn : x.fault.Names t₀)

theorem SyntaxError.Recorded.mono {ts us : List Token} {x : SyntaxError} (h : x.Recorded ts)
    (hs : ts <:+ us) : x.Recorded us := by
  cases h with
  | here hf ht hx hn => exact .here hf (hs.subset ht) hx hn
  | behind hf ht hx hn => exact .behind hf (ht.trans hs.isInfix) hx hn

namespace ParseState

variable {s : ParseState}

/-- The tokens that are left, with the end of the source. -/
def left (s : ParseState) : List Token := s.rest ++ [s.stop]

theorem current_mem_left (s : ParseState) : s.current ∈ s.left := by
  obtain ⟨_ | ⟨t, ts⟩, stop, errors⟩ := s
  · exact List.mem_singleton_self _
  · exact List.mem_cons_self

theorem left_suffix {s' : ParseState} (hstop : s'.stop = s.stop) (hrest : s'.rest <:+ s.rest) :
    s'.left <:+ s.left := by
  obtain ⟨w, hw⟩ := hrest
  exact ⟨w, by rw [left, left, hstop, ← List.append_assoc, hw]⟩

/-- A token that has been read stands in front of the next one. -/
theorem infix_left {t : Token} {ts : List Token} (hr : s.rest = t :: ts) :
    [t, ({ s with rest := ts } : ParseState).current] <:+: s.left := by
  obtain ⟨rest, stop, errors⟩ := s
  obtain rfl : rest = t :: ts := hr
  cases ts with
  | nil => exact List.infix_rfl
  | cons u us => exact ⟨[], us ++ [stop], rfl⟩

end ParseState

namespace Parser

variable {α β : Type} {s : ParseState}

-- The rules of the compound statements are long sequences.
set_option synthInstance.maxSize 1000

/-- The errors that `p` records at `s` are about tokens that are left. -/
def RecordsAt (p : Parser α) (s : ParseState) : Prop :=
  ∀ x ∈ (p s).2.errors, x ∈ s.errors ∨ x.Recorded s.left

/-- The errors that `p` records are about tokens that are left. -/
class Records (p : Parser α) : Prop where
  at_closed : ∀ s : ParseState, s.Closed → RecordsAt p s

theorem RecordsAt.of_same {p : Parser α} (h : (p s).2.errors = s.errors) : RecordsAt p s :=
  fun _ hx => .inl (h ▸ hx)

/-- A fault of the next token is recorded there. -/
theorem RecordsAt.of_record {p : Parser α} {r : Option α} {fault : SyntaxFault}
    (h : p s = (r, s.record fault)) (hf : fault.isLate = false) (hn : fault.Names s.current) :
    RecordsAt p s := by
  intro x hx
  rw [h] at hx
  obtain hx | hx := List.mem_append.1 hx
  · exact .inl hx
  · rw [List.mem_singleton.1 hx]
    exact .inr (.here hf s.current_mem_left ⟨rfl, rfl, rfl⟩ hn)

/-- A fault of a token that has been read is recorded at the token behind it. -/
theorem RecordsAt.of_late {p : Parser α} {r : Option α} {fault : SyntaxFault} {t : Token}
    {ts : List Token} (hr : s.rest = t :: ts)
    (h : p s = (r, ({ s with rest := ts } : ParseState).record fault))
    (hf : fault.isLate = true) (hn : fault.Names t) : RecordsAt p s := by
  intro x hx
  rw [h] at hx
  obtain hx | hx := List.mem_append.1 hx
  · exact .inl hx
  · rw [List.mem_singleton.1 hx]
    exact .inr (.behind hf (ParseState.infix_left hr) ⟨rfl, rfl, rfl⟩ hn)

namespace Records

/-- A parser that records nothing. -/
theorem of_same {p : Parser α} (h : ∀ s, (p s).2.errors = s.errors) : Records p :=
  ⟨fun s _ => .of_same (h s)⟩

/-- A parser that is chosen by the state. -/
theorem of_state {f : ParseState → Parser α} (h : ∀ s, Records (f s)) : Records fun s => f s s :=
  ⟨fun s => (h s).at_closed s⟩

instance pure (a : α) : Records (Pure.pure a) := of_same fun _ => rfl

instance fail : Records (Parser.fail : Parser α) := of_same fun _ => rfl

instance current : Records Parser.current := of_same fun _ => rfl

instance advance : Records Parser.advance := of_same fun _ => rfl

instance skipNewlines : Records Parser.skipNewlines := of_same fun _ => rfl

instance skipLine : Records Parser.skipLine := of_same fun _ => rfl

instance bind (p : Parser α) (f : α → Parser β) [fp : Forward p] [hp : Records p]
    [hf : ∀ a, Records (f a)] : Records (p >>= f) := by
  refine ⟨fun s hs x hx => ?_⟩
  have hclosed : (p s).2.Closed := by rwa [ParseState.Closed, fp.stop]
  have hleft := ParseState.left_suffix (fp.stop s) (fp.rest s)
  have hfirst := hp.at_closed s hs
  rw [RecordsAt] at hfirst
  rw [bind_run] at hx
  rcases hrun : p s with ⟨_ | a, s₁⟩
  · rw [hrun] at hx hfirst
    exact hfirst x hx
  · rw [hrun] at hx hfirst hclosed hleft
    obtain hx | hx := (hf a).at_closed s₁ hclosed x hx
    · exact hfirst x hx
    · exact .inr (hx.mono hleft)

instance attempt (p : Parser α) [hp : Records p] : Records (Parser.attempt p) :=
  ⟨hp.at_closed⟩

instance ite {c : Prop} [Decidable c] (p q : Parser α) [Records p] [Records q] :
    Records (if c then p else q) := by
  split <;> infer_instance

instance eat (k : Kind) : Records (Parser.eat k) := by
  unfold Parser.eat
  infer_instance

instance expect (k : Kind) : Records (Parser.expect k) := by
  refine ⟨fun s _ => ?_⟩
  have hrun := expect_run k s
  split at hrun
  · exact .of_same (by rw [hrun])
  · next hk => exact .of_record hrun rfl ⟨rfl, hk⟩

instance demand (k : Kind) : Records (Parser.demand k) := by
  unfold Parser.demand
  infer_instance

instance expectName : Records Parser.expectName := by
  refine ⟨fun s _ => ?_⟩
  have hrun := expectName_run s
  split at hrun
  · exact .of_same (by rw [hrun])
  · next hk => exact .of_record hrun rfl ⟨rfl, hk⟩

instance commaList (item : Parser α) [Forward item] [Records item] (n : Nat) :
    Records (Parser.commaList item n) := by
  induction n with
  | zero => exact fail
  | succ n ih =>
    unfold Parser.commaList
    infer_instance

instance commaSeparated (item : Parser α) [Forward item] [Records item] :
    Records (Parser.commaSeparated item) :=
  of_state (f := fun s => Parser.commaList item s.budget) fun _ => inferInstance

end Records

/-! ## Expressions -/

theorem number_recordsAt (hs : s.Closed) (hk : s.current.kind = .number) :
    RecordsAt (number s.current) s := by
  obtain ⟨t, ts, hr, ht⟩ := cons_of_kind hs (by rw [hk]; decide)
  rw [ht] at hk ⊢
  have hrun : number t s = _ := bind_some (advance_of_cons hr)
  cases hn : Number.ofText? t.lexeme with
  | some n => exact .of_same (by rw [hrun, hn]; rfl)
  | none =>
    simp only [hn] at hrun
    exact .of_late hr hrun rfl ⟨hk, rfl, hn⟩

theorem exprAt_records (d : Nat) :
    (∀ min, Records (exprAt d min)) ∧ Records (operand d) ∧
      ∀ min left, Records (climb d min left) := by
  induction d with
  | zero => exact ⟨fun _ => .fail, .fail, fun _ _ => .fail⟩
  | succ d ih =>
    obtain ⟨ihExpr, ihOperand, ihClimb⟩ := ih
    obtain ⟨fExpr, fOperand, fClimb⟩ := exprAt_forward d
    refine ⟨fun min => ?_, ⟨fun s hs => ?_⟩, fun min left => ?_⟩
    · unfold exprAt
      infer_instance
    · unfold operand
      -- At the next token, which the rules look at, the branch is known.
      change RecordsAt (if s.current.kind = .number then _ else _) s
      split
      · next hk => exact number_recordsAt hs hk
      split
      · exact Records.at_closed s hs
      split
      · exact Records.at_closed s hs
      split
      · exact Records.at_closed s hs
      split
      · have (c yes : Expr) : Records (exprAt d .lowest >>= fun no =>
            expect (.symbol .rightParen) >>= fun closing =>
            pure (Expr.iif c yes no (s.current.span.merge closing.span))) := inferInstance
        exact Records.at_closed s hs
      · exact .of_record (failWith_run ..) rfl rfl
    · unfold climb
      refine @Records.bind _ _ _ _ inferInstance inferInstance fun t => ?_
      split
      · infer_instance
      refine @Records.ite _ _ _ _ _ inferInstance
        (@Records.bind _ _ _ _ inferInstance inferInstance fun _ => ?_)
      split <;> infer_instance

instance : Records expression :=
  .of_state (f := fun s => exprAt s.budget .lowest) fun s => (exprAt_records s.budget).1 _

/-! ## Statements -/

instance : Records ident := by
  unfold ident
  infer_instance

/-- The type that the name stands for. -/
def typeOf (x : Ident) : Parser (Option DeclaredType) :=
  match DeclaredType.ofName? x.name with
  | some t => pure (some t)
  | none => failWith (.unknownType x.name)

/-- The name of a type has been read when it turns out to be unknown. -/
theorem typeOf_records : Records (ident >>= typeOf) := by
  refine ⟨fun s hs => ?_⟩
  by_cases hk : s.current.kind = .name
  · obtain ⟨t, ts, hr, ht⟩ := cons_of_kind hs (by rw [hk]; decide)
    rw [ht] at hk
    have hident : ident s = (some ⟨t.lexeme, t.span⟩, { s with rest := ts }) :=
      bind_some (expectName_of_cons hr hk)
    cases hn : DeclaredType.ofName? t.lexeme with
    | some type =>
      refine .of_same ?_
      rw [bind_some hident, typeOf, hn]
      rfl
    | none =>
      have hrun : (ident >>= typeOf) s =
          (none, ({ s with rest := ts } : ParseState).record (.unknownType t.lexeme)) := by
        rw [bind_some hident, typeOf, hn]
        rfl
      exact .of_late hr hrun rfl ⟨hk, rfl, hn⟩
  · have hident : ident s = (none, s.record (.nonIdentifier s.current.kind)) := by
      refine bind_none ?_
      rw [expectName_run, if_neg hk]
    exact .of_record (bind_none hident) rfl ⟨rfl, hk⟩

instance : Records typeClause := by
  have := typeOf_records
  have : typeClause = eat (.keyword .AS) >>= fun found =>
      if found then ident >>= typeOf else pure none := rfl
  rw [this]
  infer_instance

instance : Records declarator := by
  unfold declarator
  infer_instance

instance : Records looseDeclarator := by
  unfold looseDeclarator
  infer_instance

instance (v : Visibility) : Records (declaration v) := by
  unfold declaration
  have (ds : List Declarator) : Records (match ds with
      | [d] => pure (Statement.declare v d)
      | ds => pure (Statement.declareAll v ds false)) := by
    split <;> infer_instance
  infer_instance

instance : Records parameters := by
  unfold parameters
  infer_instance

instance : Records returnStatement := by
  unfold returnStatement
  infer_instance

instance : Records printStatement := by
  unfold printStatement
  infer_instance

instance : Records endCase := by
  refine ⟨fun s _ => ?_⟩
  by_cases hk : s.current.kind = .keyword .ENDCASE
  · refine .of_same ?_
    rw [endCase, bind_some (current_run s), if_pos hk]
    rfl
  · have hrun : endCase s = (some (), s.record (.nonCaseBranch s.current.kind)) := by
      rw [endCase, bind_some (current_run s), if_neg hk]
      rfl
    exact .of_record hrun rfl ⟨rfl, hk⟩

instance (body : Parser Block) [Forward body] [Records body] : Records (whileLoop body) := by
  unfold whileLoop
  infer_instance

theorem Form.rule_records (form : Form) (block : List Keyword → Parser Block)
    (branches : Parser (List (Expr × Block))) [∀ ends, Forward (block ends)] [Forward branches]
    [∀ ends, Records (block ends)] [Records branches] : Records (form.rule block branches) := by
  cases form <;> (unfold Form.rule; infer_instance)

theorem statement_records (d : Nat) :
    Records (statement d) ∧ (∀ ends, Records (statements d ends)) ∧ Records (cases d) := by
  induction d with
  | zero => exact ⟨.fail, fun _ => .fail, .fail⟩
  | succ d ih =>
    obtain ⟨ihStatement, ihStatements, ihCases⟩ := ih
    refine ⟨?_, fun ends => ?_, ?_⟩
    · rw [show statement (d + 1) = _ from funext (statement_succ d)]
      exact .of_state fun s => Form.rule_records ..
    · unfold statements
      refine @Records.bind _ _ _ _ inferInstance inferInstance fun t =>
        @Records.ite _ _ _ _ _ inferInstance ?_
      refine @Records.bind _ _ _ _ inferInstance inferInstance fun first => ?_
      split <;> infer_instance
    · unfold cases
      infer_instance

instance : Records program :=
  .of_state (f := fun s => statements s.budget []) fun s => (statement_records s.budget).2.1 []

/-- The errors of a text are about its tokens. -/
theorem program_errors_recorded (text : String) :
    ∀ x ∈ (program (.ofStream (.ofText text))).2.errors,
      x.Recorded (ParseState.ofStream (.ofText text)).left := by
  intro x hx
  obtain hx | hx := (inferInstance : Records program).at_closed _
    (ParseState.ofStream_closed (.ofText text)) x hx
  · cases hx
  · exact hx

/-! ## Numbers -/

/-- No syntax error of a text is about a number. -/
theorem program_errors_ne_invalidNumber (text : String) :
    ∀ x ∈ (program (.ofStream (.ofText text))).2.errors,
      ∀ lexeme, x.fault ≠ .invalidNumber lexeme := by
  intro x hx lexeme hfault
  have hrecorded := program_errors_recorded text x hx
  cases hrecorded with
  | here hf =>
    rw [hfault] at hf
    cases hf
  | @behind t₀ t hf ht hx hn =>
    rw [hfault] at hn
    obtain ⟨hkind, rfl, hnone⟩ := hn
    -- The token is one of the text, and the lexer makes numbers only of what can be read.
    have hmem : t₀ ∈ (ParseState.ofStream (.ofText text)).left :=
      ht.subset (List.mem_cons_self ..)
    obtain hmem | hmem := List.mem_append.1 hmem
    · obtain ⟨n, hn⟩ := (Lexer.ofText text).stream_number t₀ hmem hkind
      cases hnone.symm.trans hn
    · rw [List.mem_singleton.1 hmem] at hkind
      cases hkind.symm.trans (Lexer.ofText text).stream_stop

end Parser

/-! ## Programs -/

/-- Every syntax error of a program is in the place of one of its tokens or of the end of the
source. This is the token that the error is about, unless that is the name of an unknown type; then
it is the token behind the name. -/
theorem parse_errors_placed {text : String} {parsed : Parsed} (h : parse text = .ok parsed) :
    ∀ x ∈ parsed.errors,
      ∃ t ∈ (TokenStream.ofText text).tokens ++ [(TokenStream.ofText text).stop], x.At t ∧
        ((∀ name, x.fault ≠ .unknownType name) → x.fault.Names t) ∧
        ∀ name, x.fault = .unknownType name → ∃ t₀, x.fault.Names t₀ ∧
          [t₀, t] <:+: (TokenStream.ofText text).tokens ++ [(TokenStream.ofText text).stop] := by
  intro x hx
  rw [(parse_ok h).2] at hx
  cases Parser.program_errors_recorded text x hx with
  | @here t hf ht hat hn =>
    refine ⟨t, ht, hat, fun _ => hn, fun name hname => ?_⟩
    rw [hname] at hf
    cases hf
  | @behind t₀ t hf ht hat hn =>
    refine ⟨t, ht.subset (by simp), hat, fun hname => ?_, fun name _ => ⟨t₀, hn, ht⟩⟩
    -- The only other fault that is found late is one of a number, and there are none.
    have hnumber := Parser.program_errors_ne_invalidNumber text x hx
    revert hf hname hnumber
    cases x.fault with
    | unknownType name => exact fun _ hname => absurd rfl (hname name)
    | invalidNumber lexeme => exact fun _ _ hnumber => absurd rfl (hnumber lexeme)
    | _ => exact nofun

theorem parse_errors_placed_declaration : ∃ parsed,
    parse "x = )\nLOCAL 1\nLOCAL y AS money\n" = .ok parsed ∧ parsed.errors.length = 3 ∧
    ∀ x ∈ parsed.errors,
      ∃ t ∈ (TokenStream.ofText "x = )\nLOCAL 1\nLOCAL y AS money\n").tokens ++
          [(TokenStream.ofText "x = )\nLOCAL 1\nLOCAL y AS money\n").stop], x.At t ∧
        ((∀ name, x.fault ≠ .unknownType name) → x.fault.Names t) ∧
        ∀ name, x.fault = .unknownType name → ∃ t₀, x.fault.Names t₀ ∧
          [t₀, t] <:+: (TokenStream.ofText "x = )\nLOCAL 1\nLOCAL y AS money\n").tokens ++
            [(TokenStream.ofText "x = )\nLOCAL 1\nLOCAL y AS money\n").stop] := by
  have hfault : (TokenStream.ofText "x = )\nLOCAL 1\nLOCAL y AS money\n").fault = none := by cbv
  have h := parse_of_fault_none hfault
  exact ⟨_, h, by cbv, parse_errors_placed h⟩

/-- The error about an unknown type is not in the place of its name. -/
theorem unknownType_not_placed : ∃ parsed x,
    parse "LOCAL x AS money" = .ok parsed ∧ x ∈ parsed.errors ∧
    ∀ t ∈ (TokenStream.ofText "LOCAL x AS money").tokens ++
      [(TokenStream.ofText "LOCAL x AS money").stop], x.At t → ¬ x.fault.Names t := by
  have hfault : (TokenStream.ofText "LOCAL x AS money").fault = none := by cbv
  have h := parse_of_fault_none hfault
  have herrors : (Parser.program (.ofStream (.ofText "LOCAL x AS money"))).2.errors =
      [⟨.unknownType "money", ⟨16, 0⟩, 1, 17⟩] := by cbv
  have htokens : (TokenStream.ofText "LOCAL x AS money").tokens ++
      [(TokenStream.ofText "LOCAL x AS money").stop] =
      [⟨.keyword .LOCAL, "local", ⟨0, 5⟩, 1, 1⟩, ⟨.name, "x", ⟨6, 1⟩, 1, 7⟩,
        ⟨.keyword .AS, "as", ⟨8, 2⟩, 1, 9⟩, ⟨.name, "money", ⟨11, 5⟩, 1, 12⟩,
        ⟨.endOfFile, "", ⟨16, 0⟩, 1, 17⟩] := by cbv
  refine ⟨_, ⟨.unknownType "money", ⟨16, 0⟩, 1, 17⟩, h, by rw [herrors]; simp, ?_⟩
  rw [htokens]
  intro t ht hat hn
  have hcol : 17 = t.col := hat.2.2
  have hkind : t.kind = .name := hn.1
  simp only [List.mem_cons, List.not_mem_nil, or_false] at ht
  rcases ht with rfl | rfl | rfl | rfl | rfl
  · cases hkind
  · cases hcol
  · cases hkind
  · cases hcol
  · cases hkind

end Xbase
