import Xbase.Proofs.Grammar.Expr

/-!
# The parser of expressions reads the grammar

* `Parser.exprAt_decides`: what the parser reads is a phrase, nothing goes on with it, and where
  there is no phrase the parser records one error;
* `Grammar.Phrase.runs`: a phrase with which nothing goes on is what the parser reads.

The depth of the recursion is never the reason for a failure: twice the count of the tokens, and a
little more, is enough.
-/

namespace Xbase

open Grammar

/-! ## Tokens and operators -/

/-- The level of what is read at a precedence. The operand of a sign may have a sign itself. -/
def Precedence.level (p : Precedence) : Nat :=
  if p.rank < 8 then p.rank + 1 else 8

theorem Precedence.level_le (p : Precedence) : p.level ≤ 8 ∧ p.level ≤ p.rank + 1 := by
  unfold Precedence.level
  split <;> omega

theorem Precedence.rank_lt {p : Precedence} {n : Nat} (h : p.level ≤ n) (hn : n ≤ 7) :
    p.rank < n := by
  unfold Precedence.level at h
  split at h <;> omega

theorem BinaryOp.rank_precedence (op : BinaryOp) : op.precedence.rank = op.level := by
  cases op <;> rfl

theorem LogicOp.rank_precedence (op : LogicOp) : op.precedence.rank = op.level := by
  cases op <;> rfl

theorem BinaryOp.level_bounds (op : BinaryOp) : 4 ≤ op.level ∧ op.level ≤ 7 := by
  cases op <;> decide

theorem LogicOp.level_bounds (op : LogicOp) : 2 ≤ op.level ∧ op.level ≤ 3 := by
  cases op <;> decide

/-- The right operand of an operator is read one level above the operator. -/
theorem BinaryOp.level_precedence (op : BinaryOp) : op.precedence.level = op.level + 1 := by
  cases op <;> rfl

/-- The right operand of an operator is read one level above the operator. -/
theorem LogicOp.level_precedence (op : LogicOp) : op.precedence.level = op.level + 1 := by
  cases op <;> rfl

namespace Continuation

/-- The kind of the token that goes on with an expression in this way. -/
def kind : Continuation → Kind
  | binary op => .symbol op.symbol
  | logic op => .keyword op.keyword
  | assign op => .symbol op.symbol
  | call => .symbol .leftParen

theorem ofKind?_kind (c : Continuation) : ofKind? c.kind = some c := by
  cases c with
  | binary op | logic op | assign op => cases op <;> rfl
  | call => rfl

theorem kind_of_ofKind? {k : Kind} {c : Continuation} (h : ofKind? k = some c) : k = c.kind := by
  unfold ofKind? at h
  split at h <;> first | (cases h; rfl) | cases h

theorem rank_le (c : Continuation) : c.precedence.rank ≤ 9 := by
  cases c with
  | binary op | logic op | assign op => cases op <;> decide
  | call => decide

theorem rank_pos (c : Continuation) : 1 ≤ c.precedence.rank := by
  cases c with
  | binary op | logic op | assign op => cases op <;> decide
  | call => decide

end Continuation

/-- No token that binds tighter than `n` stands in front. -/
def Stops (n : Nat) (ts : List Token) : Prop :=
  ∀ c, Continuation.ofKind? (headKind ts) = some c → c.precedence.rank ≤ n

/-- What may stand behind a phrase of the given level that an operator goes on with: nothing goes on
with an assignment, and nothing tighter with an operand. -/
def Follows (level : Nat) (ts : List Token) : Prop :=
  ∀ c, Continuation.ofKind? (headKind ts) = some c → 2 ≤ level ∧ c.precedence.rank ≤ level

theorem Stops.follows {n level : Nat} {ts : List Token} (h : Stops n ts) (hn : n ≤ level)
    (hl : 2 ≤ level) : Follows level ts :=
  fun c hc => ⟨hl, Nat.le_trans (h c hc) hn⟩

/-- Nothing binds tighter than a call. -/
theorem stops_nine (ts : List Token) : Stops 9 ts := fun c _ => c.rank_le

/-- A token that goes on with no expression stops every one. -/
theorem stops_of_none {ts : List Token} (h : Continuation.ofKind? (headKind ts) = none) (n : Nat) :
    Stops n ts := by
  intro c hc
  rw [h] at hc
  cases hc

/-- At the lowest level nothing goes on. -/
theorem Stops.none {ts : List Token} (h : Stops 0 ts) :
    Continuation.ofKind? (headKind ts) = none := by
  cases hc : Continuation.ofKind? (headKind ts) with
  | none => rfl
  | some c =>
    have h₀ := h c hc
    have h₁ := c.rank_pos
    omega

namespace Parser

/-- A token that is taken for an atom is a leaf of the grammar. -/
theorem leaf_of_atom? {t : Token} {a : Atom} (h : atom? t = some a) : Leaf t a := by
  unfold atom? at h
  split at h <;> cases h
  · next hk => exact .string hk
  · next b hk => exact .logical hk
  · next hk => exact .null hk
  · next hk => exact .name hk

theorem unary?_symbol (op : UnaryOp) : unary? (.symbol op.symbol) = some op := by
  cases op <;> rfl

theorem symbol_of_unary? {k : Kind} {op : UnaryOp} (h : unary? k = some op) :
    k = .symbol op.symbol := by
  unfold unary? at h
  split at h <;> cases h <;> rfl

/-! ## Reading only goes forward -/

/-- Expressions are read forward, at any depth. -/
theorem exprAt_forward (d : Nat) :
    (∀ min, Forward (exprAt d min)) ∧ Forward (operand d) ∧
      ∀ min left, Forward (climb d min left) := by
  induction d with
  | zero => exact ⟨fun _ => .fail, .fail, fun _ _ => .fail⟩
  | succ d ih =>
    obtain ⟨ihExpr, ihOperand, ihClimb⟩ := ih
    refine ⟨fun min => ?_, ?_, fun min left => ?_⟩
    · unfold exprAt
      infer_instance
    · unfold operand
      refine @Forward.bind _ _ _ _ inferInstance fun t => ?_
      split
      · unfold number
        refine @Forward.bind _ _ _ _ inferInstance fun _ => ?_
        split <;> infer_instance
      split
      · infer_instance
      split
      · infer_instance
      split
      · infer_instance
      split
      · have (c yes : Expr) : Forward (exprAt d .lowest >>= fun no =>
            expect (.symbol .rightParen) >>= fun closing =>
            pure (Expr.iif c yes no (t.span.merge closing.span))) := inferInstance
        infer_instance
      · infer_instance
    · unfold climb
      refine @Forward.bind _ _ _ _ inferInstance fun t => ?_
      split
      · infer_instance
      refine @Forward.ite _ _ _ _ _ inferInstance (@Forward.bind _ _ _ _ inferInstance fun _ => ?_)
      split <;> infer_instance

instance : Forward expression :=
  .of_state (f := fun s => exprAt s.budget .lowest) fun s => (exprAt_forward s.budget).1 _

/-! ## What is read is a phrase -/

variable {α : Type} {s : ParseState}

/-- Items with commas between them, when each item is decided. -/
theorem commaList_decides {item : Parser α} {R : List Token → α → List Token → Prop} {n : Nat}
    (hitem : ∀ s : ParseState, s.Closed → s.rest.length ≤ n → Decides item s (R s.rest)) :
    ∀ (count : Nat) (s : ParseState), s.Closed → s.rest.length ≤ n → s.rest.length < count →
      Decides (commaList item count) s (CommaList R s.rest) := by
  intro count
  induction count with
  | zero => intro s _ _ h; omega
  | succ count ih =>
    intro s hs hn hc
    refine (hitem s hs hn).bind fun a after hsuf hR => ?_
    have hlen := hsuf.length_le
    refine Decides.eat hs (by decide) (fun t ts hr ht => ?_) (fun _ => .pure (.one hR))
    obtain rfl : after = t :: ts := hr
    rw [List.length_cons] at hlen
    have hts : ts.length ≤ n ∧ ts.length < count := by omega
    exact (ih { s with rest := ts } hs hts.1 hts.2).bind fun as after' _ has =>
      .pure (.more hR ht has)

/-- What `exprAt` reads at the depth `d`, if the depth is enough. -/
def ExprDecides (d : Nat) : Prop :=
  ∀ (min : Precedence) (s : ParseState), s.Closed → 2 * s.rest.length + 2 ≤ d →
    Decides (exprAt d min) s fun e after => Phrase min.level s.rest e after ∧ Stops min.rank after

/-- What `operand` reads at the depth `d`, if the depth is enough. -/
def OperandDecides (d : Nat) : Prop :=
  ∀ s : ParseState, s.Closed → 2 * s.rest.length + 1 ≤ d →
    Decides (operand d) s fun e after =>
      ∃ level, 8 ≤ level ∧ Phrase level s.rest e after ∧ Stops level after

/-- What `climb` makes of a phrase `left` that starts at `before`, if the depth is enough. -/
def ClimbDecides (d : Nat) : Prop :=
  ∀ (min : Precedence) (left : Expr) (before : List Token) (level : Nat) (s : ParseState),
    s.Closed → 2 * s.rest.length + 1 ≤ d → min.level ≤ level → Phrase level before left s.rest →
    Follows level s.rest →
    Decides (climb d min left) s fun e after =>
      Phrase min.level before e after ∧ Stops min.rank after

/-- An expression between parentheses or commas. -/
theorem ExprDecides.inner {d : Nat} (h : ExprDecides d) (hs : s.Closed)
    (hd : 2 * s.rest.length + 2 ≤ d) : Decides (exprAt d .lowest) s (Phrase 1 s.rest) :=
  (h .lowest s hs hd).mono fun _ _ _ h => h.1

/-- Operands are decided at one more level. -/
theorem ExprDecides.operand {d : Nat} (ih : ExprDecides d) : OperandDecides (d + 1) := by
  intro s hs hd
  unfold Parser.operand
  apply Decides.current
  -- In every branch but the last the next token is there, for the end of the source starts nothing.
  split
  · next hk =>
    obtain ⟨t, ts, hr, rfl⟩ := cons_of_kind hs (by rw [hk]; decide)
    refine Decides.advance hr ?_
    split
    · next n hn =>
      refine .pure ⟨9, by decide, ?_, stops_nine _⟩
      rw [hr]
      exact .leaf (.number hk hn)
    · exact .of_record (failWith_run _ _)
  split
  · next a ha =>
    have hleaf := leaf_of_atom? ha
    have hk : s.current.kind ≠ .endOfFile := fun h => by
      have := hleaf.starts
      rw [h] at this
      cases this
    obtain ⟨t, ts, hr, rfl⟩ := cons_of_kind hs hk
    refine Decides.advance hr (.pure ⟨9, by decide, ?_, stops_nine _⟩)
    rw [hr]
    exact .leaf hleaf
  split
  · next op hop =>
    have hk := symbol_of_unary? hop
    obtain ⟨t, ts, hr, rfl⟩ := cons_of_kind hs (by rw [hk]; simp)
    refine Decides.advance hr ?_
    rw [hr, List.length_cons] at hd
    refine (ih .unary { s with rest := ts } hs (by simp only; omega)).bind fun e after _ he => ?_
    refine .pure ⟨8, by decide, ?_, he.2⟩
    rw [hr]
    exact .unary (by decide) hk he.1
  split
  · next hk =>
    obtain ⟨t, ts, hr, rfl⟩ := cons_of_kind hs (by rw [hk]; decide)
    refine Decides.advance hr ?_
    rw [hr, List.length_cons] at hd
    refine (ih.inner (s := { s with rest := ts }) hs (by simp only; omega)).bind
      fun e after _ he => ?_
    refine Decides.expect hs (by decide) fun t' after' hr' ht' => ?_
    refine .pure ⟨9, by decide, ?_, stops_nine _⟩
    obtain rfl : after = t' :: after' := hr'
    rw [hr]
    exact .group hk he ht'
  split
  · next hk =>
    obtain ⟨t, ts, hr, rfl⟩ := cons_of_kind hs (by rw [hk]; decide)
    refine Decides.advance hr ?_
    rw [hr, List.length_cons] at hd
    refine Decides.expect hs (by decide) fun t₀ m₁ hr₀ h₀ => ?_
    obtain rfl : ts = t₀ :: m₁ := hr₀
    rw [List.length_cons] at hd
    refine (ih.inner (s := { s with rest := m₁ }) hs (by simp only; omega)).bind
      fun cond a₁ hs₁ hc => ?_
    refine Decides.expect hs (by decide) fun t₁ m₂ hr₁ h₁ => ?_
    obtain rfl : a₁ = t₁ :: m₂ := hr₁
    have hl₁ : m₂.length < m₁.length := hs₁.length_le
    refine (ih.inner (s := { s with rest := m₂ }) hs (by simp only; omega)).bind
      fun yes a₂ hs₂ hy => ?_
    refine Decides.expect hs (by decide) fun t₂ m₃ hr₂ h₂ => ?_
    obtain rfl : a₂ = t₂ :: m₃ := hr₂
    have hl₂ : m₃.length < m₂.length := hs₂.length_le
    refine (ih.inner (s := { s with rest := m₃ }) hs (by simp only; omega)).bind
      fun no a₃ _ hn => ?_
    refine Decides.expect hs (by decide) fun t₃ after hr₃ h₃ => ?_
    obtain rfl : a₃ = t₃ :: after := hr₃
    refine .pure ⟨9, by decide, ?_, stops_nine _⟩
    rw [hr]
    exact .iif hk h₀ hc h₁ hy h₂ hn h₃
  · exact .of_record (failWith_run _ _)

/-- What is read behind an operand is decided at one more level. -/
theorem ExprDecides.climb {d : Nat} (ih : ExprDecides d) (ihClimb : ClimbDecides d) :
    ClimbDecides (d + 1) := by
  intro min left before level s hs hd hl hp hst
  unfold Parser.climb
  apply Decides.current
  rw [ParseState.current_kind hs]
  split
  · next hnone => exact .pure ⟨hp.weaken hl, stops_of_none hnone _⟩
  · next rule hrule =>
    obtain ⟨htwo, hle⟩ := hst rule hrule
    split
    · next hmin =>
      refine .pure ⟨hp.weaken hl, fun c hc => ?_⟩
      rw [hrule] at hc
      cases hc
      exact hmin
    · next hmin =>
      have hk := Continuation.kind_of_ofKind? hrule
      obtain ⟨t, ts, hr, ht⟩ :=
        exists_cons_of_headKind hk (by cases rule <;> simp [Continuation.kind])
      have hlevel : min.level ≤ rule.precedence.rank :=
        Nat.le_trans min.level_le.2 (by omega)
      have hleft := hp.weaken hle
      rw [hr] at hd hleft
      rw [List.length_cons] at hd
      have hts : 2 * ts.length + 2 ≤ d := by omega
      refine Decides.advance hr ?_
      cases rule with
      | binary op =>
        rw [Continuation.precedence, op.rank_precedence] at hleft hlevel
        refine (ih op.precedence { s with rest := ts } hs hts).bind
          fun right after hsuf hright => ?_
        rw [op.level_precedence, op.rank_precedence] at hright
        have := hsuf.length_le
        exact ihClimb min _ before op.level { s with rest := after } hs (by simp only at *; omega)
          hlevel (.binary (Nat.le_refl _) hleft ht hright.1)
          (hright.2.follows (Nat.le_refl _) (by have := op.level_bounds; omega))
      | logic op =>
        rw [Continuation.precedence, op.rank_precedence] at hleft hlevel
        refine (ih op.precedence { s with rest := ts } hs hts).bind
          fun right after hsuf hright => ?_
        rw [op.level_precedence, op.rank_precedence] at hright
        have := hsuf.length_le
        exact ihClimb min _ before op.level { s with rest := after } hs (by simp only at *; omega)
          hlevel (.logic (Nat.le_refl _) hleft ht hright.1)
          (hright.2.follows (Nat.le_refl _) (by have := op.level_bounds; omega))
      | assign op =>
        have hleft : Phrase 2 before left (t :: ts) := by
          rw [← hr]
          exact hp.weaken htwo
        refine (ih .lowest { s with rest := ts } hs hts).bind fun value after hsuf hvalue => ?_
        have := hsuf.length_le
        refine ihClimb min _ before 1 { s with rest := after } hs (by simp only at *; omega) hlevel
          (.assign (Nat.le_refl _) hleft ht hvalue.1) fun c hc => ?_
        rw [hvalue.2.none] at hc
        cases hc
      | call =>
        have hfollows (ts : List Token) : Follows 9 ts :=
          (stops_nine ts).follows (by decide) (by decide)
        refine Decides.current ?_
        dsimp only
        split
        · refine Decides.pure_bind ?_
          refine Decides.expect hs (by decide) fun t' after hr' ht' => ?_
          obtain rfl : ts = t' :: after := hr'
          rw [List.length_cons] at hts
          exact ihClimb min _ before 9 { s with rest := after } hs (by simp only; omega) hlevel
            (.callNone (Nat.le_refl _) hleft ht ht') (hfollows _)
        · have hargs := commaList_decides (n := ts.length) (fun s' hs' hn =>
            ih.inner (s := s') hs' (by omega)) d { s with rest := ts } hs (Nat.le_refl _)
            (by simp only; omega)
          refine hargs.bind fun args a₁ hsuf ha => ?_
          refine Decides.expect hs (by decide) fun t' after hr' ht' => ?_
          obtain rfl : a₁ = t' :: after := hr'
          have hlen : after.length < ts.length := hsuf.length_le
          exact ihClimb min _ before 9 { s with rest := after } hs (by simp only; omega) hlevel
            (.call (Nat.le_refl _) hleft ht (phrases_iff.mpr ha) ht') (hfollows _)

/-- Where the depth is enough, the parsers of expressions decide on a phrase. -/
theorem exprAt_decides (d : Nat) : ExprDecides d ∧ OperandDecides d ∧ ClimbDecides d := by
  induction d with
  | zero => exact ⟨fun _ _ _ h => by omega, fun _ _ h => by omega, fun _ _ _ _ _ _ h => by omega⟩
  | succ d ih =>
    obtain ⟨ihExpr, ihOperand, ihClimb⟩ := ih
    refine ⟨fun min s hs hd => ?_, ihExpr.operand, ihExpr.climb ihClimb⟩
    refine (ihOperand s hs (by omega)).bind fun left after hsuf hleft => ?_
    obtain ⟨level, hl, hp, hst⟩ := hleft
    have hlen := hsuf.length_le
    have hmin := min.level_le.1
    exact ihClimb min left s.rest level { s with rest := after } hs (by simp only; omega)
      (by omega) hp (hst.follows (Nat.le_refl _) (by omega))

/-- An expression is read to its end, or one error is recorded. -/
theorem expression_decides (hs : s.Closed) :
    Decides expression s fun e after => Phrase 1 s.rest e after ∧ Stops 0 after :=
  (exprAt_decides s.budget).1 .lowest s hs (Nat.le_refl _)

/-! ## A phrase is what is read

First the single steps: what the parser does at a token, and where it stops. -/

variable {t : Token} {ts : List Token} {min : Precedence} {left : Expr} {d : Nat}

theorem operand_leaf {a : Atom} (hr : s.rest = t :: ts) (h : Leaf t a) :
    operand (d + 1) s = (some (.atom a t.span), { s with rest := ts }) := by
  unfold operand
  rw [bind_some (current_run s), current_cons hr]
  cases h with
  | number hk hn =>
    rw [if_pos hk, number, bind_some (advance_of_cons hr), hn]
    rfl
  | string hk | logical hk | null hk | name hk =>
    rw [if_neg (by rw [hk]; simp)]
    simp only [atom?, hk]
    rw [bind_some (advance_of_cons hr)]
    rfl

theorem operand_unary {op : UnaryOp} (hr : s.rest = t :: ts) (ht : t.kind = .symbol op.symbol) :
    operand (d + 1) s =
      (exprAt d .unary >>= fun e => pure (.unary op e t.span)) { s with rest := ts } := by
  unfold operand
  rw [bind_some (current_run s), current_cons hr, if_neg (by rw [ht]; simp)]
  simp only [atom?, ht, unary?_symbol]
  rw [bind_some (advance_of_cons hr)]

theorem operand_group (hr : s.rest = t :: ts) (ht : t.kind = .symbol .leftParen) :
    operand (d + 1) s = (exprAt d .lowest >>= fun e => expect (.symbol .rightParen) >>= fun _ =>
      pure e) { s with rest := ts } := by
  unfold operand
  rw [bind_some (current_run s), current_cons hr]
  simp only [atom?, ht, unary?, if_false, if_true, reduceCtorEq]
  rw [bind_some (advance_of_cons hr)]

theorem operand_iif (hr : s.rest = t :: ts) (ht : t.kind = .keyword .IIF) :
    operand (d + 1) s = (expect (.symbol .leftParen) >>= fun _ => exprAt d .lowest >>= fun cond =>
      expect (.symbol .comma) >>= fun _ => exprAt d .lowest >>= fun yes =>
      expect (.symbol .comma) >>= fun _ => exprAt d .lowest >>= fun no =>
      expect (.symbol .rightParen) >>= fun closing =>
      pure (.iif cond yes no (t.span.merge closing.span))) { s with rest := ts } := by
  unfold operand
  rw [bind_some (current_run s), current_cons hr]
  simp only [atom?, ht, unary?, if_false, if_true, reduceCtorEq]
  rw [bind_some (advance_of_cons hr)]

/-- In front of a token that does not bind tighter, an expression ends. -/
theorem climb_stops (hs : s.Closed) (h : Stops min.rank s.rest) :
    climb (d + 1) min left s = (some left, s) := by
  unfold climb
  rw [bind_some (current_run s), ParseState.current_kind hs]
  cases hc : Continuation.ofKind? (headKind s.rest) with
  | none => rfl
  | some rule =>
    dsimp only
    rw [if_pos (h rule hc)]
    rfl

/-- What `climb` does behind a token that goes on with `left`. -/
def climbBehind (d : Nat) (min : Precedence) (left : Expr) : Continuation → Parser Expr
  | .binary op => exprAt d op.precedence >>= fun right => climb d min (.binary op left right)
  | .logic op => exprAt d op.precedence >>= fun right => climb d min (.logic op left right)
  | .assign op => exprAt d .lowest >>= fun value => climb d min (.assign op left value)
  | .call => current >>= fun next =>
    if next.kind = .symbol .rightParen then
      expect (.symbol .rightParen) >>= fun closing => climb d min (.call left [] closing.span)
    else
      commaList (exprAt d .lowest) d >>= fun args =>
        expect (.symbol .rightParen) >>= fun closing => climb d min (.call left args closing.span)

/-- A token that binds tighter than `min` is taken. -/
theorem climb_takes {rule : Continuation} (hr : s.rest = t :: ts) (ht : t.kind = rule.kind)
    (hmin : min.rank < rule.precedence.rank) :
    climb (d + 1) min left s = climbBehind d min left rule { s with rest := ts } := by
  unfold climb
  rw [bind_some (current_run s), current_cons hr, ht, rule.ofKind?_kind]
  dsimp only
  rw [if_neg (by omega), bind_some (advance_of_cons hr)]
  cases rule <;> rfl

theorem exprAt_of_operand {e : Expr} {s' : ParseState} (h : operand d s = (some e, s')) :
    exprAt (d + 1) min s = climb d min e s' := by
  unfold exprAt
  exact bind_some h

/-- Reading from `before` on comes to `after` with the expression `e`, and the parser looks for
operators there. -/
def ReadAs (level : Nat) (before : List Token) (e : Expr) (after : List Token) : Prop :=
  ∀ (min : Precedence) (stop : Token) (errors : List SyntaxError) (d : Nat),
    stop.kind = .endOfFile → min.level ≤ level → min.rank ≤ 8 → Follows level after →
    2 * before.length + 2 ≤ d →
    ∃ k, 2 * after.length + 1 ≤ k ∧
      exprAt d min ⟨before, stop, errors⟩ = climb k min e ⟨after, stop, errors⟩

/-- If no operator goes on with the expression, it is read. -/
theorem ReadAs.exprAt {level : Nat} {before after : List Token} {e : Expr}
    (h : ReadAs level before e after) (hl : min.level ≤ level) (hm : min.rank ≤ 8)
    (hf : Follows level after) (hst : Stops min.rank after) {stop : Token}
    (hs : stop.kind = .endOfFile) (errors : List SyntaxError) (hd : 2 * before.length + 2 ≤ d) :
    exprAt d min ⟨before, stop, errors⟩ = (some e, ⟨after, stop, errors⟩) := by
  obtain ⟨k, hk, hrun⟩ := h min stop errors d hs hl hm hf hd
  obtain ⟨k, rfl⟩ : ∃ k', k = k' + 1 := ⟨k - 1, by omega⟩
  rw [hrun]
  exact climb_stops hs hst

/-- An expression in front of a token that goes on with none. -/
theorem ReadAs.inner {before after : List Token} {e : Expr} (h : ReadAs 1 before e after)
    (hn : Continuation.ofKind? (headKind after) = none) {stop : Token}
    (hs : stop.kind = .endOfFile) (errors : List SyntaxError) (hd : 2 * before.length + 2 ≤ d) :
    Parser.exprAt d .lowest ⟨before, stop, errors⟩ = (some e, ⟨after, stop, errors⟩) := by
  refine h.exprAt (by decide) (by decide) (fun c hc => ?_) (stops_of_none hn _) hs errors hd
  rw [hn] at hc
  cases hc

/-- An operator goes on with its left operand. -/
theorem ReadAs.takes {level : Nat} {before after : List Token} {rule : Continuation}
    (h : ReadAs level before left (t :: after)) (ht : t.kind = rule.kind)
    (hrank : rule.precedence.rank ≤ level) (htwo : 2 ≤ level) {stop : Token}
    (hs : stop.kind = .endOfFile) (errors : List SyntaxError) (hl : min.level ≤ level)
    (hm : min.rank ≤ 8) (hlt : min.rank < rule.precedence.rank)
    (hd : 2 * before.length + 2 ≤ d) :
    ∃ k, 2 * after.length + 2 ≤ k ∧
      Parser.exprAt d min ⟨before, stop, errors⟩ =
        climbBehind k min left rule ⟨after, stop, errors⟩ := by
  have hf : Follows level (t :: after) := fun c hc => by
    rw [headKind_cons, ht, rule.ofKind?_kind] at hc
    cases hc
    exact ⟨htwo, hrank⟩
  obtain ⟨k, hk, hrun⟩ := h min stop errors d hs hl hm hf hd
  rw [List.length_cons] at hk
  obtain ⟨k, rfl⟩ : ∃ k', k = k' + 1 := ⟨k - 1, by omega⟩
  exact ⟨k, by omega, hrun.trans (climb_takes rfl ht hlt)⟩

/-- Behind the left operand of an operator that groups to the left, the right one is read. -/
theorem ReadAs.operator {level n : Nat} {before mid after : List Token} {r : Expr}
    {p : Precedence} {f : Expr → Expr → Expr} (rule : Continuation)
    (hrule : ∀ k min l, climbBehind k min l rule =
      Parser.exprAt k p >>= fun r => climb k min (f l r))
    (hrank : rule.precedence.rank = n) (hp : p.rank = n) (hpl : p.level = n + 1)
    (hn : 2 ≤ n ∧ n ≤ 7) (hl₀ : level ≤ n) (hleft : ReadAs n before left (t :: mid))
    (ht : t.kind = rule.kind) (hright : ReadAs (n + 1) mid r after)
    (hlen : after.length < mid.length) :
    ReadAs level before (f left r) after := by
  intro min stop errors d hs hl hm hf hd
  have hlevel : min.level ≤ n := Nat.le_trans hl hl₀
  have hlt := Precedence.rank_lt hlevel hn.2
  obtain ⟨k, hk, hrun⟩ := hleft.takes ht (by omega) hn.1 hs errors hlevel hm (by omega) hd
  have hst : Stops n after := fun c hc => Nat.le_trans (hf c hc).2 hl₀
  have hread : Parser.exprAt k p ⟨mid, stop, errors⟩ = _ :=
    hright.exprAt (by omega) (by omega) (hst.follows (by omega) (by omega)) (by rwa [hp]) hs errors
      hk
  refine ⟨k, by omega, ?_⟩
  rw [hrun, hrule, bind_some hread]

theorem climbBehind_callNone (hr : s.rest = t :: ts) (ht : t.kind = .symbol .rightParen) :
    climbBehind d min left .call s = climb d min (.call left [] t.span) { s with rest := ts } := by
  rw [climbBehind, bind_some (current_run s), current_cons hr, if_pos ht,
    bind_some (expect_of_cons hr ht)]

theorem climbBehind_call {args : List Expr} (hs : s.Closed)
    (hk : headKind s.rest ≠ .symbol .rightParen)
    (hargs : commaList (exprAt d .lowest) d s = (some args, { s with rest := t :: ts }))
    (ht : t.kind = .symbol .rightParen) :
    climbBehind d min left .call s =
      climb d min (.call left args t.span) { s with rest := ts } := by
  rw [climbBehind, bind_some (current_run s), ParseState.current_kind hs, if_neg hk,
    bind_some hargs, bind_some (expect_of_cons rfl ht)]

/-- From `before` on, `p` reads `a` without an error and leaves `after`. -/
def Runs (p : Parser α) (stop : Token) (errors : List SyntaxError) (before : List Token) (a : α)
    (after : List Token) : Prop :=
  p ⟨before, stop, errors⟩ = (some a, ⟨after, stop, errors⟩) ∧ after.length ≤ before.length

/-- A list is read if each of its items is. -/
theorem commaList_runs {item : Parser α} {stop : Token} {errors : List SyntaxError} {xs : List α}
    {before after : List Token} (h : CommaList (Runs item stop errors) before xs after)
    (hs : stop.kind = .endOfFile) (hk : headKind after ≠ .symbol .comma) {count : Nat}
    (hc : before.length < count) : Runs (commaList item count) stop errors before xs after := by
  induction h generalizing count with
  | one h =>
    obtain ⟨count, rfl⟩ : ∃ c, count = c + 1 := ⟨count - 1, by omega⟩
    refine ⟨?_, h.2⟩
    unfold commaList
    rw [bind_some h.1, bind_some (eat_false (s := ⟨_, stop, errors⟩) hs hk)]
    rfl
  | more h ht _ ih =>
    obtain ⟨count, rfl⟩ : ∃ c, count = c + 1 := ⟨count - 1, by omega⟩
    have hlen := h.2
    rw [List.length_cons] at hlen
    have ih := ih hk (by omega : _ < count)
    refine ⟨?_, by have := ih.2; omega⟩
    unfold commaList
    rw [bind_some h.1, bind_some (eat_true rfl ht)]
    dsimp only
    rw [if_pos rfl, bind_some ih.1]
    rfl

end Parser

namespace Grammar

open Xbase.Parser

mutual

/-- A phrase is what the parser of expressions reads. -/
theorem Phrase.readAs {level : Nat} {before after : List Token} {e : Expr} :
    Phrase level before e after → ReadAs level before e after
  | .leaf h => by
    intro min stop errors d hs hl hm hf hd
    obtain ⟨d, rfl⟩ : ∃ d', d = d' + 2 := ⟨d - 2, by omega⟩
    rw [List.length_cons] at hd
    exact ⟨d + 1, by omega, exprAt_of_operand (operand_leaf rfl h)⟩
  | .group ht h ht' => by
    intro min stop errors d hs hl hm hf hd
    obtain ⟨d, rfl⟩ : ∃ d', d = d' + 2 := ⟨d - 2, by omega⟩
    have hlen := h.length_lt
    rw [List.length_cons] at hd hlen
    refine ⟨d + 1, by omega, exprAt_of_operand ?_⟩
    rw [operand_group rfl ht,
      bind_some (h.readAs.inner (by rw [headKind_cons, ht']; rfl) hs errors (by omega)),
      bind_some (expect_of_cons rfl ht')]
    rfl
  | .iif ht h₀ hc h₁ hy h₂ hn h₃ => by
    intro min stop errors d hs hl hm hf hd
    obtain ⟨d, rfl⟩ : ∃ d', d = d' + 2 := ⟨d - 2, by omega⟩
    have hlen₁ := hc.length_lt
    have hlen₂ := hy.length_lt
    have hlen₃ := hn.length_lt
    simp only [List.length_cons] at hd hlen₁ hlen₂ hlen₃
    refine ⟨d + 1, by omega, exprAt_of_operand ?_⟩
    rw [operand_iif rfl ht, bind_some (expect_of_cons rfl h₀),
      bind_some (hc.readAs.inner (by rw [headKind_cons, h₁]; rfl) hs errors (by omega)),
      bind_some (expect_of_cons rfl h₁),
      bind_some (hy.readAs.inner (by rw [headKind_cons, h₂]; rfl) hs errors (by omega)),
      bind_some (expect_of_cons rfl h₂),
      bind_some (hn.readAs.inner (by rw [headKind_cons, h₃]; rfl) hs errors (by omega)),
      bind_some (expect_of_cons rfl h₃)]
    rfl
  | .callNone hl₀ hf₀ ht ht' => by
    intro min stop errors d hs hl hm hf hd
    have ht : _ = Continuation.call.kind := ht
    have hlt : min.rank < Continuation.call.precedence.rank := Nat.lt_succ_of_le hm
    obtain ⟨k, hk, hrun⟩ := hf₀.readAs.takes ht (by decide) (by decide) hs errors
      (Nat.le_trans hl hl₀) hm hlt hd
    rw [List.length_cons] at hk
    exact ⟨k, by omega, hrun.trans (climbBehind_callNone rfl ht')⟩
  | .call hl₀ hf₀ ht ha ht' => by
    intro min stop errors d hs hl hm hf hd
    have ht : _ = Continuation.call.kind := ht
    have hlt : min.rank < Continuation.call.precedence.rank := Nat.lt_succ_of_le hm
    obtain ⟨k, hk, hrun⟩ := hf₀.readAs.takes ht (by decide) (by decide) hs errors
      (Nat.le_trans hl hl₀) hm hlt hd
    have hargs := commaList_runs (ha.runs hs errors (by rw [headKind_cons, ht']; rfl) hk) hs
      (by rw [headKind_cons, ht']; simp) (by omega : _ < k)
    have hlen := hargs.2
    rw [List.length_cons] at hlen
    -- The arguments are not empty, so the parenthesis does not close at once.
    refine ⟨k, by omega, hrun.trans (climbBehind_call hs (fun h => ?_) hargs.1 ht')⟩
    have hstart := ha.starts
    rw [h] at hstart
    cases hstart
  | @Phrase.unary _ _ op _ _ _ hl₀ ht h => by
    intro min stop errors d hs hl hm hf hd
    obtain ⟨d, rfl⟩ : ∃ d', d = d' + 2 := ⟨d - 2, by omega⟩
    have hlen := h.length_lt
    rw [List.length_cons] at hd
    have hst : Stops 8 after := fun c hc => Nat.le_trans (hf c hc).2 hl₀
    have hst' : Stops Precedence.unary.rank after := hst
    have hread : exprAt d .unary ⟨_, stop, errors⟩ = _ := h.readAs.exprAt (by decide) (by decide)
      (hst.follows (Nat.le_refl _) (by decide)) hst' hs errors (by omega)
    refine ⟨d + 1, by omega, exprAt_of_operand ?_⟩
    rw [operand_unary rfl ht, bind_some hread]
    rfl
  | @Phrase.binary _ _ op _ _ _ _ _ hl₀ left ht right => by
    have hn := op.level_bounds
    exact left.readAs.operator (.binary op) (fun _ _ _ => rfl) op.rank_precedence
      op.rank_precedence op.level_precedence (by omega) hl₀ ht right.readAs right.length_lt
  | @Phrase.logic _ _ op _ _ _ _ _ hl₀ left ht right => by
    have hn := op.level_bounds
    exact left.readAs.operator (.logic op) (fun _ _ _ => rfl) op.rank_precedence
      op.rank_precedence op.level_precedence (by omega) hl₀ ht right.readAs right.length_lt
  | @Phrase.assign _ t op _ _ _ _ _ hl₀ left ht right => by
    intro min stop errors d hs hl hm hf hd
    have ht : t.kind = (Continuation.assign op).kind := ht
    have hrank : (Continuation.assign op).precedence.rank = 1 := rfl
    have hlevel : min.level ≤ 1 := Nat.le_trans hl hl₀
    have hlt := Precedence.rank_lt hlevel (by decide)
    obtain ⟨k, hk, hrun⟩ := left.readAs.takes ht (by omega) (by omega) hs errors (by omega) hm
      (by omega) hd
    -- An assignment takes all operators behind it, so there is none.
    have hst : Stops 0 after := fun c hc => by
      have := (hf c hc).1
      omega
    have hlen := right.length_lt
    refine ⟨k, by omega, ?_⟩
    rw [hrun, climbBehind, bind_some (right.readAs.inner hst.none hs errors hk)]

/-- Phrases with commas between them are what the parser of lists reads. -/
theorem Phrases.runs {before after : List Token} {es : List Expr} {stop : Token}
    (hs : stop.kind = .endOfFile) (errors : List SyntaxError) {d : Nat} :
    Phrases before es after → Continuation.ofKind? (headKind after) = none →
    2 * before.length + 2 ≤ d →
    CommaList (Runs (exprAt d .lowest) stop errors) before es after
  | .one h, hn, hd => .one ⟨h.readAs.inner hn hs errors hd, Nat.le_of_lt h.length_lt⟩
  | .more h ht hs', hn, hd => by
    have hlen := h.length_lt
    have hrun := h.readAs.inner (by rw [headKind_cons, ht]; rfl) hs errors hd
    rw [List.length_cons] at hlen
    exact .more ⟨hrun, Nat.le_of_lt h.length_lt⟩ ht (hs'.runs hs errors hn (by omega))

end

/-- An expression with which nothing goes on is what `expression` reads. -/
theorem Phrase.runs {before after : List Token} {e : Expr} (h : Phrase 1 before e after)
    (hn : Continuation.ofKind? (headKind after) = none) {stop : Token}
    (hs : stop.kind = .endOfFile) (errors : List SyntaxError) :
    Runs expression stop errors before e after :=
  ⟨h.readAs.inner hn hs errors (Nat.le_refl _), Nat.le_of_lt h.length_lt⟩

end Grammar

end Xbase
