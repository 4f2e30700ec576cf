import Xbase.Proofs.Parser.Agree.Basic

/-!
# Expressions in a longer text

The parser of expressions agrees with itself in a longer text, at any two depths that are enough
(`Parser.exprAt_agrees`). No expression goes beyond a line break, so what follows is not looked at
unless an error at the end of the source is recorded.
-/

namespace Xbase

open Grammar

theorem Grammar.Leaf.move {t : Token} {a : Atom} (h : Leaf t a) (m : Move) : Leaf (t.move m) a := by
  cases h with
  | number hk hn => exact .number hk hn
  | string hk => exact .string hk
  | logical hk => exact .logical hk
  | null hk => exact .null hk
  | name hk => exact .name hk

theorem Context.Same.call {K : Context} {callee callee' : Expr} {args args' : List Expr}
    {span span' : Span} (hc : K.Same callee callee') (ha : K.Same args args')
    (hs : K.here span = K.there span') :
    K.Same (Expr.call callee args span) (Expr.call callee' args' span') := by
  have hc : callee.map id K.here = callee'.map id K.there := hc
  have ha : args.map (Expr.map id K.here) = args'.map (Expr.map id K.there) := ha
  show Expr.call _ _ _ = Expr.call _ _ _
  rw [hc, Expr.mapAll_eq, ha, Expr.mapAll_eq, hs]

namespace Parser

variable {s : ParseState} {t : Token} {ts : List Token} {min : Precedence} {left : Expr} {d : Nat}

/-! ## Single steps -/

theorem operand_notNumber (hr : s.rest = t :: ts) (hk : t.kind = .number)
    (hn : Number.ofText? t.lexeme = none) :
    operand (d + 1) s = failWith (.invalidNumber t.lexeme) { s with rest := ts } := by
  unfold operand
  rw [bind_some (current_run s), current_cons hr, if_pos hk, number, bind_some (advance_of_cons hr),
    hn]

/-- The kinds of the tokens that start no operand. -/
structure NoOperand (t : Token) : Prop where
  number : t.kind ≠ .number
  atom : atom? t = none
  unary : unary? t.kind = none
  group : t.kind ≠ .symbol .leftParen
  iif : t.kind ≠ .keyword .IIF

theorem operand_other (h : NoOperand s.current) :
    operand (d + 1) s = failWith (.nonExpression s.current.kind) s := by
  unfold operand
  rw [bind_some (current_run s), if_neg h.number]
  simp only [h.atom, h.unary, if_neg h.group, if_neg h.iif]

/-- What a token is at the start of an operand. -/
theorem operand_cases (t : Token) :
    (∃ a, Leaf t a) ∨ t.kind = .number ∧ Number.ofText? t.lexeme = none ∨
      (∃ op : UnaryOp, t.kind = .symbol op.symbol) ∨ t.kind = .symbol .leftParen ∨
      t.kind = .keyword .IIF ∨ NoOperand t := by
  by_cases hnumber : t.kind = .number
  · by_cases hn : Number.ofText? t.lexeme = none
    · exact .inr (.inl ⟨hnumber, hn⟩)
    · obtain ⟨n, hn⟩ := Option.ne_none_iff_exists'.1 hn
      exact .inl ⟨_, .number hnumber hn⟩
  cases hatom : atom? t with
  | some a => exact .inl ⟨a, leaf_of_atom? hatom⟩
  | none =>
    cases hunary : unary? t.kind with
    | some op => exact .inr (.inr (.inl ⟨op, symbol_of_unary? hunary⟩))
    | none =>
      by_cases hgroup : t.kind = .symbol .leftParen
      · exact .inr (.inr (.inr (.inl hgroup)))
      by_cases hiif : t.kind = .keyword .IIF
      · exact .inr (.inr (.inr (.inr (.inl hiif))))
      · exact .inr (.inr (.inr (.inr (.inr ⟨hnumber, hatom, hunary, hgroup, hiif⟩))))

/-- Where no operator that binds tighter follows, nothing is read. -/
theorem climb_stays
    (h : ∀ c, Continuation.ofKind? s.current.kind = some c → c.precedence.rank ≤ min.rank) :
    climb (d + 1) min left s = (some left, s) := by
  unfold climb
  rw [bind_some (current_run s)]
  cases hc : Continuation.ofKind? s.current.kind with
  | none => rfl
  | some rule =>
    dsimp only
    rw [if_pos (h rule hc)]
    rfl

/-- A parenthesis that does not close at once has arguments in it. -/
theorem climbBehind_args (h : s.current.kind ≠ .symbol .rightParen) :
    climbBehind d min left .call s = (commaList (exprAt d .lowest) d >>= fun args =>
      expect (.symbol .rightParen) >>= fun closing =>
      climb d min (.call left args closing.span)) s := by
  rw [climbBehind, bind_some (current_run s), if_neg h]

/-! ## Agreement -/

instance (d : Nat) (min : Precedence) : Forward (exprAt d min) := (exprAt_forward d).1 min

instance (d : Nat) : Forward (operand d) := (exprAt_forward d).2.1

instance (d : Nat) (min : Precedence) (left : Expr) : Forward (climb d min left) :=
  (exprAt_forward d).2.2 min left

variable {K : Context}

/-- The depths are enough for the tokens that are left, with `n` to spare. -/
structure Covers (K : Context) (n d d' : Nat) (s : ParseState) : Prop where
  here : 2 * s.rest.length + n ≤ d
  there : 2 * (s.rest.length + K.behind.tokens.length) + n ≤ d'

namespace Covers

variable {n d' : Nat} {s₁ : ParseState}

theorem mono (h : Covers K n d d' s) (hs : s₁.rest.length ≤ s.rest.length) :
    Covers K n d d' s₁ := by
  obtain ⟨h, h'⟩ := h
  constructor <;> omega

theorem weaken (h : Covers K (n + 1) d d' s) : Covers K n d d' s :=
  ⟨Nat.le_of_succ_le h.here, Nat.le_of_succ_le h.there⟩

/-- A token that is read pays for two calls. -/
theorem read (h : Covers K n (d + 1) (d' + 1) s) (hs : s₁.rest.length < s.rest.length) :
    Covers K (n + 1) d d' s₁ := by
  obtain ⟨h, h'⟩ := h
  constructor <;> omega

theorem call (h : Covers K (n + 1) (d + 1) (d' + 1) s) : Covers K n d d' s := by
  obtain ⟨h, h'⟩ := h
  constructor <;> omega

theorem exists_succ (h : Covers K (n + 1) d d' s) : ∃ c, d' = c + 1 :=
  ⟨d' - 1, by have := h.there; omega⟩

end Covers

/-- `exprAt` agrees at the depth `d`, if the depth is enough. -/
def ExprAgrees (K : Context) (d : Nat) : Prop :=
  ∀ (min : Precedence) (d' : Nat) (s : ParseState), K.Meets s → Covers K 2 d d' s →
    Agrees K false (exprAt d min) (exprAt d' min) s

/-- `operand` agrees at the depth `d`, if the depth is enough. -/
def OperandAgrees (K : Context) (d : Nat) : Prop :=
  ∀ (d' : Nat) (s : ParseState), K.Meets s → Covers K 1 d d' s →
    Agrees K false (operand d) (operand d') s

/-- `climb` agrees at the depth `d`, if the depth is enough. -/
def ClimbAgrees (K : Context) (d : Nat) : Prop :=
  ∀ (min : Precedence) (left left' : Expr) (d' : Nat) (s : ParseState), K.Meets s →
    Covers K 1 d d' s → K.Same left left' →
    Agrees K false (climb d min left) (climb d' min left') s

theorem ExprAgrees.operand (ih : ExprAgrees K d) : OperandAgrees K (d + 1) := by
  intro d' s hs hd
  obtain ⟨d', rfl⟩ := hd.exists_succ
  -- In every case but the last the next token is there, for the end of the source starts nothing.
  have hnext {k : Kind} (hk : s.current.kind = k) (hne : k ≠ .endOfFile) (hne' : k ≠ .newline) :
      ∃ t ts, s.rest = t :: ts ∧ s.current = t ∧
        (K.place s).rest = t.move K.move :: (K.place { s with rest := ts }).rest ∧
        K.Meets { s with rest := ts } ∧ Covers K 2 d d' { s with rest := ts } := by
    obtain ⟨t, ts, hr, rfl⟩ := cons_of_kind hs.closed (hk ▸ hne)
    exact ⟨_, ts, hr, rfl, Context.place_cons hr, hs.of_cons hr (hk ▸ hne'),
      hd.read (by rw [hr]; exact Nat.lt_succ_self _)⟩
  obtain ⟨a, ha⟩ | ⟨hk, hn⟩ | ⟨op, hk⟩ | hk | hk | hno := operand_cases s.current
  · have hstart := ha.starts
    obtain ⟨t, ts, hr, hcur, hr', hs₁, -⟩ :=
      hnext rfl (fun h => by rw [h] at hstart; cases hstart)
        (fun h => by rw [h] at hstart; cases hstart)
    rw [hcur] at ha
    exact .read (operand_leaf hr ha) (operand_leaf hr' (ha.move K.move))
      (congrArg (Expr.atom a) (hs.suits.span (hr ▸ List.mem_cons_self))) hs₁.fits
  · obtain ⟨t, ts, hr, rfl, hr', hs₁, -⟩ := hnext hk (by decide) (by decide)
    exact (Agrees.failWith hs₁ _).step (operand_notNumber hr hk hn) (operand_notNumber hr' hk hn)
      rfl
  · obtain ⟨t, ts, hr, rfl, hr', hs₁, hd₁⟩ := hnext hk (by simp) (by simp)
    refine Agrees.step (operand_unary hr hk) (operand_unary hr' hk) rfl ?_
    refine (ih .unary d' _ hs₁ hd₁).bind hs₁ fun e e' s₂ _ same hs₂ _ => .pure hs₂ ?_
    exact congrArg₂ (Expr.unary op) same (hs.suits.span (hr ▸ List.mem_cons_self))
  · obtain ⟨t, ts, hr, rfl, hr', hs₁, hd₁⟩ := hnext hk (by decide) (by decide)
    refine Agrees.step (operand_group hr hk) (operand_group hr' hk) rfl ?_
    refine (ih .lowest d' _ hs₁ hd₁).bind hs₁ fun e e' s₂ _ same hs₂ _ => ?_
    exact Agrees.expect hs₂ (by decide) (by decide) fun t ts _ _ hs₃ => .pure hs₃ same
  · obtain ⟨t, ts, hr, rfl, hr', hs₁, hd₁⟩ := hnext hk (by decide) (by decide)
    refine Agrees.step (operand_iif hr hk) (operand_iif hr' hk) rfl ?_
    refine Agrees.expect hs₁ (by decide) (by decide) fun t₀ m₁ hr₁ _ hs₁ => ?_
    have hsuf₁ := suffix_of_cons hr₁
    refine (ih .lowest d' _ hs₁ (hd₁.mono hsuf₁.length_le)).bind hs₁
      fun c c' s₂ _ samec hs₂ hsuf₂ => ?_
    refine Agrees.expect hs₂ (by decide) (by decide) fun t₁ m₂ hr₂ _ hs₂ => ?_
    have hsuf₂ := (suffix_of_cons hr₂).trans (hsuf₂.trans hsuf₁)
    refine (ih .lowest d' _ hs₂ (hd₁.mono hsuf₂.length_le)).bind hs₂
      fun y y' s₃ _ samey hs₃ hsuf₃ => ?_
    refine Agrees.expect hs₃ (by decide) (by decide) fun t₂ m₃ hr₃ _ hs₃ => ?_
    have hsuf₃ := (suffix_of_cons hr₃).trans (hsuf₃.trans hsuf₂)
    refine (ih .lowest d' _ hs₃ (hd₁.mono hsuf₃.length_le)).bind hs₃
      fun n n' s₄ _ samen hs₄ hsuf₄ => ?_
    refine Agrees.expect hs₄ (by decide) (by decide) fun closing m₄ hr₄ _ hs₄ => .pure hs₄ ?_
    have hmem : closing ∈ s.rest := by
      rw [hr]
      exact List.mem_cons_of_mem _ ((hsuf₄.trans hsuf₃).subset (hr₄ ▸ List.mem_cons_self))
    have hspan := hs.suits.merge (hr ▸ List.mem_cons_self) hk hmem
    show Expr.iif _ _ _ _ = Expr.iif _ _ _ _
    congr 1
  · by_cases hsees : K.Sees s
    · have hcurrent := Context.current_place hsees
      refine (Agrees.failWith hs (.nonExpression s.current.kind)).step (operand_other hno) ?_ rfl
      rw [operand_other (hcurrent ▸ ⟨hno.1, hno.2, hno.3, hno.4, hno.5⟩), hcurrent]
      rfl
    · obtain ⟨hr, more, -⟩ := hs.unseen hsees
      exact .ended more (.inl (.of_record hr (operand_other hno)))

theorem ExprAgrees.climb (ih : ExprAgrees K d) (ihClimb : ClimbAgrees K d) :
    ClimbAgrees K (d + 1) := by
  intro min left left' d' s hs hd same
  obtain ⟨d', rfl⟩ := hd.exists_succ
  by_cases hstays : ∀ c, Continuation.ofKind? s.current.kind = some c → c.precedence.rank ≤ min.rank
  · refine .read (climb_stays hstays) (climb_stays ?_) same hs.fits
    by_cases hsees : K.Sees s
    · rw [Context.current_place hsees]
      exact hstays
    · rw [(hs.unseen hsees).2.2]
      exact nofun
  · push Not at hstays
    obtain ⟨rule, hrule, hmin⟩ := hstays
    have hk := Continuation.kind_of_ofKind? hrule
    obtain ⟨t, ts, hr, rfl⟩ :=
      cons_of_kind hs.closed (by rw [hk]; cases rule <;> simp [Continuation.kind])
    have hs₁ : K.Meets { s with rest := ts } :=
      hs.of_cons hr (by rw [hk]; cases rule <;> simp [Continuation.kind])
    have hd₁ : Covers K 2 d d' { s with rest := ts } :=
      hd.read (by rw [hr]; exact Nat.lt_succ_self _)
    refine Agrees.step (climb_takes hr hk hmin) (climb_takes (Context.place_cons hr) hk hmin) rfl ?_
    have hclimb {s₂ : ParseState} {l l' : Expr} (hs₂ : K.Meets s₂) (hsuf : s₂.rest <:+ ts)
        (same : K.Same l l') : Agrees K false (Parser.climb d min l) (Parser.climb d' min l') s₂ :=
      ihClimb min l l' d' s₂ hs₂ (hd₁.mono hsuf.length_le).weaken same
    cases rule with
    | binary op =>
      exact (ih op.precedence d' _ hs₁ hd₁).bind hs₁ fun r r' s₂ _ samer hs₂ hsuf =>
        hclimb hs₂ hsuf (congrArg₂ (Expr.binary op) same samer)
    | logic op =>
      exact (ih op.precedence d' _ hs₁ hd₁).bind hs₁ fun r r' s₂ _ samer hs₂ hsuf =>
        hclimb hs₂ hsuf (congrArg₂ (Expr.logic op) same samer)
    | assign op =>
      exact (ih .lowest d' _ hs₁ hd₁).bind hs₁ fun r r' s₂ _ samer hs₂ hsuf =>
        hclimb hs₂ hsuf (congrArg₂ (Expr.assign op) same samer)
    | call =>
      by_cases hclose : headKind ts = .symbol .rightParen
      · obtain ⟨t', ts', hr₁, hk₁⟩ := exists_cons_of_headKind hclose (by decide)
        have hs₂ := hs₁.of_cons hr₁ (by rw [hk₁]; decide)
        have hsuf : ts' <:+ ts := hr₁ ▸ List.suffix_cons t' ts'
        refine Agrees.step (climbBehind_callNone hr₁ hk₁)
          (climbBehind_callNone (Context.place_cons hr₁) hk₁) rfl ?_
        refine hclimb hs₂ hsuf (same.call rfl ?_)
        exact hs₁.suits.span (hr₁ ▸ List.mem_cons_self)
      · refine Agrees.step (climbBehind_args ?_)
          (climbBehind_args (hs₁.current_ne hclose (by decide)))
          rfl ?_
        · exact (ParseState.current_kind hs₁.closed).trans_ne hclose
        have hargs := Agrees.commaList (n := ts.length)
          (fun s₂ hs₂ hn => ih .lowest d' s₂ hs₂ (hd₁.mono hn)) d d' _ hs₁ (Nat.le_refl _)
          (by have := hd₁.here; simp only at this ⊢; omega)
          (by have := hd₁.there; rw [Context.length_place]; simp only at this ⊢; omega)
        refine hargs.bind hs₁ fun args args' s₂ _ sames hs₂ hsuf₂ => ?_
        refine Agrees.expect hs₂ (by decide) (by decide) fun closing m hr₂ _ hs₃ => ?_
        refine hclimb hs₃ ((suffix_of_cons hr₂).trans hsuf₂) (same.call sames ?_)
        exact hs₂.suits.span (hr₂ ▸ List.mem_cons_self)

/-- Where the depth is enough, the parsers of expressions agree. -/
theorem exprAt_agrees (K : Context) (d : Nat) :
    ExprAgrees K d ∧ OperandAgrees K d ∧ ClimbAgrees K d := by
  induction d with
  | zero =>
    exact ⟨fun _ _ _ _ h => absurd h.here (by omega), fun _ _ _ h => absurd h.here (by omega),
      fun _ _ _ _ _ _ h => absurd h.here (by omega)⟩
  | succ d ih =>
    obtain ⟨ihExpr, ihOperand, ihClimb⟩ := ih
    refine ⟨fun min d' s hs hd => ?_, ihExpr.operand, ihExpr.climb ihClimb⟩
    obtain ⟨d', rfl⟩ := hd.exists_succ
    exact (ihOperand d' s hs hd.call).bind hs fun left left' s₁ _ same hs₁ hsuf =>
      ihClimb min left left' d' s₁ hs₁ (hd.call.mono hsuf.length_le) same

theorem expression_agrees (hs : K.Meets s) : Agrees K false expression expression s := by
  have hagrees := (exprAt_agrees K s.budget).1 .lowest (K.place s).budget s hs
    ⟨Nat.le_refl _, by rw [ParseState.budget, Context.length_place]⟩
  refine hagrees.step ?_ ?_ rfl <;> rfl

end Parser

end Xbase
