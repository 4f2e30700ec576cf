import Xbase.Proofs.Parser.Agree.Expr
import Xbase.Proofs.Parser.Viable.Basic

/-!
# Expressions in front of an early end

What is read of an expression in a longer text is read where the text stops (`exprAt_viable`), or
else an operand, a comma or a parenthesis is missing at the end of the tokens.
-/

namespace Xbase.Parser

variable {s : ParseState} {more : TokenStream} {d k : Nat} {min : Precedence} {left : Expr}

/-! ## Where no token is left -/

/-- The end of the source starts no operand. -/
theorem NoOperand.of_end {t : Token} (h : t.kind = .endOfFile) : NoOperand t := by
  refine ⟨?_, ?_, ?_, ?_, ?_⟩ <;> simp [atom?, unary?, h]

instance (d : Nat) : AtStop (operand d) := by
  cases d with
  | zero => exact AtStop.fail
  | succ d =>
    refine ⟨fun s hs hr => .of_misses ?_⟩
    have hkind := current_kind_end hs hr
    exact .of_record hr (operand_other (.of_end hkind)) (by rw [hkind]; rfl)

instance (d : Nat) (min : Precedence) (left : Expr) : AtStop (climb d min left) := by
  cases d with
  | zero => exact AtStop.fail
  | succ d =>
    refine ⟨fun s hs hr => .of_same hr (climb_stays ?_)⟩
    rw [ParseState.current_kind hs, hr]
    intro c hc
    cases hc

instance (d : Nat) (min : Precedence) : AtStop (exprAt d min) := by
  cases d with
  | zero => exact AtStop.fail
  | succ d =>
    unfold exprAt
    infer_instance

instance : AtStop expression :=
  .of_state (f := fun s => exprAt s.budget .lowest) fun _ => inferInstance

instance (d : Nat) (min : Precedence) (left : Expr) (rule : Continuation) :
    AtStop (climbBehind d min left rule) := by
  cases rule <;> (unfold climbBehind; infer_instance)

/-! ## In front of a token -/

-- In the longer text the recursion may go deeper by `k`.

/-- `exprAt` is viable at the depth `d`, if the depth is enough. -/
def ExprViable (more : TokenStream) (k d : Nat) : Prop :=
  ∀ (min : Precedence) (s : ParseState), s.Closed → 2 * s.rest.length + 2 ≤ d →
    Viable more false (exprAt d min) (exprAt (k + d) min) s

/-- `operand` is viable at the depth `d`, if the depth is enough. -/
def OperandViable (more : TokenStream) (k d : Nat) : Prop :=
  ∀ s : ParseState, s.Closed → 2 * s.rest.length + 1 ≤ d →
    Viable more false (operand d) (operand (k + d)) s

/-- `climb` is viable at the depth `d`, if the depth is enough. -/
def ClimbViable (more : TokenStream) (k d : Nat) : Prop :=
  ∀ (min : Precedence) (left : Expr) (s : ParseState), s.Closed → 2 * s.rest.length + 1 ≤ d →
    Viable more false (climb d min left) (climb (k + d) min left) s

theorem ExprViable.operand (ih : ExprViable more k d) : OperandViable more k (d + 1) := by
  intro s hs hd
  show Viable more false (Parser.operand (d + 1)) (Parser.operand (k + d + 1)) s
  cases hr : s.rest with
  | nil => exact .of_stop hs hr
  | cons t ts =>
    have hr' : (s.extend more).rest = t :: _ := extend_rest_of_cons hr
    have hsuf : ts <:+ s.rest := suffix_of_cons hr
    rw [hr, List.length_cons] at hd
    have hexpr {ts' : List Token} (hle : ts'.length ≤ ts.length) (min : Precedence) :
        Viable more false (exprAt d min) (exprAt (k + d) min) { s with rest := ts' } :=
      ih min _ hs (by simp only; omega)
    obtain ⟨a, ha⟩ | ⟨hk, hn⟩ | ⟨op, hk⟩ | hk | hk | hno := operand_cases t
    · exact .step hsuf (operand_leaf hr ha) (operand_leaf hr' ha) (.pure (Expr.atom a t.span))
    · exact .of_record (operand_notNumber hr' hk hn) rfl
    · refine .step hsuf (operand_unary hr hk) (operand_unary hr' hk) ?_
      exact (hexpr (Nat.le_refl _) _).bind hs fun _ _ _ => .pure _
    · refine .step hsuf (operand_group hr hk) (operand_group hr' hk) ?_
      refine (hexpr (Nat.le_refl _) _).bind hs fun e m₁ _ => ?_
      exact Viable.expect hs fun _ _ _ _ => .pure _
    · refine .step hsuf (operand_iif hr hk) (operand_iif hr' hk) ?_
      refine Viable.expect hs fun t₁ m₁ hr₁ _ => ?_
      have hm₁ : m₁.length ≤ ts.length := (suffix_of_cons hr₁).length_le
      refine (hexpr hm₁ _).bind hs fun c m₂ hsuf₂ => ?_
      refine Viable.expect hs fun t₂ m₃ hr₃ _ => ?_
      have hm₃ := ((suffix_of_cons hr₃).trans hsuf₂).length_le.trans hm₁
      refine (hexpr hm₃ _).bind hs fun y m₄ hsuf₄ => ?_
      refine Viable.expect hs fun t₃ m₅ hr₅ _ => ?_
      have hm₅ := ((suffix_of_cons hr₅).trans hsuf₄).length_le.trans hm₃
      refine (hexpr hm₅ _).bind hs fun n m₆ _ => ?_
      exact Viable.expect hs fun _ _ _ _ => .pure _
    · have hcurrent : (s.extend more).current = t := current_cons hr'
      exact .of_record (operand_other (hcurrent ▸ hno)) rfl

theorem ExprViable.climb (ih : ExprViable more k d) (ihClimb : ClimbViable more k d) :
    ClimbViable more k (d + 1) := by
  intro min left s hs hd
  show Viable more false (Parser.climb (d + 1) min left) (Parser.climb (k + d + 1) min left) s
  cases hr : s.rest with
  | nil => exact .of_stop hs hr
  | cons t ts =>
    have hr' : (s.extend more).rest = t :: _ := extend_rest_of_cons hr
    rw [hr, List.length_cons] at hd
    have hexpr (min : Precedence) :
        Viable more false (exprAt d min) (exprAt (k + d) min) { s with rest := ts } :=
      ih min _ hs (by simp only; omega)
    have hclimb {ts' : List Token} (hle : ts'.length ≤ ts.length) (left : Expr) :
        Viable more false (Parser.climb d min left) (Parser.climb (k + d) min left)
          { s with rest := ts' } :=
      ihClimb min left _ hs (by simp only; omega)
    by_cases hstays : ∀ c, Continuation.ofKind? t.kind = some c → c.precedence.rank ≤ min.rank
    · refine .step List.suffix_rfl (climb_stays ?_) (climb_stays ?_) (.pure left)
      · rwa [current_cons hr]
      · rwa [current_cons hr']
    · push Not at hstays
      obtain ⟨rule, hrule, hmin⟩ := hstays
      have hk := Continuation.kind_of_ofKind? hrule
      refine .step (suffix_of_cons hr) (climb_takes hr hk hmin) (climb_takes hr' hk hmin) ?_
      cases rule with
      | binary op | logic op | assign op =>
        exact (hexpr _).bind hs fun _ _ hsuf => hclimb hsuf.length_le _
      | call =>
        refine Viable.current hs fun u us _ => Viable.ite (fun _ => ?_) fun _ => ?_
        · exact Viable.expect hs fun _ _ hr₁ _ => hclimb (suffix_of_cons hr₁).length_le _
        · have hargs := Viable.commaList k (n := ts.length)
            (fun s hs hn => ih .lowest s hs (by omega)) d { s with rest := ts } hs
            (Nat.le_refl _) (by simp only; omega)
          refine hargs.bind hs fun args m hsuf => Viable.expect hs fun _ _ hr₂ _ => ?_
          exact hclimb ((suffix_of_cons hr₂).trans hsuf).length_le _

/-- Where the depth is enough, expressions are viable. -/
theorem exprAt_viable (more : TokenStream) (k d : Nat) :
    ExprViable more k d ∧ OperandViable more k d ∧ ClimbViable more k d := by
  induction d with
  | zero =>
    exact ⟨fun _ _ _ h => absurd h (by omega), fun _ _ h => absurd h (by omega),
      fun _ _ _ _ h => absurd h (by omega)⟩
  | succ d ih =>
    obtain ⟨ihExpr, ihOperand, ihClimb⟩ := ih
    refine ⟨fun min s hs hd => ?_, ihExpr.operand, ihExpr.climb ihClimb⟩
    refine (ihOperand s hs (by omega)).bind hs fun left after hsuf => ?_
    have hle := hsuf.length_le
    exact ihClimb min left _ hs (by simp only; omega)

theorem expression_viable (hs : s.Closed) : Viable more false expression expression s := by
  have hexpr := (exprAt_viable more (2 * more.tokens.length) s.budget).1 .lowest s hs
    (Nat.le_refl _)
  refine .step (q := exprAt s.budget .lowest) List.suffix_rfl rfl ?_ hexpr
  rw [expression, budget_extend]

end Xbase.Parser
