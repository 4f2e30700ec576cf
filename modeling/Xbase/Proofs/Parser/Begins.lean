import Xbase.Proofs.Grammar.Strata
import Xbase.Proofs.Parser.Viable.Expr

/-!
# What has been read of an expression that breaks off

`Parser.Begins p s L` says that where `p` gives up at `s`, the tokens that it has read can be
completed to a word of `L`. It is shown along the rules of the parser, as `Parser.Decides` is: what
a part has read is completed to a word of the part, and then by a sample of every part that is still
to come.

`Parser.exprAt_begins` says this of the parsers of expressions.
-/

namespace Xbase

open Grammar

namespace Grammar

/-! ## Words -/

/-- The tokens are an expression of every category that is not tighter than the level. -/
def Word (level : Nat) (w : List Token) : Prop :=
  ∃ e, ∀ c : Category, c.level ≤ level → Derives c w e

theorem Word.mono {level m : Nat} {w : List Token} (h : Word level w) (hm : m ≤ level) :
    Word m w := by
  obtain ⟨e, he⟩ := h
  exact ⟨e, fun c hc => he c (Nat.le_trans hc hm)⟩

theorem Word.of_derives {c : Category} {w : List Token} {e : Expr} (h : Derives c w e) :
    Word c.level w :=
  ⟨e, fun _ hc => h.loosen hc⟩

/-- The tokens of a phrase are a word. -/
theorem Phrase.word {level : Nat} {w after : List Token} {e : Expr}
    (h : Phrase level (w ++ after) e after) : Word level w := by
  obtain ⟨w', hw, hd⟩ := h.derives
  rw [List.append_cancel_right hw]
  exact ⟨e, hd⟩

/-- A token of the given kind. -/
def sample (k : Kind) : Token := ⟨k, "", ⟨0, 0⟩, 0, 0⟩

theorem word_sample : Word 10 [sample .name] :=
  .of_derives (.leaf (.name rfl))

end Grammar

/-- The end of the source is marked, and every number that is left can be read. -/
structure ParseState.Readable (s : ParseState) : Prop where
  closed : s.Closed
  numbers : ∀ t ∈ s.rest, t.kind = .number → ∃ n, Number.ofText? t.lexeme = some n

theorem ParseState.Readable.suffix {s : ParseState} {ts : List Token} (h : s.Readable)
    (hts : ts <:+ s.rest) : ({ s with rest := ts } : ParseState).Readable :=
  ⟨h.closed, fun t ht => h.numbers t (hts.subset ht)⟩

namespace Parser

variable {α β : Type} {s : ParseState}

/-! ## Parsers that give up -/

/-- Where `p` gives up at `s`, the tokens that it has read are a proper beginning of a word
of `L`. -/
def Begins (p : Parser α) (s : ParseState) (L : List Token → Prop) : Prop :=
  ∀ s', p s = (none, s') → ∃ w more, s.rest = w ++ s'.rest ∧ more ≠ [] ∧ L (w ++ more)

namespace Begins

variable {p : Parser α} {f : α → Parser β} {L L' : List Token → Prop}

theorem of_some {a : α} {s₁ : ParseState} (h : p s = (some a, s₁)) : Begins p s L := by
  intro s' hrun
  rw [h] at hrun
  cases hrun

/-- A parser that gives up at once. -/
theorem of_record {fault : SyntaxFault} (h : p s = (none, s.record fault))
    (hL : ∃ t w, L (t :: w)) : Begins p s L := by
  intro s' hrun
  rw [h] at hrun
  cases hrun
  obtain ⟨t, w, hL⟩ := hL
  exact ⟨[], t :: w, rfl, List.cons_ne_nil t w, hL⟩

/-- The tokens `u` are read, and parsing goes on as `q`. -/
theorem step {q : Parser α} {u ts : List Token} (hr : s.rest = u ++ ts)
    (h : p s = q { s with rest := ts })
    (hq : Begins q { s with rest := ts } fun w => L (u ++ w)) : Begins p s L := by
  intro s' hrun
  rw [h] at hrun
  obtain ⟨w, more, hw, hmore, hL⟩ := hq s' hrun
  refine ⟨u ++ w, more, ?_, hmore, ?_⟩
  · rw [hr, List.append_assoc, ← hw]
  · rwa [List.append_assoc]

theorem bind {R : α → List Token → Prop} (hd : Decides p s R) (hp : Begins p s L)
    (hf : ∀ a w after, s.rest = w ++ after → R a after →
      Begins (f a) { s with rest := after } fun v => L (w ++ v)) : Begins (p >>= f) s L := by
  obtain ⟨a, after, hrun, ⟨w, hw⟩, hR⟩ | ⟨fault, after, hrun, -⟩ := hd
  · exact step hw.symm (bind_some hrun) (hf a w after hw.symm hR)
  · intro s' hrun'
    rw [bind_none hrun] at hrun'
    cases hrun'
    exact hp _ hrun

/-- What comes behind does not give up. -/
theorem bind_pure {g : α → β} (h : Begins p s L) : Begins (p >>= fun a => pure (g a)) s L := by
  intro s' hrun
  rcases hp : p s with ⟨_ | a, s₁⟩
  · rw [bind_none hp] at hrun
    cases hrun
    exact h _ hp
  · rw [bind_some hp] at hrun
    cases hrun

/-- What completes a word of `L` to one of `L'` can stand behind. -/
theorem complete (h : Begins p s L) (hL : ∀ w, L w → ∃ rest, L' (w ++ rest)) :
    Begins p s L' := by
  intro s' hrun
  obtain ⟨w, more, hw, hmore, hword⟩ := h s' hrun
  obtain ⟨rest, hrest⟩ := hL _ hword
  exact ⟨w, more ++ rest, hw, by simp [hmore], by rwa [← List.append_assoc]⟩

theorem expect {k : Kind} {f : Token → Parser α} (hs : s.Closed) (hk : k ≠ .endOfFile)
    (hL : ∀ t, t.kind = k → ∃ w, L (t :: w))
    (h : ∀ t ts, s.rest = t :: ts → t.kind = k →
      Begins (f t) { s with rest := ts } fun w => L (t :: w)) :
    Begins (Parser.expect k >>= f) s L := by
  by_cases hhead : headKind s.rest = k
  · obtain ⟨t, ts, hr, ht⟩ := exists_cons_of_headKind hhead hk
    exact step (u := [t]) hr (bind_some (expect_of_cons hr ht)) (h t ts hr ht)
  · have hrun : Parser.expect k s = (none, s.record (.unexpectedToken s.current.kind k)) := by
      rw [expect_run, if_neg (by rwa [ParseState.current_kind hs])]
    obtain ⟨w, hw⟩ := hL (sample k) rfl
    exact of_record (bind_none hrun) ⟨sample k, w, hw⟩

end Begins

/-! ## Expressions that are not complete -/

/-- Where `exprAt` gives up at the depth `d`, if the depth is enough. -/
def ExprBegins (d : Nat) : Prop :=
  ∀ (min : Precedence) (s : ParseState), s.Readable → 2 * s.rest.length + 2 ≤ d →
    Begins (exprAt d min) s (Word min.level)

/-- Where `operand` gives up at the depth `d`, if the depth is enough. -/
def OperandBegins (d : Nat) : Prop :=
  ∀ s : ParseState, s.Readable → 2 * s.rest.length + 1 ≤ d → Begins (operand d) s (Word 8)

/-- Where `climb` gives up behind the expression `left` of the tokens `front`, if the depth is
enough. -/
def ClimbBegins (d : Nat) : Prop :=
  ∀ (min : Precedence) (left : Expr) (front : List Token) (c : Category) (s : ParseState),
    s.Readable → 2 * s.rest.length + 1 ≤ d → min.level ≤ c.level → Derives c front left →
    Follows c.level s.rest → Begins (climb d min left) s fun w => Word min.level (front ++ w)

variable {d : Nat} {L : List Token → Prop}

/-- An expression and what follows it. -/
theorem ExprBegins.bind {min : Precedence} {f : Expr → Parser β} (ih : ExprBegins d)
    (hs : s.Readable) (hd : 2 * s.rest.length + 2 ≤ d)
    (hL : ∀ w, Word min.level w → ∃ rest, L (w ++ rest))
    (hf : ∀ e w after, s.rest = w ++ after → Phrase min.level (w ++ after) e after →
      Stops min.rank after → Begins (f e) { s with rest := after } fun v => L (w ++ v)) :
    Begins (exprAt d min >>= f) s L :=
  .bind ((exprAt_decides d).1 min s hs.closed hd) ((ih min s hs hd).complete hL)
    fun e w after hw he => hf e w after hw (hw ▸ he.1) he.2

/-- Where a list of expressions is given up, if the depth and the count are enough. -/
theorem ExprBegins.commaList (ih : ExprBegins d) :
    ∀ (count : Nat) (s : ParseState), s.Readable → 2 * s.rest.length + 2 ≤ d →
      s.rest.length < count →
      Begins (Parser.commaList (exprAt d .lowest) count) s fun w => ∃ es, DerivesList w es := by
  intro count
  induction count with
  | zero => intro s _ _ h; omega
  | succ count ihCount =>
    intro s hs hd hc
    refine ih.bind hs hd (fun w hw => ?_) fun e w after hw he _ => ?_
    · obtain ⟨e, he⟩ := hw
      exact ⟨[], [e], by simpa using .one (he .assign (Nat.le_refl _))⟩
    · obtain ⟨e', hword⟩ := he.word
      have hfirst : Derives .assign w e' := hword .assign (Nat.le_refl _)
      by_cases hcomma : headKind after = .symbol .comma
      · obtain ⟨t, ts, rfl, ht⟩ := exists_cons_of_headKind hcomma (by decide)
        have hlen := congrArg List.length hw
        simp only [List.length_append, List.length_cons] at hlen
        have hsuf : ts <:+ s.rest := ⟨w ++ [t], by simp [hw]⟩
        have hmore := ihCount { s with rest := ts } (hs.suffix hsuf) (by simp only; omega)
          (by simp only; omega)
        refine .step (u := [t]) rfl (bind_some (eat_true rfl ht)) ?_
        refine (hmore.complete fun v hv => ?_).bind_pure
        obtain ⟨es, hes⟩ := hv
        exact ⟨[], e' :: es, by simpa using .more hfirst ht hes⟩
      · exact .of_some (bind_some (eat_false (s := { s with rest := after }) hs.closed hcomma))

theorem ExprBegins.operand (ih : ExprBegins d) : OperandBegins (d + 1) := by
  intro s hs hd
  have hname : ∃ t w, Word 8 (t :: w) := ⟨_, [], word_sample.mono (by decide)⟩
  cases hr : s.rest with
  | nil =>
    have hno : NoOperand s.current := .of_end (current_kind_end hs.closed hr)
    exact .of_record (operand_other hno) hname
  | cons t ts =>
    have hsuf : ts <:+ s.rest := suffix_of_cons hr
    rw [hr, List.length_cons] at hd
    obtain ⟨a, ha⟩ | ⟨hk, hn⟩ | ⟨op, hk⟩ | hk | hk | hno := operand_cases t
    · exact .of_some (operand_leaf hr ha)
    · obtain ⟨n, hn'⟩ := hs.numbers t (by simp [hr]) hk
      cases hn.symm.trans hn'
    · have hinner := ih .unary { s with rest := ts } (hs.suffix hsuf) (by simp only; omega)
      refine .step (u := [t]) hr (operand_unary hr hk) (hinner.complete fun w hw => ?_).bind_pure
      obtain ⟨e, he⟩ := hw
      exact ⟨[], by simpa using .of_derives (.unary hk (he .sign (Nat.le_refl _)))⟩
    · have hgroup {w : List Token} {t' : Token} (hw : Word 1 w)
          (ht' : t'.kind = .symbol .rightParen) : Word 8 (t :: w ++ [t']) := by
        obtain ⟨e, he⟩ := hw
        exact (Word.of_derives (.group hk (he .assign (Nat.le_refl _)) ht')).mono (by decide)
      refine .step (u := [t]) hr (operand_group hr hk) ?_
      refine ih.bind (hs.suffix hsuf) (by simp only; omega) (fun w hw => ?_)
        fun e w after hw he _ => ?_
      · exact ⟨[sample (.symbol .rightParen)], hgroup hw rfl⟩
      · refine .expect hs.closed (by decide) (fun t' ht' => ⟨[], hgroup he.word ht'⟩)
          fun _ _ _ _ => .of_some rfl
    · have hiif {t₀ t₁ t₂ t₃ : Token} {w₁ w₂ w₃ : List Token} (h₀ : t₀.kind = .symbol .leftParen)
          (hw₁ : Word 1 w₁) (h₁ : t₁.kind = .symbol .comma) (hw₂ : Word 1 w₂)
          (h₂ : t₂.kind = .symbol .comma) (hw₃ : Word 1 w₃) (h₃ : t₃.kind = .symbol .rightParen) :
          Word 8 ([t] ++ t₀ :: (w₁ ++ t₁ :: (w₂ ++ t₂ :: (w₃ ++ [t₃])))) := by
        obtain ⟨cond, hc⟩ := hw₁
        obtain ⟨yes, hy⟩ := hw₂
        obtain ⟨no, hn⟩ := hw₃
        have h := Derives.iif hk h₀ (hc .assign (Nat.le_refl _)) h₁ (hy .assign (Nat.le_refl _)) h₂
          (hn .assign (Nat.le_refl _)) h₃
        simpa using (Word.of_derives h).mono (by decide)
      have hx : Word 1 [sample .name] := word_sample.mono (by decide)
      have hcomma : (sample (.symbol .comma)).kind = .symbol .comma := rfl
      have hparen : (sample (.symbol .rightParen)).kind = .symbol .rightParen := rfl
      refine .step (u := [t]) hr (operand_iif hr hk) ?_
      refine .expect hs.closed (by decide)
        (fun t₀ h₀ => ⟨_, hiif h₀ hx hcomma hx hcomma hx hparen⟩) fun t₀ m₁ hr₀ h₀ => ?_
      have hsuf₁ : m₁ <:+ s.rest := (suffix_of_cons hr₀).trans hsuf
      have hlen₁ : m₁.length ≤ ts.length := (suffix_of_cons hr₀).length_le
      refine ih.bind (hs.suffix hsuf₁) (by simp only; omega)
        (fun w₁ hw₁ => ⟨_, hiif h₀ hw₁ hcomma hx hcomma hx hparen⟩) fun _ w₁ a₁ hr₁ hc _ => ?_
      refine .expect hs.closed (by decide)
        (fun t₁ h₁ => ⟨_, hiif h₀ hc.word h₁ hx hcomma hx hparen⟩) fun t₁ m₂ hr₁' h₁ => ?_
      have hsuf₂ : m₂ <:+ m₁ := (suffix_of_cons hr₁').trans ⟨w₁, hr₁.symm⟩
      have hlen₂ := hsuf₂.length_le
      refine ih.bind (hs.suffix (hsuf₂.trans hsuf₁)) (by simp only; omega)
        (fun w₂ hw₂ => ⟨_, hiif h₀ hc.word h₁ hw₂ hcomma hx hparen⟩) fun _ w₂ a₂ hr₂ hy _ => ?_
      refine .expect hs.closed (by decide)
        (fun t₂ h₂ => ⟨_, hiif h₀ hc.word h₁ hy.word h₂ hx hparen⟩) fun t₂ m₃ hr₂' h₂ => ?_
      have hsuf₃ : m₃ <:+ m₂ := (suffix_of_cons hr₂').trans ⟨w₂, hr₂.symm⟩
      have hlen₃ := hsuf₃.length_le
      refine ih.bind (hs.suffix (hsuf₃.trans (hsuf₂.trans hsuf₁))) (by simp only; omega)
        (fun w₃ hw₃ => ⟨_, hiif h₀ hc.word h₁ hy.word h₂ hw₃ hparen⟩) fun _ w₃ a₃ _ hn _ => ?_
      exact .expect hs.closed (by decide)
        (fun t₃ h₃ => ⟨_, hiif h₀ hc.word h₁ hy.word h₂ hn.word h₃⟩) fun _ _ _ _ => .of_some rfl
    · have hcurrent : s.current = t := current_cons hr
      exact .of_record (operand_other (hcurrent ▸ hno)) hname

/-- Behind an operator, its right operand is read, and then parsing goes on with the whole. -/
theorem ExprBegins.operator {min p : Precedence} {c c' : Category} {front ts : List Token}
    {t : Token} {whole : Expr → Expr} (ih : ExprBegins d) (ihClimb : ClimbBegins d)
    (hs : ({ s with rest := ts } : ParseState).Readable) (hd : 2 * ts.length + 2 ≤ d)
    (hmin : min.level ≤ c.level) (hc' : c'.level = p.level)
    (hwhole : ∀ w r, Derives c' w r → Derives c (front ++ t :: w) (whole r))
    (hfollows : ∀ after, Stops p.rank after → Follows c.level after) :
    Begins (exprAt d p >>= fun r => climb d min (whole r)) { s with rest := ts } fun w =>
      Word min.level (front ++ t :: w) := by
  refine ih.bind hs hd (fun w hw => ?_) fun r w after hw hr hst => ?_
  · obtain ⟨r, hr⟩ := hw
    have h := hwhole w r (hr c' (Nat.le_of_eq hc'))
    exact ⟨[], by simpa using (Word.of_derives h).mono hmin⟩
  · obtain rfl : ts = w ++ after := hw
    have hlen : after.length ≤ (w ++ after).length := by simp
    have h := hwhole w r (derives_iff.2 (hc' ▸ hr))
    simpa using ihClimb min (whole r) (front ++ t :: w) c { s with rest := after }
      (hs.suffix ⟨w, rfl⟩) (by simp only; omega) hmin h (hfollows after hst)

/-- In parentheses behind a callee, the arguments are read up to the closing parenthesis. -/
theorem ExprBegins.call {min : Precedence} {left : Expr} {front ts : List Token} {t : Token}
    (ih : ExprBegins d) (ihClimb : ClimbBegins d)
    (hs : ({ s with rest := ts } : ParseState).Readable) (hd : 2 * ts.length + 2 ≤ d)
    (hmin : min.level ≤ Category.call.level) (hleft : Derives .call front left)
    (ht : t.kind = .symbol .leftParen) :
    Begins (climbBehind d min left .call) { s with rest := ts } fun w =>
      Word min.level (front ++ t :: w) := by
  have hclimb {u after : List Token} {t' : Token} {e : Expr} (hts : ts = u ++ t' :: after)
      (h : Derives .call (front ++ t :: u ++ [t']) e) :
      Begins (Parser.climb d min e) { s with rest := after } fun v =>
        Word min.level (front ++ t :: (u ++ t' :: v)) := by
    have hsuf : after <:+ ts := ⟨u ++ [t'], by simp [hts]⟩
    have hlen := hsuf.length_le
    simpa using ihClimb min e _ .call { s with rest := after } (hs.suffix hsuf)
      (by simp only; omega) hmin h ((stops_nine after).follows (by decide) (by decide))
  by_cases hnone : ({ s with rest := ts } : ParseState).current.kind = .symbol .rightParen
  · obtain ⟨t', after, hr, hcurrent⟩ := cons_of_kind hs.closed (by rw [hnone]; decide)
    obtain rfl : ts = t' :: after := hr
    rw [hcurrent] at hnone
    refine .step (u := [t']) rfl (climbBehind_callNone rfl hnone) ?_
    exact hclimb (u := []) rfl (by simpa using .callNone hleft ht hnone)
  · have hwords {w : List Token} {es : List Expr} {t' : Token} (hw : DerivesList w es)
        (ht' : t'.kind = .symbol .rightParen) : Word min.level (front ++ t :: (w ++ [t'])) := by
      simpa using (Word.of_derives (.call hleft ht hw ht')).mono hmin
    have hdecides := commaList_decides (n := ts.length)
      (fun s₁ hs₁ hn => (exprAt_decides d).1.inner (s := s₁) hs₁ (by omega)) d
      { s with rest := ts } hs.closed (Nat.le_refl _) (by simp only; omega)
    have hargs := ih.commaList d { s with rest := ts } hs hd (by simp only; omega)
    refine .step (u := []) rfl (climbBehind_args hnone) ?_
    refine .bind hdecides (hargs.complete fun w hw => ?_) fun args w after hw ha => ?_
    · obtain ⟨es, hes⟩ := hw
      exact ⟨[sample (.symbol .rightParen)], hwords hes rfl⟩
    · obtain ⟨w', hw', hes⟩ := (phrases_iff.mpr ha).derives
      obtain rfl : w = w' := List.append_cancel_right (hw.symm.trans hw')
      refine .expect hs.closed (by decide) (fun t' ht' => ⟨[], hwords hes ht'⟩)
        fun t' after' hr ht' => ?_
      obtain rfl : after = t' :: after' := hr
      exact hclimb hw (.call hleft ht hes ht')

theorem ExprBegins.climb (ih : ExprBegins d) (ihClimb : ClimbBegins d) : ClimbBegins (d + 1) := by
  intro min left front c s hs hd hl hleft hst
  by_cases hstays : ∀ rule, Continuation.ofKind? s.current.kind = some rule →
      rule.precedence.rank ≤ min.rank
  · exact .of_some (climb_stays hstays)
  push Not at hstays
  obtain ⟨rule, hrule, hmin⟩ := hstays
  rw [ParseState.current_kind hs.closed] at hrule
  obtain ⟨t, ts, hr, ht⟩ := exists_cons_of_headKind (Continuation.kind_of_ofKind? hrule)
    (by cases rule <;> simp [Continuation.kind])
  obtain ⟨htwo, hle⟩ := hst rule hrule
  have hlevel : min.level ≤ rule.precedence.rank := Nat.le_trans min.level_le.2 (by omega)
  have hs' := hs.suffix (suffix_of_cons hr)
  rw [hr, List.length_cons] at hd
  have hts : 2 * ts.length + 2 ≤ d := by omega
  refine .step (u := [t]) hr (climb_takes hr ht hmin) ?_
  simp only [List.singleton_append]
  cases rule with
  | binary op =>
    rw [Continuation.precedence, op.rank_precedence, ← op.level_category.1] at hle hlevel
    refine ih.operator ihClimb hs' hts hlevel ?_
      (fun w r => .binary (hleft.loosen hle) ht) fun after h => ?_
    · rw [op.level_category.2, op.level_precedence]
    · rw [op.rank_precedence, ← op.level_category.1] at h
      exact h.follows (Nat.le_refl _) (by cases op <;> decide)
  | logic op =>
    rw [Continuation.precedence, op.rank_precedence, ← op.level_category.1] at hle hlevel
    refine ih.operator ihClimb hs' hts hlevel ?_
      (fun w r => .logic (hleft.loosen hle) ht) fun after h => ?_
    · rw [op.level_category.2, op.level_precedence]
    · rw [op.rank_precedence, ← op.level_category.1] at h
      exact h.follows (Nat.le_refl _) (by cases op <;> decide)
  | assign op =>
    have hlevel : min.level ≤ Category.assign.level := hlevel
    have hvalue : Category.assign.level = Precedence.lowest.level := rfl
    refine ih.operator ihClimb hs' hts hlevel hvalue
      (fun w r => .assign (hleft.loosen htwo) ht) fun after h k hk => ?_
    rw [Stops.none h] at hk
    cases hk
  | call => exact ih.call ihClimb hs' hts hlevel (hleft.loosen hle) ht

/-- Where the depth is enough, what has been read of an expression can be completed. -/
theorem exprAt_begins (d : Nat) : ExprBegins d ∧ OperandBegins d ∧ ClimbBegins d := by
  induction d with
  | zero => exact ⟨fun _ _ _ h => by omega, fun _ _ h => by omega, fun _ _ _ _ _ _ h => by omega⟩
  | succ d ih =>
    obtain ⟨ihExpr, ihOperand, ihClimb⟩ := ih
    refine ⟨fun min s hs hd => ?_, ihExpr.operand, ihExpr.climb ihClimb⟩
    have hmin := min.level_le.1
    have hoperand := ihOperand s hs (by omega)
    refine .bind ((exprAt_decides d).2.1 s hs.closed (by omega))
      (hoperand.complete fun w hw => ⟨[], by simpa using hw.mono hmin⟩)
      fun left w after hw hleft => ?_
    obtain ⟨level, hl, hp, hst⟩ := hleft
    have hlen : after.length ≤ s.rest.length := by simp [hw]
    rw [hw] at hp
    -- An operand with a sign lets no call follow, any other one may be called.
    obtain ⟨c, hc, hcl, hstops⟩ : ∃ c : Category, c.level ≤ level ∧ 8 ≤ c.level ∧
        Stops c.level after := by
      obtain rfl | h9 : level = 8 ∨ 9 ≤ level := by omega
      · exact ⟨.sign, Nat.le_refl _, Nat.le_refl _, hst⟩
      · exact ⟨.call, h9, by decide, stops_nine after⟩
    exact ihClimb min left w c { s with rest := after } (hs.suffix ⟨w, hw.symm⟩)
      (by simp only; omega) (by omega) (derives_iff.2 (hp.weaken hc))
      (hstops.follows (Nat.le_refl _) (by omega))

end Parser

end Xbase
