import Xbase.Proofs.Parser.Begins
import Xbase.Proofs.Parser.Origins
import Xbase.Proofs.Parser.Total

/-!
# Where an expression breaks off

If no expression can be read, the parser stops at the first token that does not fit: what it has
read by then is the beginning of an expression (`Parser.exprAt_begins`), and no expression goes on
with that token.

`Parser.Local p` says that what `p` does up to a token does not depend on the tokens behind it. So a
failure at a token stays one, whatever follows, and what follows cannot make an expression of it
(`Parser.expression_fails`).

`Parser.expression_reads_or_breaks` puts these together for every state that comes up while a text
is parsed.
-/

namespace Xbase

open Grammar

namespace Grammar

mutual

/-- The end of the source is no part of an expression. -/
theorem Derives.not_end {c : Category} {w : List Token} {e : Expr} :
    Derives c w e → ∀ t ∈ w, t.kind ≠ .endOfFile
  | .next h => h.not_end
  | .assign left ht right | .logic left ht right | .binary left ht right => by
    have hleft := left.not_end
    have hright := right.not_end
    simp_all [or_imp]
  | .unary ht h => by
    have := h.not_end
    simp_all
  | .callNone hf ht ht' => by
    have := hf.not_end
    simp_all [or_imp]
  | .call hf ht ha ht' => by
    have hcallee := hf.not_end
    have hargs := ha.not_end
    simp_all [or_imp]
  | .leaf h => by
    have := h.starts
    rintro t ht hk
    rw [List.mem_singleton.1 ht] at hk
    rw [hk] at this
    cases this
  | .group ht h ht' => by
    have := h.not_end
    simp_all [or_imp]
  | .iif ht h₀ hc h₁ hy h₂ hn h₃ => by
    have hcond := hc.not_end
    have hyes := hy.not_end
    have hno := hn.not_end
    simp_all [or_imp]

theorem DerivesList.not_end {w : List Token} {es : List Expr} :
    DerivesList w es → ∀ t ∈ w, t.kind ≠ .endOfFile
  | .one h => h.not_end
  | .more h ht hs => by
    have hfirst := h.not_end
    have hmore := hs.not_end
    simp_all [or_imp]

end

/-- The tokens `w` are a proper beginning of an expression, but no expression goes on with the token
`t` behind them. -/
structure BreaksAt (w : List Token) (t : Token) : Prop where
  begins : ∃ more e, more ≠ [] ∧ Derives .assign (w ++ more) e
  ends : ∀ more e, ¬ Derives .assign (w ++ t :: more) e

end Grammar

namespace Parser

variable {α β : Type} {s : ParseState}

/-! ## Tokens that have not been reached -/

/-- As long as `p` does not read all of the tokens `front`, it does the same whatever stands behind
them. -/
def Alike (p : Parser α) (front x y : List Token) (stop : Token) (errors : List SyntaxError) :
    Prop :=
  (∃ a? front' errors', front' ≠ [] ∧
    p ⟨front ++ x, stop, errors⟩ = (a?, ⟨front' ++ x, stop, errors'⟩) ∧
    p ⟨front ++ y, stop, errors⟩ = (a?, ⟨front' ++ y, stop, errors'⟩)) ∨
  (p ⟨front ++ x, stop, errors⟩).2.rest <:+ x

/-- What `p` does depends on the tokens up to the one where it stops, and not on those behind. -/
class Local (p : Parser α) : Prop where
  alike : ∀ (t : Token) (front x y : List Token) (stop : Token) (errors : List SyntaxError),
    Alike p (t :: front) x y stop errors

namespace Local

instance pure (a : α) : Local (Pure.pure a) :=
  ⟨fun t front _ _ _ errors => .inl ⟨some a, t :: front, errors, by simp, rfl, rfl⟩⟩

instance fail : Local (Parser.fail : Parser α) :=
  ⟨fun t front _ _ _ errors => .inl ⟨none, t :: front, errors, by simp, rfl, rfl⟩⟩

instance current : Local Parser.current :=
  ⟨fun t front _ _ _ errors => .inl ⟨some t, t :: front, errors, by simp, rfl, rfl⟩⟩

instance report (f : SyntaxFault) : Local (Parser.report f) :=
  ⟨fun t front _ _ _ errors => .inl ⟨some (), t :: front, errors ++ [⟨f, t.span, t.line, t.col⟩],
    by simp, rfl, rfl⟩⟩

instance advance : Local Parser.advance := by
  refine ⟨fun t front x y stop errors => ?_⟩
  cases front with
  | nil => exact .inr List.suffix_rfl
  | cons u front => exact .inl ⟨some t, u :: front, errors, by simp, rfl, rfl⟩

instance bind (p : Parser α) (f : α → Parser β) [hp : Local p] [ff : ∀ a, Forward (f a)]
    [hf : ∀ a, Local (f a)] : Local (p >>= f) := by
  refine ⟨fun t front x y stop errors => ?_⟩
  obtain ⟨_ | a, front', errors', hne, hx, hy⟩ | hx := hp.alike t front x y stop errors
  · exact .inl ⟨none, front', errors', hne, bind_none hx, bind_none hy⟩
  · obtain ⟨u, front', rfl⟩ := List.exists_cons_of_ne_nil hne
    rw [Alike, bind_some hx, bind_some hy]
    exact (hf a).alike u front' x y stop errors'
  · right
    rw [bind_run]
    split
    · next a s₁ hrun =>
      rw [hrun] at hx
      exact ((ff a).rest s₁).trans hx
    · next s₁ hrun =>
      rw [hrun] at hx
      exact hx

/-- A look at the next token leaves all of them. -/
theorem current_bind {f : Token → Parser α} (hf : ∀ t, Local (f t)) :
    Local (Parser.current >>= f) :=
  ⟨fun t => (hf t).alike t⟩

instance ite {c : Prop} [Decidable c] (p q : Parser α) [Local p] [Local q] :
    Local (if c then p else q) := by
  split <;> infer_instance

instance failWith (f : SyntaxFault) : Local (Parser.failWith f : Parser α) := by
  unfold Parser.failWith
  infer_instance

instance eat (k : Kind) : Local (Parser.eat k) := by
  unfold Parser.eat
  infer_instance

instance expect (k : Kind) : Local (Parser.expect k) := by
  unfold Parser.expect
  infer_instance

instance commaList (item : Parser α) [Forward item] [Local item] (n : Nat) :
    Local (Parser.commaList item n) := by
  induction n with
  | zero => exact fail
  | succ n ih =>
    unfold Parser.commaList
    infer_instance

/-- A failure at a token stays a failure there, whatever stands behind the token. -/
theorem fails {p : Parser α} [hp : Local p] {w x : List Token} {t stop : Token}
    {errors errors' : List SyntaxError}
    (h : p ⟨w ++ t :: x, stop, errors⟩ = (none, ⟨t :: x, stop, errors'⟩)) (y : List Token) :
    p ⟨w ++ t :: y, stop, errors⟩ = (none, ⟨t :: y, stop, errors'⟩) := by
  have hassoc (z : List Token) : w ++ t :: z = (w ++ [t]) ++ z := by simp
  obtain ⟨u, front, hfront⟩ := List.exists_cons_of_ne_nil (l := w ++ [t]) (by simp)
  have halike := hp.alike u front x y stop errors
  rw [Alike, ← hfront, ← hassoc, ← hassoc, h] at halike
  obtain ⟨a?, front', errors'', -, hx, hy⟩ | hx := halike
  · simp only [Prod.mk.injEq, ParseState.mk.injEq, true_and] at hx
    obtain ⟨rfl, hx, rfl⟩ := hx
    obtain rfl : [t] = front' := List.append_cancel_right (show [t] ++ x = front' ++ x from hx)
    exact hy
  · have := hx.length_le
    rw [List.length_cons] at this
    omega

end Local

-- The rules of conditionals and calls are long sequences.
set_option synthInstance.maxSize 1000

theorem exprAt_local (d : Nat) :
    (∀ min, Local (exprAt d min)) ∧ Local (operand d) ∧ ∀ min left, Local (climb d min left) := by
  induction d with
  | zero => exact ⟨fun _ => .fail, .fail, fun _ _ => .fail⟩
  | succ d ih =>
    obtain ⟨ihExpr, ihOperand, ihClimb⟩ := ih
    refine ⟨fun min => ?_, ?_, fun min left => ?_⟩
    · unfold exprAt
      infer_instance
    · unfold operand
      refine .current_bind fun t => ?_
      split
      · unfold number
        cases Number.ofText? t.lexeme <;> infer_instance
      split
      · infer_instance
      split
      · infer_instance
      split
      · infer_instance
      split
      · infer_instance
      · infer_instance
    · unfold climb
      refine .current_bind fun t => ?_
      split
      · infer_instance
      refine @Local.ite _ _ _ _ _ inferInstance ?_
      split <;> infer_instance

/-- The token at which `expression` gives up goes on with no expression that starts with the tokens
before it. -/
theorem expression_fails {w after : List Token} {errors : List SyntaxError} (hs : s.Closed)
    (hw : s.rest = w ++ after) (h : expression s = (none, ⟨after, s.stop, errors⟩))
    (more : List Token) (e : Expr) :
    ¬ Derives .assign (w ++ (⟨after, s.stop, errors⟩ : ParseState).current :: more) e := by
  intro hderives
  obtain ⟨rest, stop, errors₀⟩ := s
  obtain rfl : rest = w ++ after := hw
  cases after with
  | nil => exact hderives.not_end stop (by simp [ParseState.current]) hs
  | cons t x =>
    have hs : stop.kind = .endOfFile := hs
    have hphrase := hderives.phrase []
    rw [List.append_nil] at hphrase
    have hreads := (hphrase.runs rfl hs errors₀).1
    -- At a depth that is enough for both texts, both runs come to the same token.
    have hdepth (ts : List Token) (d : Nat) (hd : (⟨ts, stop, errors₀⟩ : ParseState).budget ≤ d) :
        exprAt d .lowest ⟨ts, stop, errors₀⟩ = expression ⟨ts, stop, errors₀⟩ :=
      exprAt_depth .lowest hs hd (Nat.le_refl _)
    obtain ⟨d, hd, hd'⟩ : ∃ d, (⟨w ++ t :: x, stop, errors₀⟩ : ParseState).budget ≤ d ∧
        (⟨w ++ t :: more, stop, errors₀⟩ : ParseState).budget ≤ d :=
      ⟨_, Nat.le_add_right _ _, Nat.le_add_left _ _⟩
    have hfails := ((exprAt_local d).1 .lowest).fails ((hdepth _ d hd).trans h) more
    cases hfails.symm.trans ((hdepth _ d hd').trans hreads)

end Parser

/-! ## Texts -/

/-- The states that come up while a text is parsed: parsers run one after the other, from its start
on. -/
inductive ParseState.Reachable (text : String) : ParseState → Prop
  | start : Reachable text (.ofStream (.ofText text))
  | run {α : Type} {s : ParseState} (h : Reachable text s) (p : Parser α) [Parser.Forward p] :
      Reachable text (p s).2

theorem ParseState.Reachable.of {text : String} {s : ParseState} (h : s.Reachable text) :
    s.Of (.ofText text) := by
  induction h with
  | start => exact ⟨List.suffix_rfl, rfl⟩
  | @run α s h p hp ih => exact Parser.Steady.forward (hp.stop s) (hp.rest s) ih

theorem ParseState.Reachable.readable {text : String} {s : ParseState} (h : s.Reachable text) :
    s.Readable where
  closed := by
    rw [ParseState.Closed, h.of.stop]
    exact (Lexer.ofText text).stream_stop
  numbers t ht := (Lexer.ofText text).stream_number t (h.of.rest.subset ht)

/-- From every state that comes up while a text is parsed, an expression is read off the front of
the tokens and nothing else changes; or there is none, and one error is recorded, which is at the
token that is then next. The tokens before that token begin an expression, and no expression goes on
with it. -/
theorem Parser.expression_reads_or_breaks {text : String} {s : ParseState}
    (hs : s.Reachable text) :
    (∃ e w s', s.rest = w ++ s'.rest ∧ expression s = (some e, s') ∧
      arena s = (some (.ofExpr e), s') ∧ s' = { s with rest := s'.rest } ∧
      Derives .assign w e) ∨
    ∃ x w s', s.rest = w ++ s'.rest ∧ expression s = (none, s') ∧ arena s = (none, s') ∧
      s' = { s with rest := s'.rest, errors := s.errors ++ [x] } ∧ x.At s'.current ∧
      BreaksAt w s'.current := by
  have hclosed := hs.readable.closed
  obtain ⟨e, after, hrun, ⟨w, hw⟩, hphrase, -⟩ | ⟨fault, after, hrun, ⟨w, hw⟩⟩ :=
    expression_decides hclosed
  · rw [← hw] at hphrase
    refine .inl ⟨e, w, _, hw.symm, hrun, ?_, rfl, derives_iff.2 hphrase⟩
    rw [arena_run, hrun]
    rfl
  · refine .inr ⟨_, w, _, hw.symm, hrun, ?_, rfl, ⟨rfl, rfl, rfl⟩, ?_, ?_⟩
    · rw [arena_run, hrun]
      rfl
    · obtain ⟨w', more, hw', hmore, e, he⟩ := (exprAt_begins s.budget).1 .lowest s hs.readable
        (Nat.le_refl _) _ hrun
      obtain rfl : w = w' := List.append_cancel_right (hw.trans hw')
      exact ⟨more, e, hmore, he .assign (Nat.le_refl _)⟩
    · exact expression_fails (s := s) hclosed hw.symm hrun

/-- In `f(a - , b)` the comma stands where the right operand of the difference is missing. -/
theorem Parser.expression_reads_or_breaks_operand :
    let s := ParseState.ofStream (.ofText "f(a - , b)")
    s.Reachable "f(a - , b)" ∧
    (expression s).2.rest.map Token.kind = [.symbol .comma, .name, .symbol .rightParen] ∧
    ∃ x w s', s.rest = w ++ s'.rest ∧ expression s = (none, s') ∧ arena s = (none, s') ∧
      s' = { s with rest := s'.rest, errors := s.errors ++ [x] } ∧ x.At s'.current ∧
      BreaksAt w s'.current := by
  intro s
  refine ⟨.start, by cbv, (expression_reads_or_breaks .start).resolve_left ?_⟩
  rintro ⟨e, w, s', -, hrun, -⟩
  have hnone : (expression s).1 = none := by cbv
  cases (congrArg Prod.fst hrun).symm.trans hnone

end Xbase
