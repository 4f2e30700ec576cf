import Xbase.Proofs.Parser.Progress
import Xbase.Repl

/-!
# Parsers in front of an early end

A text may stop before the program in it is complete. What a parser then records depends on where
the text stops, and an interactive session decides by it whether to ask for another line.

* `Repl.Tolerates`: the errors with which a session does not reject a program.
* `Early`: these, and the two errors with which it rejects a program that only stops too early.
* `Parser.AtStop p`: where no token is left, `p` records nothing but such errors.
* `Parser.Viable more e p p' s`: whatever `p'` reads without an error in a text that goes on with
  `more`, `p` reads the same in the text that does not go on, or it comes to the end of its tokens
  and records such errors there.

Both are closed under sequencing, so a proof about a parser follows its text. Where no token is left
only `AtStop` is needed, and in front of a token both parsers see the same.
-/

namespace Xbase

/-! ## Errors at an early end -/

namespace Repl

/-- A session does not reject a program with these errors: it runs it or asks for another line. -/
def Tolerates (errors : List SyntaxError) : Prop :=
  errors = [] ∨ isIncomplete errors = true

instance (errors : List SyntaxError) : Decidable (Tolerates errors) :=
  inferInstanceAs (Decidable (_ ∨ _))

theorem isIncomplete_append (a b : List SyntaxError) :
    isIncomplete (a ++ b) = (isIncomplete a || isIncomplete b) :=
  List.any_append

namespace Tolerates

variable {a b : List SyntaxError}

theorem nil : Tolerates [] := .inl rfl

theorem append (ha : Tolerates a) (hb : Tolerates b) : Tolerates (a ++ b) := by
  obtain rfl | ha := ha
  · exact hb
  · right
    rw [isIncomplete_append, ha]
    rfl

end Tolerates

end Repl

open Repl

/-- The errors that come from an early end of the tokens `ts` but do not look like it. -/
inductive Abrupt (ts : List Token) : SyntaxError → Prop
  /-- A name is missing at the end. -/
  | name {x : SyntaxError} (h : x.fault = .nonIdentifier .endOfFile) : Abrupt ts x
  /-- The last token is a `DO` without its `CASE` or `WHILE`, which is then taken for the start of
  an expression. -/
  | loneDo {t : Token} (hk : t.kind = .keyword .DO) (hlast : [t] <:+ ts) :
    Abrupt ts ⟨.nonExpression t.kind, t.span, t.line, t.col⟩

/-- What is recorded where the tokens `ts` stop too early. -/
def Early (ts : List Token) (errors : List SyntaxError) : Prop :=
  Tolerates errors ∨ ∃ x, errors = [x] ∧ Abrupt ts x

namespace Early

variable {ts ts' : List Token} {a b : List SyntaxError}

theorem mono (hsuf : ts <:+ ts') (h : Early ts a) : Early ts' a := by
  obtain h | ⟨x, rfl, hx⟩ := h
  · exact .inl h
  · refine .inr ⟨x, rfl, ?_⟩
    cases hx with
    | name h => exact .name h
    | loneDo hk hlast => exact .loneDo hk (hlast.trans hsuf)

theorem prepend (ha : Tolerates a) (hb : Early ts b) : Early ts (a ++ b) := by
  obtain rfl | ha := ha
  · exact hb
  · left
    right
    rw [isIncomplete_append, ha]
    rfl

end Early

/-! ## Parsers where no token is left -/

namespace Parser

variable {α β : Type} {p : Parser α} {f : α → Parser β} {s : ParseState} {e : Bool}

/-- From `s`, `p` comes to the end of the tokens. It fails in the last line, or it succeeds and has
read all tokens; if `e` allows it, a session may reject what is recorded also in the second case. -/
inductive Ends (e : Bool) (p : Parser α) (s : ParseState) : Prop
  | failed {after : List Token} (new : List SyntaxError)
    (run : p s = (none, ⟨after, s.stop, s.errors ++ new⟩)) (line : ∀ t ∈ after, t.kind ≠ .newline)
    (early : Early s.rest new)
  | passed {a : α} (new : List SyntaxError) (run : p s = (some a, ⟨[], s.stop, s.errors ++ new⟩))
    (early : Early s.rest new) (tolerated : e = false → Tolerates new)

/-- From `s`, where no token is left, `p` records an error that more lines may mend. -/
def Misses (p : Parser α) (s : ParseState) : Prop :=
  ∃ a? new, p s = (a?, ⟨[], s.stop, s.errors ++ new⟩) ∧ isIncomplete new = true

theorem Misses.of_record {a? : Option α} {fault : SyntaxFault} (hr : s.rest = [])
    (run : p s = (a?, s.record fault)) (h : isEarlyEnd fault = true) : Misses p s := by
  refine ⟨a?, [⟨fault, s.current.span, s.current.line, s.current.col⟩], ?_, ?_⟩
  · rw [run, ParseState.record, hr]
  · simpa [isIncomplete] using h

/-- What comes later does not mend a missing token. -/
theorem Misses.bind [ff : ∀ a, Forward (f a)] (h : Misses p s) : Misses (p >>= f) s := by
  obtain ⟨_ | a, new, hrun, hnew⟩ := h
  · exact ⟨none, new, bind_none hrun, hnew⟩
  · have hstop := (ff a).stop ⟨[], s.stop, s.errors ++ new⟩
    have hrest := (ff a).rest ⟨[], s.stop, s.errors ++ new⟩
    obtain ⟨more, herrors⟩ := (ff a).errors ⟨[], s.stop, s.errors ++ new⟩
    rcases hf : f a ⟨[], s.stop, s.errors ++ new⟩ with ⟨b?, rest, stop, errors⟩
    rw [hf] at hstop hrest herrors
    dsimp only at hstop hrest herrors
    refine ⟨b?, new ++ more, ?_, ?_⟩
    · rw [bind_some hrun, hf, hstop, ← herrors, List.suffix_nil.1 hrest, List.append_assoc]
    · rw [isIncomplete_append, hnew]
      rfl

namespace Ends

variable {new : List SyntaxError}

theorem of_failed (run : p s = (none, ⟨[], s.stop, s.errors ++ new⟩)) (h : Early s.rest new) :
    Ends e p s :=
  .failed new run (fun _ ht => absurd ht List.not_mem_nil) h

theorem of_tolerated {a : α} (run : p s = (some a, ⟨[], s.stop, s.errors ++ new⟩))
    (h : Tolerates new) : Ends e p s :=
  .passed new run (.inl h) fun _ => h

/-- A parser that leaves the state as it is. -/
theorem of_same {a : α} (hr : s.rest = []) (run : p s = (some a, s)) : Ends e p s := by
  have hrun : p s = (some a, ⟨[], s.stop, s.errors ++ []⟩) := by
    rw [run, List.append_nil, ← hr]
  exact of_tolerated hrun .nil

/-- Where an error that more lines may mend is recorded, a parser ends well either way. -/
theorem of_incomplete {a? : Option α} (run : p s = (a?, ⟨[], s.stop, s.errors ++ new⟩))
    (h : isIncomplete new = true) : Ends e p s := by
  cases a? with
  | none => exact of_failed run (.inl (.inr h))
  | some a => exact of_tolerated run (.inr h)

theorem of_misses (h : Misses p s) : Ends e p s := by
  obtain ⟨a?, new, run, hnew⟩ := h
  exact of_incomplete run hnew

/-- A parser that is not rejected ends as one that may be. -/
theorem weaken (h : Ends false p s) : Ends e p s := by
  cases h with
  | failed new run line early => exact .failed new run line early
  | passed new run early tolerated => exact .passed new run early fun _ => tolerated rfl

/-- What comes before does not change the end. -/
theorem step {q : Parser α} {ts : List Token} (hsuf : ts <:+ s.rest)
    (h : p s = q { s with rest := ts }) (hq : Ends e q { s with rest := ts }) : Ends e p s := by
  cases hq with
  | failed new run line early => exact .failed new (h.trans run) line (early.mono hsuf)
  | passed new run early tolerated => exact .passed new (h.trans run) (early.mono hsuf) tolerated

theorem bind (hs : s.Closed) (hp : Ends false p s)
    (hf : ∀ a (s₁ : ParseState), s₁.Closed → s₁.rest = [] → Ends e (f a) s₁) :
    Ends e (p >>= f) s := by
  cases hp with
  | failed new run line early => exact .failed new (bind_none run) line early
  | @passed a new run _ tolerated =>
    have hnew := tolerated rfl
    have hend := hf a ⟨[], s.stop, s.errors ++ new⟩ hs rfl
    have hempty {b : List SyntaxError} (hb : Early [] b) : Early s.rest (new ++ b) :=
      .prepend hnew (hb.mono List.nil_suffix)
    cases hend with
    | failed more run' line early =>
      refine .failed (new ++ more) ?_ line (hempty early)
      rw [bind_some run, run', ← List.append_assoc]
    | @passed b more run' early tolerated' =>
      refine .passed (a := b) (new ++ more) ?_ (hempty early) fun he =>
        hnew.append (tolerated' he)
      rw [bind_some run, run', ← List.append_assoc]

/-- A keyword that is missing at the end outweighs what was recorded before. -/
theorem bind_misses {e₁ : Bool} (hs : s.Closed) (hp : Ends e₁ p s)
    (hf : ∀ a (s₁ : ParseState), s₁.Closed → s₁.rest = [] → Misses (f a) s₁) :
    Ends e (p >>= f) s := by
  cases hp with
  | failed new run line early => exact .failed new (bind_none run) line early
  | @passed a new run =>
    obtain ⟨b?, more, run', hmore⟩ := hf a ⟨[], s.stop, s.errors ++ new⟩ hs rfl
    have hrun : (p >>= f) s = (b?, ⟨[], s.stop, s.errors ++ (new ++ more)⟩) := by
      rw [bind_some run, run', ← List.append_assoc]
    refine of_incomplete hrun ?_
    rw [isIncomplete_append, hmore, Bool.or_true]

/-- A parser that leaves the end as it is. -/
theorem bind_same (hs : s.Closed) (hp : Ends e p s)
    (hf : ∀ a (s₁ : ParseState), s₁.Closed → s₁.rest = [] → ∃ b, f a s₁ = (some b, s₁)) :
    Ends e (p >>= f) s := by
  cases hp with
  | failed new run line early => exact .failed new (bind_none run) line early
  | @passed a new run early tolerated =>
    obtain ⟨b, run'⟩ := hf a ⟨[], s.stop, s.errors ++ new⟩ hs rfl
    exact .passed new ((bind_some run).trans run') early tolerated

end Ends

/-- Where no token is left, a session does not reject what `p` records, unless `p` fails. -/
class AtStop (p : Parser α) : Prop where
  ends : ∀ s : ParseState, s.Closed → s.rest = [] → Ends false p s

namespace AtStop

instance pure (a : α) : AtStop (Pure.pure a) := ⟨fun _ _ hr => .of_same hr rfl⟩

instance fail : AtStop (Parser.fail : Parser α) := by
  refine ⟨fun s _ hr => ?_⟩
  have hrun : (Parser.fail : Parser α) s = (none, ⟨[], s.stop, s.errors ++ []⟩) := by
    rw [List.append_nil, ← hr]
    rfl
  exact .of_failed hrun (.inl .nil)

instance bind (p : Parser α) (f : α → Parser β) [hp : AtStop p] [hf : ∀ a, AtStop (f a)] :
    AtStop (p >>= f) :=
  ⟨fun s hs hr => (hp.ends s hs hr).bind hs fun a s₁ hs₁ hr₁ => (hf a).ends s₁ hs₁ hr₁⟩

instance ite {c : Prop} [Decidable c] (p q : Parser α) [AtStop p] [AtStop q] :
    AtStop (if c then p else q) := by
  split <;> infer_instance

/-- A parser that is chosen by the state. -/
theorem of_state {f : ParseState → Parser α} (h : ∀ s, AtStop (f s)) : AtStop fun s => f s s := by
  refine ⟨fun s hs hr => ?_⟩
  exact ((h s).ends s hs hr).step List.suffix_rfl rfl

instance current : AtStop Parser.current := ⟨fun _ _ hr => .of_same hr rfl⟩

instance advance : AtStop Parser.advance := by
  refine ⟨fun s _ hr => .of_same (a := s.current) hr ?_⟩
  rw [advance_run, hr, List.tail_nil, ← hr]

instance skipNewlines : AtStop Parser.skipNewlines := by
  refine ⟨fun s _ hr => .of_same (a := ()) hr ?_⟩
  rw [Parser.skipNewlines, hr, List.dropWhile_nil, ← hr]

instance eat (k : Kind) : AtStop (Parser.eat k) := by
  unfold Parser.eat
  infer_instance

instance expect (k : Kind) : AtStop (Parser.expect k) := by
  refine ⟨fun s hs hr => ?_⟩
  have hkind := current_kind_end hs hr
  by_cases hk : s.current.kind = k
  · have hrun : Parser.expect k s = Parser.advance s := by rw [expect_run, if_pos hk]; rfl
    exact (advance.ends s hs hr).step List.suffix_rfl hrun
  · exact .of_misses (.of_record hr ((expect_run k s).trans (if_neg hk)) (by rw [hkind]; rfl))

instance demand (k : Kind) : AtStop (Parser.demand k) := by
  refine ⟨fun s hs hr => ?_⟩
  have hkind := current_kind_end hs hr
  by_cases hk : s.current.kind = k
  · refine .of_same (a := ()) hr ?_
    rw [demand_run, if_pos hk, hr, List.tail_nil, ← hr]
  · exact .of_misses (.of_record hr ((demand_run k s).trans (if_neg hk)) (by rw [hkind]; rfl))

/-- A missing name looks like a mistake, not like an early end. -/
theorem of_expectName {g : Token → Parser α} (h : p = Parser.expectName >>= g) : AtStop p := by
  refine ⟨fun s hs hr => ?_⟩
  have hkind := current_kind_end hs hr
  have hrun : Parser.expectName s = (none, ⟨[], s.stop, s.errors ++
      [⟨.nonIdentifier .endOfFile, s.current.span, s.current.line, s.current.col⟩]⟩) := by
    rw [expectName_run, if_neg (by rw [hkind]; decide), hkind, ParseState.record, hr]
  subst h
  exact .of_failed (bind_none hrun) (.inr ⟨_, rfl, .name rfl⟩)

instance expectName : AtStop Parser.expectName := by
  refine of_expectName (g := Pure.pure) (funext fun s => ?_)
  rw [bind_run]
  obtain ⟨_ | t, s'⟩ := Parser.expectName s <;> rfl

instance commaList (item : Parser α) [AtStop item] (n : Nat) :
    AtStop (Parser.commaList item n) := by
  induction n with
  | zero => exact fail
  | succ n ih =>
    unfold Parser.commaList
    infer_instance

instance commaSeparated (item : Parser α) [AtStop item] : AtStop (Parser.commaSeparated item) :=
  of_state (f := fun s => Parser.commaList item s.budget) fun _ => inferInstance

end AtStop

end Parser

/-! ## Two runs -/

/-- The state in a text that goes on with more tokens. -/
def ParseState.extend (s : ParseState) (more : TokenStream) : ParseState :=
  ⟨s.rest ++ more.tokens, more.stop, s.errors⟩

namespace Parser

variable {α β : Type} {s : ParseState} {more : TokenStream} {e : Bool}

theorem extend_rest_of_cons {t : Token} {ts : List Token} (hr : s.rest = t :: ts) :
    (s.extend more).rest = t :: (({ s with rest := ts } : ParseState).extend more).rest := by
  rw [ParseState.extend, hr]
  rfl

theorem budget_extend (s : ParseState) (more : TokenStream) :
    (s.extend more).budget = 2 * more.tokens.length + s.budget := by
  simp only [ParseState.budget, ParseState.extend, List.length_append]
  omega

/-- A parser that records no error only takes tokens off. -/
theorem Forward.silent_state {p : Parser α} [fp : Forward p] (h : (p s).2.errors = s.errors) :
    (p s).2 = { s with rest := (p s).2.rest } := by
  rw [← fp.stop s, ← h]

/-- A sequence that succeeds without an error has parts that do. -/
theorem bind_silent {p : Parser α} {f : α → Parser β} [fp : Forward p] [ff : ∀ a, Forward (f a)]
    {b : β} {rest : List Token} {stop : Token}
    (h : (p >>= f) s = (some b, ⟨rest, stop, s.errors⟩)) :
    ∃ a mid, p s = (some a, { s with rest := mid }) ∧
      f a { s with rest := mid } = (some b, ⟨rest, stop, s.errors⟩) := by
  rw [bind_run] at h
  split at h
  · next a s₁ hrun =>
    -- Errors only grow, so the first part has recorded none either.
    have hgrow := fp.errors s
    have hgrow' := (ff a).errors s₁
    rw [hrun] at hgrow
    rw [h] at hgrow'
    have herrors : (p s).2.errors = s.errors := by
      rw [hrun]
      exact (hgrow.eq_of_length (Nat.le_antisymm hgrow.length_le hgrow'.length_le)).symm
    have hs₁ := Forward.silent_state herrors
    rw [hrun] at hs₁
    dsimp only at hs₁
    rw [hs₁] at hrun h
    exact ⟨a, s₁.rest, hrun, h⟩
  · cases h

/-- What `p'` reads without an error in the longer text, `p` reads in the shorter one, or else it
comes to the end of its tokens. -/
def Viable (more : TokenStream) (e : Bool) (p p' : Parser α) (s : ParseState) : Prop :=
  ∀ a rest, p' (s.extend more) = (some a, { s.extend more with rest := rest }) →
    (∃ after, after <:+ s.rest ∧ p s = (some a, { s with rest := after }) ∧
      rest = after ++ more.tokens) ∨ Ends e p s

namespace Viable

variable {p p' : Parser α} {f f' : α → Parser β}

theorem of_stop [h : AtStop p] (hs : s.Closed) (hr : s.rest = []) : Viable more e p p' s :=
  fun _ _ _ => .inr (h.ends s hs hr).weaken

theorem pure (a : α) : Viable more e (Pure.pure a) (Pure.pure a) s := by
  intro b rest h
  cases h
  exact .inl ⟨s.rest, List.suffix_rfl, rfl, rfl⟩

/-- Both runs go on in the same way. -/
theorem step {q q' : Parser α} {ts : List Token} (hsuf : ts <:+ s.rest)
    (h : p s = q { s with rest := ts })
    (h' : p' (s.extend more) = q' (({ s with rest := ts } : ParseState).extend more))
    (hq : Viable more e q q' { s with rest := ts }) : Viable more e p p' s := by
  intro a rest hrun
  rw [h'] at hrun
  obtain ⟨after, hafter, hread, hrest⟩ | hend := hq a rest hrun
  · exact .inl ⟨after, hafter.trans hsuf, h.trans hread, hrest⟩
  · exact .inr (hend.step hsuf h)

/-- Two parts in sequence, if the end that the first one comes to is an end of both. -/
theorem seq [Forward p'] [∀ a, Forward (f' a)] {e₁ : Bool} (hp : Viable more e₁ p p' s)
    (hend : Ends e₁ p s → Ends e (p >>= f) s)
    (hf : ∀ a after, after <:+ s.rest → p s = (some a, { s with rest := after }) →
      Viable more e (f a) (f' a) { s with rest := after }) :
    Viable more e (p >>= f) (p' >>= f') s := by
  intro b rest h
  obtain ⟨a, mid, hp', hf'⟩ := bind_silent h
  obtain ⟨after, hsuf, hrun, rfl⟩ | hends := hp a mid hp'
  · obtain ⟨after₂, hsuf₂, hrun₂, hrest⟩ | hends := hf a after hsuf hrun b rest hf'
    · exact .inl ⟨after₂, hsuf₂.trans hsuf, (bind_some hrun).trans hrun₂, hrest⟩
    · exact .inr (hends.step hsuf (bind_some hrun))
  · exact .inr (hend hends)

theorem bind [Forward p'] [∀ a, Forward (f' a)] [hstop : ∀ a, AtStop (f a)] (hs : s.Closed)
    (hp : Viable more false p p' s)
    (hf : ∀ a after, after <:+ s.rest → Viable more e (f a) (f' a) { s with rest := after }) :
    Viable more e (p >>= f) (p' >>= f') s :=
  hp.seq (fun h => h.bind hs fun a s₁ hs₁ hr₁ => ((hstop a).ends s₁ hs₁ hr₁).weaken)
    fun a after hsuf _ => hf a after hsuf

theorem ite {c : Prop} [Decidable c] {q q' : Parser α} (hp : c → Viable more e p p' s)
    (hq : ¬ c → Viable more e q q' s) :
    Viable more e (if c then p else q) (if c then p' else q') s := by
  by_cases h : c
  · rw [if_pos h, if_pos h]
    exact hp h
  · rw [if_neg h, if_neg h]
    exact hq h

theorem advance {f f' : Token → Parser α} [AtStop (Parser.advance >>= f)] (hs : s.Closed)
    (h : ∀ t ts, s.rest = t :: ts → Viable more e (f t) (f' t) { s with rest := ts }) :
    Viable more e (Parser.advance >>= f) (Parser.advance >>= f') s := by
  cases hr : s.rest with
  | nil => exact .of_stop hs hr
  | cons t ts =>
    exact .step (suffix_of_cons hr) (bind_some (advance_of_cons hr))
      (bind_some (advance_of_cons (extend_rest_of_cons hr))) (h t ts hr)

/-- Both parsers look at the same token. -/
theorem current {f f' : Token → Parser α} [AtStop (Parser.current >>= f)] (hs : s.Closed)
    (h : ∀ t ts, s.rest = t :: ts → Viable more e (f t) (f' t) s) :
    Viable more e (Parser.current >>= f) (Parser.current >>= f') s := by
  cases hr : s.rest with
  | nil => exact .of_stop hs hr
  | cons t ts =>
    refine .step List.suffix_rfl (bind_some ?_) (bind_some ?_) (h t ts hr)
    · rw [current_run, current_cons hr]
    · rw [current_run, current_cons (extend_rest_of_cons hr)]

/-- For an optional token, both ways to go on have to be viable. -/
theorem eat {k : Kind} {f f' : Bool → Parser α} [AtStop (Parser.eat k >>= f)] (hs : s.Closed)
    (hyes : ∀ t ts, s.rest = t :: ts → t.kind = k →
      Viable more e (f true) (f' true) { s with rest := ts })
    (hno : ∀ t ts, s.rest = t :: ts → t.kind ≠ k → Viable more e (f false) (f' false) s) :
    Viable more e (Parser.eat k >>= f) (Parser.eat k >>= f') s := by
  cases hr : s.rest with
  | nil => exact .of_stop hs hr
  | cons t ts =>
    have hr' : (s.extend more).rest = t :: _ := extend_rest_of_cons hr
    by_cases hk : t.kind = k
    · exact .step (suffix_of_cons hr) (bind_some (eat_true hr hk)) (bind_some (eat_true hr' hk))
        (hyes t ts hr hk)
    · exact .step List.suffix_rfl (bind_some (eat_other hr rfl hk))
        (bind_some (eat_other hr' rfl hk)) (hno t ts hr hk)

/-- A parser for one token of the given kind. For any other token an error is recorded, and so the
longer text is not read without one. -/
theorem require {q : Parser β} {k : Kind} {g : Token → β} {f f' : β → Parser α} [Forward q]
    [AtStop (q >>= f)] [∀ b, Forward (f' b)] (hs : s.Closed)
    (hyes : ∀ {s : ParseState} {t : Token} {ts : List Token}, s.rest = t :: ts → t.kind = k →
      q s = (some (g t), { s with rest := ts }))
    (hno : ∀ {s : ParseState}, s.current.kind ≠ k → ∃ b? fault, q s = (b?, s.record fault))
    (h : ∀ t ts, s.rest = t :: ts → t.kind = k →
      Viable more e (f (g t)) (f' (g t)) { s with rest := ts }) :
    Viable more e (q >>= f) (q >>= f') s := by
  cases hr : s.rest with
  | nil => exact .of_stop hs hr
  | cons t ts =>
    have hr' : (s.extend more).rest = t :: _ := extend_rest_of_cons hr
    by_cases hk : t.kind = k
    · exact .step (suffix_of_cons hr) (bind_some (hyes hr hk)) (bind_some (hyes hr' hk))
        (h t ts hr hk)
    · intro a rest hrun
      obtain ⟨b, mid, hq, -⟩ := bind_silent hrun
      obtain ⟨b?, fault, hfault⟩ := hno (s := s.extend more) (by rwa [current_cons hr'])
      have herrors := congrArg (·.2.errors) (hfault.symm.trans hq)
      simp [ParseState.record] at herrors

/-- A token that is needed is the same in both texts, or the shorter one ends. -/
theorem expect {k : Kind} {f f' : Token → Parser α} [∀ t, AtStop (f t)] [∀ t, Forward (f' t)]
    (hs : s.Closed) (h : ∀ t ts, s.rest = t :: ts → t.kind = k →
      Viable more e (f t) (f' t) { s with rest := ts }) :
    Viable more e (Parser.expect k >>= f) (Parser.expect k >>= f') s :=
  require (g := id) hs expect_of_cons
    (fun hk => ⟨none, _, (expect_run k _).trans (if_neg hk)⟩) h

theorem expectName {f f' : Token → Parser α} [∀ t, AtStop (f t)] [∀ t, Forward (f' t)]
    (hs : s.Closed) (h : ∀ t ts, s.rest = t :: ts → t.kind = .name →
      Viable more e (f t) (f' t) { s with rest := ts }) :
    Viable more e (Parser.expectName >>= f) (Parser.expectName >>= f') s :=
  require (g := id) hs expectName_of_cons
    (fun hk => ⟨none, _, (expectName_run _).trans (if_neg hk)⟩) h

theorem demand {k : Kind} {f f' : Unit → Parser α} [∀ u, AtStop (f u)] [∀ u, Forward (f' u)]
    (hs : s.Closed) (h : ∀ t ts, s.rest = t :: ts → t.kind = k →
      Viable more e (f ()) (f' ()) { s with rest := ts }) :
    Viable more e (Parser.demand k >>= f) (Parser.demand k >>= f') s :=
  require (g := fun _ => ()) hs demand_of_cons
    (fun hk => ⟨some (), _, (demand_run k _).trans (if_neg hk)⟩) h

/-- A recorded error is not a silent success. -/
theorem of_record {b? : Option α} {fault : SyntaxFault} {s₁ : ParseState}
    (h : p' (s.extend more) = (b?, s₁.record fault)) (he : s₁.errors = s.errors) :
    Viable more e p p' s := by
  intro a rest hrun
  have herrors := congrArg (·.2.errors) (h.symm.trans hrun)
  simp [ParseState.record, ParseState.extend, he] at herrors

/-- Line breaks may be the last tokens. -/
theorem skipNewlines {f f' : Unit → Parser α} [hstop : AtStop (f ())] (hs : s.Closed)
    (h : ∀ ts, ts <:+ s.rest → Viable more e (f ()) (f' ()) { s with rest := ts }) :
    Viable more e (Parser.skipNewlines >>= f) (Parser.skipNewlines >>= f') s := by
  have hsuf : s.rest.dropWhile (·.kind = .newline) <:+ s.rest := List.dropWhile_suffix _
  by_cases hall : s.rest.dropWhile (·.kind = .newline) = []
  · have hend := hstop.ends { s with rest := s.rest.dropWhile (·.kind = .newline) } hs hall
    exact fun _ _ _ => .inr (hend.weaken.step hsuf rfl)
  · refine .step hsuf rfl ?_ (h _ hsuf)
    show f' () ⟨(s.rest ++ more.tokens).dropWhile _, _, _⟩ = _
    rw [List.dropWhile_append, if_neg (by simpa using hall)]
    rfl

/-- Items that are viable one by one are viable with commas between them. -/
theorem commaList {item item' : Parser α} [AtStop item] [Forward item'] {n : Nat} (k : Nat)
    (hitem : ∀ s : ParseState, s.Closed → s.rest.length ≤ n → Viable more false item item' s) :
    ∀ (count : Nat) (s : ParseState), s.Closed → s.rest.length ≤ n → s.rest.length < count →
      Viable more false (Parser.commaList item count) (Parser.commaList item' (k + count)) s := by
  intro count
  induction count with
  | zero => exact fun s _ _ h => absurd h (Nat.not_lt_zero _)
  | succ count ih =>
    intro s hs hn hcount
    refine (hitem s hs hn).bind hs fun first after hsuf => ?_
    have hle := hsuf.length_le
    refine eat hs (fun t ts hr _ => ?_) fun _ _ _ _ => .pure _
    obtain rfl : after = t :: ts := hr
    rw [List.length_cons] at hle
    exact (ih { s with rest := ts } hs (by simp only; omega) (by simp only; omega)).bind hs
      fun _ _ _ => .pure _

/-- Lists with commas are viable if their members are. -/
theorem commaSeparated {item item' : Parser α} [AtStop item] [Forward item'] (hs : s.Closed)
    (hitem : ∀ s : ParseState, s.Closed → Viable more false item item' s) :
    Viable more false (Parser.commaSeparated item) (Parser.commaSeparated item') s := by
  have hlist := commaList (n := s.rest.length) (2 * more.tokens.length) (fun s hs _ => hitem s hs)
    s.budget s hs (Nat.le_refl _) (by rw [ParseState.budget]; omega)
  refine .step (q := Parser.commaList item s.budget) List.suffix_rfl rfl ?_ hlist
  rw [Parser.commaSeparated, budget_extend]

end Viable

end Parser

end Xbase
