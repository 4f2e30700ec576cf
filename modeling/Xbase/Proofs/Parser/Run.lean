import Xbase.Parser.Basic

/-!
# Running parsers

What the basic parsers do to a state, and three ways to speak about a parser `p`.

* `Parser.Forward p`: whatever the state, `p` only takes tokens off the front and only adds errors.
* `Parser.Silent p s Q`: unless `p` records an error at `s`, it succeeds with a result and a rest of
  the tokens for which `Q` holds.
* `Parser.Decides p s Q`: `p` either succeeds without an error and with `Q`, or it fails with one
  error at the token that it stops at.

Each of them is closed under sequencing, so a proof about a parser follows its text.
-/

namespace Xbase

/-- The kind of the first of some tokens; behind the last one stands the end of the source. -/
def headKind (ts : List Token) : Kind :=
  (ts.head?.map Token.kind).getD .endOfFile

@[simp] theorem headKind_cons (t : Token) (ts : List Token) : headKind (t :: ts) = t.kind := rfl

/-- A first token of a kind other than the end of the source is really there. -/
theorem exists_cons_of_headKind {ts : List Token} {k : Kind} (h : headKind ts = k)
    (hk : k ≠ .endOfFile) : ∃ t rest, ts = t :: rest ∧ t.kind = k := by
  cases ts with
  | nil => exact absurd h.symm hk
  | cons t rest => exact ⟨t, rest, rfl, h⟩

/-- Tokens without an end of the source among them start with it only if there are none. -/
theorem eq_nil_of_headKind {ts : List Token} (hts : ∀ t ∈ ts, t.kind ≠ .endOfFile)
    (h : headKind ts = .endOfFile) : ts = [] := by
  cases ts with
  | nil => rfl
  | cons t ts => exact absurd h (hts t (List.mem_cons_self ..))

namespace ParseState

/-- The token behind all others is marked as the end of the source. -/
def Closed (s : ParseState) : Prop := s.stop.kind = .endOfFile

/-- The state with a fault recorded at its next token. -/
def record (s : ParseState) (fault : SyntaxFault) : ParseState :=
  { s with errors := s.errors ++ [⟨fault, s.current.span, s.current.line, s.current.col⟩] }

/-- The current token is the first one that is left, or the end of the file. -/
theorem current_kind {s : ParseState} (hs : s.Closed) : s.current.kind = headKind s.rest := by
  obtain ⟨rest, stop, errors⟩ := s
  cases rest with
  | nil => exact hs
  | cons t ts => rfl

theorem current_kind_of {s : ParseState} (hs : s.Closed) (ts : List Token) :
    ({ s with rest := ts } : ParseState).current.kind = headKind ts :=
  current_kind (s := { s with rest := ts }) hs

/-- The following token is the second one that is left, or the end of the file. -/
theorem following_kind {s : ParseState} (hs : s.Closed) :
    s.following.kind = headKind s.rest.tail := by
  obtain ⟨rest, stop, errors⟩ := s
  cases rest with
  | nil => exact hs
  | cons t ts =>
    cases ts with
    | nil => exact hs
    | cons t' ts => rfl

/-- The budget of a state is more than the number of tokens left. -/
theorem length_lt_budget (s : ParseState) : s.rest.length < s.budget := by
  rw [budget]
  omega

end ParseState

namespace Parser

variable {α β : Type} {s s' : ParseState}

/-! ## Equations -/

@[simp] theorem pure_run (a : α) (s : ParseState) : (pure a : Parser α) s = (some a, s) := rfl

theorem bind_run (p : Parser α) (f : α → Parser β) (s : ParseState) :
    (p >>= f) s = match p s with
      | (some a, s') => f a s'
      | (none, s') => (none, s') := rfl

theorem bind_some {p : Parser α} {f : α → Parser β} {a : α} (h : p s = (some a, s')) :
    (p >>= f) s = f a s' := by
  rw [bind_run, h]

/-- A parser that fails fails with all that comes after it. -/
theorem bind_none {p : Parser α} {f : α → Parser β} (h : p s = (none, s')) :
    (p >>= f) s = (none, s') := by
  rw [bind_run, h]

@[simp] theorem current_run (s : ParseState) : current s = (some s.current, s) := rfl

@[simp] theorem following_run (s : ParseState) : following s = (some s.following, s) := rfl

theorem advance_run (s : ParseState) :
    advance s = (some s.current, { s with rest := s.rest.tail }) := rfl

theorem failWith_run (f : SyntaxFault) (s : ParseState) :
    (failWith f : Parser α) s = (none, s.record f) := rfl

/-- An attempt never fails, but keeps the state that the failure left. -/
theorem attempt_run (p : Parser α) (s : ParseState) :
    attempt p s = (some (p s).1, (p s).2) := rfl

/-- A token of the kind is eaten, any other one is left there. -/
theorem eat_run (k : Kind) (s : ParseState) :
    eat k s = if s.current.kind = k then (some true, { s with rest := s.rest.tail })
      else (some false, s) := by
  unfold eat
  rw [bind_some (current_run s)]
  split <;> rfl

theorem expect_run (k : Kind) (s : ParseState) :
    expect k s = if s.current.kind = k then (some s.current, { s with rest := s.rest.tail })
      else (none, s.record (.unexpectedToken s.current.kind k)) := by
  unfold expect
  rw [bind_some (current_run s)]
  split <;> rfl

theorem demand_run (k : Kind) (s : ParseState) :
    demand k s = if s.current.kind = k then (some (), { s with rest := s.rest.tail })
      else (some (), s.record (.unexpectedToken s.current.kind k)) := by
  unfold demand
  rw [bind_some (attempt_run _ s), expect_run]
  split <;> rfl

theorem expectName_run (s : ParseState) :
    expectName s = if s.current.kind = .name then (some s.current, { s with rest := s.rest.tail })
      else (none, s.record (.nonIdentifier s.current.kind)) := by
  unfold expectName
  rw [bind_some (current_run s)]
  split <;> rfl

/-! ## Parsers only go forward -/

/-- From every state, `p` leaves an end part of the tokens and the errors recorded before. -/
class Forward (p : Parser α) : Prop where
  stop : ∀ s, (p s).2.stop = s.stop
  rest : ∀ s, (p s).2.rest <:+ s.rest
  errors : ∀ s, s.errors <+: (p s).2.errors

namespace Forward

/-- A parser that leaves every state as it is. -/
theorem of_same {p : Parser α} (h : ∀ s, (p s).2 = s) : Forward p :=
  ⟨fun s => by rw [h], fun s => by simp [h], fun s => by simp [h]⟩

/-- A parser that leaves the errors as they are. -/
theorem of_rest {p : Parser α} (g : List Token → List Token) (hg : ∀ ts, g ts <:+ ts)
    (h : ∀ s, (p s).2 = { s with rest := g s.rest }) : Forward p :=
  ⟨fun s => by rw [h], fun s => by rw [h]; exact hg s.rest, fun s => by simp [h]⟩

/-- A parser that is chosen by the state. -/
theorem of_state {f : ParseState → Parser α} (h : ∀ s, Forward (f s)) : Forward fun s => f s s :=
  ⟨fun s => (h s).stop s, fun s => (h s).rest s, fun s => (h s).errors s⟩

instance pure (a : α) : Forward (Pure.pure a) := of_same fun _ => rfl

instance bind (p : Parser α) (f : α → Parser β) [hp : Forward p] [hf : ∀ a, Forward (f a)] :
    Forward (p >>= f) := by
  have cases_of (s : ParseState) :
      (∃ a, ((p >>= f) s) = f a (p s).2) ∨ ((p >>= f) s).2 = (p s).2 := by
    rw [bind_run]
    split
    · next a s₁ h => rw [h]; exact .inl ⟨a, rfl⟩
    · next s₁ h => rw [h]; exact .inr rfl
  constructor
  · intro s
    obtain ⟨a, h⟩ | h := cases_of s
    · rw [h, (hf a).stop, hp.stop]
    · rw [h, hp.stop]
  · intro s
    obtain ⟨a, h⟩ | h := cases_of s
    · rw [h]; exact ((hf a).rest _).trans (hp.rest s)
    · rw [h]; exact hp.rest s
  · intro s
    obtain ⟨a, h⟩ | h := cases_of s
    · rw [h]; exact (hp.errors s).trans ((hf a).errors _)
    · rw [h]; exact hp.errors s

instance fail : Forward (Parser.fail : Parser α) := of_same fun _ => rfl

instance current : Forward Parser.current := of_same fun _ => rfl

instance following : Forward Parser.following := of_same fun _ => rfl

instance advance : Forward Parser.advance :=
  of_rest List.tail (fun ts => List.tail_suffix ts) fun _ => rfl

instance skipNewlines : Forward Parser.skipNewlines :=
  of_rest _ (fun _ => List.dropWhile_suffix _) fun _ => rfl

instance skipLine : Forward Parser.skipLine :=
  of_rest _ (fun _ => List.dropWhile_suffix _) fun _ => rfl

instance report (f : SyntaxFault) : Forward (Parser.report f) :=
  ⟨fun _ => rfl, fun _ => List.suffix_rfl, fun s => List.prefix_append s.errors _⟩

instance failWith (f : SyntaxFault) : Forward (Parser.failWith f : Parser α) := by
  unfold Parser.failWith
  infer_instance

instance attempt (p : Parser α) [hp : Forward p] : Forward (Parser.attempt p) :=
  ⟨hp.stop, hp.rest, hp.errors⟩

instance ite {c : Prop} [Decidable c] (p q : Parser α) [Forward p] [Forward q] :
    Forward (if c then p else q) := by
  split <;> infer_instance

instance eat (k : Kind) : Forward (Parser.eat k) := by
  unfold Parser.eat
  infer_instance

instance expect (k : Kind) : Forward (Parser.expect k) := by
  unfold Parser.expect
  infer_instance

instance demand (k : Kind) : Forward (Parser.demand k) := by
  unfold Parser.demand
  infer_instance

instance expectName : Forward Parser.expectName := by
  unfold Parser.expectName
  infer_instance

instance commaList (item : Parser α) [Forward item] (n : Nat) :
    Forward (Parser.commaList item n) := by
  induction n with
  | zero => exact fail
  | succ n ih =>
    unfold Parser.commaList
    infer_instance

instance commaSeparated (item : Parser α) [Forward item] :
    Forward (Parser.commaSeparated item) :=
  of_state (f := fun s => Parser.commaList item s.budget) fun _ => inferInstance

end Forward

/-! ## Parsers that record no error -/

/-- If `p` records no error at `s`, it succeeds, and `Q` holds of the result and of the tokens that
are left. -/
def Silent (p : Parser α) (s : ParseState) (Q : α → List Token → Prop) : Prop :=
  (p s).2.errors = s.errors → ∃ a, (p s).1 = some a ∧ Q a (p s).2.rest

namespace Silent

variable {p : Parser α} {f : α → Parser β} {R : α → List Token → Prop}
  {Q : β → List Token → Prop}

theorem of_run {Q : α → List Token → Prop} {a : α} {after : List Token}
    (h : p s = (some a, { s with rest := after })) (hQ : Q a after) : Silent p s Q := by
  intro _
  rw [h]
  exact ⟨a, rfl, hQ⟩

/-- A parser that records an error may do what it likes. -/
theorem of_recorded {Q : α → List Token → Prop} {r : Option α} {s₁ : ParseState} {x : SyntaxError}
    (h : p s = (r, s₁)) (he : s.errors ++ [x] <+: s₁.errors) : Silent p s Q := by
  intro hs
  rw [h] at hs
  rw [show s₁.errors = s.errors from hs] at he
  have := he.length_le
  rw [List.length_append, List.length_singleton] at this
  omega

theorem bind [fp : Forward p] [ff : ∀ a, Forward (f a)] (hp : Silent p s R)
    (hf : ∀ a after, R a after → Silent (f a) { s with rest := after } Q) :
    Silent (p >>= f) s Q := by
  intro h
  -- Errors only grow, so the first part has recorded none either.
  have he₁ : (p s).2.errors <+: ((p >>= f) s).2.errors := by
    rw [bind_run]
    split
    · next a s₁ hr => rw [hr]; exact (ff a).errors s₁
    · next s₁ hr => simp [hr]
  rw [h] at he₁
  have he : (p s).2.errors = s.errors :=
    he₁.eq_of_length (Nat.le_antisymm he₁.length_le (fp.errors s).length_le)
  obtain ⟨a, ha, hR⟩ := hp he
  have hs₁ : p s = (some a, { s with rest := (p s).2.rest }) := by
    rw [← ha]
    conv => rhs; rw [← he, ← fp.stop s]
  rw [bind_some hs₁] at h ⊢
  exact hf a _ hR h

/-- A parser that fails has recorded an error. -/
theorem attempt (h : Silent p s R) :
    Silent (Parser.attempt p) s fun a? after => ∃ a, a? = some a ∧ R a after := by
  intro he
  obtain ⟨a, ha, hR⟩ := h he
  exact ⟨some a, congrArg some ha, a, rfl, hR⟩

end Silent

/-! ## Parsers that succeed or record one error -/

/-- `p` succeeds at `s` without an error, and `Q` holds of the result and of the tokens that are
left, or it fails with one error, which is at the first of the tokens that are left. -/
def Decides (p : Parser α) (s : ParseState) (Q : α → List Token → Prop) : Prop :=
  (∃ a after, p s = (some a, { s with rest := after }) ∧ after <:+ s.rest ∧ Q a after) ∨
  ∃ fault after, p s = (none, ({ s with rest := after } : ParseState).record fault) ∧
    after <:+ s.rest

namespace Decides

variable {p : Parser α} {f : α → Parser β} {R : α → List Token → Prop}
  {Q : β → List Token → Prop}

theorem of_run {Q : α → List Token → Prop} {a : α} {after : List Token}
    (h : p s = (some a, { s with rest := after })) (hs : after <:+ s.rest) (hQ : Q a after) :
    Decides p s Q :=
  .inl ⟨a, after, h, hs, hQ⟩

theorem of_record {Q : α → List Token → Prop} {fault : SyntaxFault}
    (h : p s = (none, s.record fault)) : Decides p s Q :=
  .inr ⟨fault, s.rest, h, List.suffix_rfl⟩

theorem bind (hp : Decides p s R)
    (hf : ∀ a after, after <:+ s.rest → R a after → Decides (f a) { s with rest := after } Q) :
    Decides (p >>= f) s Q := by
  obtain ⟨a, after, hr, hs, hR⟩ | ⟨fault, after, hr, hs⟩ := hp
  · obtain ⟨b, after', hr', hs', hQ⟩ | ⟨fault, after', hr', hs'⟩ := hf a after hs hR
    · exact .inl ⟨b, after', by rw [bind_some hr, hr'], hs'.trans hs, hQ⟩
    · exact .inr ⟨fault, after', by rw [bind_some hr, hr'], hs'.trans hs⟩
  · exact .inr ⟨fault, after, bind_none hr, hs⟩

theorem silent {Q : α → List Token → Prop} (h : Decides p s Q) : Silent p s Q := by
  obtain ⟨a, after, hr, -, hQ⟩ | ⟨fault, after, hr, -⟩ := h
  · exact Silent.of_run hr hQ
  · exact Silent.of_recorded hr List.prefix_rfl

theorem mono {Q' : α → List Token → Prop} (h : Decides p s R)
    (hQ : ∀ a after, after <:+ s.rest → R a after → Q' a after) : Decides p s Q' := by
  obtain ⟨a, after, hr, hs, hR⟩ | h := h
  · exact .inl ⟨a, after, hr, hs, hQ a after hs hR⟩
  · exact .inr h

end Decides

/-! ## Single tokens -/

theorem current_cons {t : Token} {ts : List Token} (hr : s.rest = t :: ts) : s.current = t := by
  rw [ParseState.current, hr]
  rfl

/-- With no tokens left, the current one is the end of the file. -/
theorem current_kind_end (hs : s.Closed) (hr : s.rest = []) : s.current.kind = .endOfFile := by
  rw [ParseState.current_kind hs, hr]
  rfl

theorem following_cons {t t' : Token} {ts : List Token} (hr : s.rest = t :: t' :: ts) :
    s.following = t' := by
  rw [ParseState.following, hr]
  rfl

/-- A next token that is not the end of the source is the first of those that are left. -/
theorem cons_of_kind (hs : s.Closed) (h : s.current.kind ≠ .endOfFile) :
    ∃ t ts, s.rest = t :: ts ∧ s.current = t := by
  rw [ParseState.current_kind hs] at h
  obtain ⟨t, ts, hr, -⟩ := exists_cons_of_headKind rfl h
  exact ⟨t, ts, hr, current_cons hr⟩

theorem suffix_of_cons {t : Token} {ts : List Token} (hr : s.rest = t :: ts) : ts <:+ s.rest :=
  ⟨[t], hr.symm⟩

theorem advance_of_cons {t : Token} {ts : List Token} (hr : s.rest = t :: ts) :
    advance s = (some t, { s with rest := ts }) := by
  rw [advance_run, current_cons hr, hr]
  rfl

theorem eat_true {k : Kind} {t : Token} {ts : List Token} (hr : s.rest = t :: ts)
    (ht : t.kind = k) : eat k s = (some true, { s with rest := ts }) := by
  rw [eat_run, current_cons hr, if_pos ht, hr]
  rfl

theorem eat_other {k k' : Kind} {t : Token} {ts : List Token} (hr : s.rest = t :: ts)
    (ht : t.kind = k') (h : k' ≠ k) : eat k s = (some false, s) := by
  rw [eat_run, current_cons hr, ht, if_neg h]

/-- Another token is not eaten, and nothing is recorded. -/
theorem eat_false {k : Kind} (hs : s.Closed) (h : headKind s.rest ≠ k) :
    eat k s = (some false, s) := by
  rw [eat_run, ParseState.current_kind hs, if_neg h]

theorem expect_of_cons {k : Kind} {t : Token} {ts : List Token} (hr : s.rest = t :: ts)
    (ht : t.kind = k) : expect k s = (some t, { s with rest := ts }) := by
  rw [expect_run, current_cons hr, if_pos ht, hr]
  rfl

theorem demand_of_cons {k : Kind} {t : Token} {ts : List Token} (hr : s.rest = t :: ts)
    (ht : t.kind = k) : demand k s = (some (), { s with rest := ts }) := by
  rw [demand_run, current_cons hr, if_pos ht, hr]
  rfl

theorem expectName_of_cons {t : Token} {ts : List Token} (hr : s.rest = t :: ts)
    (ht : t.kind = .name) : expectName s = (some t, { s with rest := ts }) := by
  rw [expectName_run, current_cons hr, if_pos ht, hr]
  rfl

namespace Decides

variable {Q : α → List Token → Prop}

theorem current {f : Token → Parser α} (h : Decides (f s.current) s Q) :
    Decides (Parser.current >>= f) s Q := h

theorem pure_bind {a : β} {f : β → Parser α} (h : Decides (f a) s Q) :
    Decides (Pure.pure a >>= f) s Q := h

theorem advance {t : Token} {ts : List Token} {f : Token → Parser α} (hr : s.rest = t :: ts)
    (h : Decides (f t) { s with rest := ts } Q) : Decides (Parser.advance >>= f) s Q := by
  have hstep : Decides Parser.advance s fun u after => u = t ∧ after = ts :=
    .of_run (advance_of_cons hr) (suffix_of_cons hr) ⟨rfl, rfl⟩
  refine hstep.bind fun u after _ hu => ?_
  obtain ⟨rfl, rfl⟩ := hu
  exact h

theorem eat {k : Kind} {f : Bool → Parser α} (hs : s.Closed) (hk : k ≠ .endOfFile)
    (hyes : ∀ t ts, s.rest = t :: ts → t.kind = k → Decides (f true) { s with rest := ts } Q)
    (hno : headKind s.rest ≠ k → Decides (f false) s Q) : Decides (Parser.eat k >>= f) s Q := by
  by_cases h : headKind s.rest = k
  · obtain ⟨t, ts, hr, ht⟩ := exists_cons_of_headKind h hk
    have hstep : Decides (Parser.eat k) s fun b after => b = true ∧ after = ts :=
      .of_run (eat_true hr ht) (suffix_of_cons hr) ⟨rfl, rfl⟩
    refine hstep.bind fun b after _ hb => ?_
    obtain ⟨rfl, rfl⟩ := hb
    exact hyes t _ hr ht
  · have hstep : Decides (Parser.eat k) s fun b after => b = false ∧ after = s.rest :=
      .of_run (eat_false hs h) List.suffix_rfl ⟨rfl, rfl⟩
    refine hstep.bind fun b after _ hb => ?_
    obtain ⟨rfl, rfl⟩ := hb
    exact hno h

theorem expect {k : Kind} {f : Token → Parser α} (hs : s.Closed) (hk : k ≠ .endOfFile)
    (h : ∀ t ts, s.rest = t :: ts → t.kind = k → Decides (f t) { s with rest := ts } Q) :
    Decides (Parser.expect k >>= f) s Q := by
  have hstep : Decides (Parser.expect k) s fun t after => s.rest = t :: after ∧ t.kind = k := by
    by_cases h : headKind s.rest = k
    · obtain ⟨t, ts, hr, ht⟩ := exists_cons_of_headKind h hk
      exact .of_run (expect_of_cons hr ht) (suffix_of_cons hr) ⟨hr, ht⟩
    · have hrun : Parser.expect k s = (none, s.record (.unexpectedToken s.current.kind k)) := by
        rw [expect_run, if_neg (by rwa [ParseState.current_kind hs])]
      exact .of_record hrun
  exact hstep.bind fun t after _ ht => h t after ht.1 ht.2

theorem pure {a : α} (h : Q a s.rest) : Decides (Pure.pure a) s Q :=
  .of_run rfl List.suffix_rfl h

end Decides

namespace Silent

variable {Q : α → List Token → Prop}

theorem pure {a : α} (h : Q a s.rest) : Silent (Pure.pure a) s Q := .of_run rfl h

theorem current {f : Token → Parser α} (h : Silent (f s.current) s Q) :
    Silent (Parser.current >>= f) s Q := h

theorem following {f : Token → Parser α} (h : Silent (f s.following) s Q) :
    Silent (Parser.following >>= f) s Q := h

theorem pure_bind {a : β} {f : β → Parser α} (h : Silent (f a) s Q) :
    Silent (Pure.pure a >>= f) s Q := h

theorem advance {t : Token} {ts : List Token} {f : Token → Parser α} (hr : s.rest = t :: ts)
    (h : Silent (f t) { s with rest := ts } Q) : Silent (Parser.advance >>= f) s Q := by
  rw [Silent, bind_some (advance_of_cons hr)]
  exact h

theorem eat {k : Kind} {f : Bool → Parser α} (hs : s.Closed) (hk : k ≠ .endOfFile)
    (hyes : ∀ t ts, s.rest = t :: ts → t.kind = k → Silent (f true) { s with rest := ts } Q)
    (hno : headKind s.rest ≠ k → Silent (f false) s Q) : Silent (Parser.eat k >>= f) s Q := by
  rw [Silent]
  by_cases h : headKind s.rest = k
  · obtain ⟨t, ts, hr, ht⟩ := exists_cons_of_headKind h hk
    rw [bind_some (eat_true hr ht)]
    exact hyes t ts hr ht
  · rw [bind_some (eat_false hs h)]
    exact hno h

theorem demand {k : Kind} {f : Unit → Parser α} [ff : Forward (f ())] (hs : s.Closed)
    (hk : k ≠ .endOfFile) (h : ∀ t ts, s.rest = t :: ts → t.kind = k →
      Silent (f ()) { s with rest := ts } Q) : Silent (Parser.demand k >>= f) s Q := by
  by_cases hh : headKind s.rest = k
  · obtain ⟨t, ts, hr, ht⟩ := exists_cons_of_headKind hh hk
    rw [Silent, bind_some (demand_of_cons hr ht)]
    exact h t ts hr ht
  · have hrun : Parser.demand k s = (some (), s.record (.unexpectedToken s.current.kind k)) := by
      rw [demand_run, if_neg (by rwa [ParseState.current_kind hs])]
    exact .of_recorded (bind_some hrun) (ff.errors (s.record (.unexpectedToken s.current.kind k)))

end Silent

end Parser

end Xbase
