import Mathlib.Data.List.TakeWhile
import Xbase.Proofs.Parser.Progress
import Xbase.Proofs.Program.Map
import Xbase.Proofs.Token.Append

/-!
# Parsers in a longer text

The same tokens may stand in a longer text: in other places, with errors recorded before them, and
with more tokens behind them. `Context` says how, and `Context.place` is the state of a parser in
the longer text.

`Parser.Agrees K e p p' s`: from the state `s`, and from its place in the longer text, `p` and `p'`
do the same. They may fail to only where more tokens follow:

* `p` records an error at the end of the source, where the longer text goes on; or
* if `e` allows it, `p` succeeds and has read all tokens.

Where no more tokens follow, `p` and `p'` agree always. Each case is closed under sequencing, so a
proof that two parsers agree follows their text.
-/

namespace Xbase

/-! ## Results in other places -/

/-- A type whose values hold places. -/
class HasPlaces (α : Type) where
  /-- The value with every place changed. -/
  mapSpan : (Span → Span) → α → α

namespace HasPlaces

instance : HasPlaces DeclaredType := ⟨fun _ a => a⟩

instance : HasPlaces Ident := ⟨Ident.map⟩

instance : HasPlaces Expr := ⟨Expr.map id⟩

instance : HasPlaces Declarator := ⟨Declarator.map id⟩

instance : HasPlaces Statement := ⟨Statement.map id⟩

instance {α : Type} [HasPlaces α] : HasPlaces (Option α) := ⟨fun g => Option.map (mapSpan g)⟩

instance {α : Type} [HasPlaces α] : HasPlaces (List α) := ⟨fun g => List.map (mapSpan g)⟩

instance {α β : Type} [HasPlaces α] [HasPlaces β] : HasPlaces (α × β) :=
  ⟨fun g x => (mapSpan g x.1, mapSpan g x.2)⟩

end HasPlaces

/-! ## Contexts -/

/-- What follows some tokens in a longer text. -/
inductive Sequel where
  | nothing
  /-- More lines, behind a line break that is the last of the tokens. -/
  | lines (tokens : List Token) (stop : Token)
  /-- A line break and more lines. -/
  | newline (t : Token) (tokens : List Token) (stop : Token)

namespace Sequel

/-- The tokens that follow. -/
def tokens : Sequel → List Token
  | nothing => []
  | lines ts _ => ts
  | newline t ts _ => t :: ts

/-- The tokens that follow, from the next line on. -/
def later : Sequel → List Token
  | nothing => []
  | lines ts _ | newline _ ts _ => ts

theorem length_later_le (q : Sequel) : q.later.length ≤ q.tokens.length := by
  cases q with
  | newline t ts stop => exact Nat.le_succ _
  | nothing | lines ts stop => exact Nat.le_refl _

/-- The end of the longer text. -/
def stop (own : Token) : Sequel → Token
  | nothing => own
  | lines _ t | newline _ _ t => t

/-- What follows goes with these tokens: there is exactly one line break between the two. -/
def Fits (ts : List Token) : Sequel → Prop
  | nothing => True
  | lines _ _ => ∃ t, ts.getLast? = some t ∧ t.kind = .newline
  | newline t' _ _ => t'.kind = .newline ∧ ∀ t, ts.getLast? = some t → t.kind ≠ .newline

variable {q : Sequel} {ts ts' : List Token}

theorem Fits.suffix (h : q.Fits ts) (hs : ts' <:+ ts) (hne : ts' ≠ []) : q.Fits ts' := by
  have hlast : ts'.getLast? = ts.getLast? := by
    obtain ⟨pre, rfl⟩ := hs
    rw [List.getLast?_append_of_ne_nil _ hne]
  cases q with
  | nothing => trivial
  | lines _ _ | newline _ _ _ => rwa [Fits, hlast]

/-- Only a line break can be the last token that is read. -/
theorem Fits.tail {t : Token} (h : q.Fits (t :: ts)) (ht : t.kind ≠ .newline) : q.Fits ts := by
  cases ts with
  | cons t' ts => exact h.suffix (List.suffix_cons _ _) (by simp)
  | nil =>
    cases q with
    | nothing => trivial
    | lines _ _ =>
      obtain ⟨t', h, hk⟩ := h
      cases h
      exact absurd hk ht
    | newline t' _ _ => exact ⟨h.1, nofun⟩

/-- Behind tokens without a line break stands one, if anything. -/
theorem Fits.dropWhile (h : q.Fits ts) (hts : ts.dropWhile (·.kind ≠ .newline) = []) :
    q.tokens.dropWhile (·.kind ≠ .newline) = q.tokens ∧ q.Fits [] := by
  cases q with
  | nothing => exact ⟨rfl, trivial⟩
  | lines us stop =>
    obtain ⟨t, ht, hk⟩ := h
    have hne := List.dropWhile_eq_nil_iff.1 hts t (List.mem_of_getLast? ht)
    simp [hk] at hne
  | newline t us stop => exact ⟨by simp [tokens, h.1], h.1, nofun⟩

end Sequel

/-- How some tokens stand in a longer text. -/
structure Context where
  /-- Where the tokens are in the longer text. -/
  move : Move
  /-- What is compared of the places in results. -/
  here : Span → Span
  /-- What is compared of the places in results, in the longer text. -/
  there : Span → Span
  /-- The errors recorded before. -/
  before : List SyntaxError
  behind : Sequel

namespace Context

variable (K : Context) {s : ParseState}

/-- The state in the longer text. -/
def place (s : ParseState) : ParseState :=
  ⟨s.rest.map (Token.move K.move) ++ K.behind.tokens, K.behind.stop (s.stop.move K.move),
    K.before ++ s.errors.map (SyntaxError.move K.move)⟩

/-- The results are the same as far as they are compared. -/
def Same {α : Type} [HasPlaces α] (a a' : α) : Prop :=
  HasPlaces.mapSpan K.here a = HasPlaces.mapSpan K.there a'

/-- The places of the tokens can be compared, also where two of them are put together. That happens
only in a conditional. -/
structure Suits (ts : List Token) : Prop where
  span : ∀ {t}, t ∈ ts → K.here t.span = K.there (K.move.span t.span)
  merge : ∀ {t u}, t ∈ ts → t.kind = .keyword .IIF → u ∈ ts →
    K.here (t.span.merge u.span) = K.there ((K.move.span t.span).merge (K.move.span u.span))

/-- The state stands in the longer text as it should. -/
structure Meets (s : ParseState) : Prop where
  closed : s.Closed
  suits : K.Suits s.rest
  fits : K.behind.Fits s.rest

/-- The next token is one of those that both texts have. -/
def Sees (s : ParseState) : Prop :=
  s.rest ≠ [] ∨ K.behind = .nothing

end Context

namespace Context

variable {K : Context} {s : ParseState} {t : Token} {ts : List Token}

theorem Suits.suffix {ts' : List Token} (h : K.Suits ts) (hs : ts' <:+ ts) : K.Suits ts' :=
  ⟨fun ht => h.span (hs.subset ht), fun ht hk hu => h.merge (hs.subset ht) hk (hs.subset hu)⟩

theorem Same.cons {α : Type} [HasPlaces α] {a a' : α} {as as' : List α} (h : K.Same a a')
    (hs : K.Same as as') : K.Same (a :: as) (a' :: as') :=
  congrArg₂ List.cons h hs

theorem Meets.of_cons (hs : K.Meets s) (hr : s.rest = t :: ts) (ht : t.kind ≠ .newline) :
    K.Meets { s with rest := ts } := by
  have hfits := hs.fits
  rw [hr] at hfits
  exact ⟨hs.closed, hs.suits.suffix (hr ▸ List.suffix_cons t ts), hfits.tail ht⟩

theorem length_place (s : ParseState) :
    (K.place s).rest.length = s.rest.length + K.behind.tokens.length := by
  simp [place]

theorem current_place (h : K.Sees s) : (K.place s).current = s.current.move K.move := by
  obtain ⟨rest, stop, errors⟩ := s
  cases rest with
  | cons t ts => rfl
  | nil =>
    have hnothing : K.behind = .nothing := h.resolve_left (· rfl)
    simp [place, ParseState.current, hnothing, Sequel.tokens, Sequel.stop]

theorem place_record (h : K.Sees s) (f : SyntaxFault) :
    K.place (s.record f) = (K.place s).record f := by
  have hrecord : (K.place s).record f = { K.place s with errors := (K.place s).errors ++
      [⟨f, (K.place s).current.span, (K.place s).current.line, (K.place s).current.col⟩] } := rfl
  rw [hrecord, current_place h]
  simp [place, ParseState.record, ParseState.current, SyntaxError.move, Token.move]

theorem place_cons (hr : s.rest = t :: ts) :
    (K.place s).rest = t.move K.move :: (K.place { s with rest := ts }).rest := by
  simp [place, hr]

/-- Tokens are skipped alike, until all of them are skipped. -/
theorem dropWhile_place (K : Context) (c : Kind → Bool) (s : ParseState) :
    (K.place s).rest.dropWhile (c ·.kind) =
      if (s.rest.dropWhile (c ·.kind)).isEmpty then K.behind.tokens.dropWhile (c ·.kind)
      else (s.rest.dropWhile (c ·.kind)).map (Token.move K.move) ++ K.behind.tokens := by
  have hmap : (s.rest.map (Token.move K.move)).dropWhile (c ·.kind) =
      (s.rest.dropWhile (c ·.kind)).map (Token.move K.move) := List.dropWhile_map
  rw [place, List.dropWhile_append, hmap, List.isEmpty_map]

/-- A state that does not see the next token has come to the end of its tokens, and a line break
follows. -/
theorem Meets.unseen (hs : K.Meets s) (h : ¬ K.Sees s) :
    s.rest = [] ∧ K.behind ≠ .nothing ∧ (K.place s).current.kind = .newline := by
  obtain ⟨hr, hne⟩ := not_or.1 h
  have hr := Decidable.not_not.1 hr
  refine ⟨hr, hne, ?_⟩
  have hfits := hs.fits
  rw [hr] at hfits
  revert hne hfits
  rw [ParseState.current, place, hr]
  cases K.behind with
  | nothing => exact fun hne => absurd rfl hne
  | lines ts stop => rintro - ⟨t, ht, -⟩; cases ht
  | newline t' ts stop => exact fun _ hfits => hfits.1

/-- A token of another kind than a line break is not next in the longer text either. -/
theorem Meets.current_ne {k : Kind} (hs : K.Meets s) (h : headKind s.rest ≠ k)
    (hk : k ≠ .newline) : (K.place s).current.kind ≠ k := by
  by_cases hsees : K.Sees s
  · rw [current_place hsees]
    exact (ParseState.current_kind hs.closed).trans_ne h
  · exact (hs.unseen hsees).2.2.trans_ne (Ne.symm hk)

end Context

/-! ## Errors at the end of the source -/

/-- The error is in the place of the token. -/
def SyntaxError.At (x : SyntaxError) (t : Token) : Prop :=
  x.span = t.span ∧ x.line = t.line ∧ x.col = t.col

instance (x : SyntaxError) (t : Token) : Decidable (x.At t) :=
  inferInstanceAs (Decidable (_ ∧ _ ∧ _))

namespace Parser

variable {α β : Type} {s s₁ : ParseState} {p : Parser α} {f : α → Parser β}

/-- Behind `p`, an error at the end of the source is recorded. -/
def EndError (p : Parser α) (s : ParseState) : Prop :=
  ∃ x ∈ (p s).2.errors, x.At s.stop

/-- Behind `p`, an error at the end of the source is recorded, or else, if `e` allows it, `p` has
succeeded and all tokens are read. -/
def Ended (e : Bool) (p : Parser α) (s : ParseState) : Prop :=
  EndError p s ∨ e = true ∧ ∃ a s₁, p s = (some a, s₁) ∧ s₁.rest = []

theorem EndError.of_record {a? : Option α} {fault : SyntaxFault} (hr : s.rest = [])
    (h : p s = (a?, s.record fault)) : EndError p s := by
  refine ⟨⟨fault, s.stop.span, s.stop.line, s.stop.col⟩, ?_, rfl, rfl, rfl⟩
  rw [h, ParseState.record, ParseState.current, hr]
  simp

theorem EndError.bind [ff : ∀ a, Forward (f a)] (h : EndError p s) : EndError (p >>= f) s := by
  obtain ⟨x, hx, hat⟩ := h
  refine ⟨x, ?_, hat⟩
  rw [bind_run]
  split
  · next a s₁ hr =>
    rw [hr] at hx
    exact ((ff a).errors s₁).subset hx
  · next s₁ hr =>
    rw [hr] at hx
    exact hx

/-- One step of a parser leads to a state of another. -/
theorem EndError.step {q : Parser β} (h : (p s).2 = (q s₁).2)
    (hstop : s₁.stop = s.stop) (hq : EndError q s₁) : EndError p s := by
  obtain ⟨x, hx, hat⟩ := hq
  exact ⟨x, h ▸ hx, hstop ▸ hat⟩

namespace Ended

variable {e : Bool}

theorem step {q : Parser α} (h : p s = q s₁) (hstop : s₁.stop = s.stop) (hq : Ended e q s₁) :
    Ended e p s := by
  obtain hq | ⟨he, a, s₂, run, hr⟩ := hq
  · exact .inl (hq.step (congrArg Prod.snd h) hstop)
  · exact .inr ⟨he, a, s₂, h.trans run, hr⟩

theorem pure {a : α} (he : e = true) (hr : s.rest = []) : Ended e (Pure.pure a) s :=
  .inr ⟨he, a, s, rfl, hr⟩

theorem eat {k : Kind} {f : Bool → Parser α} (hs : s.Closed) (hr : s.rest = [])
    (hk : k ≠ .endOfFile) (h : Ended e (f false) s) : Ended e (Parser.eat k >>= f) s := by
  refine h.step (bind_some (eat_false hs ?_)) rfl
  rw [hr]
  exact Ne.symm hk

end Ended

/-! ## Agreement -/

/-- From `s` and from its place in the longer text, `p` and `p'` do the same, unless `p` comes to
the end of the source first. -/
inductive Agrees [HasPlaces α] (K : Context) (e : Bool) (p p' : Parser α) (s : ParseState) : Prop
  | read {a a' : α} {s₁ : ParseState} (run : p s = (some a, s₁))
    (run' : p' (K.place s) = (some a', K.place s₁)) (same : K.Same a a')
    (fits : K.behind.Fits s₁.rest)
  | failed {s₁ : ParseState} (run : p s = (none, s₁)) (run' : p' (K.place s) = (none, K.place s₁))
    (fits : K.behind.Fits s₁.rest)
  | ended (more : K.behind ≠ .nothing) (h : Ended e p s)

namespace Agrees

variable {K : Context} {e e₁ : Bool} [HasPlaces α] [HasPlaces β] {p p' q q' : Parser α}
  {f f' : α → Parser β}

/-- Two parsers agree if one step leads to two that do. -/
theorem step (h : p s = q s₁) (h' : p' (K.place s) = q' (K.place s₁)) (hstop : s₁.stop = s.stop)
    (hq : Agrees K e q q' s₁) : Agrees K e p p' s := by
  cases hq with
  | read run run' same fits => exact .read (h.trans run) (h'.trans run') same fits
  | failed run run' fits => exact .failed (h.trans run) (h'.trans run') fits
  | ended more hend => exact .ended more (hend.step h hstop)

/-- Behind the part in which the tokens may all be read, it must be shown that the end of the source
is an error. -/
theorem bind_ended [fp : Forward p] [∀ a, Forward (f a)] (hs : K.Meets s)
    (hp : Agrees K e₁ p p' s)
    (hf : ∀ a a' s₁, p s = (some a, s₁) → K.Same a a' → K.Meets s₁ → s₁.rest <:+ s.rest →
      Agrees K e (f a) (f' a') s₁)
    (hend : e₁ = true → ∀ a s₁, s₁.Closed → s₁.rest = [] → Ended e (f a) s₁) :
    Agrees K e (p >>= f) (p' >>= f') s := by
  have hforward {a : α} {s₁ : ParseState} (run : p s = (some a, s₁)) :
      s₁.stop = s.stop ∧ s₁.rest <:+ s.rest := by
    have hstop := fp.stop s
    have hrest := fp.rest s
    rw [run] at hstop hrest
    exact ⟨hstop, hrest⟩
  cases hp with
  | @read a a' s₁ run run' same fits =>
    obtain ⟨hstop, hrest⟩ := hforward run
    have hs₁ : K.Meets s₁ :=
      ⟨(congrArg Token.kind hstop).trans hs.closed, hs.suits.suffix hrest, fits⟩
    exact (hf a a' s₁ run same hs₁ hrest).step (bind_some run) (bind_some run') hstop
  | failed run run' fits => exact .failed (bind_none run) (bind_none run') fits
  | ended more h =>
    refine .ended more ?_
    obtain h | ⟨he, a, s₁, run, hr⟩ := h
    · exact .inl h.bind
    · obtain ⟨hstop, -⟩ := hforward run
      have hclosed : s₁.Closed := (congrArg Token.kind hstop).trans hs.closed
      exact (hend he a s₁ hclosed hr).step (bind_some run) hstop

theorem weaken (h : Agrees K false p p' s) : Agrees K e p p' s := by
  cases h with
  | read run run' same fits => exact .read run run' same fits
  | failed run run' fits => exact .failed run run' fits
  | ended more h => exact .ended more (h.imp_right fun ⟨he, _⟩ => nomatch he)

theorem bind [Forward p] [∀ a, Forward (f a)] (hs : K.Meets s) (hp : Agrees K false p p' s)
    (hf : ∀ a a' s₁, p s = (some a, s₁) → K.Same a a' → K.Meets s₁ → s₁.rest <:+ s.rest →
      Agrees K e (f a) (f' a') s₁) : Agrees K e (p >>= f) (p' >>= f') s :=
  hp.bind_ended hs hf nofun

theorem pure {a a' : α} (hs : K.Meets s) (h : K.Same a a') :
    Agrees K e (Pure.pure a) (Pure.pure a') s :=
  .read rfl rfl h hs.fits

theorem failWith (hs : K.Meets s) (fault : SyntaxFault) :
    Agrees K e (Parser.failWith fault : Parser α) (Parser.failWith fault) s := by
  by_cases h : K.Sees s
  · refine .failed (failWith_run fault s) ?_ hs.fits
    rw [failWith_run, Context.place_record h]
  · obtain ⟨hr, more, -⟩ := hs.unseen h
    exact .ended more (.inl (.of_record hr (failWith_run fault s)))

/-! ## Single tokens -/

/-- A look at the kind of the next token, where a line break and the end of the source are taken to
be the same. -/
theorem peek {c : Kind → Prop} [DecidablePred c] {p p' q q' : Parser α} (hs : K.Meets s)
    (hc : c .newline ↔ c .endOfFile) (hyes : c (headKind s.rest) → Agrees K e p p' s)
    (hno : ¬ c (headKind s.rest) → Agrees K e q q' s) :
    Agrees K e (Parser.current >>= fun t => if c t.kind then p else q)
      (Parser.current >>= fun t => if c t.kind then p' else q') s := by
  have hiff : c (K.place s).current.kind ↔ c s.current.kind := by
    by_cases hsees : K.Sees s
    · rw [Context.current_place hsees]
      rfl
    · obtain ⟨hr, -, hk⟩ := hs.unseen hsees
      rw [hk, ParseState.current_kind hs.closed, hr]
      exact hc
  have hkind := ParseState.current_kind hs.closed
  by_cases h : c s.current.kind
  · refine (hyes (hkind ▸ h)).step ?_ ?_ rfl
    · rw [bind_some (current_run s), if_pos h]
    · rw [bind_some (current_run _), if_pos (hiff.2 h)]
  · refine (hno (hkind ▸ h)).step ?_ ?_ rfl
    · rw [bind_some (current_run s), if_neg h]
    · rw [bind_some (current_run _), if_neg (hiff.not.2 h)]

theorem advance {f f' : Token → Parser α} {t : Token} {ts : List Token} (hr : s.rest = t :: ts)
    (h : Agrees K e (f t) (f' (t.move K.move)) { s with rest := ts }) :
    Agrees K e (Parser.advance >>= f) (Parser.advance >>= f') s :=
  h.step (bind_some (advance_of_cons hr)) (bind_some (advance_of_cons (Context.place_cons hr))) rfl

theorem eat {k : Kind} {f f' : Bool → Parser α} (hs : K.Meets s) (hk : k ≠ .newline)
    (hk' : k ≠ .endOfFile)
    (hyes : ∀ t ts, s.rest = t :: ts → t.kind = k → K.Meets { s with rest := ts } →
      Agrees K e (f true) (f' true) { s with rest := ts })
    (hno : Agrees K e (f false) (f' false) s) :
    Agrees K e (Parser.eat k >>= f) (Parser.eat k >>= f') s := by
  by_cases h : headKind s.rest = k
  · obtain ⟨t, ts, hr, ht⟩ := exists_cons_of_headKind h hk'
    exact (hyes t ts hr ht (hs.of_cons hr (ht ▸ hk))).step (bind_some (eat_true hr ht))
      (bind_some (eat_true (Context.place_cons hr) ht)) rfl
  · refine hno.step (bind_some (eat_false hs.closed h)) (bind_some ?_) rfl
    rw [eat_run, if_neg (hs.current_ne h hk)]

/-- A parser that reads a token of one kind or else fails. -/
theorem token {r : Parser Token} {k : Kind} {F : Kind → SyntaxFault} {f f' : Token → Parser α}
    (hrun : ∀ s, r s = if s.current.kind = k then (some s.current, { s with rest := s.rest.tail })
      else (none, s.record (F s.current.kind)))
    (hs : K.Meets s) (hk : k ≠ .newline) (hk' : k ≠ .endOfFile)
    (h : ∀ t ts, s.rest = t :: ts → t.kind = k → K.Meets { s with rest := ts } →
      Agrees K e (f t) (f' (t.move K.move)) { s with rest := ts }) :
    Agrees K e (r >>= f) (r >>= f') s := by
  have hrun_cons {s : ParseState} {t : Token} {ts : List Token} (hr : s.rest = t :: ts)
      (ht : t.kind = k) : r s = (some t, { s with rest := ts }) := by
    rw [hrun, current_cons hr, if_pos ht, hr]
    rfl
  by_cases hhead : headKind s.rest = k
  · obtain ⟨t, ts, hr, ht⟩ := exists_cons_of_headKind hhead hk'
    exact (h t ts hr ht (hs.of_cons hr (ht ▸ hk))).step (bind_some (hrun_cons hr ht))
      (bind_some (hrun_cons (Context.place_cons hr) ht)) rfl
  · have hcurrent : s.current.kind ≠ k := (ParseState.current_kind hs.closed).trans_ne hhead
    have hfail : r s = (none, s.record (F s.current.kind)) := by rw [hrun, if_neg hcurrent]
    by_cases hsees : K.Sees s
    · have hkind : (K.place s).current.kind = s.current.kind := by
        rw [Context.current_place hsees]
        rfl
      refine .failed (bind_none hfail) (bind_none ?_) hs.fits
      rw [hrun, hkind, if_neg hcurrent, Context.place_record hsees]
    · obtain ⟨hr, more, -⟩ := hs.unseen hsees
      exact .ended more (.inl (.of_record hr (bind_none hfail)))

theorem expect {k : Kind} {f f' : Token → Parser α} (hs : K.Meets s) (hk : k ≠ .newline)
    (hk' : k ≠ .endOfFile)
    (h : ∀ t ts, s.rest = t :: ts → t.kind = k → K.Meets { s with rest := ts } →
      Agrees K e (f t) (f' (t.move K.move)) { s with rest := ts }) :
    Agrees K e (Parser.expect k >>= f) (Parser.expect k >>= f') s :=
  token (F := fun actual => .unexpectedToken actual k) (expect_run k) hs hk hk' h

theorem expectName {f f' : Token → Parser α} (hs : K.Meets s)
    (h : ∀ t ts, s.rest = t :: ts → t.kind = .name → K.Meets { s with rest := ts } →
      Agrees K e (f t) (f' (t.move K.move)) { s with rest := ts }) :
    Agrees K e (Parser.expectName >>= f) (Parser.expectName >>= f') s :=
  token (F := .nonIdentifier) expectName_run hs (by decide) (by decide) h

/-- A parser that reads a token of one kind or else records that it is missing. If the token is a
line break, it may be the last one. -/
theorem demanded {r : Parser Unit} {k : Kind} {F : Kind → SyntaxFault} {f f' : Unit → Parser α}
    (hrun : ∀ s, r s = if s.current.kind = k then (some (), { s with rest := s.rest.tail })
      else (some (), s.record (F s.current.kind)))
    [ff : ∀ a, Forward (f a)] (hs : K.Meets s) (hk' : k ≠ .endOfFile)
    (h : ∀ s₁, K.Meets s₁ → s₁.rest <:+ s.rest → Agrees K e (f ()) (f' ()) s₁)
    (hend : k = .newline → ∀ s₁, s₁.Closed → s₁.rest = [] → Ended e (f ()) s₁) :
    Agrees K e (r >>= f) (r >>= f') s := by
  have hrun_cons {s : ParseState} {t : Token} {ts : List Token} (hr : s.rest = t :: ts)
      (ht : t.kind = k) : r s = (some (), { s with rest := ts }) := by
    rw [hrun, current_cons hr, if_pos ht, hr]
    rfl
  by_cases hhead : headKind s.rest = k
  · obtain ⟨t, ts, hr, ht⟩ := exists_cons_of_headKind hhead hk'
    have hsuffix : ts <:+ s.rest := suffix_of_cons hr
    by_cases hfits : K.behind.Fits ts
    · exact (h { s with rest := ts } ⟨hs.closed, hs.suits.suffix hsuffix, hfits⟩ hsuffix).step
        (bind_some (hrun_cons hr ht)) (bind_some (hrun_cons (Context.place_cons hr) ht)) rfl
    · -- The token was the last one, so it was a line break with more lines behind it.
      have hfits' : K.behind.Fits (t :: ts) := hr ▸ hs.fits
      have hk : k = .newline := by
        by_contra hk
        exact hfits (hfits'.tail (ht ▸ hk))
      have hts : ts = [] := by
        by_contra hne
        exact hfits (hfits'.suffix (List.suffix_cons _ _) hne)
      have more : K.behind ≠ .nothing := fun h => hfits (h ▸ trivial)
      exact .ended more ((hend hk { s with rest := ts } hs.closed hts).step
        (bind_some (hrun_cons hr ht)) rfl)
  · have hcurrent : s.current.kind ≠ k := (ParseState.current_kind hs.closed).trans_ne hhead
    have hmiss : r s = (some (), s.record (F s.current.kind)) := by rw [hrun, if_neg hcurrent]
    by_cases hsees : K.Sees s
    · have hkind : (K.place s).current.kind = s.current.kind := by
        rw [Context.current_place hsees]
        rfl
      refine (h (s.record (F s.current.kind)) ⟨hs.closed, hs.suits, hs.fits⟩
        List.suffix_rfl).step (bind_some hmiss) (bind_some ?_) rfl
      rw [hrun, hkind, if_neg hcurrent, Context.place_record hsees]
    · obtain ⟨hr, more, -⟩ := hs.unseen hsees
      exact .ended more (.inl (EndError.of_record hr hmiss).bind)

theorem demand {k : Kind} {f f' : Unit → Parser α} [∀ a, Forward (f a)] (hs : K.Meets s)
    (hk' : k ≠ .endOfFile)
    (h : ∀ s₁, K.Meets s₁ → s₁.rest <:+ s.rest → Agrees K e (f ()) (f' ()) s₁)
    (hend : k = .newline → ∀ s₁, s₁.Closed → s₁.rest = [] → Ended e (f ()) s₁) :
    Agrees K e (Parser.demand k >>= f) (Parser.demand k >>= f') s :=
  demanded (F := fun actual => .unexpectedToken actual k) (demand_run k) hs hk' h hend

/-- Behind line breaks all tokens may be read. -/
theorem skipNewlines {f f' : Unit → Parser α} (hs : K.Meets s)
    (h : ∀ s₁, K.Meets s₁ → s₁.rest <:+ s.rest → Agrees K e (f ()) (f' ()) s₁)
    (hend : ∀ s₁, s₁.Closed → s₁.rest = [] → Ended e (f ()) s₁) :
    Agrees K e (Parser.skipNewlines >>= f) (Parser.skipNewlines >>= f') s := by
  have hsuffix : s.rest.dropWhile (·.kind = .newline) <:+ s.rest := List.dropWhile_suffix _
  have hplace := K.dropWhile_place (· = .newline) s
  have hnext (hfits : K.behind.Fits (s.rest.dropWhile (·.kind = .newline)))
      (hrest : (K.place s).rest.dropWhile (·.kind = .newline) =
        (K.place { s with rest := s.rest.dropWhile (·.kind = .newline) }).rest) :
      Agrees K e (Parser.skipNewlines >>= f) (Parser.skipNewlines >>= f') s := by
    refine (h { s with rest := s.rest.dropWhile (·.kind = .newline) }
      ⟨hs.closed, hs.suits.suffix hsuffix, hfits⟩ hsuffix).step (bind_some rfl) (bind_some ?_) rfl
    rw [Parser.skipNewlines, hrest]
    rfl
  by_cases hrest : s.rest.dropWhile (·.kind = .newline) = []
  · rw [hrest] at hplace hnext
    by_cases hbehind : K.behind = .nothing
    · refine hnext (hbehind ▸ trivial) ?_
      rw [hplace, Context.place, hbehind]
      rfl
    · exact .ended hbehind ((hend { s with rest := s.rest.dropWhile (·.kind = .newline) } hs.closed
        hrest).step (bind_some rfl) rfl)
  · rw [if_neg (by simpa using hrest)] at hplace
    exact hnext (hs.fits.suffix hsuffix hrest) hplace

/-- Two lists of items with commas between them agree if the items do. -/
theorem commaList {item item' : Parser α} [Forward item] {n : Nat}
    (hitem : ∀ s, K.Meets s → s.rest.length ≤ n → Agrees K e item item' s) :
    ∀ (count count' : Nat) (s : ParseState), K.Meets s → s.rest.length ≤ n →
      s.rest.length < count → (K.place s).rest.length < count' →
      Agrees K e (Parser.commaList item count) (Parser.commaList item' count') s := by
  intro count
  induction count with
  | zero => intro count' s _ _ h; omega
  | succ count ih =>
    intro count' s hs hn hc hc'
    obtain ⟨count', rfl⟩ : ∃ c, count' = c + 1 := ⟨count' - 1, by omega⟩
    rw [Context.length_place] at hc'
    unfold Parser.commaList
    refine (hitem s hs hn).bind_ended hs (fun a a' s₁ _ same hs₁ hsuf => ?_) fun he a s₁ hcl hr =>
      .eat hcl hr (by decide) (.pure he hr)
    have hlen := hsuf.length_le
    refine Agrees.eat hs₁ (by decide) (by decide) (fun t ts hr ht hs₂ => ?_) (.pure hs₁ ?_)
    · rw [hr, List.length_cons] at hlen
      have hmore := ih count' { s₁ with rest := ts } hs₂ (by simp only; omega)
        (by simp only; omega) (by rw [Context.length_place]; simp only; omega)
      exact hmore.bind_ended hs₂ (fun as as' s₃ _ sames hs₃ _ => .pure hs₃ (same.cons sames))
        fun he as s₃ _ hr₃ => .pure he hr₃
    · exact same.cons rfl

/-- Two lists of items with commas between them agree if the items do. -/
theorem commaSeparated {item item' : Parser α} [Forward item] (hs : K.Meets s)
    (hitem : ∀ s, K.Meets s → Agrees K e item item' s) :
    Agrees K e (Parser.commaSeparated item) (Parser.commaSeparated item') s := by
  have hbudget (s : ParseState) : s.rest.length < s.budget := by
    rw [ParseState.budget]
    omega
  have hlist := Agrees.commaList (n := s.rest.length) (fun s hs _ => hitem s hs) s.budget
    (K.place s).budget s hs (Nat.le_refl _) (hbudget s) (hbudget (K.place s))
  refine hlist.step ?_ ?_ rfl <;> rfl

end Agrees

end Parser

end Xbase
