import Xbase.Proofs.Parser.Progress
import Xbase.Proofs.Token.Next

/-!
# What a parser sees through its window

The state of a parser has all tokens that are still to be read, as if the whole text had been cut
into tokens beforehand. The parser itself asks for one token after the other, and meets a fault only
when it gets that far. `Window.Shows` relates the two: the window shows the next two tokens of the
state, and the fault of the text has been met exactly if fewer than two tokens are left.

* `Window.ofLexer_shows`: so it is in front of the first token;
* `Window.Shows.advance`: reading a token keeps it so;
* `Lexer.windowAt_shows`: hence it is so in every state that a parser of the text comes to.

A program is read to its last token, so by then the fault of the text has been met, whatever is
wrong with the program (`Lexer.parseFrom_ofStream`).
-/

namespace Xbase

/-! ## Asking for tokens -/

/-- What the next token says about the stream: there is a fault, or the source is at its end and
stays there, or the token is the first one of the stream. -/
theorem Lexer.next_cases (lx : Lexer) :
    (∃ e lx', lx.next = (.error e, lx') ∧ lx.stream = ⟨[], e.endToken, some e⟩) ∨
    (∃ t lx', lx.next = (.ok t, lx') ∧ lx.stream = ⟨[], t, none⟩ ∧ lx'.stream = ⟨[], t, none⟩ ∧
      lx'.rest = []) ∨
    ∃ t lx', lx.next = (.ok t, lx') ∧
      lx.stream = { lx'.stream with tokens := t :: lx'.stream.tokens } := by
  induction lx using Lexer.stream.induct with
  | case1 lx h =>
    exact .inr (.inl ⟨_, lx, next_none h, stream_none h, stream_none h, rest_of_step_none h⟩)
  | case2 lx e lx' h => exact .inl ⟨e, lx', next_item h, stream_error h⟩
  | case3 lx t lx' h _ => exact .inr (.inr ⟨t, lx', next_item h, stream_ok h⟩)
  | case4 lx lx' h ih =>
    rw [next_skip h, stream_skip h]
    exact ih

namespace Window

/-- Whoever asks on gets these tokens and then the end `stop` of the source for ever after; the
fault that is met in this way is `fault`. -/
inductive Feeds : (lexer : Lexer) → (fatal : Option LexError) → (tokens : List Token) →
    (stop : Token) → (fault : Option LexError) → Prop
  | pending {lexer : Lexer} {tokens : List Token} {stop : Token} {fault : Option LexError}
      (h : lexer.stream = ⟨tokens, stop, fault⟩) : Feeds lexer none tokens stop fault
  | met {lexer : Lexer} {e : LexError} : Feeds lexer (some e) [] e.endToken (some e)

/-- The source has been asked for up to its end: there is a fault and it has been met, or there is
none and the lexer has no text in front of it. -/
structure Done (lexer : Lexer) (fatal fault : Option LexError) : Prop where
  fatal : fatal = fault
  rest : fault = none → lexer.rest = []

variable {lexer : Lexer} {fatal fault : Option LexError} {tokens : List Token} {stop : Token}

/-- Asking once gives the first of the tokens and leaves the others. Where there are none, the
source has been asked for up to its end. -/
theorem Feeds.pull (h : Feeds lexer fatal tokens stop fault) :
    ∃ lexer' fatal', Window.pull lexer fatal = (tokens.headD stop, lexer', fatal') ∧
      Feeds lexer' fatal' tokens.tail stop fault ∧
      (tokens ≠ [] → fatal' = none) ∧ (tokens = [] → Done lexer' fatal' fault) := by
  cases h with
  | @met e =>
    refine ⟨lexer, some e, rfl, .met, fun h => absurd rfl h, fun _ => ⟨rfl, fun h => ?_⟩⟩
    cases h
  | pending h =>
    rw [Window.pull]
    obtain ⟨e, lx', hnext, hstream⟩ | ⟨t, lx', hnext, hstream, hend, hrest⟩ |
      ⟨t, lx', hnext, hstream⟩ := lexer.next_cases
    · cases h.symm.trans hstream
      rw [hnext]
      refine ⟨lx', some e, rfl, .met, fun h => absurd rfl h, fun _ => ⟨rfl, fun h => ?_⟩⟩
      cases h
    · cases h.symm.trans hstream
      rw [hnext]
      exact ⟨lx', none, rfl, .pending hend, fun _ => rfl, fun _ => ⟨rfl, fun _ => hrest⟩⟩
    · cases h.symm.trans hstream
      rw [hnext]
      exact ⟨lx', none, rfl, .pending rfl, fun _ => rfl, fun h => (by cases h)⟩

/-! ## The window and the state -/

/-- The window of a parser that is in the state `s`, in a text with the fault `fault` or with
none. -/
structure Shows (w : Window) (fault : Option LexError) (s : ParseState) : Prop where
  current : w.current = s.current
  following : w.following = s.following
  feeds : Feeds w.lexer w.fatal (s.rest.drop 2) s.stop fault
  /-- As long as two tokens are left, nothing is known of a fault. -/
  pending : 2 ≤ s.rest.length → w.fatal = none
  /-- Where fewer are left, the source has been asked for up to its end. -/
  done : s.rest.length < 2 → Done w.lexer w.fatal fault

/-- The first window shows the first two tokens of the stream. -/
theorem ofLexer_shows (lx : Lexer) :
    (ofLexer lx).Shows lx.stream.fault (.ofStream lx.stream) := by
  have hfeeds : Feeds lx none lx.stream.tokens lx.stream.stop lx.stream.fault := .pending rfl
  obtain ⟨lx₁, fatal₁, hpull₁, hfeeds₁, -, -⟩ := hfeeds.pull
  obtain ⟨lx₂, fatal₂, hpull₂, hfeeds₂, hpending, hdone⟩ := hfeeds₁.pull
  have hw : ofLexer lx = ⟨lx₂, lx.stream.tokens.headD lx.stream.stop,
      lx.stream.tokens.tail.headD lx.stream.stop, fatal₂⟩ := by
    simp only [ofLexer, hpull₁, hpull₂]
  have hdrop : lx.stream.tokens.tail.tail = lx.stream.tokens.drop 2 := by
    rw [← List.drop_one (l := lx.stream.tokens), List.tail_drop]
  have hlength : (ParseState.ofStream lx.stream).rest.length = lx.stream.tokens.length := rfl
  rw [hw]
  refine ⟨rfl, rfl, hdrop ▸ hfeeds₂, fun h => hpending ?_, fun h => hdone ?_⟩
  · rw [← List.length_pos_iff, List.length_tail]
    omega
  · rw [← List.length_eq_zero_iff, List.length_tail]
    omega

namespace Shows

variable {w : Window} {s : ParseState}

/-- Recording an error does not change what is seen. -/
theorem of_rest (h : w.Shows fault s) {s' : ParseState} (hrest : s'.rest = s.rest)
    (hstop : s'.stop = s.stop) : w.Shows fault s' := by
  obtain ⟨rest, stop, errors⟩ := s
  obtain ⟨rest', stop', errors'⟩ := s'
  obtain rfl : rest' = rest := hrest
  obtain rfl : stop' = stop := hstop
  exact ⟨h.current, h.following, h.feeds, h.pending, h.done⟩

/-- Reading a token moves the window on by one. -/
theorem advance (h : w.Shows fault s) : w.advance.Shows fault (Parser.advance s).2 := by
  obtain ⟨lx', fatal', hpull, hfeeds, hpending, hdone⟩ := h.feeds.pull
  have hw : w.advance = ⟨lx', w.following, (s.rest.drop 2).headD s.stop, fatal'⟩ := by
    simp only [Window.advance, hpull]
  have hlength : (Parser.advance s).2.rest.length = s.rest.length - 1 := List.length_tail
  rw [hw]
  refine ⟨h.following, ?_, ?_, fun h => hpending ?_, fun h => hdone ?_⟩
  · simp [ParseState.following, Parser.advance]
  · simpa [Parser.advance, List.tail_drop] using hfeeds
  · rw [← List.length_pos_iff, List.length_drop]
    omega
  · rw [← List.length_eq_zero_iff, List.length_drop]
    omega

/-- A window that has been advanced shows the tokens from there on. -/
theorem advanceBy (h : w.Shows fault s) (count : Nat) :
    (w.advanceBy count).Shows fault { s with rest := s.rest.drop count } := by
  induction count generalizing w s with
  | zero => exact h
  | succ count ih =>
    have hmore := ih h.advance
    rw [Parser.advance, List.drop_tail] at hmore
    exact hmore

end Shows

end Window

/-- The window of a parser shows what the state says, whichever tokens of the text are left. -/
theorem Lexer.windowAt_shows {lx : Lexer} {s : ParseState} (hrest : s.rest <:+ lx.stream.tokens)
    (hstop : s.stop = lx.stream.stop) : (lx.windowAt s).Shows lx.stream.fault s := by
  refine ((Window.ofLexer_shows lx).advanceBy _).of_rest ?_ hstop
  exact List.suffix_iff_eq_drop.1 hrest

/-! ## Reading a text -/

open Xbase.Parser

/-- The state in front of a text has the end of the source behind its tokens. -/
theorem ParseState.ofStream_closed (lx : Lexer) : (ParseState.ofStream lx.stream).Closed :=
  lx.stream_stop

/-- The rule for programs reads the tokens of a lexer to their end. -/
theorem Lexer.program_total (lx : Lexer) : ∃ b errors,
    program (.ofStream lx.stream) = (some b, ⟨[], lx.stream.stop, errors⟩) :=
  Parser.program_total (ParseState.ofStream_closed lx) fun t ht => (lx.stream_lexical t ht).2

/-- When a program has been read, all of the text has been asked for. -/
theorem Lexer.windowAt_done (lx : Lexer) :
    (lx.windowAt (program (.ofStream lx.stream)).2).Shows lx.stream.fault
        (program (.ofStream lx.stream)).2 ∧
      Window.Done (lx.windowAt (program (.ofStream lx.stream)).2).lexer
        (lx.windowAt (program (.ofStream lx.stream)).2).fatal lx.stream.fault := by
  obtain ⟨b, errors, hrun⟩ := lx.program_total
  have hshows := windowAt_shows (program_forward.rest (.ofStream lx.stream))
    (program_forward.stop (.ofStream lx.stream))
  refine ⟨hshows, hshows.done ?_⟩
  rw [hrun]
  exact Nat.zero_lt_two

/-- The fault of a text has been met when its program has been read, and so it outweighs what was
read. -/
theorem Lexer.parseFrom_ofStream (lx : Lexer) :
    lx.parseFrom (.ofStream lx.stream) = match lx.stream.fault with
      | some e => .error e
      | none => .ok ⟨(program (.ofStream lx.stream)).1.getD [],
          (program (.ofStream lx.stream)).2.errors⟩ := by
  rw [← lx.windowAt_done.2.fatal]
  rfl

theorem parse_of_fault_none {text : String} (h : (TokenStream.ofText text).fault = none) :
    parse text = .ok ⟨(program (.ofStream (.ofText text))).1.getD [],
      (program (.ofStream (.ofText text))).2.errors⟩ := by
  have hfault : (Lexer.ofText text).stream.fault = none := h
  rw [parse, Lexer.parseFrom_ofStream, hfault]
  rfl

/-- Parsing fails with the fault that ends the stream of tokens, and with no other. -/
theorem parse_error_iff {text : String} {e : LexError} :
    parse text = .error e ↔ (TokenStream.ofText text).fault = some e := by
  rw [parse, Lexer.parseFrom_ofStream, TokenStream.ofText]
  cases (Lexer.ofText text).stream.fault <;> simp

/-- Parsing succeeds if there is no fault, with what the rule for programs gives. -/
theorem parse_ok {text : String} {parsed : Parsed} (h : parse text = .ok parsed) :
    (TokenStream.ofText text).fault = none ∧
      parsed = ⟨(program (.ofStream (.ofText text))).1.getD [],
        (program (.ofStream (.ofText text))).2.errors⟩ := by
  cases hfault : (TokenStream.ofText text).fault with
  | none =>
    rw [parse_of_fault_none hfault] at h
    exact ⟨rfl, (Except.ok.inj h).symm⟩
  | some e =>
    rw [parse_error_iff.2 hfault] at h
    cases h

end Xbase
