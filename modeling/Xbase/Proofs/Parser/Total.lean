import Xbase.Proofs.Parser.Append
import Xbase.Proofs.Parser.Errors

/-!
# Every text is read to its end

The parser comes to an end at every sequence of tokens, whatever is wrong with it
(`Parser.Advances`): an expression has a token or is given up with an error, a statement calls for
the blocks in it only behind its first token, and a turn of a loop reads a token. The bound for the
depth of the recursion is never reached.

`parse_total` says what this means for a text: it is read to its end, so its fault has been met by
then, and outweighs all that is wrong with the program.
-/

namespace Xbase

namespace Parser

variable {α β : Type} {s s₀ : ParseState}

/-! ## Depth -/

/-- Where there is nothing behind the tokens and they are in the same place, agreeing is being the
same. -/
theorem Agrees.eq [HasPlaces α] {e : Bool} {p p' : Parser α}
    (hsame : ∀ a a' : α, (Context.ofSequel .nothing).Same a a' → a = a')
    (h : Agrees (.ofSequel .nothing) e p p' s) : p s = p' s := by
  have hplace (s : ParseState) : (Context.ofSequel .nothing).place s = s := by
    rw [Context.place_ofSequel]
    simp [Sequel.tokens, Sequel.stop]
  cases h with
  | read run run' same =>
    rw [hplace, hplace] at run'
    rw [run, run', hsame _ _ same]
  | failed run run' =>
    rw [hplace, hplace] at run'
    rw [run, run']
  | ended more => exact absurd rfl more

/-- The depth of the recursion does not matter for an expression as long as it is enough. -/
theorem exprAt_depth {d d' : Nat} (min : Precedence) (hs : s.Closed) (hd : s.budget ≤ d)
    (hd' : s.budget ≤ d') : exprAt d min s = exprAt d' min s := by
  have hsame (a a' : Expr) (h : (Context.ofSequel .nothing).Same a a') : a = a' := by
    have h : a.map id id = a'.map id id := h
    rwa [Expr.map_id, Expr.map_id] at h
  have hagrees := (exprAt_agrees (.ofSequel .nothing) d).1 min d' s
    (Context.meets_ofSequel hs trivial) ⟨hd, hd'⟩
  exact hagrees.eq hsame

/-! ## Calls -/

/-- Fewer tokens are left at `s` than at `s₀`. -/
def Under (s₀ s : ParseState) : Prop :=
  s.stop = s₀.stop ∧ s.rest.length < s₀.rest.length

namespace Under

variable {p p' : Parser α} {f f' : α → Parser β}

/-- Sequences do the same if their parts do the same where fewer tokens are left. -/
theorem bind [hp : Forward p] (hs : Under s₀ s) (h : p s = p' s)
    (hf : ∀ a s₁, Under s₀ s₁ → f a s₁ = f' a s₁) : (p >>= f) s = (p' >>= f') s := by
  have hunder : Under s₀ (p s).2 :=
    ⟨(hp.stop s).trans hs.1, Nat.lt_of_le_of_lt (hp.rest s).length_le hs.2⟩
  rw [bind_run, bind_run, ← h]
  rcases hrun : p s with ⟨_ | a, s₁⟩
  · rfl
  · rw [hrun] at hunder
    exact hf a s₁ hunder

/-- Behind the next token, fewer tokens are left. -/
theorem advance {f f' : Token → Parser α} (hr : s.rest ≠ [])
    (hf : ∀ a s₁, Under s s₁ → f a s₁ = f' a s₁) :
    (Parser.advance >>= f) s = (Parser.advance >>= f') s := by
  obtain ⟨t, ts, hr⟩ := List.exists_cons_of_ne_nil hr
  rw [bind_some (advance_of_cons hr), bind_some (advance_of_cons hr)]
  exact hf t _ ⟨rfl, by rw [hr]; exact Nat.lt_succ_self _⟩

end Under

/-- A statement calls for blocks and branches only where fewer tokens are left. -/
theorem Form.rule_congr {block block' : List Keyword → Parser Block}
    {branches branches' : Parser (List (Expr × Block))} [∀ ends, Forward (block ends)]
    [Forward branches] (hs : s.Closed)
    (hblock : ∀ ends s₁, Under s s₁ → block ends s₁ = block' ends s₁)
    (hbranches : ∀ s₁, Under s s₁ → branches s₁ = branches' s₁) :
    (ofKinds s.current.kind s.following.kind).rule block branches s =
      (ofKinds s.current.kind s.following.kind).rule block' branches' s := by
  by_cases hr : s.rest = []
  · rw [current_kind_end hs hr]
    rfl
  have hwhile (t : Token) (s₁ : ParseState) (hs₁ : Under s s₁) :
      (expression >>= fun c => demand .newline >>= fun _ => block [.ENDDO] >>= fun b =>
        demand (.keyword .ENDDO) >>= fun _ => pure (Statement.doWhile c b)) s₁ =
      (expression >>= fun c => demand .newline >>= fun _ => block' [.ENDDO] >>= fun b =>
        demand (.keyword .ENDDO) >>= fun _ => pure (Statement.doWhile c b)) s₁ :=
    hs₁.bind rfl fun c s₂ hs₂ => hs₂.bind rfl fun _ s₃ hs₃ =>
      hs₃.bind (hblock _ s₃ hs₃) fun _ _ _ => rfl
  cases ofKinds s.current.kind s.following.kind with
  | declaration v | ret | exit | loop | print | expr => rfl
  | whileOnly => exact Under.advance hr hwhile
  | doWhile =>
    exact Under.advance hr fun _ s₁ hs₁ => hs₁.bind rfl hwhile
  | function =>
    refine Under.advance hr fun _ s₁ hs₁ => hs₁.bind rfl fun x s₂ hs₂ => ?_
    refine hs₂.bind rfl fun xs s₃ hs₃ => hs₃.bind rfl fun _ s₄ hs₄ => ?_
    exact hs₄.bind (hblock _ s₄ hs₄) fun _ _ _ => rfl
  | ifThen =>
    refine Under.advance hr fun _ s₁ hs₁ => hs₁.bind rfl fun c s₂ hs₂ => ?_
    refine hs₂.bind rfl fun _ s₃ hs₃ => hs₃.bind rfl fun _ s₄ hs₄ => ?_
    refine hs₄.bind (hblock _ s₄ hs₄) fun b s₅ hs₅ => hs₅.bind rfl fun isElse s₆ hs₆ => ?_
    cases isElse with
    | false => rfl
    | true =>
      exact hs₆.bind rfl fun _ s₇ hs₇ => hs₇.bind (hblock _ s₇ hs₇) fun _ _ _ => rfl
  | doCase =>
    refine Under.advance hr fun _ s₁ hs₁ => hs₁.bind rfl fun _ s₂ hs₂ => ?_
    refine hs₂.bind rfl fun _ s₃ hs₃ => hs₃.bind (hbranches s₃ hs₃) fun bs s₄ hs₄ => ?_
    refine hs₄.bind rfl fun isOtherwise s₅ hs₅ => ?_
    cases isOtherwise with
    | false => rfl
    | true =>
      exact hs₅.bind rfl fun _ s₆ hs₆ => hs₆.bind (hblock _ s₆ hs₆) fun _ _ _ => rfl

/-! ## Progress -/

/-- What the recursions and the loops of the parser do at `s`, so that they come to an end. -/
structure Advances (s : ParseState) : Prop where
  /-- An expression has a token, or one error is recorded where it breaks off. -/
  expression : ∀ depth min, s.budget ≤ depth →
    exprAt depth min s = exprAt s.budget min s ∧
      Decides (exprAt depth min) s fun _ after => after.length < s.rest.length
  /-- A statement calls for its blocks and branches only where fewer tokens are left. -/
  statement : ∀ (block block' : List Keyword → Parser Block)
    (branches branches' : Parser (List (Expr × Block))) [∀ ends, Forward (block ends)]
    [Forward branches], (∀ ends s₁, Under s s₁ → block ends s₁ = block' ends s₁) →
    (∀ s₁, Under s s₁ → branches s₁ = branches' s₁) →
    (Form.ofKinds s.current.kind s.following.kind).rule block branches s =
      (Form.ofKinds s.current.kind s.following.kind).rule block' branches' s
  /-- A turn of the loop over statements reads a token. -/
  turn : s.rest ≠ [] → ∀ depth, (turn depth s).2.rest.length < s.rest.length
  /-- The loop over statements ends at one of its keywords or at the end of the source. -/
  block : ∀ depth ends, s.budget ≤ depth →
    statements depth ends s = statements s.budget ends s ∧
      ∃ b s', statements depth ends s = (some b, s') ∧
        (headKind s'.rest = .endOfFile ∨ isOneOf ends (headKind s'.rest) = true)
  /-- A turn of the loop over branches reads a token. -/
  branch : ∀ s', eat (.keyword .CASE) s = (some true, s') → s'.rest.length < s.rest.length

theorem advances (hs : s.Closed) : Advances s where
  expression := by
    intro depth min hd
    refine ⟨exprAt_depth min hs hd (Nat.le_refl _), ?_⟩
    exact ((exprAt_decides depth).1 min s hs hd).mono fun _ _ _ h => h.1.length_lt
  statement := fun _ _ _ _ _ _ hblock hbranches => Form.rule_congr hs hblock hbranches
  turn := fun hr depth => turn_consumes depth hs hr
  block := by
    intro depth ends hd
    refine ⟨statements_depth ends hs hd (Nat.le_refl _), statements_total ends hs ?_⟩
    rw [ParseState.budget] at hd
    omega
  branch := by
    intro s' h
    rw [eat_run] at h
    split at h
    · next hk =>
      obtain ⟨t, ts, hr, -⟩ := cons_of_kind hs (by rw [hk]; decide)
      cases h
      rw [hr]
      exact Nat.lt_succ_self _
    · cases h

end Parser

/-! ## Texts -/

open Xbase.Parser

/-- A text is read to its end. All of it has been asked for by then: the window of the parser is at
the end of the source, and it has the first fault of the text if there is one. That fault is
returned because the window has it, whatever the syntax errors; otherwise what was read is returned.
No number is a syntax error. On the way, the window always shows the next two tokens, and each
recursion and each loop makes progress. -/
theorem parse_total (text : String) :
    (∃ (parsed : Parsed) (s : ParseState) (w : Window),
      (∀ depth, (ParseState.ofStream (.ofText text)).budget ≤ depth →
        statements depth [] (.ofStream (.ofText text)) = (some parsed.program, s)) ∧
      s = ⟨[], (TokenStream.ofText text).stop, parsed.errors⟩ ∧
      (∀ x ∈ parsed.errors, ∀ lexeme, x.fault ≠ .invalidNumber lexeme) ∧
      w = (Lexer.ofText text).windowAt s ∧ w.current.kind = .endOfFile ∧
      (w.fatal = none → w.lexer.rest = []) ∧
      (∀ e, w.fatal = some e ↔ (Lexer.ofText text).Meets e) ∧
      (∀ e, w.fatal = some e → parse text = .error e) ∧
      (w.fatal = none → parse text = .ok parsed)) ∧
    (∀ e, parse text = .error e ↔ (Lexer.ofText text).Meets e) ∧
    (∀ s : ParseState, s.rest <:+ (TokenStream.ofText text).tokens →
      s.stop = (TokenStream.ofText text).stop →
      ((Lexer.ofText text).windowAt s).Shows (TokenStream.ofText text).fault s) ∧
    ∀ s : ParseState, s.Closed → Advances s := by
  have hclosed : (ParseState.ofStream (.ofText text)).Closed := (Lexer.ofText text).stream_stop
  obtain ⟨b, errors, hrun⟩ := (Lexer.ofText text).program_total
  have hnumbers := program_errors_ne_invalidNumber text
  rw [TokenStream.ofText, hrun] at hnumbers
  obtain ⟨hshows, hdone⟩ := (Lexer.ofText text).windowAt_done
  rw [hrun] at hshows hdone
  refine ⟨⟨⟨b, errors⟩, _, _, fun depth hd => ?_, rfl, hnumbers, rfl, ?_, fun hnone => ?_,
    fun e => ?_, fun e he => ?_, fun hnone => ?_⟩, fun e => parse_error_iff.trans
      Lexer.stream_fault_iff, fun s hrest hstop => Lexer.windowAt_shows hrest hstop,
    fun s hs => advances hs⟩
  · exact ((advances hclosed).block depth [] hd).1.trans hrun
  · exact (congrArg Token.kind hshows.current).trans (Lexer.ofText text).stream_stop
  · exact hdone.rest (hdone.fatal.symm.trans hnone)
  · exact hdone.fatal ▸ Lexer.stream_fault_iff
  · exact parse_error_iff.2 (hdone.fatal.symm.trans he)
  · rw [parse_of_fault_none (hdone.fatal.symm.trans hnone), TokenStream.ofText, hrun]
    rfl

end Xbase
