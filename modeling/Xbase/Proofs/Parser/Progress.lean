import Xbase.Proofs.Parser.Statement

/-!
# Parsers make progress

`Parser.Consumes p s`: if `p` succeeds at `s`, it has read a token. It holds of every statement,
whatever the depth of the recursion. The first tokens say which form a statement has
(`Parser.Form`), and each form has its rule (`Parser.statement_succ`).

The loop over statements is a sequence of turns (`Parser.turn`, `Parser.statements_succ`): a turn
reads a statement, or skips the line where there is none. A turn reads a token in either case
(`Parser.turn_consumes`), and so the loop ends.
-/

namespace Xbase.Parser

variable {α β : Type} {s : ParseState}

-- The rules of the compound statements are long sequences.
set_option synthInstance.maxSize 1000

/-- If `p` succeeds at `s`, there are fewer tokens left. -/
def Consumes (p : Parser α) (s : ParseState) : Prop :=
  ∀ a s', p s = (some a, s') → s'.rest.length < s.rest.length

namespace Consumes

variable {p : Parser α} {f : α → Parser β}

/-- What is read stays read. -/
theorem bind [ff : ∀ a, Forward (f a)] (hp : Consumes p s) : Consumes (p >>= f) s := by
  intro b s' h
  rw [bind_run] at h
  split at h
  · next a s₁ hr =>
    have hle := (ff a).rest s₁
    rw [h] at hle
    exact Nat.lt_of_le_of_lt hle.length_le (hp a s₁ hr)
  · cases h

theorem advance (hs : s.Closed) (h : s.current.kind ≠ .endOfFile) : Consumes Parser.advance s := by
  obtain ⟨t, ts, hr, -⟩ := cons_of_kind hs h
  intro a s' h
  rw [advance_of_cons hr] at h
  cases h
  rw [hr]
  exact Nat.lt_succ_self _

end Consumes

theorem expression_consumes (hs : s.Closed) : Consumes expression s := by
  intro e s' h
  obtain ⟨e', after, hrun, -, hphrase, -⟩ | ⟨fault, after, hrun, -⟩ := expression_decides hs
  · rw [hrun] at h
    cases h
    exact hphrase.length_lt
  · rw [hrun] at h
    cases h

theorem declaration_consumes {v : Visibility} (hs : s.Closed)
    (hk : s.current.kind ≠ .endOfFile) : Consumes (declaration v) s := by
  have := declared_forward v
  unfold declaration
  exact (Consumes.advance hs hk).bind

/-! ## Forms of statements -/

/-- The forms of statements. -/
inductive Form where
  | declaration (visibility : Visibility)
  | function
  | ret
  | ifThen
  | doCase
  | doWhile
  | whileOnly
  | exit
  | loop
  | print
  | expr

namespace Form

/-- The form of a statement by the kinds of its first two tokens. -/
def ofKinds (first second : Kind) : Form :=
  match first with
  | .keyword .LOCAL => declaration .loc
  | .keyword .PRIVATE => declaration .priv
  | .keyword .PUBLIC => declaration .pub
  | .keyword .FUNCTION => function
  | .keyword .RETURN => ret
  | .keyword .IF => ifThen
  | .keyword .DO =>
    if second = .keyword .CASE then doCase
    else if second = .keyword .WHILE then doWhile
    else expr
  | .keyword .WHILE => whileOnly
  | .keyword .EXIT => exit
  | .keyword .LOOP => loop
  | .symbol .question => print
  | _ => expr

/-- How a statement is read, with `block` for the blocks and `branches` for the branches in it. -/
def rule (block : List Keyword → Parser Block) (branches : Parser (List (Expr × Block))) :
    Form → Parser Statement
  | declaration v => Parser.declaration v
  | function => do
    let _ ← advance
    let name ← ident
    let params ← parameters
    demand .newline
    let body ← block [.ENDFUNC]
    demand (.keyword .ENDFUNC)
    return .function name params body
  | ret => returnStatement
  | ifThen => do
    let _ ← advance
    let condition ← expression
    let _ ← eat (.keyword .THEN)
    demand .newline
    let yes ← block [.ELSE, .ENDIF]
    if ← eat (.keyword .ELSE) then
      demand .newline
      let no ← block [.ENDIF]
      demand (.keyword .ENDIF)
      return .ifThen condition yes (some no)
    else
      demand (.keyword .ENDIF)
      return .ifThen condition yes none
  | doCase => do
    let _ ← advance
    let _ ← advance
    demand .newline
    let branches ← branches
    if ← eat (.keyword .OTHERWISE) then
      demand .newline
      let otherwise ← block [.ENDCASE]
      endCase
      return .doCase branches (some otherwise)
    else
      endCase
      return .doCase branches none
  | doWhile => do
    let _ ← advance
    whileLoop (block [.ENDDO])
  | whileOnly => whileLoop (block [.ENDDO])
  | exit => do return .exit (← advance).span
  | loop => do return .loop (← advance).span
  | print => printStatement
  | expr => do return .expr (← expression)

end Form

/-- A statement is read by the rule of its form. -/
theorem statement_succ (d : Nat) (s : ParseState) :
    statement (d + 1) s =
      (Form.ofKinds s.current.kind s.following.kind).rule (statements d) (cases d) s := by
  unfold statement
  rw [bind_some (current_run s)]
  generalize s.current.kind = k
  cases k with
  | keyword w =>
    by_cases hw : w = .DO
    · -- The keyword behind `DO` decides.
      subst hw
      refine (bind_some (following_run s)).trans ?_
      generalize s.following.kind = k
      cases k with
      | keyword w => cases w <;> rfl
      | _ => rfl
    · cases w <;> first | rfl | exact absurd rfl hw
  | symbol y => cases y <;> rfl
  | _ => rfl

/-- A statement that is read has a token. -/
theorem statement_consumes (d : Nat) (hs : s.Closed) : Consumes (statement d) s := by
  cases d with
  | zero => exact fun _ _ h => nomatch h
  | succ d =>
    intro a s' h
    rw [statement_succ] at h
    revert a s' h
    change Consumes _ s
    have hexpr : Consumes (Form.expr.rule (statements d) (cases d)) s :=
      (expression_consumes hs).bind
    by_cases hk : s.current.kind = .endOfFile
    · rw [hk]
      exact hexpr
    · -- Every form but the expression begins with a token of its own.
      have hadvance := Consumes.advance hs hk
      cases Form.ofKinds s.current.kind s.following.kind with
      | declaration v => exact declaration_consumes hs hk
      | expr => exact hexpr
      | _ => exact hadvance.bind

/-! ## Turns -/

/-- The end of a line behind a statement, or the rest of the line where there was none. -/
def finishLine : Option Statement → Parser (Option Statement)
  | some first => do
    let _ ← eat .newline
    return some first
  | none => do
    skipLine
    let _ ← eat .newline
    return none

/-- One turn of the loop over statements. -/
def turn (depth : Nat) : Parser (Option Statement) := do
  let first? ← attempt (statement depth)
  finishLine first?

instance (first? : Option Statement) : Forward (finishLine first?) := by
  unfold finishLine
  split <;> infer_instance

instance (d : Nat) : Forward (turn d) := by
  unfold turn
  infer_instance

/-- The state in which a statement has been read, or else the rest of its line has been skipped. -/
def afterStatement (depth : Nat) (s : ParseState) : ParseState :=
  match (statement depth s).1 with
  | some _ => (statement depth s).2
  | none => (skipLine (statement depth s).2).2

theorem eat_fst (k : Kind) (s : ParseState) : ∃ b, (eat k s).1 = some b := by
  rw [eat_run]
  split
  · exact ⟨true, rfl⟩
  · exact ⟨false, rfl⟩

theorem turn_run (d : Nat) (s : ParseState) :
    turn d s = (some (statement d s).1, (eat .newline (afterStatement d s)).2) := by
  unfold turn afterStatement
  rw [bind_some (attempt_run _ s), finishLine.eq_def]
  cases (statement d s).1 with
  | some first =>
    obtain ⟨b, hb⟩ := eat_fst .newline (statement d s).2
    exact bind_some (Prod.ext hb rfl)
  | none =>
    obtain ⟨b, hb⟩ := eat_fst .newline (skipLine (statement d s).2).2
    exact bind_some (Prod.ext hb rfl)

/-- Statements are read by turns until one of the keywords or the end of the source is next. -/
theorem statements_succ (d : Nat) (ends : List Keyword) (s : ParseState) :
    statements (d + 1) ends s =
      if s.current.kind = .endOfFile || isOneOf ends s.current.kind then (some [], s)
      else (do
        let first? ← turn d
        let more ← statements d ends
        return first?.toList ++ more : Parser Block) s := by
  rw [statements, bind_some (current_run s)]
  split
  · rfl
  · rw [bind_some (turn_run d s), bind_some (attempt_run _ s)]
    unfold afterStatement
    cases (statement d s).1 with
    | some first =>
      obtain ⟨b, hb⟩ := eat_fst .newline (statement d s).2
      exact bind_some (Prod.ext hb rfl)
    | none =>
      obtain ⟨b, hb⟩ := eat_fst .newline (skipLine (statement d s).2).2
      have hnone (s : ParseState) :
          (statements d ends >>= fun more => pure ((none : Option Statement).toList ++ more)) s =
            statements d ends s := by
        rw [bind_run]
        obtain ⟨_ | more, s'⟩ := statements d ends s <;> rfl
      rw [hnone]
      exact bind_some (Prod.ext hb rfl)

theorem eat_rest_le (k : Kind) (s : ParseState) : (eat k s).2.rest.length ≤ s.rest.length :=
  ((inferInstance : Forward (eat k)).rest s).length_le

/-- A turn reads a token if there is one. -/
theorem turn_consumes (d : Nat) (hs : s.Closed) (hr : s.rest ≠ []) :
    (turn d s).2.rest.length < s.rest.length := by
  rw [turn_run]
  have hle := ((inferInstance : Forward (statement d)).rest s).length_le
  unfold afterStatement
  cases hfirst : (statement d s).1 with
  | some first =>
    have hlt := statement_consumes d hs first (statement d s).2 (Prod.ext hfirst rfl)
    exact Nat.lt_of_le_of_lt (eat_rest_le _ _) hlt
  | none =>
    -- What is left begins with a line break, which is read, or the line was the last one.
    have hskip := ((inferInstance : Forward skipLine).rest (statement d s).2).length_le
    cases hrest : (skipLine (statement d s).2).2.rest with
    | nil =>
      have hnil := eat_rest_le .newline (skipLine (statement d s).2).2
      rw [hrest] at hnil
      exact Nat.lt_of_le_of_lt hnil (List.length_pos_iff.2 hr)
    | cons t ts =>
      have ht : t.kind = .newline := by
        have hhead := List.head?_dropWhile_not (·.kind ≠ .newline) (statement d s).2.rest
        rw [show (statement d s).2.rest.dropWhile (·.kind ≠ .newline) = t :: ts from hrest] at hhead
        simpa using hhead
      rw [eat_true hrest ht]
      rw [hrest, List.length_cons] at hskip
      exact Nat.lt_of_lt_of_le hskip hle

/-- Statements are read up to one of the keywords or the end of the source, if the depth allows for
a turn at each token. -/
theorem statements_total {d : Nat} (ends : List Keyword) (hs : s.Closed) (hd : s.rest.length < d) :
    ∃ b s', statements d ends s = (some b, s') ∧
      (headKind s'.rest = .endOfFile ∨ isOneOf ends (headKind s'.rest) = true) := by
  induction d generalizing s with
  | zero => omega
  | succ d ih =>
    rw [statements_succ]
    split
    · next hend =>
      rw [ParseState.current_kind hs] at hend
      exact ⟨[], s, rfl, by simpa using hend⟩
    · next hend =>
      have hr : s.rest ≠ [] := by
        intro hr
        apply hend
        rw [ParseState.current_kind hs, hr]
        rfl
      have hlt := turn_consumes d hs hr
      have hstop : (turn d s).2.Closed :=
        (congrArg Token.kind ((inferInstance : Forward (turn d)).stop s)).trans hs
      obtain ⟨more, s', hrun, hend'⟩ := ih hstop (by omega)
      refine ⟨(statement d s).1.toList ++ more, s', ?_, hend'⟩
      rw [turn_run] at hrun
      rw [bind_some (turn_run d s), bind_some hrun]
      rfl

/-- All tokens of a program are read. -/
theorem program_total (hs : s.Closed) (hts : ∀ t ∈ s.rest, t.kind ≠ .endOfFile) :
    ∃ b errors, program s = (some b, ⟨[], s.stop, errors⟩) := by
  obtain ⟨b, s₁, hrun, hend⟩ := statements_total [] hs s.length_lt_budget
  have hforward : Forward program := inferInstance
  have hstop := hforward.stop s
  have hrest := hforward.rest s
  rw [program, hrun] at hstop hrest
  have hnil : s₁.rest = [] := eq_nil_of_headKind (fun t ht => hts t (hrest.subset ht))
    (hend.resolve_right (by simp [isOneOf]))
  exact ⟨b, s₁.errors, hrun.trans (by rw [← hnil, ← hstop])⟩

end Xbase.Parser
