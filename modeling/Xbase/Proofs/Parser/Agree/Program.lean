import Xbase.Proofs.Parser.Agree.Statement

/-!
# Programs in a longer text

The loop over statements, in a longer text: it does the same turns (`Parser.turn_agrees`), and where
it ends with the tokens, the loop in the longer text goes on with the lines that follow
(`Parser.Resumes`).

* `Parser.statements_agree`: all parsers of statements agree, at any two depths that are enough;
* `Parser.statements_place`: with nothing behind them, statements are read alike in any place and at
  any depth that is enough.
-/

namespace Xbase

/-- The state in the longer text in which the next line starts. -/
def Context.resume (K : Context) (s : ParseState) : ParseState :=
  ⟨K.behind.later, K.behind.stop (s.stop.move K.move),
    K.before ++ s.errors.map (SyntaxError.move K.move)⟩

namespace Parser

variable {α : Type} {K : Context} {s : ParseState} {d d' : Nat}

/-! ## Turns -/

/-- Where the line is the last one, the longer text has the line break behind it. -/
theorem skipLine_place (hs : K.Meets s) :
    (skipLine (K.place s)).2 = K.place (skipLine s).2 ∧ K.Meets (skipLine s).2 := by
  have hsuffix : s.rest.dropWhile (·.kind ≠ .newline) <:+ s.rest := List.dropWhile_suffix _
  have hplace := K.dropWhile_place (· ≠ .newline) s
  have hresult (hrest : (K.place s).rest.dropWhile (·.kind ≠ .newline) =
      (s.rest.dropWhile (·.kind ≠ .newline)).map (Token.move K.move) ++ K.behind.tokens) :
      (skipLine (K.place s)).2 = K.place (skipLine s).2 := by
    rw [skipLine, hrest]
    rfl
  by_cases hnil : s.rest.dropWhile (·.kind ≠ .newline) = []
  · obtain ⟨htokens, hfits⟩ := hs.fits.dropWhile hnil
    rw [hnil] at hplace hresult
    refine ⟨hresult (hplace.trans htokens), hs.closed, hs.suits.suffix hsuffix, ?_⟩
    exact (congrArg (Sequel.Fits · K.behind) hnil).mpr hfits
  · rw [if_neg (by simpa using hnil)] at hplace
    exact ⟨hresult hplace, hs.closed, hs.suits.suffix hsuffix, hs.fits.suffix hsuffix hnil⟩

/-- A line break is read in both texts, or else it is the one that follows. -/
theorem eatNewline_place (hs : K.Meets s) :
    K.Meets (eat .newline s).2 ∧ K.Sees (eat .newline s).2 ∧
        (eat .newline (K.place s)).2 = K.place (eat .newline s).2 ∨
      K.behind ≠ .nothing ∧ (eat .newline s).2.rest = [] ∧
        (eat .newline (K.place s)).2 = K.resume (eat .newline s).2 := by
  by_cases hhead : headKind s.rest = .newline
  · obtain ⟨t, ts, hr, ht⟩ := exists_cons_of_headKind hhead (by decide)
    rw [eat_true hr ht, eat_true (Context.place_cons hr) ht]
    have hsuits : K.Suits ts := hs.suits.suffix (suffix_of_cons hr)
    have hfits := hs.fits
    rw [hr] at hfits
    by_cases hts : ts = []
    · subst hts
      cases hbehind : K.behind with
      | nothing =>
        exact .inl ⟨⟨hs.closed, hsuits, by rw [hbehind]; trivial⟩, .inr hbehind, rfl⟩
      | lines us stop =>
        refine .inr ⟨nofun, rfl, ?_⟩
        simp only [Context.place, Context.resume, hbehind]
        rfl
      | newline t' us stop =>
        rw [hbehind] at hfits
        exact absurd ht (hfits.2 t rfl)
    · exact .inl ⟨⟨hs.closed, hsuits, hfits.suffix (List.suffix_cons t ts) hts⟩, .inl hts, rfl⟩
  · rw [eat_false hs.closed hhead]
    by_cases hsees : K.Sees s
    · refine .inl ⟨hs, hsees, ?_⟩
      have hcurrent : (K.place s).current.kind ≠ .newline := by
        rw [Context.current_place hsees]
        exact (ParseState.current_kind hs.closed).trans_ne hhead
      rw [eat_run, if_neg hcurrent]
    · obtain ⟨hr, more, hk⟩ := hs.unseen hsees
      refine .inr ⟨more, hr, ?_⟩
      rw [eat_run, if_pos hk]
      have hfits := hs.fits
      rw [hr] at hfits
      cases hbehind : K.behind with
      | nothing => exact absurd hbehind more
      | lines us stop =>
        rw [hbehind] at hfits
        obtain ⟨t, ht, -⟩ := hfits
        cases ht
      | newline t' us stop =>
        simp only [Context.place, Context.resume, hbehind, hr]
        rfl

/-- A turn reads the same statement or skips the same line, unless an error at the end of the source
is recorded. Behind the last turn, the longer text goes on with the next line. -/
theorem turn_agrees (ih : StatementAgrees K d) (hs : K.Meets s) (hd : Covers K 1 d d' s) :
    K.behind ≠ .nothing ∧ EndError (turn d) s ∨
      ∃ first? first?' s₁ s₁', turn d s = (some first?, s₁) ∧
        turn d' (K.place s) = (some first?', s₁') ∧ K.Same first? first?' ∧
        (K.Meets s₁ ∧ K.Sees s₁ ∧ s₁' = K.place s₁ ∨
          K.behind ≠ .nothing ∧ s₁.rest = [] ∧ s₁' = K.resume s₁) := by
  have hmeets {a? : Option Statement} {s₁ : ParseState} (run : statement d s = (a?, s₁))
      (fits : K.behind.Fits s₁.rest) : K.Meets s₁ := by
    have hforward : Forward (statement d) := inferInstance
    have hstop := hforward.stop s
    have hrest := hforward.rest s
    rw [run] at hstop hrest
    exact ⟨(congrArg Token.kind hstop).trans hs.closed, hs.suits.suffix hrest, fits⟩
  cases ih d' s hs hd with
  | @read a a' s₁ run run' same fits =>
    refine .inr ⟨some a, some a', _, _, ?_, ?_, congrArg some same,
      eatNewline_place (hmeets run fits)⟩
    · rw [turn_run, afterStatement, run]
    · rw [turn_run, afterStatement, run']
  | @failed s₁ run run' fits =>
    obtain ⟨hskip, hmeets'⟩ := skipLine_place (hmeets run fits)
    refine .inr ⟨none, none, _, _, ?_, ?_, rfl, eatNewline_place hmeets'⟩
    · rw [turn_run, afterStatement, run]
    · rw [turn_run, afterStatement, run']
      dsimp only
      rw [hskip]
  | ended more h =>
    refine .inl ⟨more, ?_⟩
    obtain h | ⟨he, -⟩ := h
    · have hattempt : EndError (attempt (statement d)) s := h
      exact hattempt.bind
    · cases he

/-! ## Loops -/

/-- Statements are read up to the last token, and in the longer text they go on with the next
line. -/
def Resumes (K : Context) (ends : List Keyword) (d d' : Nat) (s : ParseState) : Prop :=
  K.behind ≠ .nothing ∧ ∃ b b' s₁ k, statements d ends s = (some b, s₁) ∧ s₁.rest = [] ∧
    K.Same b b' ∧ 2 * K.behind.later.length + 2 ≤ k ∧
    statements d' ends (K.place s) =
      (statements k ends >>= fun more => pure (b' ++ more)) (K.resume s₁)

/-- Loops agree at the depth `d`, if the depth is enough, or one resumes the other. -/
def LoopAgrees (K : Context) (d : Nat) : Prop :=
  ∀ (ends : List Keyword) (d' : Nat) (s : ParseState), K.Meets s → K.Sees s → Covers K 2 d d' s →
    Agrees K false (statements d ends) (statements d' ends) s ∨ Resumes K ends d d' s

theorem StatementAgrees.loop (ihStatement : StatementAgrees K d) (ih : LoopAgrees K d) :
    LoopAgrees K (d + 1) := by
  intro ends d' s hs hsees hd
  obtain ⟨d', rfl⟩ := hd.exists_succ
  have hkind : (K.place s).current.kind = s.current.kind := by
    rw [Context.current_place hsees]
    rfl
  by_cases hend : s.current.kind = .endOfFile || isOneOf ends s.current.kind
  · have hrun : statements (d + 1) ends s = (some [], s) := by rw [statements_succ, if_pos hend]
    have hrun' : statements (d' + 1) ends (K.place s) = (some [], K.place s) := by
      rw [statements_succ, hkind, if_pos hend]
    exact .inl (.read hrun hrun' rfl hs.fits)
  · have hrun : statements (d + 1) ends s = (turn d >>= fun first? => statements d ends >>=
        fun more => pure (first?.toList ++ more)) s := by
      rw [statements_succ, if_neg hend]
    have hrun' : statements (d' + 1) ends (K.place s) = (turn d' >>= fun first? =>
        statements d' ends >>= fun more => pure (first?.toList ++ more)) (K.place s) := by
      rw [statements_succ, hkind, if_neg hend]
    obtain ⟨more, herror⟩ | ⟨first?, first?', s₁, s₁', hturn, hturn', same, hcases⟩ :=
      turn_agrees ihStatement hs hd.call
    · exact .inl (.ended more (.inl (herror.bind.step (congrArg Prod.snd hrun) rfl)))
    rw [bind_some hturn] at hrun
    rw [bind_some hturn'] at hrun'
    have hr : s.rest ≠ [] := fun hr => hend (by rw [current_kind_end hs.closed hr]; rfl)
    have hlen := List.length_pos_iff.2 hr
    have hstop : s₁.stop = s.stop := by
      have := (inferInstance : Forward (turn d)).stop s
      rwa [hturn] at this
    obtain ⟨hs₁, hsees₁, rfl⟩ | ⟨more, hr₁, rfl⟩ := hcases
    · have hlt : s₁.rest.length < s.rest.length := by
        have := turn_consumes d hs.closed hr
        rwa [hturn] at this
      obtain hagrees | ⟨more, b, b', s₂, k, hb, hr₂, sameb, hk, hb'⟩ :=
        ih ends d' s₁ hs₁ hsees₁ (hd.read hlt).weaken
      · exact .inl (Agrees.step hrun hrun' hstop
          (hagrees.bind hs₁ fun _ _ _ _ sames hs₂ _ => .pure hs₂ (same.toList.append sames)))
      · refine .inr ⟨more, first?.toList ++ b, first?'.toList ++ b', s₂, k, ?_, hr₂,
          same.toList.append sameb, hk, ?_⟩
        · rw [hrun, bind_some hb]
          rfl
        · rw [hrun', bind_run, hb', bind_run, bind_run]
          obtain ⟨_ | rest, s₃⟩ := statements k ends (K.resume s₂)
          · rfl
          · simp
    · obtain ⟨d, rfl⟩ : ∃ c, d = c + 1 := ⟨d - 1, by have := hd.here; omega⟩
      have hclosed : s₁.Closed := (congrArg Token.kind hstop).trans hs.closed
      refine .inr ⟨more, first?.toList, first?'.toList, s₁, d', ?_, hr₁, same.toList, ?_, hrun'⟩
      · rw [hrun, bind_some (statements_nil hclosed hr₁), List.append_nil]
        rfl
      · have := hd.there
        have := K.behind.length_later_le
        omega

/-- A block lacks its closing keyword where the loop comes to the end of the tokens. -/
theorem LoopAgrees.block (h : LoopAgrees K d) : BlockAgrees K d := by
  intro ends d' s hs hd
  by_cases hsees : K.Sees s
  · obtain hagrees | ⟨more, b, -, s₁, -, hb, hr, -⟩ := h ends d' s hs hsees hd
    · exact hagrees.weaken
    · exact .ended more (.inr ⟨rfl, b, s₁, hb, hr⟩)
  · obtain ⟨hr, more, -⟩ := hs.unseen hsees
    obtain ⟨d, rfl⟩ : ∃ c, d = c + 1 := ⟨d - 1, by have := hd.here; omega⟩
    exact .ended more (.inr ⟨rfl, [], s, statements_nil hs.closed hr, hr⟩)

/-- Where the depth is enough, the parsers of statements agree. -/
theorem statements_agree (K : Context) (d : Nat) :
    StatementAgrees K d ∧ LoopAgrees K d ∧ CasesAgree K d := by
  induction d with
  | zero =>
    exact ⟨fun _ _ _ h => absurd h.here (by omega), fun _ _ _ _ _ h => absurd h.here (by omega),
      fun _ _ _ h => absurd h.here (by omega)⟩
  | succ d ih =>
    obtain ⟨ihStatement, ihLoop, ihCases⟩ := ih
    exact ⟨ihLoop.block.statement ihCases, ihStatement.loop ihLoop, .succ ihLoop.block ihCases⟩

/-- With nothing behind them, statements are read alike in any place and at any depth that is
enough. -/
theorem statements_place (hK : K.behind = .nothing) (hs : K.Meets s) (ends : List Keyword)
    (hd : 2 * s.rest.length + 2 ≤ d) (hd' : 2 * s.rest.length + 2 ≤ d') :
    ∃ b b' s₁, statements d ends s = (some b, s₁) ∧
      statements d' ends (K.place s) = (some b', K.place s₁) ∧ K.Same b b' := by
  have hcovers : Covers K 2 d d' s := ⟨hd, by rw [hK]; exact hd'⟩
  obtain ⟨b, s₁, htotal, -⟩ := statements_total ends hs.closed (by omega : _ < d)
  obtain hagrees | ⟨more, -⟩ := (statements_agree K d).2.1 ends d' s hs (.inr hK) hcovers
  · cases hagrees with
    | read run run' same fits => exact ⟨_, _, _, run, run', same⟩
    | failed run run' fits =>
      rw [htotal] at run
      cases run
    | ended more _ => exact absurd hK more
  · exact absurd hK more

end Parser

end Xbase
