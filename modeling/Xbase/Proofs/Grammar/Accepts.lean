import Xbase.Proofs.Parser.Window

/-!
# The parser accepts exactly the grammar

A text is read without a syntax error if and only if its tokens are those of some program of the
grammar, and then the program that was read is one whose tokens they are. Both directions come from
the two halves for statements, `Parser.statements_silent` and `Grammar.Stmts.runs`; in between, a
derivation is made to let every expression go as far as it can (`Grammar.Stmts.settle`).
-/

namespace Xbase

open Grammar Xbase.Parser

/-- What is read without an error is a program of the grammar, to the last token. -/
theorem isProgram_of_silent {lx : Lexer} (h : (program (.ofStream lx.stream)).2.errors = []) :
    IsProgram lx.stream.tokens ((program (.ofStream lx.stream)).1.getD []) := by
  obtain ⟨p, hp, hstmts, hend⟩ := program_silent (ParseState.ofStream_closed lx) h
  have hsuffix := (program_forward.rest (.ofStream lx.stream))
  have hnil := eq_nil_of_headKind
    (fun t ht => (lx.stream_lexical t (hsuffix.subset ht)).2) hend
  rw [hnil] at hstmts
  rw [hp]
  exact hstmts

/-- The tokens of a program are read without an error. -/
theorem errors_nil_of_isProgram {ts : List Token} {stop : Token} (hs : stop.kind = .endOfFile)
    {p : Program} (h : IsProgram ts p) : (program ⟨ts, stop, []⟩).2.errors = [] := by
  obtain ⟨p', hp'⟩ := h.settle rfl
  have hrun := hp'.runs hs [] (List.nil_subset _) (.inl rfl) (Nat.le_refl _)
  rw [program]
  exact congrArg (·.2.errors) hrun

/-- A text without a fault is read without a syntax error exactly if its tokens are those of a
program, and then the program that is read is one with these tokens, from the first to the last. -/
theorem parse_accepts_grammar (text : String) (h : (TokenStream.ofText text).fault = none) :
    ∃ parsed, parse text = .ok parsed ∧
      (parsed.errors = [] ↔ ∃ p, IsProgram (TokenStream.ofText text).tokens p) ∧
      (parsed.errors = [] → IsProgram (TokenStream.ofText text).tokens parsed.program) := by
  refine ⟨_, parse_of_fault_none h, ⟨fun he => ⟨_, isProgram_of_silent he⟩, ?_⟩,
    fun he => isProgram_of_silent he⟩
  rintro ⟨p, hp⟩
  exact errors_nil_of_isProgram (Lexer.ofText text).stream_stop hp

theorem parse_accepts_grammar_case :
    (TokenStream.ofText "DO CASE\nCASE a -1\n? (b)(2)\nENDCASE").fault = none ∧
    ∃ parsed, parse "DO CASE\nCASE a -1\n? (b)(2)\nENDCASE" = .ok parsed ∧
      (parsed.errors = [] ↔
        ∃ p, IsProgram (TokenStream.ofText "DO CASE\nCASE a -1\n? (b)(2)\nENDCASE").tokens p) ∧
      (parsed.errors = [] → IsProgram
        (TokenStream.ofText "DO CASE\nCASE a -1\n? (b)(2)\nENDCASE").tokens parsed.program) := by
  have h : (TokenStream.ofText "DO CASE\nCASE a -1\n? (b)(2)\nENDCASE").fault = none := by cbv
  exact ⟨h, parse_accepts_grammar _ h⟩

end Xbase
