import Xbase.Proofs.Grammar.Accepts
import Xbase.Proofs.Parser.Viable.Statement

/-!
# Unfinished programs in a session

A session collects lines as long as the program they make up stops too early. Let the first lines of
a program be free of lexical faults, and let the whole program be free of errors. Then the session
runs the first lines or waits for more of them, except in two cases (`parse_unfinished`): the lines
stop where a name has to follow, or behind a `DO`. Each of these leaves one error, by which the
session does not recognise the early end, and it rejects the lines. A blank line is meant to end the
waiting: what is unfinished in front of one is rejected, too.

* `IsLines`: the texts that are made of whole lines.
* `Repl.Takes`: the session runs what it has read, or waits for more.
* `parse_unfinished_rejected`: the first case does occur.
-/

namespace Xbase

open Repl Xbase.Parser

/-! ## Whole lines -/

/-- The text is made of whole lines. -/
def IsLines (text : String) : Prop :=
  ∀ c ∈ text.toList.getLast?, c = '\n'

theorem IsLines.cases {text : String} (h : IsLines text) :
    text = "" ∨ ∃ first, text = first ++ "\n" := by
  rcases List.eq_nil_or_concat text.toList with hnil | ⟨cs, c, hcs⟩
  · left
    rw [← String.ofList_toList (s := text), hnil]
  · right
    have hc : c = '\n' := h c (by rw [hcs]; simp)
    refine ⟨String.ofList cs, ?_⟩
    rw [← String.ofList_toList (s := text), hcs, hc, List.concat_eq_append, String.ofList_append]

/-- What stands behind whole lines adds tokens to theirs and changes none of them. -/
theorem IsLines.extend {text : String} (hlines : IsLines text)
    (h : (TokenStream.ofText text).fault = none) (rest : String) :
    ∃ more : TokenStream, more.stop.kind = .endOfFile ∧
      ParseState.ofStream (.ofText (text ++ rest)) =
        (ParseState.ofStream (.ofText text)).extend more := by
  obtain rfl | ⟨first, rfl⟩ := hlines.cases
  · refine ⟨.ofText rest, (Lexer.ofText rest).stream_stop, ?_⟩
    have hempty : (TokenStream.ofText "").tokens = [] := by
      rw [TokenStream.ofText, Lexer.stream_none rfl]
    rw [String.empty_append, ParseState.extend, ParseState.ofStream, ParseState.ofStream, hempty,
      List.nil_append]
  · refine ⟨(TokenStream.ofText rest).move (.past (first ++ "\n")), ?_, ?_⟩
    · exact (Lexer.ofText rest).stream_stop
    · rw [TokenStream.ofText_append (TokenStream.ofText_newline_fault h) rest]
      rfl

/-! ## Sessions -/

namespace Repl

/-- With this line, the session runs the program `p` that it has read, or it waits for more. -/
def Takes (fuel : Nat) (r : Repl) (line : String) (p : Program) : Prop :=
  r.feed fuel line = some (r.run fuel (r.pending ++ line) p) ∨
    r.feed fuel line = some ({ r with pending := r.pending ++ line }, .empty)

/-- A line that is a program, and no blank or command. -/
def IsInput (r : Repl) (line : String) : Prop :=
  isBlankLine line = false ∧ ¬ (r.pending.isEmpty = true ∧ isQuit line = true)

variable {r : Repl} {line : String} {parsed : Parsed}

/-- What becomes of a line is decided by the errors of the lines so far. -/
theorem feed_ok (fuel : Nat) (hline : IsInput r line) (h : parse (r.pending ++ line) = .ok parsed) :
    r.feed fuel line =
      if parsed.errors.isEmpty then some (r.run fuel (r.pending ++ line) parsed.program)
      else if isIncomplete parsed.errors then
        some ({ r with pending := r.pending ++ line }, .empty)
      else
        some ({ r with pending := "" }, .complaints (parsed.errors.map SyntaxError.message)) := by
  obtain ⟨hblank, hquit⟩ := hline
  unfold feed
  rw [if_neg (by simp [hblank]), if_neg hquit]
  simp [h, hblank]

/-- A blank line ends the waiting: lines with an error are rejected, whatever the error. -/
theorem feed_blank (fuel : Nat) (hpending : r.pending.isEmpty = false)
    (hline : isBlankLine line = true) (h : parse (r.pending ++ line) = .ok parsed)
    (herrors : parsed.errors ≠ []) :
    r.feed fuel line =
      some ({ r with pending := "" }, .complaints (parsed.errors.map SyntaxError.message)) := by
  unfold feed
  simp [hpending, hline, h, herrors]

theorem Tolerates.takes (fuel : Nat) (hline : IsInput r line)
    (h : parse (r.pending ++ line) = .ok parsed) (herrors : Tolerates parsed.errors) :
    Takes fuel r line parsed.program := by
  rw [Takes, feed_ok fuel hline h]
  by_cases hnil : parsed.errors = []
  · left
    simp [hnil]
  · right
    have hincomplete := herrors.resolve_left hnil
    simp [hnil, hincomplete]

end Repl

/-! ## Unfinished programs -/

/-- The errors of lines that are read without an error when more text follows. -/
theorem IsLines.parse_early {text rest : String} {parsed whole : Parsed} (hlines : IsLines text)
    (h : parse text = .ok parsed) (hwhole : parse (text ++ rest) = .ok whole)
    (herrors : whole.errors = []) : Early (TokenStream.ofText text).tokens parsed.errors := by
  obtain ⟨hlex, rfl⟩ := parse_ok h
  obtain ⟨-, rfl⟩ := parse_ok hwhole
  obtain ⟨more, hstop, hextend⟩ := hlines.extend hlex rest
  have hsilent : (program ((ParseState.ofStream (.ofText text)).extend more)).2.errors = [] := by
    rw [← hextend]
    exact herrors
  have hclosed := ParseState.ofStream_closed (Lexer.ofText text)
  obtain ⟨new, hnew, hearly⟩ := program_early hclosed hstop hsilent
  show Early _ (program (.ofStream (.ofText text))).2.errors
  rw [show (program (.ofStream (.ofText text))).2.errors = new from hnew]
  exact hearly

/-- Let a text be made of whole lines and have no lexical fault, and let it be read without an error
when more text follows. Then its errors are none or are due to its early end, unless it stops where
a name has to follow or behind a `DO`; and a session that has read these lines runs them or waits
for more, if the last of them is neither blank nor a command. A blank line puts an end to the
waiting, so a session rejects what is unfinished in front of one. -/
theorem parse_unfinished {text rest : String} {whole : Parsed} (hlines : IsLines text)
    (hlex : (TokenStream.ofText text).fault = none) (hwhole : parse (text ++ rest) = .ok whole)
    (herrors : whole.errors = []) :
    ∃ parsed, parse text = .ok parsed ∧
      (Tolerates parsed.errors ∧
          (∀ (fuel : Nat) (r : Repl) (line : String), r.pending ++ line = text → IsInput r line →
            Takes fuel r line parsed.program) ∨
        ∃ x, parsed.errors = [x] ∧ Abrupt (TokenStream.ofText text).tokens x) ∧
      ∀ (fuel : Nat) (r : Repl) (line : String), r.pending ++ line = text →
        r.pending.isEmpty = false → isBlankLine line = true → parsed.errors ≠ [] →
        r.feed fuel line =
          some ({ r with pending := "" }, .complaints (parsed.errors.map SyntaxError.message)) := by
  obtain ⟨parsed, hparse⟩ : ∃ parsed, parse text = .ok parsed := ⟨_, parse_of_fault_none hlex⟩
  refine ⟨parsed, hparse, ?_, fun fuel r line hread hpending hline hne =>
    feed_blank fuel hpending hline (hread ▸ hparse) hne⟩
  obtain htolerates | habrupt := hlines.parse_early hparse hwhole herrors
  · refine .inl ⟨htolerates, fun fuel r line hread hline => ?_⟩
    exact htolerates.takes fuel hline (hread ▸ hparse)
  · exact .inr habrupt

/-- A condition that goes on in the next line, in a case distinction that is not closed. -/
theorem parse_unfinished_case :
    IsLines "DO CASE\nCASE a ;\n" ∧ (TokenStream.ofText "DO CASE\nCASE a ;\n").fault = none ∧
    ∃ whole, parse ("DO CASE\nCASE a ;\n" ++ "= 1\n? a\nENDCASE\n") = .ok whole ∧
      whole.errors = [] ∧
      ∃ parsed, parse "DO CASE\nCASE a ;\n" = .ok parsed ∧
        (Tolerates parsed.errors ∧
            (∀ (fuel : Nat) (r : Repl) (line : String),
              r.pending ++ line = "DO CASE\nCASE a ;\n" → IsInput r line →
              Takes fuel r line parsed.program) ∨
          ∃ x, parsed.errors = [x] ∧
            Abrupt (TokenStream.ofText "DO CASE\nCASE a ;\n").tokens x) ∧
        ∀ (fuel : Nat) (r : Repl) (line : String),
          r.pending ++ line = "DO CASE\nCASE a ;\n" → r.pending.isEmpty = false →
          isBlankLine line = true → parsed.errors ≠ [] →
          r.feed fuel line = some ({ r with pending := "" },
            .complaints (parsed.errors.map SyntaxError.message)) := by
  have hlines : IsLines "DO CASE\nCASE a ;\n" := by simp [IsLines]
  have hlex : (TokenStream.ofText "DO CASE\nCASE a ;\n").fault = none := by cbv
  have hwhole : (TokenStream.ofText ("DO CASE\nCASE a ;\n" ++ "= 1\n? a\nENDCASE\n")).fault =
      none := by cbv
  have herrors : (program (.ofStream (.ofText
      ("DO CASE\nCASE a ;\n" ++ "= 1\n? a\nENDCASE\n")))).2.errors = [] := by cbv
  exact ⟨hlines, hlex, _, parse_of_fault_none hwhole, herrors,
    parse_unfinished hlines hlex (parse_of_fault_none hwhole) herrors⟩

/-- The opening line of a group of declarations is rejected, although the group is a program. -/
theorem parse_unfinished_rejected :
    (∃ whole, parse ("PUBLIC (\n" ++ "x\n)\n") = .ok whole ∧ whole.errors = []) ∧
    ∃ parsed, parse "PUBLIC (\n" = .ok parsed ∧ ¬ Tolerates parsed.errors ∧
      ∀ fuel, start.feed fuel "PUBLIC (\n" = some (start,
        .complaint "Syntax error at (2:1) expected a name but found EOF.") := by
  have hlex : (TokenStream.ofText "PUBLIC (\n").fault = none := by cbv
  have hwhole : (TokenStream.ofText ("PUBLIC (\n" ++ "x\n)\n")).fault = none := by cbv
  have herrors : (program (.ofStream (.ofText "PUBLIC (\n"))).2.errors =
      [⟨.nonIdentifier .endOfFile, ⟨9, 0⟩, 2, 1⟩] := by cbv
  have hparse := parse_of_fault_none hlex
  rw [herrors] at hparse
  refine ⟨⟨_, parse_of_fault_none hwhole, by cbv⟩, _, hparse, by decide, fun fuel => ?_⟩
  have hquit : isQuit "PUBLIC (\n" = false := by cbv
  have hline : IsInput start "PUBLIC (\n" := ⟨by cbv, by simp [hquit]⟩
  have hread : start.pending ++ "PUBLIC (\n" = "PUBLIC (\n" := String.empty_append
  rw [← hread] at hparse
  rw [feed_ok fuel hline hparse]
  rfl

/-- So is a `DO` whose `WHILE` stands in the next line. -/
example :
    (program (.ofStream (.ofText ("DO ;\n" ++ "WHILE .F.\nENDDO\n")))).2.errors = [] ∧
    (program (.ofStream (.ofText "DO ;\n"))).2.errors =
      [⟨.nonExpression (.keyword .DO), ⟨0, 2⟩, 1, 1⟩] := by
  constructor <;> cbv

end Xbase
