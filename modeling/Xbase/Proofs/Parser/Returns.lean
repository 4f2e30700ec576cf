import Xbase.Proofs.Parser.Append
import Xbase.Proofs.Token.Returns

/-!
# Programs with carriage returns in front of their line breaks

The parser only copies the places of tokens, so it reads two streams in the same way if they are the
same up to bytes and columns (`TokenStream.Alike.program`). Such are the streams of a text and of
the text with carriage returns.
-/

namespace Xbase

/-- Only the line of a place is left. -/
def Move.lines : Move := ⟨noPlace, id, fun _ => 0⟩

/-- The same program in other places, and the same errors in the same lines. -/
structure Parsed.Alike (p p' : Parsed) : Prop where
  program : Program.map id noPlace p'.program = Program.map id noPlace p.program
  errors : p'.errors.map (fun e => (e.fault, e.line)) = p.errors.map fun e => (e.fault, e.line)

/-- The same fault of the text, or programs and errors that are the same. -/
inductive ReadAlike : (r r' : Except LexError Parsed) → Prop
  | fault {e e' : LexError} (h : e.Alike e') : ReadAlike (.error e) (.error e')
  | parsed {p p' : Parsed} (h : p.Alike p') : ReadAlike (.ok p) (.ok p')

theorem Token.Alike.move_lines {t t' : Token} (h : t.Alike t') :
    t'.move .lines = t.move .lines := by
  simp [Token.move, Move.lines, noPlace, h.kind, h.lexeme, h.line]

theorem Token.Alike.map_move_lines {ts ts' : List Token} (h : List.Forall₂ Token.Alike ts ts') :
    ts'.map (Token.move .lines) = ts.map (Token.move .lines) := by
  induction h with
  | nil => rfl
  | cons h _ ih => rw [List.map_cons, List.map_cons, h.move_lines, ih]

/-- An error without its columns is known by its fault and its line. -/
theorem SyntaxError.map_of_move_lines {errors errors' : List SyntaxError}
    (h : errors'.map (SyntaxError.move .lines) = errors.map (SyntaxError.move .lines)) :
    errors'.map (fun e => (e.fault, e.line)) = errors.map fun e => (e.fault, e.line) := by
  have hmap := congrArg (List.map fun e : SyntaxError => (e.fault, e.line)) h
  simpa [Function.comp_def, SyntaxError.move, Move.lines] using hmap

/-- Streams that are the same up to bytes and columns are read in the same way. -/
theorem TokenStream.Alike.program {ts ts' : TokenStream} (h : ts.Alike ts')
    (hstop : ts.stop.kind = .endOfFile) :
    ∃ b b' s s', Parser.program (.ofStream ts) = (some b, s) ∧
      Parser.program (.ofStream ts') = (some b', s') ∧
      Parsed.Alike ⟨b, s.errors⟩ ⟨b', s'.errors⟩ := by
  have hstop' : ts'.stop.kind = .endOfFile := h.stop.kind.trans hstop
  obtain ⟨b, c, s, hb, hc, hplaces, -⟩ := Parser.program_move .lines []
    (show (ParseState.ofStream ts).Closed from hstop)
  obtain ⟨b', c', s', hb', hc', hplaces', -⟩ := Parser.program_move .lines []
    (show (ParseState.ofStream ts').Closed from hstop')
  -- Without bytes and columns, both are one and the same stream.
  have hsame : (ParseState.ofStream ts').rest.map (Token.move .lines) =
      (ParseState.ofStream ts).rest.map (Token.move .lines) := Token.Alike.map_move_lines h.tokens
  have hend : (ParseState.ofStream ts').stop.move .lines =
      (ParseState.ofStream ts).stop.move .lines := h.stop.move_lines
  rw [hsame, hend] at hc'
  obtain ⟨hprogram, hstate⟩ := Prod.mk.inj (hc'.symm.trans hc)
  obtain ⟨-, -, herrors⟩ := ParseState.mk.inj hstate
  refine ⟨b, b', s, s', hb, hb', ?_, SyntaxError.map_of_move_lines (by simpa using herrors)⟩
  rw [← hplaces, ← hplaces', Option.some.inj hprogram]

/-- Hence so are the texts from which they come. -/
theorem Lexer.parseFrom_alike {lx lx' : Lexer} (h : lx.stream.Alike lx'.stream) :
    ReadAlike (lx.parseFrom (.ofStream lx.stream)) (lx'.parseFrom (.ofStream lx'.stream)) := by
  obtain ⟨b, b', s, s', hb, hb', hparsed⟩ := h.program lx.stream_stop
  have hfault := h.fault
  rw [parseFrom_ofStream, parseFrom_ofStream, hb, hb']
  generalize lx.stream.fault = fault, lx'.stream.fault = fault' at hfault ⊢
  cases hfault with
  | some he => exact .fault he
  | none => exact .parsed hparsed

/-- Strings that the lexer gives when it is asked are those among its items. -/
theorem Lexer.unbrokenStrings_iff (lx : Lexer) : UnbrokenStrings lx.items ↔
    ∀ n t, lx.call n = .ok t → t.kind = .string → '\n' ∉ t.lexeme.toList := by
  constructor
  · intro h n t hcall hk
    refine h t (mem_items_of_call hcall ?_) hk
    rw [hk]
    decide
  · intro h t ht hk
    obtain ⟨n, hn⟩ := exists_call_of_mem ht
    exact h n t hn hk

/-- If no string goes on behind a line break, a text with a carriage return in front of every line
break is the same text: whoever asks for one token after the other gets the same tokens and faults
in the same lines and columns, only that line breaks stand one column further on; and the same
program is read, with the same errors in the same lines. -/
theorem withReturns_alike {text : String} (h : ∀ n t, (Lexer.ofText text).call n = .ok t →
      t.kind = .string → '\n' ∉ t.lexeme.toList) :
    (∀ n, Alike ((Lexer.ofText text).call n)
      ((Lexer.ofText (String.ofList (Text.withReturns text.toList))).call n)) ∧
    ReadAlike (parse text) (parse (String.ofList (Text.withReturns text.toList))) := by
  have hstring := (Lexer.unbrokenStrings_iff _).2 h
  have habreast := Lexer.ofText_abreast text
  exact ⟨habreast.call_alike hstring,
    Lexer.parseFrom_alike (habreast.stream_alike hstring)⟩

theorem withReturns_alike_comment :
    (∀ n t, (Lexer.ofText "x = 'a' // b\n? (x /* c\n */ + ;\n\n").call n = .ok t →
      t.kind = .string → '\n' ∉ t.lexeme.toList) ∧
    (∀ n, Alike ((Lexer.ofText "x = 'a' // b\n? (x /* c\n */ + ;\n\n").call n)
      ((Lexer.ofText "x = 'a' // b\r\n? (x /* c\r\n */ + ;\r\n\r\n").call n)) ∧
    ReadAlike (parse "x = 'a' // b\n? (x /* c\n */ + ;\n\n")
      (parse "x = 'a' // b\r\n? (x /* c\r\n */ + ;\r\n\r\n") := by
  have h := (Lexer.ofText "x = 'a' // b\n? (x /* c\n */ + ;\n\n").unbrokenStrings_iff.1 <| by
    intro t ht
    have hitems : (Lexer.ofText "x = 'a' // b\n? (x /* c\n */ + ;\n\n").items.all (fun item =>
        item.toOption.all fun t => t.kind ≠ .string ∨ '\n' ∉ t.lexeme.toList) = true := by cbv
    have ht := List.all_eq_true.1 hitems _ ht
    simpa [Except.toOption, imp_iff_not_or] using ht
  have htext : String.ofList (Text.withReturns "x = 'a' // b\n? (x /* c\n */ + ;\n\n".toList) =
      "x = 'a' // b\r\n? (x /* c\r\n */ + ;\r\n\r\n" := by decide
  exact ⟨h, htext ▸ withReturns_alike h⟩

end Xbase
