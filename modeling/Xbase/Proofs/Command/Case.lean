import Xbase.Command
import Xbase.Proofs.Parser.Essence

/-!
# The case of letters outside strings

`Recased text text'`: the two texts differ in the case of letters only, and not in strings. They are
read as the same program, with the same places and the same errors, and so they do the same when
they are run (`recased_runs`). Only a report shows the difference, for it quotes the source. How it
is laid out does not matter for this; as reports are laid out here they are the same up to the case
of letters (`Report.render_small`).
-/

namespace Xbase

open Piece

/-- The text in small letters. -/
def Text.small (s : String) : List Char :=
  s.toList.map Char.toLower

namespace Text

theorem small_append (a b : String) : small (a ++ b) = small a ++ small b := by
  simp [small]

theorem small_join (l : List String) : small (String.join l) = (l.map small).flatten := by
  rw [small, String.toList_join, List.map_flatMap, List.flatMap_def]
  rfl

theorem isBlank_toLower (c : Char) : isBlank c.toLower = isBlank c :=
  apply_toLower (fun _ h => not_blank (isWordPart_of_isAlpha h)) c

theorem trimBlankRight_toLower (cs : List Char) :
    trimBlankRight (cs.map Char.toLower) = (trimBlankRight cs).map Char.toLower := by
  have hblank : isBlank ∘ Char.toLower = isBlank := funext isBlank_toLower
  rw [trimBlankRight, trimBlankRight, ← List.map_reverse, List.dropWhile_map, hblank,
    List.map_reverse]

end Text

/-! ## Lines -/

theorem Lines.endsFrom_toLower (offset : Nat) (cs : List Char) :
    endsFrom offset (cs.map Char.toLower) = endsFrom offset cs := by
  induction cs generalizing offset with
  | nil => rfl
  | cons c cs ih =>
    simp only [List.map_cons, endsFrom, toLower_eq_iff (d := '\n') rfl, utf8Size_toLower, ih,
      List.isEmpty_map]

/-! ## Reports -/

namespace Report

open Text

/-- The line in small letters. -/
def Line.small (line : Line) : Line :=
  { line with text := line.text.map Char.toLower }

theorem splitLines_toLower (cs : List Char) :
    splitLines (cs.map Char.toLower) = (splitLines cs).map (List.map Char.toLower) := by
  induction cs with
  | nil => rfl
  | cons c cs ih =>
    simp only [List.map_cons, splitLines, toLower_eq_iff (d := '\n') rfl, ih]
    split
    · rfl
    · cases splitLines cs <;> rfl

theorem lineFrom_toLower (target number offset : Nat) (text : List Char)
    (rest : List (List Char)) :
    lineFrom target number offset (text.map Char.toLower) (rest.map (List.map Char.toLower)) =
      (lineFrom target number offset text rest).small := by
  induction rest generalizing number offset text with
  | nil => rfl
  | cons following rest ih =>
    simp only [List.map_cons, lineFrom, List.length_map]
    split
    · exact ih ..
    · rfl

variable {source source' : String}

theorem lineAt_small (h : small source' = small source) (target : Nat) :
    (lineAt source' target).small = (lineAt source target).small := by
  have hline (source : String) :
      (lineAt source target).small = lineAt (String.ofList (small source)) target := by
    rw [lineAt, lineAt, String.toList_ofList, small, splitLines_toLower]
    cases splitLines source.toList with
    | nil => rfl
    | cons first rest => exact (lineFrom_toLower ..).symm
  rw [hline, hline, h]

theorem width_toLower (text : List Char) (k : Nat) :
    width (text.map Char.toLower) k = width text k := by
  have htab : ((text.map Char.toLower)[k]? = some '\t') = (text[k]? = some '\t') := by
    rw [List.getElem?_map]
    cases text[k]? with
    | none => rfl
    | some c => simp [toLower_eq_iff (d := '\t') rfl]
  simp only [width, htab]

theorem stretch_toLower (text : List Char) (k : Nat) (first more : String) :
    stretch (text.map Char.toLower) k first more = stretch text k first more := by
  rw [stretch, stretch, width_toLower]

theorem sourceCells_small (text : List Char) (inSpan : Nat → Bool) :
    (sourceCells (text.map Char.toLower) inSpan).map small =
      (sourceCells text inSpan).map small := by
  have hcell (colour : String) (c : Char) : small (paint colour (String.singleton c.toLower)) =
      small (paint colour (String.singleton c)) := by
    simp [paint, small]
  apply List.ext_getElem?
  intro k
  simp only [sourceCells, List.getElem?_map, List.getElem?_mapIdx, stretch_toLower]
  cases text[k]? with
  | none => rfl
  | some c =>
    simp only [Option.map_some, toLower_eq_iff (d := '\t') rfl]
    split
    · rfl
    · split
      · exact congrArg some (hcell ..)
      · exact congrArg some (hcell ..)

theorem markCells_toLower (text : List Char) (inSpan : Nat → Bool) (mid columns : Nat) :
    markCells (text.map Char.toLower) inSpan mid columns = markCells text inSpan mid columns := by
  simp only [markCells, stretch_toLower]

theorem armCells_toLower (text : List Char) (mid columns : Nat) :
    armCells (text.map Char.toLower) mid columns = armCells text mid columns := by
  simp only [armCells, stretch_toLower]

/-- The excerpt is the same up to the case of the letters. -/
theorem excerpt_small (r : Report) (line : Line) :
    (r.excerpt line.small).map small = (r.excerpt line).map small := by
  unfold excerpt
  dsimp only [Line.small]
  rw [trimBlankRight_toLower, markCells_toLower, armCells_toLower]
  simp only [List.map_cons, small_append, small_join, sourceCells_small]
  rfl

/-- The frame does not depend on the text of the line. -/
theorem framed_small (r : Report) (path : String) (line : Line) {excerpt excerpt' : List String}
    (h : excerpt'.map small = excerpt.map small) :
    (r.framed path line.small excerpt').map small = (r.framed path line excerpt).map small := by
  simp only [framed, Line.small, List.map_append, h]

/-- A report on a source is the same up to the case of the letters of the source. -/
theorem render_small (r : Report) (path : String) (h : small source' = small source) :
    small (r.render path source') = small (r.render path source) := by
  have hlength : source'.length = source.length := by
    rw [← String.length_toList, ← String.length_toList]
    simpa [small] using congrArg List.length h
  have hline := lineAt_small h r.span.start.toNat
  have hnumber : (lineAt source' r.span.start.toNat).small.number =
      (lineAt source r.span.start.toNat).small.number := congrArg Line.number hline
  dsimp only [Line.small] at hnumber
  have hframed {excerpt excerpt' : List String} (he : excerpt'.map small = excerpt.map small) :
      (r.framed path (lineAt source' r.span.start.toNat) excerpt').map small =
        (r.framed path (lineAt source r.span.start.toNat) excerpt).map small := by
    rw [← framed_small r path _ rfl, hline, framed_small r path _ he]
  have hlines : (r.lines path source').map small = (r.lines path source).map small := by
    unfold lines
    dsimp only
    rw [hlength, hnumber, List.map_cons, List.map_cons]
    refine congrArg (_ :: ·) ?_
    split
    · rfl
    split
    · exact hframed rfl
    · refine hframed ?_
      rw [← excerpt_small, hline, excerpt_small]
  have hjoin (source : String) : small (r.render path source) =
      (((r.lines path source).map small).map (· ++ ['\n'])).flatten := by
    rw [render, small_join, List.map_map, List.map_map]
    exact congrArg _ (List.map_congr_left fun line _ => small_append line "\n")
  rw [hjoin, hjoin, hlines]

end Report

/-! ## Commands -/

/-- The script with reports that quote another source. -/
def Script.quoting (s : Script) (source : String) : Script :=
  { s with layout := fun r path _ => s.layout r path source }

/-- Styles other than reports do not quote the source. -/
theorem ErrorStyle.syntaxError_quoting {style : ErrorStyle} (hs : style ≠ .report) (s : Script)
    (source : String) : style.syntaxError (s.quoting source) = style.syntaxError s := by
  cases style with
  | basic | dump => rfl
  | report => exact absurd rfl hs

theorem ErrorStyle.evalError_quoting {style : ErrorStyle} (hs : style ≠ .report) (s : Script)
    (source : String) : style.evalError (s.quoting source) = style.evalError s := by
  cases style with
  | basic | dump => rfl
  | report => exact absurd rfl hs

/-- The lines of a text are those of the text in small letters. -/
theorem Lines.ofText_small {text text' : String} (h : Text.small text' = Text.small text) :
    ofText text' = ofText text := by
  rw [ofText, ofText, ← endsFrom_toLower, ← endsFrom_toLower 0 text.toList]
  exact congrArg (fun cs => Lines.mk (endsFrom 0 cs)) h

namespace Command

variable (s : Script) (source : String)

section

variable (h : ∀ r, Text.small (s.layout r s.path source) = Text.small (s.render r))

include h

theorem complaints_small (style : ErrorStyle) (errors : List SyntaxError) :
    Text.small (Screen.complaints (errors.map (style.syntaxError (s.quoting source)))).err =
      Text.small (Screen.complaints (errors.map (style.syntaxError s))).err := by
  have herror (e : SyntaxError) : Text.small (style.syntaxError (s.quoting source) e) =
      Text.small (style.syntaxError s e) := by
    cases style with
    | basic | dump => rfl
    | report => exact h e.report
  simp only [Screen.complaints, Text.small_join, List.map_map, Function.comp_def,
    Text.small_append, herror]

theorem conclude_small (style : ErrorStyle) (printed : String) (outcome : Outcome Value) :
    Text.small (conclude style (s.quoting source) printed outcome).screen.err =
      Text.small (conclude style s printed outcome).screen.err := by
  cases outcome with
  | ok v => rfl
  | outOfFuel => rfl
  | error e =>
    simp only [conclude, Text.small_append]
    cases style with
    | basic | dump => rfl
    | report => exact congrArg (· ++ _) (h e.report)

/-- What is complained of changes no more than the reports do. -/
theorem run_quoting_small (fuel : Nat) (style : ErrorStyle) :
    Text.small (run fuel style (s.quoting source)).screen.err =
      Text.small (run fuel style s).screen.err := by
  have htext : (s.quoting source).text = s.text := rfl
  unfold run
  rw [htext]
  cases Xbase.parse s.text with
  | error e =>
    simp only [Screen.complaint, Text.small_append]
    exact congrArg (· ++ _) (h e.report)
  | ok parsed =>
    dsimp only
    split
    · exact conclude_small s source h ..
    · exact complaints_small s source h ..

end

/-- The result of a run and what it prints do not depend on what reports quote. -/
theorem run_quoting_code_out (fuel : Nat) (style : ErrorStyle) :
    (run fuel style (s.quoting source)).code = (run fuel style s).code ∧
      (run fuel style (s.quoting source)).screen.out = (run fuel style s).screen.out := by
  have htext : (s.quoting source).text = s.text := rfl
  unfold run
  rw [htext]
  cases Xbase.parse s.text with
  | error e => exact ⟨rfl, rfl⟩
  | ok parsed =>
    dsimp only
    split
    · cases (Eval.program ..).1 <;> exact ⟨rfl, rfl⟩
    · exact ⟨rfl, rfl⟩

/-- A run depends on how the script is read and on how its errors are written. -/
theorem run_congr {s s' : Script} {style : ErrorStyle}
    (hparse : Xbase.parse s'.text = Xbase.parse s.text)
    (hfault : ∀ e, Xbase.parse s.text = .error e → s'.render e.report = s.render e.report)
    (herrors : style.syntaxError s' = style.syntaxError s)
    (heval : style.evalError s' = style.evalError s) (fuel : Nat) :
    run fuel style s' = run fuel style s := by
  have hconclude : conclude style s' = conclude style s := by
    funext printed outcome
    cases outcome with
    | ok v => rfl
    | outOfFuel => rfl
    | error e => rw [conclude, conclude, heval]
  unfold run
  rw [hparse, herrors, hconclude]
  cases hp : Xbase.parse s.text with
  | error e => simp only [hfault e hp]
  | ok parsed => rfl

/-- Without reports, a run is the same whatever reports quote. -/
theorem run_quoting_eq {style : ErrorStyle} (hs : style ≠ .report)
    (hok : ∀ e, Xbase.parse s.text ≠ .error e) (fuel : Nat) :
    run fuel style (s.quoting source) = run fuel style s := by
  refine run_congr ?_ (fun e he => absurd he (hok e)) (ErrorStyle.syntaxError_quoting hs s source)
    (ErrorStyle.evalError_quoting hs s source) fuel
  rfl

end Command

/-- The texts differ in the case of letters only, and not in strings. -/
structure Recased (text text' : String) : Prop where
  letters : Text.small text' = Text.small text
  strings : ∀ i, (Lexer.ofText text).InString i → text'.toList[i]? = text.toList[i]?

/-- Texts that differ in the case of letters outside strings are read in the same way. -/
theorem Recased.parse_eq {text text' : String} (h : Recased text text') :
    parse text' = parse text := by
  have hlexer : (Lexer.ofText text).Recased (Lexer.ofText text') :=
    ⟨rfl, rfl, h.letters, h.strings⟩
  exact Lexer.parseFrom_essence (Lexer.stream_recased hlexer)

/-- To run a text is to run the other one with reports that quote the text. -/
theorem Recased.run_eq {text text' : String} (h : Recased text text') (fuel : Nat)
    (style : ErrorStyle) (path : String) (layout : Layout) :
    Command.run fuel style ⟨path, text', layout⟩ =
      Command.run fuel style (Script.quoting ⟨path, text, layout⟩ text') := by
  have hsyntax : style.syntaxError ⟨path, text', layout⟩ =
      style.syntaxError (Script.quoting ⟨path, text, layout⟩ text') := by
    cases style <;> rfl
  have heval : style.evalError ⟨path, text', layout⟩ =
      style.evalError (Script.quoting ⟨path, text, layout⟩ text') := by
    cases style with
    | basic =>
      funext e
      simp only [ErrorStyle.evalError, Script.lineOf, Script.quoting, Lines.ofText_small h.letters]
    | dump | report => rfl
  refine Command.run_congr ?_ (fun _ _ => ?_) hsyntax heval fuel
  · exact h.parse_eq
  · rfl

/-- Texts that differ in the case of letters outside strings are the same to the language: the same
fault of the text, or the same program with all of its places and the same syntax errors. So they
run alike, however reports are laid out: each is run as the other one would be with reports that
quote the first. They print the same and end with the same code. If a report keeps the letters that
it quotes up to their case, what they complain of is the same up to the case of letters. Other
styles do not quote the source at all, except for a fault of the text. -/
theorem recased_runs {text text' : String} (h : Recased text text') :
    parse text' = parse text ∧
    ∀ (fuel : Nat) (style : ErrorStyle) (path : String) (layout : Layout),
      Command.run fuel style ⟨path, text', layout⟩ =
        Command.run fuel style (Script.quoting ⟨path, text, layout⟩ text') ∧
      (Command.run fuel style ⟨path, text', layout⟩).code =
        (Command.run fuel style ⟨path, text, layout⟩).code ∧
      (Command.run fuel style ⟨path, text', layout⟩).screen.out =
        (Command.run fuel style ⟨path, text, layout⟩).screen.out ∧
      ((∀ r, Text.small (layout r path text') = Text.small (layout r path text)) →
        Text.small (Command.run fuel style ⟨path, text', layout⟩).screen.err =
          Text.small (Command.run fuel style ⟨path, text, layout⟩).screen.err) ∧
      (style ≠ .report → (∀ e, parse text ≠ .error e) →
        Command.run fuel style ⟨path, text', layout⟩ =
          Command.run fuel style ⟨path, text, layout⟩) := by
  refine ⟨h.parse_eq, fun fuel style path layout => ⟨h.run_eq .., ?_⟩⟩
  have hrun := h.run_eq fuel style path layout
  let s : Script := ⟨path, text, layout⟩
  obtain ⟨hcode, hout⟩ := Command.run_quoting_code_out s text' fuel style
  refine ⟨hrun ▸ hcode, hrun ▸ hout, fun hsmall => ?_, fun hs hok => ?_⟩
  · rw [hrun]
    exact Command.run_quoting_small s text' hsmall fuel style
  · exact hrun.trans (Command.run_quoting_eq s text' hs hok fuel)

/-- The case of a name does not matter, also beside a string, and also if reports show the line. -/
theorem recased_runs_name : Recased "x = 'Ab'" "X = 'Ab'" ∧
    parse "X = 'Ab'" = parse "x = 'Ab'" ∧
    (∀ r, Text.small (Report.render r "" "X = 'Ab'") = Text.small (Report.render r "" "x = 'Ab'")) ∧
    Text.small (Command.run 9 .report { path := "", text := "X = 'Ab'" }).screen.err =
      Text.small (Command.run 9 .report { path := "", text := "x = 'Ab'" }).screen.err ∧
    ErrorStyle.basic ≠ .report ∧ (∀ e, parse "x = 'Ab'" ≠ .error e) ∧
    Command.run 9 .basic { path := "", text := "X = 'Ab'" } =
      Command.run 9 .basic { path := "", text := "x = 'Ab'" } := by
  have h : Recased "x = 'Ab'" "X = 'Ab'" := by
    refine ⟨by decide, fun i hi => ?_⟩
    cases i with
    | zero =>
      obtain ⟨t, ht, hk, before, after, hsplit, -, -, hle, -⟩ := hi
      obtain rfl : before = [] := List.eq_nil_of_length_eq_zero (Nat.le_zero.1 hle)
      have hlex := ((Lexer.ofText "x = 'Ab'").stream_lexical t ht).1
      rw [Token.Lexical, hk] at hlex
      obtain ⟨mark, body, hlexeme, hmark, -⟩ := hlex
      rw [hlexeme] at hsplit
      obtain ⟨rfl, -⟩ := List.cons.inj hsplit
      cases hmark
    | succ i =>
      have htail : "X = 'Ab'".toList.tail = "x = 'Ab'".toList.tail := by decide
      rw [← List.getElem?_tail, ← List.getElem?_tail, htail]
  have hok : ∀ e, parse "x = 'Ab'" ≠ .error e := by
    intro e he
    have hfault : (TokenStream.ofText "x = 'Ab'").fault = none := by cbv
    rw [parse_of_fault_none hfault] at he
    cases he
  have hrender (r : Report) : Text.small (r.render "" "X = 'Ab'") =
      Text.small (r.render "" "x = 'Ab'") := r.render_small "" h.letters
  obtain ⟨hparse, hrun⟩ := recased_runs h
  exact ⟨h, hparse, hrender, (hrun 9 .report "" Report.render).2.2.2.1 hrender, by decide, hok,
    (hrun 9 .basic "" Report.render).2.2.2.2 (by decide) hok⟩

end Xbase
