import Xbase.Proofs.Token.Spelling

/-!
# Tokens with blanks between them

What a token is does not depend on what stood around it. If the texts of the tokens of a text are
written down again, with one blank between each two of them, the same tokens come out
(`TokenStream.ofText_spaced`).

A blank, or the end, keeps a token apart from what follows (`Apart`), so each token is read back by
itself (`Piece.Spells.scans`, `Lexer.step_scans`). A line break is read back only behind another
token; it was one only behind another token (`Lexer.step_scans`).
-/

namespace Xbase

/-- Nothing follows, or a blank does. -/
def Apart (rest : List Char) : Prop :=
  ∀ c ∈ rest.head?, c = ' '

theorem Apart.breaks {rest : List Char} (h : Apart rest) : Breaks rest := by
  intro c hc
  rw [h c hc]
  exact ⟨rfl, by decide⟩

theorem Apart.cases {rest : List Char} (h : Apart rest) :
    rest = [] ∨ ∃ more, rest = ' ' :: more := by
  cases rest with
  | nil => exact .inl rfl
  | cons c more => exact .inr ⟨more, by rw [h c rfl]⟩

/-- What is read: the kind of the token and its text, wherever it stands. -/
def Token.reading (t : Token) : Kind × String :=
  (t.kind, t.lexeme)

/-! ## One token -/

/-- A point in front of a blank is no truth value. -/
theorem Piece.dot_blank (more : List Char) : dot (' ' :: more) = (.token (.symbol .dot), 1) := by
  cases more with
  | nil => rfl
  | cons b more =>
    by_cases hb : b = '.'
    · subst hb
      rfl
    · exact dot_of_ne hb _ _

namespace Piece.Spells

variable {last : Boundary} {text rest rest' : List Char}

/-- A symbol is read back from its characters. -/
theorem scans_spelling (s : Symbol) (h : Apart rest) :
    Scans last s.spelling (SingleText (.symbol s) (String.ofList s.spelling)) .token rest := by
  obtain rfl | ⟨more, rfl⟩ := h.cases
  · cases s <;> exact Scans.token rfl
  · by_cases hs : s = .dot
    · subst hs
      exact Scans.token (w := []) (dot_blank more)
    · cases s <;> first | exact absurd rfl hs | exact Scans.token rfl

/-- A token that is no word is read back from its text. -/
theorem scans {k : Kind} (h : Spells rest' (.token k) text) (hrest : Apart rest) :
    Scans last text (SingleText k (String.ofList text)) .token rest := by
  cases h with
  | symbol s => exact scans_spelling s hrest
  | @logical letter b hb =>
    have hdot : piece '.' ([letter, '.'] ++ rest) = dot (letter :: '.' :: rest) := rfl
    refine Scans.token (w := [letter, '.']) (hdot.trans ?_)
    cases b <;> simp_all [dot]
  | number hne hd => exact Scans.number hne hd hrest.breaks
  | string hm hb => exact Scans.string hm hb

/-- A word is read back from its text in small letters. -/
theorem scans_word (h : Spells rest' .word text) (hrest : Apart rest) :
    Scans last (text.map Char.toLower)
      (SingleText (.ofWord (String.ofList (text.map Char.toLower)))
        (String.ofList (text.map Char.toLower))) .token rest := by
  cases h with
  | @word c w hc hw =>
    have hparts : ∀ d ∈ w.map Char.toLower, isWordPart d = true := by
      intro d hd
      obtain ⟨d', hd', rfl⟩ := List.mem_map.1 hd
      exact isWordPart_toLower (hw d' hd')
    have hsmall :
        (c.toLower :: w.map Char.toLower).map Char.toLower = (c :: w).map Char.toLower := by
      simp
    have hscan : Scans last (c.toLower :: w.map Char.toLower) _ .token rest :=
      Scans.word (isWordStart_toLower hc) hparts hrest.breaks
    rwa [hsmall] at hscan

/-- Behind a token, a line break is read back. -/
theorem scans_newline : Scans .token ['\n'] (SingleText .newline "\n") .newline rest := by
  have hpiece : piece '\n' ([] ++ rest) = (.newline, 1) := rfl
  exact fun pos => ⟨_, pos.advance ['\n'], ⟨_, rfl, rfl, rfl⟩,
    Lexer.stream_ok (Scans.step_piece pos .token hpiece)⟩

end Piece.Spells

/-! ## One step -/

namespace Lexer

open Piece

variable {lx lx' : Lexer} {last : Boundary} {rest : List Char}

/-- A token is read back from its text, with a blank or nothing behind it, if a token is remembered
there wherever one was before. -/
theorem step_scans {t : Token} (h : lx.step = some (some (.ok t), lx'))
    (hlast : lx.last = .token → last = .token) (hrest : Apart rest) :
    ∃ last', Scans last t.lexeme.toList (SingleText t.kind t.lexeme) last' rest ∧
      (lx'.last = .token → last' = .token) := by
  obtain ⟨kind, text, -, hspells, -, hitem, hlast'⟩ := step_spells h
  rw [hlast']
  cases kind with
  | skipped | semicolon | fault f => cases hitem
  | newline =>
    cases hspells
    by_cases htoken : lx.last = .token
    · simp only [emit, if_pos htoken] at hitem
      cases hitem
      refine ⟨.newline, ?_, by simp [emit, if_pos htoken]⟩
      rw [hlast htoken, emit.place, String.toList_ofList]
      exact Spells.scans_newline
    · simp only [emit, if_neg htoken] at hitem
      cases hitem
  | token k =>
    cases hitem
    refine ⟨.token, ?_, fun _ => rfl⟩
    have hscan : Scans last text _ .token rest := hspells.scans hrest
    simpa [emit.place] using hscan
  | word =>
    cases hitem
    refine ⟨.token, ?_, fun _ => rfl⟩
    have hscan : Scans last (text.map Char.toLower) _ .token rest := hspells.scans_word hrest
    simpa [emit.place] using hscan

/-! ## All tokens -/

theorem intercalate_blank (a : List Char) (l : List (List Char)) :
    [' '].intercalate (a :: l) = a ++ if l = [] then [] else ' ' :: [' '].intercalate l := by
  cases l with
  | nil => simp
  | cons b l => simp [List.intercalate_cons_cons]

/-- The tokens of a text are read back from their texts with blanks between them. -/
theorem stream_spaced (lx : Lexer) (h : lx.stream.fault = none)
    (hlast : lx.last = .token → last = .token) :
    ∃ last', Scans last ([' '].intercalate (lx.stream.tokens.map (·.lexeme.toList)))
      (fun ts => ts.map Token.reading = lx.stream.tokens.map Token.reading) last' [] := by
  induction lx using Lexer.stream.induct generalizing last with
  | case1 lx hstep =>
    rw [stream_none hstep]
    exact ⟨last, .nil rfl⟩
  | case2 lx e lx' hstep =>
    rw [stream_error hstep] at h
    cases h
  | case3 lx t lx' hstep ih =>
    rw [stream_ok hstep] at h ⊢
    generalize hjoined : (if lx'.stream.tokens.map (·.lexeme.toList) = [] then []
      else ' ' :: [' '].intercalate (lx'.stream.tokens.map (·.lexeme.toList))) = more
    have hapart : Apart (more ++ []) := by
      rw [← hjoined]
      split <;> simp [Apart]
    obtain ⟨mid, hscan, hmid⟩ := step_scans hstep hlast hapart
    obtain ⟨last', hscans⟩ := ih h hmid
    have hmore : Scans mid more (fun ts => ts.map Token.reading =
        lx'.stream.tokens.map Token.reading) last' [] := by
      rw [← hjoined]
      split
      · next hnil =>
        rw [hnil] at hscans
        exact hscans
      · exact hscans.blank
    refine ⟨last', ?_⟩
    rw [List.map_cons, intercalate_blank, hjoined]
    refine (hscan.both hmore).mono ?_
    rintro _ ⟨_, us, rfl, ⟨u, rfl, hk, hl⟩, hus⟩
    simp [Token.reading, hk, hl, hus]
  | case4 lx lx' hstep ih =>
    rw [stream_skip hstep] at h ⊢
    exact ih h fun htoken => hlast (step_none_last hstep htoken)

end Lexer

/-- If nothing is wrong with a text, nothing is wrong with the texts of its tokens either, written
with single blanks between them, and they are read as tokens of the same kinds with the same texts,
in the same order. -/
theorem TokenStream.ofText_spaced {text : String} (h : (ofText text).fault = none) :
    (ofText (" ".intercalate ((ofText text).tokens.map Token.lexeme))).fault = none ∧
    (ofText (" ".intercalate ((ofText text).tokens.map Token.lexeme))).tokens.map
        Token.reading = (ofText text).tokens.map Token.reading := by
  obtain ⟨last', hscans⟩ := Lexer.stream_spaced (Lexer.ofText text) h id
  obtain ⟨tokens, pos', hsame, hstream⟩ := hscans .start
  have hspaced : ofText (" ".intercalate ((ofText text).tokens.map Token.lexeme)) =
      (⟨[], pos', last'⟩ : Lexer).stream.behind tokens := by
    rw [← hstream, ofText, Lexer.ofText, String.toList_intercalate]
    simp [ofText, Lexer.ofText, Function.comp_def]
  rw [hspaced, Lexer.stream_none rfl]
  exact ⟨rfl, (congrArg (List.map Token.reading) (List.append_nil tokens)).trans hsame⟩

theorem TokenStream.ofText_spaced_newline :
    (ofText "X<=.T.&&c\n\n'a\n;'.1.5/ 2").fault = none ∧
    " ".intercalate ((ofText "X<=.T.&&c\n\n'a\n;'.1.5/ 2").tokens.map Token.lexeme) =
      "x <= .T. \n 'a\n;' . 1.5 / 2" ∧
    (ofText "x <= .T. \n 'a\n;' . 1.5 / 2").fault = none ∧
    (ofText "x <= .T. \n 'a\n;' . 1.5 / 2").tokens.map Token.reading =
      (ofText "X<=.T.&&c\n\n'a\n;'.1.5/ 2").tokens.map Token.reading := by
  have h : (ofText "X<=.T.&&c\n\n'a\n;'.1.5/ 2").fault = none := by cbv
  have htext : " ".intercalate ((ofText "X<=.T.&&c\n\n'a\n;'.1.5/ 2").tokens.map Token.lexeme) =
      "x <= .T. \n 'a\n;' . 1.5 / 2" := by cbv
  have hspaced := ofText_spaced h
  rw [htext] at hspaced
  exact ⟨h, htext, hspaced⟩

end Xbase
