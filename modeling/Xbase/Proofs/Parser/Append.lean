import Xbase.Proofs.Grammar.Accepts
import Xbase.Proofs.Parser.Agree.Program

/-!
# The program of two texts with a line break between them

A program is read line by line. If the first text ends with a line, and nothing is found missing at
its end, then the program of both texts is that of the first and then that of the second, and so are
the syntax errors (`parse_append`). Everything that comes from the second text is in later places.

Places in results count bytes in 32 bits. Two of them are put together in the place of a
conditional, and that is a later place only as long as the count does not overflow
(`parse_append_wrapped`).
-/

namespace Xbase

/-- There are no tokens, or the last one is a line break. -/
def EndsLine (ts : List Token) : Prop :=
  ∀ t ∈ ts.getLast?, t.kind = .newline

instance (ts : List Token) : Decidable (EndsLine ts) :=
  inferInstanceAs (Decidable (∀ t ∈ ts.getLast?, t.kind = .newline))

/-! ## The same tokens with something behind them -/

namespace Context

/-- The tokens of a text, in the same places, with something behind them. -/
def ofSequel (q : Sequel) : Context :=
  ⟨⟨id, id, id⟩, id, id, [], q⟩

variable {q : Sequel}

theorem place_ofSequel (s : ParseState) :
    (ofSequel q).place s = ⟨s.rest ++ q.tokens, q.stop s.stop, s.errors⟩ := by
  have htoken : Token.move ⟨id, id, id⟩ = id := rfl
  have herror : SyntaxError.move ⟨id, id, id⟩ = id := rfl
  simp [place, ofSequel, htoken, herror]

theorem resume_ofSequel (s : ParseState) :
    (ofSequel q).resume s = ⟨q.later, q.stop s.stop, s.errors⟩ := by
  have htoken : Token.move ⟨id, id, id⟩ = id := rfl
  have herror : SyntaxError.move ⟨id, id, id⟩ = id := rfl
  simp [resume, ofSequel, htoken, herror]

theorem eq_of_same_ofSequel {b b' : Block} (h : (ofSequel q).Same b b') : b = b' := by
  have h := h.mapAll
  rwa [ofSequel, Statement.mapAll_id, Statement.mapAll_id] at h

theorem meets_ofSequel {s : ParseState} (hs : s.Closed) (h : q.Fits s.rest) :
    (ofSequel q).Meets s :=
  ⟨hs, ⟨fun _ => rfl, fun _ _ _ => rfl⟩, h⟩

end Context

namespace Parser

variable {s : ParseState} {ts : List Token} {stop : Token} {q : Sequel}

/-- The depth of the recursion does not matter as long as it is enough. -/
theorem statements_depth {d d' : Nat} (ends : List Keyword) (hs : s.Closed)
    (hd : 2 * s.rest.length + 2 ≤ d) (hd' : 2 * s.rest.length + 2 ≤ d') :
    statements d ends s = statements d' ends s := by
  have hplace : (Context.ofSequel .nothing).place s = s := by
    rw [Context.place_ofSequel]
    simp [Sequel.tokens, Sequel.stop]
  obtain ⟨b, b', s₁, hrun, hrun', same⟩ := statements_place (K := .ofSequel .nothing) rfl
    (Context.meets_ofSequel hs trivial) ends hd hd'
  rw [hplace, Context.place_ofSequel] at hrun'
  rw [hrun, hrun', Context.eq_of_same_ofSequel same]
  simp [Sequel.tokens, Sequel.stop]

/-- Unless an error at the end of the source is recorded, a program goes on with what follows. -/
theorem program_sequel (hts : ∀ t ∈ ts, t.kind ≠ .endOfFile) (hstop : stop.kind = .endOfFile)
    (hstop' : (q.stop stop).kind = .endOfFile) (hq : q ≠ .nothing) (hfits : q.Fits ts)
    (hne : ts ≠ []) (hend : ¬ EndError program ⟨ts, stop, []⟩) :
    ∃ b s₁, program ⟨ts, stop, []⟩ = (some b, s₁) ∧
      program ⟨ts ++ q.tokens, q.stop stop, []⟩ =
        (program >>= fun more => pure (b ++ more)) ⟨q.later, q.stop stop, s₁.errors⟩ := by
  have hs : (Context.ofSequel q).Meets ⟨ts, stop, []⟩ := Context.meets_ofSequel hstop hfits
  have hplace := Context.place_ofSequel (q := q) ⟨ts, stop, []⟩
  have hcovers : Covers (.ofSequel q) 2 (ParseState.budget ⟨ts, stop, []⟩)
      (ParseState.budget ⟨ts ++ q.tokens, q.stop stop, []⟩) ⟨ts, stop, []⟩ :=
    ⟨Nat.le_refl _, by simp [ParseState.budget, Context.ofSequel]⟩
  obtain ⟨b, errors, htotal⟩ := program_total hs.closed hts
  rw [program] at htotal
  obtain hagrees | ⟨-, b, b', s₁, k, hrun, hr₁, same, hk, hrun'⟩ :=
    (statements_agree (.ofSequel q) _).2.1 [] _ _ hs (.inl hne) hcovers
  · -- The loop in the longer text cannot end here, for the end of the source is not next.
    exfalso
    cases hagrees with
    | @read a a' s₁' run run' same fits =>
      rw [htotal] at run
      cases run
      obtain ⟨_, _, htotal', hhead'⟩ := statements_total [] (s := ⟨ts ++ q.tokens, q.stop stop, []⟩)
        hstop' (ParseState.length_lt_budget _)
      rw [hplace, Context.place_ofSequel] at run'
      cases run'.symm.trans htotal'
      cases q with
      | nothing => exact hq rfl
      | lines us stop' =>
        obtain ⟨t, ht, -⟩ := fits
        cases ht
      | newline t us stop' =>
        have hk : headKind (t :: us) = .endOfFile := hhead'.resolve_right (by simp [isOneOf])
        rw [headKind_cons, fits.1] at hk
        cases hk
    | failed run run' fits =>
      rw [htotal] at run
      cases run
    | ended more h =>
      obtain h | ⟨h, -⟩ := h
      · exact hend h
      · cases h
  · rw [htotal] at hrun
    cases hrun
    rw [Context.resume_ofSequel, hplace, ← Context.eq_of_same_ofSequel same] at hrun'
    refine ⟨b, _, htotal, hrun'.trans ?_⟩
    have hdepth : statements k [] ⟨q.later, q.stop stop, errors⟩ =
        program ⟨q.later, q.stop stop, errors⟩ :=
      statements_depth (s := ⟨q.later, q.stop stop, errors⟩) [] hstop' hk (Nat.le_refl _)
    rw [bind_run, bind_run, hdepth]

/-- A program that ends with a line goes on with the next one. -/
theorem program_lines (us : List Token) (stop' : Token) (hts : ∀ t ∈ ts, t.kind ≠ .endOfFile)
    (hstop : stop.kind = .endOfFile) (hstop' : stop'.kind = .endOfFile) (hline : EndsLine ts)
    (hend : ¬ EndError program ⟨ts, stop, []⟩) :
    ∃ b s₁, program ⟨ts, stop, []⟩ = (some b, s₁) ∧ program ⟨ts ++ us, stop', []⟩ =
      (program >>= fun more => pure (b ++ more)) ⟨us, stop', s₁.errors⟩ := by
  by_cases hne : ts = []
  · subst hne
    refine ⟨[], ⟨[], stop, []⟩, statements_nil (s := ⟨[], stop, []⟩) hstop rfl, ?_⟩
    rw [bind_run, List.nil_append]
    obtain ⟨_ | more, s'⟩ := program ⟨us, stop', []⟩ <;> rfl
  · have hfits : (Sequel.lines us stop').Fits ts :=
      ⟨ts.getLast hne, List.getLast?_eq_some_getLast hne,
        hline _ (List.getLast?_eq_some_getLast hne)⟩
    exact program_sequel (q := .lines us stop') hts hstop hstop' nofun hfits hne hend

/-! ## The same program in another place -/

/-- A program is read alike in another place, with errors recorded before it. The places in it are
those of its tokens, put together or not. -/
theorem program_move (m : Move) (errors : List SyntaxError) (hs : s.Closed) :
    ∃ b b' s₁, program s = (some b, s₁) ∧
      program ⟨s.rest.map (Token.move m), s.stop.move m,
        errors ++ s.errors.map (SyntaxError.move m)⟩ =
        (some b', ⟨s₁.rest.map (Token.move m), s₁.stop.move m,
          errors ++ s₁.errors.map (SyntaxError.move m)⟩) ∧
      Program.map id noPlace b' = Program.map id noPlace b ∧
      ∀ g : Span → Span, Context.Suits ⟨m, g, id, [], .nothing⟩ s.rest →
        b' = Program.map id g b := by
  -- The places are compared in two ways: not at all, and by the change `g`.
  have hrun (here there : Span → Span)
      (hsuits : Context.Suits ⟨m, here, there, [], .nothing⟩ s.rest) :
      ∃ b b' s₁, program s = (some b, s₁) ∧
        program ⟨s.rest.map (Token.move m), s.stop.move m,
          errors ++ s.errors.map (SyntaxError.move m)⟩ =
          (some b', ⟨s₁.rest.map (Token.move m), s₁.stop.move m,
            errors ++ s₁.errors.map (SyntaxError.move m)⟩) ∧
        Statement.mapAll id here b = Statement.mapAll id there b' := by
    let K : Context := ⟨m, here, there, errors, .nothing⟩
    have hplace (s : ParseState) : K.place s = ⟨s.rest.map (Token.move m), s.stop.move m,
        errors ++ s.errors.map (SyntaxError.move m)⟩ := by
      simp [Context.place, K, Sequel.tokens, Sequel.stop]
    have hbudget : 2 * s.rest.length + 2 ≤ (K.place s).budget := by
      rw [ParseState.budget, Context.length_place]
      omega
    have hmeets : K.Meets s := ⟨hs, ⟨hsuits.span, hsuits.merge⟩, trivial⟩
    obtain ⟨b, b', s₁, hrun, hrun', same⟩ := statements_place (K := K) rfl hmeets []
      (Nat.le_refl _) hbudget
    rw [hplace, hplace] at hrun'
    exact ⟨b, b', s₁, hrun, hrun', same.mapAll⟩
  obtain ⟨b, b', s₁, hb, hb', same⟩ := hrun noPlace noPlace ⟨fun _ => rfl, fun _ _ _ => rfl⟩
  refine ⟨b, b', s₁, hb, hb', same.symm, fun g hg => ?_⟩
  obtain ⟨c, c', s₂, hc, hc', sameg⟩ := hrun g id hg
  rw [hb] at hc
  rw [hb'] at hc'
  cases hc
  cases hc'
  rw [Statement.mapAll_id] at sameg
  exact sameg.symm

end Parser

/-! ## Two texts -/

open Xbase.Parser

variable {first second : String}

/-- The places of two tokens of a text, put together and further on. -/
theorem shift_merge_tokens {n : Nat} (hn : n + second.utf8ByteSize < 2 ^ 32) {t u : Token}
    (ht : t ∈ (TokenStream.ofText second).tokens) (hu : u ∈ (TokenStream.ofText second).tokens) :
    (t.span.merge u.span).shift n = (t.span.shift n).merge (u.span.shift n) := by
  have hsize : (Position.start.advance second.toList).offset = second.utf8ByteSize := by
    rw [(Position.start.advance_offset_line _).1, String.ofList_toList]
    exact Nat.zero_add _
  have hbounds (t : Token) (ht : t ∈ (TokenStream.ofText second).tokens) :
      ∃ a b, t.span = .ofBounds a b ∧ a ≤ b ∧ b ≤ second.utf8ByteSize := by
    obtain ⟨a, b, hspan, hab, hb⟩ := (Lexer.ofText second).stream_span t ht
    exact ⟨a, b, hspan, hab, hsize ▸ hb⟩
  obtain ⟨a, b, hab, hle, hb⟩ := hbounds t ht
  obtain ⟨c, d, hcd, hle', hd⟩ := hbounds u hu
  rw [hab, hcd]
  exact Span.shift_merge hle hle' (by omega) (by omega)

/-- The tokens of both texts, before the first of them is read. -/
theorem ofStream_append (hfirst : (TokenStream.ofText first).fault = none) (second : String) :
    ParseState.ofStream (.ofText (first ++ "\n" ++ second)) =
      ⟨(TokenStream.ofText (first ++ "\n")).tokens ++
          (TokenStream.ofText second).tokens.map (Token.move (.past (first ++ "\n"))),
        (TokenStream.ofText second).stop.move (.past (first ++ "\n")), []⟩ := by
  rw [TokenStream.ofText_append hfirst]
  rfl

/-- A fault of the second text is one of both, in a later place. -/
theorem parse_past_error {e : LexError} (hfirst : (TokenStream.ofText first).fault = none)
    (h : parse second = .error e) :
    parse (first ++ "\n" ++ second) = .error (e.move (.past (first ++ "\n"))) := by
  rw [parse_error_iff] at h ⊢
  rw [TokenStream.ofText_append hfirst]
  exact congrArg (Option.map _) h

/-- If the program of the first text goes on with the second one, it goes on with the program of the
second one, in later places. -/
theorem parse_past {b : Program} {errors : List SyntaxError} {parsed : Parsed}
    (hfirst : (TokenStream.ofText first).fault = none)
    (hgoes : program (.ofStream (.ofText (first ++ "\n" ++ second))) =
      (program >>= fun more => pure (b ++ more))
        ⟨(TokenStream.ofText second).tokens.map (Token.move (.past (first ++ "\n"))),
          (TokenStream.ofText second).stop.move (.past (first ++ "\n")), errors⟩)
    (h : parse second = .ok parsed) :
    ∃ later, parse (first ++ "\n" ++ second) = .ok ⟨b ++ later,
        errors ++ parsed.errors.map (SyntaxError.move (.past (first ++ "\n")))⟩ ∧
      Program.map id noPlace later = Program.map id noPlace parsed.program ∧
      ((first ++ "\n" ++ second).utf8ByteSize < 2 ^ 32 ∨
          (∀ t ∈ (TokenStream.ofText second).tokens, t.kind ≠ .keyword .IIF) →
        later = Program.map id (Span.shift (first ++ "\n").utf8ByteSize) parsed.program) := by
  obtain ⟨hfault, rfl⟩ := parse_ok h
  have hfault' : (TokenStream.ofText (first ++ "\n" ++ second)).fault = none := by
    rw [TokenStream.ofText_append hfirst]
    exact congrArg (Option.map _) hfault
  obtain ⟨c, later, s₁, hc, hlater, hplaces, hshift⟩ := program_move (.past (first ++ "\n")) errors
    (s := .ofStream (.ofText second)) (Lexer.ofText second).stream_stop
  have herrors : (ParseState.ofStream (.ofText second)).errors.map
      (SyntaxError.move (.past (first ++ "\n"))) = [] := rfl
  rw [herrors, List.append_nil] at hlater
  have hboth := hgoes.trans (bind_some hlater)
  rw [parse_of_fault_none hfault', hboth, hc]
  refine ⟨later, rfl, hplaces, fun h => hshift _ ⟨fun _ => rfl, fun ht hk hu => ?_⟩⟩
  obtain hsize | hnone := h
  · rw [String.utf8ByteSize_append] at hsize
    exact shift_merge_tokens hsize ht hu
  · exact absurd hk (hnone _ ht)

/-- If nothing is wrong with either text, the program of both is that of the first and then that of
the second, in later places. -/
theorem parse_join {p q : Program} (hfirst : parse first = .ok ⟨p, []⟩)
    (hsecond : parse second = .ok ⟨q, []⟩)
    (hline : EndsLine (TokenStream.ofText (first ++ "\n")).tokens) :
    ∃ later, parse (first ++ "\n" ++ second) = .ok ⟨p ++ later, []⟩ ∧
      Program.map id noPlace later = Program.map id noPlace q := by
  obtain ⟨hfault, hparsed⟩ := parse_ok hfirst
  obtain ⟨hp, herrors⟩ := Parsed.mk.inj hparsed
  have hend : ¬ EndError program (.ofStream (.ofText first)) := by
    rintro ⟨x, hx, -⟩
    rw [← herrors] at hx
    cases hx
  have hts (t : Token) (ht : t ∈ (TokenStream.ofText first).tokens) : t.kind ≠ .endOfFile :=
    ((Lexer.ofText first).stream_lexical t ht).2
  have hgoes : ∃ b s₁, program (.ofStream (.ofText first)) = (some b, s₁) ∧
      program (.ofStream (.ofText (first ++ "\n" ++ second))) =
        (program >>= fun more => pure (b ++ more))
          ⟨(TokenStream.ofText second).tokens.map (Token.move (.past (first ++ "\n"))),
            (TokenStream.ofText second).stop.move (.past (first ++ "\n")), s₁.errors⟩ := by
    rw [ofStream_append hfault]
    -- The line break behind the first text is a token of its own, or it is not.
    obtain htokens | ⟨t, newline, ht, htk, hnewline, htokens⟩ := TokenStream.ofText_newline hfault
    · rw [htokens] at hline ⊢
      exact program_lines _ _ hts (Lexer.ofText first).stream_stop (Lexer.ofText second).stream_stop
        hline hend
    · have hne : (TokenStream.ofText first).tokens ≠ [] := by
        intro hnil
        rw [hnil] at ht
        cases ht
      have hlast (u : Token) (hu : (TokenStream.ofText first).tokens.getLast? = some u) :
          u.kind ≠ .newline := Option.some.inj (ht.symm.trans hu) ▸ htk
      rw [htokens, List.append_assoc]
      exact program_sequel (q := .newline newline _ _) hts (Lexer.ofText first).stream_stop
        (Lexer.ofText second).stream_stop nofun ⟨hnewline, hlast⟩ hne hend
  obtain ⟨b, s₁, hb, hgoes⟩ := hgoes
  rw [hb] at hp herrors
  obtain rfl : p = b := hp
  have herrors : s₁.errors = [] := herrors.symm
  obtain ⟨later, hparse, hplaces, -⟩ := parse_past hfault hgoes hsecond
  refine ⟨later, ?_, hplaces⟩
  rw [hparse, herrors]
  rfl

/-- Texts are read one after the other. The fault and the syntax errors of the second one are
further on by the bytes and the line breaks of the first. So are the places in its program if both
texts together are in the range of places or if there is no conditional in the second one. -/
theorem parse_append (second : String) {parsed : Parsed}
    (hparse : parse (first ++ "\n") = .ok parsed)
    (hline : EndsLine (TokenStream.ofText (first ++ "\n")).tokens)
    (herrors : ∀ x ∈ parsed.errors, ¬ x.At (TokenStream.ofText (first ++ "\n")).stop) :
    match parse second with
    | .error e => parse (first ++ "\n" ++ second) = .error (e.move (.past (first ++ "\n")))
    | .ok parsed' => ∃ later,
        parse (first ++ "\n" ++ second) = .ok ⟨parsed.program ++ later,
          parsed.errors ++ parsed'.errors.map (SyntaxError.move (.past (first ++ "\n")))⟩ ∧
        Program.map id noPlace later = Program.map id noPlace parsed'.program ∧
        ((first ++ "\n" ++ second).utf8ByteSize < 2 ^ 32 ∨
            (∀ t ∈ (TokenStream.ofText second).tokens, t.kind ≠ .keyword .IIF) →
          later = Program.map id (Span.shift (first ++ "\n").utf8ByteSize) parsed'.program) := by
  obtain ⟨hfault, rfl⟩ := parse_ok hparse
  have hfirst := TokenStream.ofText_newline_fault hfault
  split
  · next e h => exact parse_past_error hfirst h
  · next parsed' h =>
    have hend : ¬ EndError program (.ofStream (.ofText (first ++ "\n"))) :=
      fun ⟨x, hx, hat⟩ => herrors x hx hat
    obtain ⟨b, s₁, hb, hjoin⟩ := program_lines
      ((TokenStream.ofText second).tokens.map (Token.move (.past (first ++ "\n"))))
      ((TokenStream.ofText second).stop.move (.past (first ++ "\n")))
      (fun t ht => ((Lexer.ofText (first ++ "\n")).stream_lexical t ht).2)
      (Lexer.ofText (first ++ "\n")).stream_stop (Lexer.ofText second).stream_stop hline hend
    have hb : program (.ofStream (.ofText (first ++ "\n"))) = (some b, s₁) := hb
    rw [hb]
    exact parse_past hfirst ((ofStream_append hfirst second).symm ▸ hjoin) h

/-- Both lines of the first text are wrong, and the second text even at its end. -/
theorem parse_append_case :
    ∃ parsed, parse ("x = )\n? (1" ++ "\n") = .ok parsed ∧ parsed.errors.length = 2 ∧
      EndsLine (TokenStream.ofText ("x = )\n? (1" ++ "\n")).tokens ∧
      (∀ x ∈ parsed.errors, ¬ x.At (TokenStream.ofText ("x = )\n? (1" ++ "\n")).stop) ∧
      ∃ parsed', parse "y = IIF(x, 2, 3)\nDO CASE" = .ok parsed' ∧ parsed'.errors.length = 2 ∧
        ∃ later, parse ("x = )\n? (1" ++ "\n" ++ "y = IIF(x, 2, 3)\nDO CASE") =
            .ok ⟨parsed.program ++ later, parsed.errors ++
              parsed'.errors.map (SyntaxError.move (.past ("x = )\n? (1" ++ "\n")))⟩ ∧
          later = Program.map id (Span.shift ("x = )\n? (1" ++ "\n").utf8ByteSize)
            parsed'.program := by
  have hfirst : (TokenStream.ofText ("x = )\n? (1" ++ "\n")).fault = none := by cbv
  have hsecond : (TokenStream.ofText "y = IIF(x, 2, 3)\nDO CASE").fault = none := by cbv
  have hline : EndsLine (TokenStream.ofText ("x = )\n? (1" ++ "\n")).tokens :=
    of_decide_eq_true (by cbv)
  have hall : (program (.ofStream (.ofText ("x = )\n? (1" ++ "\n")))).2.errors.all
      (fun x => ¬ x.At (TokenStream.ofText ("x = )\n? (1" ++ "\n")).stop) = true := by cbv
  have herrors : ∀ x ∈ (program (.ofStream (.ofText ("x = )\n? (1" ++ "\n")))).2.errors,
      ¬ x.At (TokenStream.ofText ("x = )\n? (1" ++ "\n")).stop :=
    fun x hx => of_decide_eq_true (List.all_eq_true.mp hall x hx)
  have hjoin := parse_append "y = IIF(x, 2, 3)\nDO CASE" (parse_of_fault_none hfirst) hline herrors
  rw [parse_of_fault_none hsecond] at hjoin
  obtain ⟨later, hparse, -, hshift⟩ := hjoin
  exact ⟨_, parse_of_fault_none hfirst, by cbv, hline, herrors,
    _, parse_of_fault_none hsecond, by cbv, later, hparse, hshift (.inl (by decide))⟩

/-! ## Beyond the range of places -/

/-- A text of nothing but blanks. -/
def Text.blanks (n : Nat) : String := String.ofList (List.replicate n ' ')

theorem Position.advance_blanks (n : Nat) (p : Position) :
    p.advance (List.replicate n ' ') = ⟨p.offset + n, p.line, p.col + UInt32.ofNat n⟩ := by
  induction n generalizing p with
  | zero => exact congrArg (Position.mk p.offset p.line) (UInt32.add_zero p.col).symm
  | succ n ih =>
    have hstep : p.step ' ' = ⟨p.offset + 1, p.line, p.col + 1⟩ := rfl
    rw [List.replicate_succ, advance, List.foldl_cons, ← advance, hstep, ih, Nat.add_assoc,
      Nat.add_comm 1, UInt32.add_assoc, UInt32.add_comm 1, UInt32.ofNat_add]
    rfl

theorem Text.utf8ByteSize_blank_line (n : Nat) : (blanks n ++ "\n").utf8ByteSize = n + 1 := by
  obtain ⟨hoffset, -⟩ := Position.advance_offset_line .start (List.replicate n ' ')
  rw [Position.advance_blanks] at hoffset
  rw [String.utf8ByteSize_append]
  exact congrArg (· + 1) (Nat.add_left_cancel hoffset.symm)

/-- Blanks in front of a text only move its tokens. -/
theorem Lexer.stream_blanks (n : Nat) (rest : List Char) (pos : Position) (last : Boundary) :
    (⟨List.replicate n ' ' ++ rest, pos, last⟩ : Lexer).stream =
      (⟨rest, pos.advance (List.replicate n ' '), last⟩ : Lexer).stream := by
  induction n generalizing pos with
  | zero => rfl
  | succ n ih =>
    have hstep : (⟨List.replicate (n + 1) ' ' ++ rest, pos, last⟩ : Lexer).step =
        some (none, ⟨List.replicate n ' ' ++ rest, pos.step ' ', last⟩) := rfl
    rw [stream_skip hstep, ih]
    rfl

/-- A line of blanks has no tokens, and the next line starts behind it. -/
theorem TokenStream.ofText_blank_line (n : Nat) (second : String) :
    ofText (Text.blanks n ++ "\n" ++ second) =
      (⟨second.toList, ⟨n + 1, 2, 1⟩, .start⟩ : Lexer).stream := by
  have htext : Lexer.ofText (Text.blanks n ++ "\n" ++ second) =
      ⟨List.replicate n ' ' ++ ('\n' :: second.toList), .start, .start⟩ := by
    simp [Lexer.ofText, Text.blanks]
  have hstep (pos : Position) : (⟨'\n' :: second.toList, pos, .start⟩ : Lexer).step =
      some (none, ⟨second.toList, ⟨pos.offset + 1, pos.line + 1, 1⟩, .start⟩) := rfl
  rw [ofText, htext, Lexer.stream_blanks, Lexer.stream_skip (hstep _), Position.advance_blanks]
  simp [Position.start]

/-- The closing parenthesis of this conditional stands beyond the range of places and its keyword in
front of the end of the range. Put together, their places start at the parenthesis, so the program
of both texts is not that of the second one further on. -/
theorem parse_append_wrapped : ∃ e e' : Expr,
    parse (Text.blanks 4294967289 ++ "\n") = .ok ⟨[], []⟩ ∧
    EndsLine (TokenStream.ofText (Text.blanks 4294967289 ++ "\n")).tokens ∧
    parse "IIF(a,b,c)" = .ok ⟨[.expr e], []⟩ ∧
    parse (Text.blanks 4294967289 ++ "\n" ++ "IIF(a,b,c)") = .ok ⟨[.expr e'], []⟩ ∧
    e'.span = ⟨3, 4294967290⟩ ∧
    e.span.shift (Text.blanks 4294967289 ++ "\n").utf8ByteSize = ⟨4294967290, 10⟩ ∧
    [.expr e'] ≠ Program.map id (Span.shift (Text.blanks 4294967289 ++ "\n").utf8ByteSize)
      [.expr e] := by
  have hfirst := TokenStream.ofText_blank_line 4294967289 ""
  rw [String.append_empty] at hfirst
  have hboth := TokenStream.ofText_blank_line 4294967289 "IIF(a,b,c)"
  have hnothing : (⟨"".toList, ⟨4294967289 + 1, 2, 1⟩, .start⟩ : Lexer).stream =
      ⟨[], ⟨.endOfFile, "", ⟨4294967290, 0⟩, 2, 1⟩, none⟩ := by cbv
  have hfault : (⟨"IIF(a,b,c)".toList, ⟨4294967289 + 1, 2, 1⟩, .start⟩ : Lexer).stream.fault =
      none := by cbv
  have hfault' : (TokenStream.ofText "IIF(a,b,c)").fault = none := by cbv
  rw [hnothing] at hfirst
  rw [Text.utf8ByteSize_blank_line]
  refine ⟨.iif (.atom (.name "a") ⟨4, 1⟩) (.atom (.name "b") ⟨6, 1⟩) (.atom (.name "c") ⟨8, 1⟩)
      ⟨0, 10⟩, .iif (.atom (.name "a") ⟨4294967294, 1⟩) (.atom (.name "b") ⟨0, 1⟩)
      (.atom (.name "c") ⟨2, 1⟩) ⟨3, 4294967290⟩, ?_, ?_, ?_, ?_, rfl, by decide, ?_⟩
  · rw [parse_of_fault_none (by rw [hfirst]), hfirst]
    rfl
  · rw [hfirst]
    decide
  · rw [parse_of_fault_none hfault']
    cbv
  · rw [parse_of_fault_none (by rw [hboth, hfault]), hboth]
    cbv
  · intro h
    obtain ⟨-, -, -, hspan⟩ := Expr.iif.inj (Statement.expr.inj (List.cons.inj h).1)
    exact absurd hspan (by decide)

end Xbase
