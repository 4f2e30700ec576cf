import Xbase.Proofs.Token.Next

/-!
# Small and capital letters

Only the letters from A to Z have another case. How a text is cut into pieces does not depend on
the case of its letters (`Piece.piece_toLower`), and neither do places, for both cases of a letter
take one byte. What is left is the text of the tokens. Words are put into small letters, numbers
have no letters, and the parser does not look at the text of symbols and truth values: so only
strings keep the letters as they stand.

`Lexer.stream_recased` says that two texts which differ in the case of letters outside strings have
the same tokens, apart from the text of symbols and truth values.
-/

namespace Xbase

namespace Piece

variable {c d : Char} {cs cs' : List Char}

/-! ## Characters -/

/-- Nothing but the character itself becomes a character that is no letter. -/
theorem toLower_eq_iff (hd : d.isAlpha = false) : c.toLower = d ↔ c = d := by
  simp only [Char.isAlpha, Bool.or_eq_false_iff] at hd
  obtain ⟨-, h⟩ | ⟨hupper, hlower, -⟩ := toLower_eq_or c
  · rw [h]
  · constructor
    · rintro rfl
      rw [hlower] at hd
      cases hd.2
    · rintro rfl
      rw [hupper] at hd
      cases hd.1

theorem isAlpha_toLower (c : Char) : c.toLower.isAlpha = c.isAlpha := by
  obtain ⟨-, h⟩ | ⟨hupper, hlower, -⟩ := toLower_eq_or c
  · rw [h]
  · simp [Char.isAlpha, hupper, hlower]

/-- Whether a character is one that is no letter does not depend on its case. -/
theorem bne_toLower (hd : d.isAlpha = false) (c : Char) : (c.toLower != d) = (c != d) := by
  rw [Bool.eq_iff_iff, bne_iff_ne, bne_iff_ne, ne_eq, toLower_eq_iff hd]

/-- A property of characters that holds of no letter, or of all of them, ignores their case. -/
theorem apply_toLower {p : Char → Bool} {b : Bool} (hp : ∀ c, c.isAlpha = true → p c = b)
    (c : Char) : p c.toLower = p c := by
  obtain ⟨-, h⟩ | ⟨hupper, hlower, -⟩ := toLower_eq_or c
  · rw [h]
  · rw [hp c (by simp [Char.isAlpha, hupper]), hp c.toLower (by simp [Char.isAlpha, hlower])]

theorem isWordPart_of_isAlpha (h : c.isAlpha = true) : isWordPart c = true := by
  simp [isWordPart, Char.isAlphanum, h]

theorem isDigit_of_isAlpha (h : c.isAlpha = true) : c.isDigit = false :=
  (isWordStart_part (by simp [isWordStart, h])).2

/-- Both cases of a letter take one byte. -/
theorem utf8Size_toLower (c : Char) : c.toLower.utf8Size = c.utf8Size := by
  obtain ⟨-, h⟩ | ⟨hupper, hlower, -⟩ := toLower_eq_or c
  · rw [h]
  · simp only [Char.isUpper, Char.isLower, Bool.and_eq_true, decide_eq_true_eq] at hupper hlower
    rw [Char.utf8Size_eq_one_iff.2 (UInt32.le_trans hlower.2 (by decide)),
      Char.utf8Size_eq_one_iff.2 (UInt32.le_trans hupper.2 (by decide))]

/-- Texts that differ in the case of letters only are the same where there are no letters. -/
theorem eq_of_map_toLower (h : cs'.map Char.toLower = cs.map Char.toLower)
    (hcs : ∀ d ∈ cs, d.isAlpha = false) : cs' = cs := by
  induction cs generalizing cs' with
  | nil => exact List.map_eq_nil_iff.1 h
  | cons d cs ih =>
    obtain ⟨d', ds, rfl, hd, hds⟩ := List.map_eq_cons_iff.1 h
    have halpha := hcs d (List.mem_cons_self ..)
    rw [(toLower_eq_iff halpha).2 rfl, toLower_eq_iff halpha] at hd
    rw [hd, ih hds fun x hx => hcs x (List.mem_cons_of_mem _ hx)]

/-! ## Pieces -/

theorem length_takeWhile_toLower {p : Char → Bool} (hp : ∀ c, p c.toLower = p c)
    (cs : List Char) : ((cs.map Char.toLower).takeWhile p).length = (cs.takeWhile p).length := by
  have hcomp : p ∘ Char.toLower = p := funext hp
  rw [List.takeWhile_map, hcomp, List.length_map]

theorem head?_toLower (hd : d.isAlpha = false) (cs : List Char) :
    ((cs.map Char.toLower).head? = some d) = (cs.head? = some d) := by
  cases cs with
  | nil => rfl
  | cons c cs => simp [toLower_eq_iff hd]

theorem lineLength_toLower (cs : List Char) : lineLength (cs.map Char.toLower) = lineLength cs :=
  length_takeWhile_toLower (bne_toLower rfl) cs

theorem commentLength?_toLower (cs : List Char) :
    commentLength? (cs.map Char.toLower) = commentLength? cs := by
  fun_induction commentLength? cs with
  | case1 => rfl
  | case2 rest => rfl
  | case3 c rest hne ih =>
    rw [List.map_cons, commentLength?, ih]
    intro more hc hrest
    obtain ⟨d, ds, rfl, hd, -⟩ := List.map_eq_cons_iff.1 hrest
    exact hne ds ((toLower_eq_iff rfl).1 hc) (by rw [(toLower_eq_iff rfl).1 hd])

/-- A slash in front of anything but `/`, `*` and `=` is the operator. -/
theorem slash_of_ne (h₁ : c ≠ '/') (h₂ : c ≠ '*') (h₃ : c ≠ '=') (cs : List Char) :
    slash (c :: cs) = (.token (.symbol .slash), 1) := by
  unfold slash
  split <;> simp_all

theorem slash_toLower (cs : List Char) : slash (cs.map Char.toLower) = slash cs := by
  cases cs with
  | nil => rfl
  | cons c cs =>
    rw [List.map_cons]
    by_cases h₁ : c = '/'
    · subst h₁
      simp only [slash, Char.reduceToLower, lineLength_toLower]
    by_cases h₂ : c = '*'
    · subst h₂
      simp only [slash, Char.reduceToLower, commentLength?_toLower, List.length_map]
    by_cases h₃ : c = '='
    · subst h₃
      rfl
    rw [slash_of_ne h₁ h₂ h₃, slash_of_ne (mt (toLower_eq_iff rfl).1 h₁)
      (mt (toLower_eq_iff rfl).1 h₂) (mt (toLower_eq_iff rfl).1 h₃)]

theorem dot_toLower (cs : List Char) : dot (cs.map Char.toLower) = dot cs := by
  obtain _ | ⟨a, _ | ⟨b, cs⟩⟩ := cs
  · rfl
  · rfl
  · by_cases hb : b = '.'
    · subst hb
      have hdot (letter : Char) (more : List Char) : dot (letter :: '.' :: more) =
          if letter.toLower = 't' then (.token (.logical true), 3)
          else if letter.toLower = 'f' then (.token (.logical false), 3)
          else (.token (.symbol .dot), 1) := rfl
      rw [hdot, ← toLower_toLower a]
      exact hdot a.toLower (cs.map Char.toLower)
    · exact (dot_of_ne (mt (toLower_eq_iff rfl).1 hb) _ _).trans (dot_of_ne hb a cs).symm

theorem string_toLower (hd : d.isAlpha = false) (cs : List Char) :
    string d (cs.map Char.toLower) = string d cs := by
  unfold string
  dsimp only
  rw [length_takeWhile_toLower (bne_toLower hd), List.length_map]

theorem numberLength_toLower (cs : List Char) :
    numberLength (cs.map Char.toLower) = numberLength cs := by
  have hdigit := apply_toLower fun _ => isDigit_of_isAlpha
  have hdrop : (cs.map Char.toLower).dropWhile Char.isDigit =
      (cs.dropWhile Char.isDigit).map Char.toLower := by
    rw [List.dropWhile_map, show Char.isDigit ∘ Char.toLower = Char.isDigit from funext hdigit]
  unfold numberLength
  rw [length_takeWhile_toLower hdigit, hdrop]
  generalize cs.dropWhile Char.isDigit = rest
  obtain _ | ⟨a, _ | ⟨b, more⟩⟩ := rest
  · rfl
  · simp
  · by_cases ha : a = '.'
    · subst ha
      simp [hdigit, length_takeWhile_toLower hdigit]
    · simp [ha, toLower_eq_iff (c := a) (d := '.') rfl]

/-- The next piece does not depend on the case of the letters. -/
theorem piece_toLower (c : Char) (cs : List Char) :
    piece c.toLower (cs.map Char.toLower) = piece c cs := by
  have hword := length_takeWhile_toLower (apply_toLower fun _ => isWordPart_of_isAlpha) cs
  by_cases hc : c.isAlpha = true
  · -- Both cases of a letter start a word.
    have hstart {d : Char} (hd : d.isAlpha = true) (rest : List Char) :
        piece d rest = (.word, (rest.takeWhile isWordPart).length + 1) := by
      have hd' : isWordStart d = true := by simp [isWordStart, hd]
      rw [piece_plain (isWordPart_of_isAlpha hd), isDigit_of_isAlpha hd, hd']
      rfl
    rw [hstart hc, hstart (by rw [isAlpha_toLower, hc]), hword]
  · rw [Bool.not_eq_true] at hc
    rw [(toLower_eq_iff hc).2 rfl]
    simp only [piece, slash_toLower, head?_toLower (d := '&') rfl, head?_toLower (d := '=') rfl,
      dot_toLower, string_toLower hc, numberLength_toLower, hword, lineLength_toLower]

end Piece

/-! ## Places -/

namespace Position

open Piece

theorem step_toLower (p : Position) (c : Char) : p.step c.toLower = p.step c := by
  simp only [step, toLower_eq_iff (d := '\n') rfl, utf8Size_toLower]

/-- Places do not depend on the case of the letters in front of them. -/
theorem advance_toLower (p : Position) (cs : List Char) :
    p.advance (cs.map Char.toLower) = p.advance cs := by
  simp only [advance, List.foldl_map, step_toLower]

theorem advance_congr (p : Position) {cs cs' : List Char}
    (h : cs'.map Char.toLower = cs.map Char.toLower) : p.advance cs' = p.advance cs := by
  rw [← advance_toLower, h, advance_toLower]

end Position

/-! ## Tokens -/

/-- The kinds of tokens of which the text matters. All other tokens are known by their kind. -/
def Kind.hasText : Kind → Bool
  | .number | .string | .name => true
  | _ => false

/-- The token without a text that does not matter. -/
@[reducible]
def Token.essence (t : Token) : Token :=
  { t with lexeme := if t.kind.hasText then t.lexeme else "" }

theorem Token.essence_of_hasText {t : Token} (h : t.kind.hasText = true) : t.essence = t := by
  rw [essence, if_pos h]

/-- The stream without texts that do not matter. -/
def TokenStream.essence (ts : TokenStream) : TokenStream :=
  { ts with tokens := ts.tokens.map Token.essence, stop := ts.stop.essence }

namespace Lexer

open Piece

variable {lx lx' lx₁ : Lexer} {item : Option (Except LexError Token)}

/-- The character `i` of the text in front of the lexer belongs to a string: to the text of such a
token, which stands in the line and the column that the token names. -/
def InString (lx : Lexer) (i : Nat) : Prop :=
  ∃ t ∈ lx.stream.tokens, t.kind = .string ∧ ∃ before after,
    lx.rest = before ++ (t.lexeme.toList ++ after) ∧
    (lx.pos.advance before).line = t.line ∧ (lx.pos.advance before).col = t.col ∧
    before.length ≤ i ∧ i < before.length + t.lexeme.toList.length

/-- The texts in front of the lexers differ in the case of letters only, and not in strings. -/
structure Recased (lx lx' : Lexer) : Prop where
  pos : lx'.pos = lx.pos
  last : lx'.last = lx.last
  letters : lx'.rest.map Char.toLower = lx.rest.map Char.toLower
  strings : ∀ i, lx.InString i → lx'.rest[i]? = lx.rest[i]?

/-- What a piece makes of a text depends on the case of its letters only where the text of the token
matters. -/
theorem emit_recased (pos : Position) (last : Boundary) {text text' : List Char} {kind : Piece}
    (h : text'.map Char.toLower = text.map Char.toLower)
    (hkind : ∀ k, kind = .token k → k.hasText = true → text' = text) :
    (emit pos last text' kind).1.map (Except.map Token.essence) =
      (emit pos last text kind).1.map (Except.map Token.essence) ∧
    (emit pos last text' kind).2 = (emit pos last text kind).2 := by
  have hspan : emit.span pos text' = emit.span pos text := by
    rw [emit.span, emit.span, pos.advance_congr h]
  cases kind with
  | skipped | semicolon => exact ⟨rfl, rfl⟩
  | newline =>
    dsimp only [emit]
    split
    · simp [emit.place, hspan, Except.map, Token.essence, Kind.hasText]
    · exact ⟨rfl, rfl⟩
  | token k =>
    cases hk : k.hasText with
    | true => rw [hkind k rfl hk]; exact ⟨rfl, rfl⟩
    | false => simp [emit, emit.place, hspan, Except.map, Token.essence, hk]
  | word => simp [emit, emit.place, hspan, h]
  | fault f => simp [emit, hspan]

/-- The text of a number has no letters. -/
theorem number_plain {c : Char} (hc : c.isDigit = true) (cs : List Char) :
    ∀ d ∈ c :: cs.take (numberLength cs), d.isAlpha = false := by
  obtain ⟨whole, fraction, hnumeral, -, hdigits⟩ := take_numberLength hc cs
  have hplain {d : Char} (hd : d.isDigit = true) : d.isAlpha = false := by
    rw [← Bool.not_eq_true]
    intro halpha
    rw [isDigit_of_isAlpha halpha] at hd
    cases hd
  intro d hd
  rw [hnumeral, Number.numeral, List.mem_append] at hd
  obtain hd | hd := hd
  · exact hplain (hdigits d (List.mem_append_left _ hd))
  · split at hd
    · cases hd
    · obtain rfl | hd := List.mem_cons.1 hd
      · rfl
      · exact hplain (hdigits d (List.mem_append_right _ hd))

/-- A string behind a step is one of the whole text. -/
theorem inString_step (h : lx.step = some (item, lx₁)) (hitem : ∀ e, item ≠ some (.error e))
    {text : List Char} (hrest : lx.rest = text ++ lx₁.rest) (hpos : lx₁.pos = lx.pos.advance text)
    {i : Nat} (hi : lx₁.InString i) : lx.InString (text.length + i) := by
  obtain ⟨t, ht, hk, before, after, hsplit, hline, hcol, hle, hlt⟩ := hi
  have htokens : t ∈ lx.stream.tokens := by
    obtain _ | (e | t') := item
    · rwa [stream_skip h]
    · exact absurd rfl (hitem e)
    · rw [stream_ok h]
      exact List.mem_cons_of_mem _ ht
  rw [hpos, ← Position.advance_append] at hline hcol
  refine ⟨t, htokens, hk, text ++ before, after, ?_, hline, hcol, ?_, ?_⟩
  · rw [hrest, hsplit, List.append_assoc]
  · rw [List.length_append]
    omega
  · rw [List.length_append]
    omega

/-- The text of a string that a step makes belongs to the string. -/
theorem inString_of_piece {c : Char} {cs : List Char} {count : Nat} (hr : lx.rest = c :: cs)
    (hp : piece c cs = (.token .string, count)) {i : Nat}
    (hi : i < (c :: cs.take (count - 1)).length) : lx.InString i := by
  have hmem : emit.place lx.pos (c :: cs.take (count - 1)) .string
      (String.ofList (c :: cs.take (count - 1))) ∈ lx.stream.tokens := by
    rw [stream_ok (step_of_piece hr hp)]
    exact List.mem_cons_self ..
  refine ⟨_, hmem, rfl, [], cs.drop (count - 1), ?_, rfl, rfl, Nat.zero_le _, ?_⟩
  · simp [emit.place, hr]
  · simpa [emit.place] using hi

namespace Recased

/-- The next pieces are the same, up to the case of the letters. -/
theorem piece_eq (h : lx.Recased lx') {c : Char} {cs : List Char} (hr : lx.rest = c :: cs) :
    ∃ c' cs', lx'.rest = c' :: cs' ∧ piece c' cs' = piece c cs ∧
      c'.toLower = c.toLower ∧ cs'.map Char.toLower = cs.map Char.toLower := by
  have hletters := h.letters
  rw [hr, List.map_cons] at hletters
  obtain ⟨c', cs', hr', hc, hcs⟩ := List.map_eq_cons_iff.1 hletters
  exact ⟨c', cs', hr', by rw [← piece_toLower, ← piece_toLower c, hc, hcs], hc, hcs⟩

/-- A step does the same in both texts. -/
theorem step (h : lx.Recased lx') (hstep : lx.step = some (item, lx₁)) :
    ∃ item' lx₁', lx'.step = some (item', lx₁') ∧
      item'.map (Except.map Token.essence) = item.map (Except.map Token.essence) ∧
      ((∀ e, item ≠ some (.error e)) → lx₁.Recased lx₁') := by
  obtain ⟨c, cs, kind, count, hr, hp, rfl, rfl⟩ := step_cases hstep
  obtain ⟨c', cs', hr', hp', hc, hcs⟩ := h.piece_eq hr
  have htext : (c' :: cs'.take (count - 1)).map Char.toLower =
      (c :: cs.take (count - 1)).map Char.toLower := by
    rw [List.map_cons, List.map_cons, List.map_take, List.map_take, hc, hcs]
  have hlength : (c' :: cs'.take (count - 1)).length = (c :: cs.take (count - 1)).length := by
    simpa using congrArg List.length htext
  have hsplit : lx.rest = (c :: cs.take (count - 1)) ++ cs.drop (count - 1) := by
    rw [hr, List.cons_append, List.take_append_drop]
  have hsplit' : lx'.rest = (c' :: cs'.take (count - 1)) ++ cs'.drop (count - 1) := by
    rw [hr', List.cons_append, List.take_append_drop]
  have hkind : ∀ k, kind = .token k → k.hasText = true →
      c' :: cs'.take (count - 1) = c :: cs.take (count - 1) := by
    rintro k rfl hk
    have hfits := piece_fits c cs
    rw [hp] at hfits
    cases k with
    | number =>
      obtain ⟨hdigit, rfl⟩ := hfits
      exact eq_of_map_toLower htext (number_plain hdigit cs)
    | string =>
      apply List.ext_getElem?
      intro i
      by_cases hi : i < (c :: cs.take (count - 1)).length
      · have hsame := h.strings i (inString_of_piece hr hp hi)
        rwa [hsplit, hsplit', List.getElem?_append_left hi,
          List.getElem?_append_left (hlength ▸ hi)] at hsame
      · rw [List.getElem?_eq_none (by omega), List.getElem?_eq_none (by omega)]
    | name => exact hfits.elim
    | symbol s | keyword k | logical b | newline | endOfFile => cases hk
  obtain ⟨hitem, hlast⟩ := emit_recased lx.pos lx.last htext hkind
  refine ⟨_, _, step_of_piece hr' (hp'.trans hp), ?_, fun hok => ⟨?_, ?_, ?_, fun i hi => ?_⟩⟩
  · rw [h.pos, h.last, hitem]
  · rw [h.pos, Position.advance_congr _ htext]
  · rw [h.pos, h.last, hlast]
  · rw [List.map_drop, List.map_drop, hcs]
  · have hsame := h.strings _ (inString_step hstep hok hsplit rfl hi)
    rwa [hsplit, hsplit', List.getElem?_append_right (by omega),
      List.getElem?_append_right (by omega), hlength, Nat.add_sub_cancel_left] at hsame

end Recased

/-- Texts that differ in the case of letters outside strings have the same tokens, apart from texts
that do not matter. -/
theorem stream_recased (h : lx.Recased lx') : lx'.stream.essence = lx.stream.essence := by
  induction lx using Lexer.stream.induct generalizing lx' with
  | case1 lx hstep =>
    obtain ⟨rest, pos, last⟩ := lx
    obtain ⟨rest', pos', last'⟩ := lx'
    obtain ⟨rfl, rfl, hletters, -⟩ := h
    cases rest with
    | nil =>
      obtain rfl : rest' = [] := List.map_eq_nil_iff.1 hletters
      rfl
    | cons c cs => cases hstep
  | case2 lx e lx₁ hstep =>
    obtain ⟨item', lx₁', hstep', hitem, -⟩ := h.step hstep
    obtain _ | (e' | t') := item' <;> cases hitem
    rw [stream_error hstep, stream_error hstep']
  | case3 lx t lx₁ hstep ih =>
    obtain ⟨item', lx₁', hstep', hitem, hmore⟩ := h.step hstep
    obtain _ | (e' | t') := item'
    · cases hitem
    · cases hitem
    · have ht : t'.essence = t.essence := Except.ok.inj (Option.some.inj hitem)
      rw [stream_ok hstep, stream_ok hstep']
      show ({ lx₁'.stream.essence with tokens := t'.essence :: lx₁'.stream.essence.tokens } :
        TokenStream) = { lx₁.stream.essence with tokens := t.essence :: lx₁.stream.essence.tokens }
      rw [ht, ih (hmore (by simp))]
  | case4 lx lx₁ hstep ih =>
    obtain ⟨item', lx₁', hstep', hitem, hmore⟩ := h.step hstep
    obtain rfl : item' = none := Option.map_eq_none_iff.1 hitem
    rw [stream_skip hstep, stream_skip hstep', ih (hmore (by simp))]

end Lexer

end Xbase
