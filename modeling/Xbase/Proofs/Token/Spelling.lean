import Xbase.Proofs.Token.Tiling

/-!
# How the pieces of a text are spelled

`Piece.Spells rest kind text` says what the text of a piece looks like, by its kind, where `rest` is
all that stands behind it. Every piece is spelled in this way (`Piece.piece_spells`), so what is
said about the texts of tokens, comments and faults comes from here.

`Lexer.step_spells` says the same of a step.
-/

namespace Xbase

/-- The characters of a symbol. -/
def Symbol.spelling : Symbol → List Char
  | .leftParen => ['(']
  | .rightParen => [')']
  | .leftBracket => ['[']
  | .rightBracket => [']']
  | .leftBrace => ['\x7b']
  | .rightBrace => ['\x7d']
  | .comma => [',']
  | .dot => ['.']
  | .colon => [':']
  | .question => ['?']
  | .minus => ['-']
  | .plus => ['+']
  | .star => ['*']
  | .slash => ['/']
  | .bang => ['!']
  | .equal => ['=']
  | .colonEqual => [':', '=']
  | .plusEqual => ['+', '=']
  | .minusEqual => ['-', '=']
  | .starEqual => ['*', '=']
  | .slashEqual => ['/', '=']
  | .equalEqual => ['=', '=']
  | .bangEqual => ['!', '=']
  | .less => ['<']
  | .lessEqual => ['<', '=']
  | .greater => ['>']
  | .greaterEqual => ['>', '=']

namespace Piece

/-- How a piece of the given kind is spelled, with `rest` behind it. -/
inductive Spells (rest : List Char) : (kind : Piece) → (text : List Char) → Prop
  | symbol (s : Symbol) : Spells rest (.token (.symbol s)) s.spelling
  | logical {letter : Char} {b : Bool} (h : letter.toLower = if b then 't' else 'f') :
      Spells rest (.token (.logical b)) ['.', letter, '.']
  | number {whole fraction : List Char} (hne : whole ≠ [])
      (hd : ∀ c ∈ whole ++ fraction, c.isDigit = true) :
      Spells rest (.token .number) (Number.numeral whole fraction)
  | string {mark : Char} {body : List Char} (hm : isMark mark = true) (hb : mark ∉ body) :
      Spells rest (.token .string) (mark :: (body ++ [mark]))
  | word {c : Char} {w : List Char} (hc : isWordStart c = true)
      (hw : ∀ d ∈ w, isWordPart d = true) : Spells rest .word (c :: w)
  | newline : Spells rest .newline ['\n']
  | semicolon : Spells rest .semicolon [';']
  | blank {c : Char} (h : Text.isBlank c = true) (hn : c ≠ '\n') : Spells rest .skipped [c]
  /-- A comment that goes up to the line break, which is not part of it. -/
  | line {mark : Char} {body : List Char} (hm : mark = '/' ∨ mark = '&') (hb : '\n' ∉ body)
      (hrest : rest = [] ∨ rest.head? = some '\n') : Spells rest .skipped (mark :: mark :: body)
  /-- A comment that goes up to the first mark that ends it. -/
  | block {body : List Char} (hb : ¬ ['*', '/'] <:+: body) :
      Spells rest .skipped ('/' :: '*' :: (body ++ ['*', '/']))
  | unknown {c : Char} (hb : Text.isBlank c = false) (hs : c ≠ ';') :
      Spells rest (.fault (.unrecognized c)) [c]
  | openString {mark : Char} {body : List Char} (hm : isMark mark = true) (hb : mark ∉ body)
      (hrest : rest = []) : Spells rest (.fault .unclosedString) (mark :: body)
  | openComment {body : List Char} (hrest : rest = []) :
      Spells rest (.fault .unclosedComment) ('/' :: '*' :: body)

variable {c : Char} {cs : List Char} {kind : Piece} {count : Nat}

/-! ## One kind of piece after the other -/

theorem single?_spells {s : Symbol} (h : single? c = some s) : s.spelling = [c] := by
  unfold single? at h
  split at h <;> cases h <;> rfl

theorem operator?_spells {alone withEqual : Symbol} (h : operator? c = some (alone, withEqual)) :
    alone.spelling = [c] ∧ withEqual.spelling = [c, '='] := by
  unfold operator? at h
  split at h <;> cases h <;> exact ⟨rfl, rfl⟩

/-- A comment line is spelled as one. -/
theorem line_spells {mark : Char} (hm : mark = '/' ∨ mark = '&') (cs : List Char) :
    Spells (cs.drop (lineLength cs)) .skipped (mark :: mark :: cs.take (lineLength cs)) := by
  cases filler_line hm cs with
  | line _ hb hrest => exact .line hm hb hrest

theorem slash_spells (h : slash cs = (kind, count)) :
    Spells (cs.drop (count - 1)) kind ('/' :: cs.take (count - 1)) := by
  unfold slash at h
  split at h
  · next more =>
    cases h
    rw [show 2 + lineLength more - 1 = lineLength more + 1 by omega]
    exact line_spells (.inl rfl) more
  · next more =>
    split at h
    · next n hn =>
      cases h
      obtain ⟨body, hbody, hnot⟩ := take_commentLength hn
      rw [show 2 + n - 1 = n + 1 by omega, List.take_succ_cons, hbody]
      exact .block hnot
    · cases h
      rw [show 2 + more.length - 1 = more.length + 1 by omega, List.take_succ_cons,
        List.drop_succ_cons]
      exact .openComment List.drop_length
  · cases h
    exact .symbol .slashEqual
  · cases h
    exact .symbol .slash

theorem dot_spells (h : dot cs = (kind, count)) :
    Spells (cs.drop (count - 1)) kind ('.' :: cs.take (count - 1)) := by
  unfold dot at h
  split at h
  · split at h
    · next ht =>
      cases h
      exact .logical (b := true) ht
    split at h
    · next hf =>
      cases h
      exact .logical (b := false) hf
    · cases h
      exact .symbol .dot
  · cases h
    exact .symbol .dot

theorem string_spells (hm : isMark c = true) (h : string c cs = (kind, count)) :
    Spells (cs.drop (count - 1)) kind (c :: cs.take (count - 1)) := by
  have hfits := string_fits cs hm
  rw [h] at hfits
  unfold string at h
  dsimp only at h
  split at h
  · cases h
    obtain ⟨-, body, more, rfl, hbody, hcount⟩ := hfits
    rw [hcount, show body.length + 2 - 1 = body.length + 1 by omega,
      List.take_length_add_append]
    exact .string hm hbody
  · next hge =>
    cases h
    have hall : cs.takeWhile (· != c) = cs :=
      (List.takeWhile_prefix _).eq_of_length_le (Nat.le_of_not_lt hge)
    rw [Nat.add_sub_cancel, List.take_length]
    refine .openString hm (fun hmem => ?_) List.drop_length
    rw [← hall] at hmem
    simpa using List.all_eq_true.mp (List.all_takeWhile (p := (· != c)) (l := cs)) c hmem

/-- Every piece is spelled as its kind demands. -/
theorem piece_spells (h : piece c cs = (kind, count)) :
    Spells (cs.drop (count - 1)) kind (c :: cs.take (count - 1)) := by
  unfold piece at h
  split at h
  · next hc =>
    cases h
    rw [hc]
    exact .newline
  next hnewline =>
  split at h
  · next hc =>
    cases h
    rw [hc]
    exact .semicolon
  next hsemicolon =>
  split at h
  · next hc =>
    cases h
    exact .blank hc hnewline
  next hblank =>
  split at h
  · next s hs =>
    cases h
    exact single?_spells hs ▸ .symbol s
  split at h
  · next hc =>
    rw [hc]
    exact slash_spells h
  split at h
  · next hc =>
    obtain ⟨rfl, hhead⟩ := hc
    cases cs with
    | nil => cases hhead
    | cons d more =>
      obtain rfl : d = '&' := Option.some.inj hhead
      cases h
      have hlength : 1 + lineLength ('&' :: more) - 1 = lineLength more + 1 := by simp [lineLength]
      rw [hlength]
      exact line_spells (.inr rfl) more
  split at h
  · next alone withEqual ho =>
    obtain ⟨halone, hwith⟩ := operator?_spells ho
    split at h
    · next hhead =>
      cases h
      cases cs with
      | nil => cases hhead
      | cons d more =>
        obtain rfl : d = '=' := Option.some.inj hhead
        exact hwith ▸ .symbol withEqual
    · cases h
      exact halone ▸ .symbol alone
  split at h
  · next hc =>
    rw [hc]
    exact dot_spells h
  split at h
  · next hc => exact string_spells hc h
  split at h
  · next hc =>
    cases h
    obtain ⟨whole, fraction, hnumeral, hne, hd⟩ := Lexer.take_numberLength hc cs
    rw [Nat.add_sub_cancel, hnumeral]
    exact .number hne hd
  split at h
  · next hc =>
    cases h
    rw [Nat.add_sub_cancel, ← List.prefix_iff_eq_take.mp (List.takeWhile_prefix _)]
    exact .word hc fun d hd => List.all_eq_true.mp List.all_takeWhile d hd
  · cases h
    exact .unknown (by simpa using hblank) hsemicolon

/-! ## Line breaks and semicolons -/

/-- A number is written in digits, with one point at most. -/
theorem newline_not_mem_numeral {whole fraction : List Char}
    (hd : ∀ c ∈ whole ++ fraction, c.isDigit = true) : '\n' ∉ Number.numeral whole fraction := by
  intro hmem
  have hdigit (c : Char) (hc : c ∈ Number.numeral whole fraction) : c.isDigit = true ∨ c = '.' := by
    rw [Number.numeral, List.mem_append] at hc
    obtain hc | hc := hc
    · exact .inl (hd c (List.mem_append_left _ hc))
    · split at hc
      · cases hc
      · obtain rfl | hc := List.mem_cons.1 hc
        · exact .inr rfl
        · exact .inl (hd c (List.mem_append_right _ hc))
  obtain h | h := hdigit _ hmem <;> cases h

/-- Besides the line break itself, only strings and block comments have line breaks in them. -/
theorem Spells.of_newline_mem {rest text : List Char} (h : Spells rest kind text)
    (hmem : '\n' ∈ text) :
    kind = .newline ∨
      (['/', '*'] <+: text ∧ (kind = .skipped ∨ kind = .fault .unclosedComment)) ∨
      (text.head?.any isMark = true ∧ (kind = .token .string ∨ kind = .fault .unclosedString)) := by
  cases h with
  | symbol s => cases s <;> simp [Symbol.spelling] at hmem
  | @logical letter b hletter =>
    obtain rfl : '\n' = letter := by simpa using hmem
    cases b <;> cases hletter
  | number _ hd => exact absurd hmem (newline_not_mem_numeral hd)
  | string hmark => exact .inr (.inr ⟨hmark, .inl rfl⟩)
  | word hc hw =>
    obtain rfl | hmem := List.mem_cons.1 hmem
    · cases hc
    · cases hw _ hmem
  | newline => exact .inl rfl
  | semicolon => simp at hmem
  | blank _ hn => exact absurd (List.mem_singleton.1 hmem).symm hn
  | line hmark hb => obtain rfl | rfl := hmark <;> simp [hb] at hmem
  | block => exact .inr (.inl ⟨⟨_, rfl⟩, .inl rfl⟩)
  | unknown hb =>
    obtain rfl := List.mem_singleton.1 hmem
    cases hb
  | openString hmark => exact .inr (.inr ⟨hmark, .inr rfl⟩)
  | openComment => exact .inr (.inl ⟨⟨_, rfl⟩, .inr rfl⟩)

theorem Spells.text_of_newline {rest text : List Char} (h : Spells rest .newline text) :
    text = ['\n'] := by
  cases h
  rfl

/-- Nothing else is spelled as a line break. -/
theorem Spells.eq_newline {rest : List Char} (h : Spells rest kind ['\n']) : kind = .newline := by
  obtain hkind | ⟨hstart, -⟩ | ⟨hmark, -⟩ := h.of_newline_mem (List.mem_singleton.2 rfl)
  · exact hkind
  · simp at hstart
  · cases hmark

/-- Line breaks are no tokens that are spelled out. -/
theorem Spells.kind_ne_newline {rest text : List Char} {k : Kind}
    (h : Spells rest (.token k) text) : k ≠ .newline := by
  rintro rfl
  cases h

end Piece

theorem Kind.ofWord_ne_newline (word : String) : Kind.ofWord word ≠ .newline := by
  intro hk
  obtain ⟨b, h⟩ | ⟨k, h⟩ | h := Kind.ofWord_cases word <;> cases h.symm.trans hk

namespace Lexer

open Piece

variable {lx lx' : Lexer} {item : Option (Except LexError Token)}

/-- A step takes off a piece that is spelled as its kind demands. -/
theorem step_spells (h : lx.step = some (item, lx')) :
    ∃ kind text, lx.rest = text ++ lx'.rest ∧ Spells lx'.rest kind text ∧
      lx'.pos = lx.pos.advance text ∧ item = (emit lx.pos lx.last text kind).1 ∧
      lx'.last = (emit lx.pos lx.last text kind).2 := by
  obtain ⟨c, cs, kind, count, hr, hp, hitem, rfl⟩ := step_cases h
  refine ⟨kind, c :: cs.take (count - 1), ?_, piece_spells hp, rfl, hitem, rfl⟩
  rw [hr, List.cons_append, List.take_append_drop]

end Lexer

end Xbase
