import Mathlib
import Xbase.Token.Lexer

/-!
# The tokens of a text

What the text of a token looks like, by its kind (`Token.Lexical`):

* the text of a number starts with a digit;
* a string stands between two marks that do not occur in it;
* a name is a word in small letters that is no keyword.

`Lexer.stream_lexical` says so of every token of a text, and `Lexer.stream_stop` that the end of the
source stands behind them and nowhere else.
-/

namespace Xbase

/-- A word in small letters that is no keyword and no truth value. -/
structure IsName (s : String) : Prop where
  word : ∃ c cs, s.toList = c :: cs ∧ Piece.isWordStart c = true ∧
    ∀ d ∈ cs, Piece.isWordPart d = true
  small : s.toList.map Char.toLower = s.toList
  kind : Kind.ofWord s = .name

/-- The text of a token fits its kind. -/
def Token.Lexical (t : Token) : Prop :=
  match t.kind with
  | .number => ∃ c cs, t.lexeme.toList = c :: cs ∧ c.isDigit = true
  | .string => ∃ mark body, t.lexeme.toList = mark :: (body ++ [mark]) ∧ Piece.isMark mark = true ∧
      mark ∉ body
  | .name => IsName t.lexeme
  | _ => True

/-! ## Small letters -/

namespace Piece

/-- A letter becomes a small one, and all else stays as it is. -/
theorem toLower_eq_or (c : Char) :
    c.isUpper = false ∧ c.toLower = c ∨
      c.isUpper = true ∧ c.toLower.isLower = true ∧ c.toLower.isUpper = false := by
  by_cases h : c.val ≥ 'A'.val ∧ c.val ≤ 'Z'.val
  · right
    have hlow : c.toLower.val = c.val + 32 := by
      unfold Char.toLower
      rw [dif_pos h]
      rfl
    have hval : (c.val + 32).toNat = c.val.toNat + 32 := by
      have := UInt32.le_iff_toNat_le.mp h.2
      rw [UInt32.toNat_add]
      simp at this ⊢
      omega
    simp only [Char.isUpper, Char.isLower, decide_eq_true_eq, decide_eq_false_iff_not, hlow,
      UInt32.le_iff_toNat_le, ge_iff_le, hval] at h ⊢
    simp at h ⊢
    omega
  · refine .inl ⟨by simpa [Char.isUpper] using h, ?_⟩
    unfold Char.toLower
    rw [dif_neg h]

theorem toLower_toLower (c : Char) : c.toLower.toLower = c.toLower := by
  obtain ⟨-, h⟩ | ⟨-, -, h⟩ := toLower_eq_or c
  · rw [h, h]
  · obtain ⟨-, h'⟩ | ⟨h', -⟩ := toLower_eq_or c.toLower
    · exact h'
    · rw [h] at h'
      cases h'

theorem isWordStart_toLower {c : Char} (h : isWordStart c = true) :
    isWordStart c.toLower = true := by
  obtain ⟨-, hc⟩ | ⟨-, hc, -⟩ := toLower_eq_or c
  · rwa [hc]
  · simp [isWordStart, Char.isAlpha, hc]

/-- The small letter of a word part is a word part. -/
theorem isWordPart_toLower {c : Char} (h : isWordPart c = true) : isWordPart c.toLower = true := by
  obtain ⟨-, hc⟩ | ⟨-, hc, -⟩ := toLower_eq_or c
  · rwa [hc]
  · simp [isWordPart, Char.isAlphanum, Char.isAlpha, hc]

end Piece

/-! ## Pieces -/

namespace Piece

/-- What is known of a piece that starts with `c`, with `rest` behind that: its kind and the count
of its characters. -/
def Fits (c : Char) (rest : List Char) : Piece × Nat → Prop
  | (.token .number, n) => c.isDigit = true ∧ n = numberLength rest + 1
  | (.token .string, n) => isMark c = true ∧
      ∃ body more, rest = body ++ c :: more ∧ c ∉ body ∧ n = body.length + 2
  | (.token (.symbol _), _) | (.token (.logical _), _) => True
  | (.token _, _) => False
  | (.word, n) => isWordStart c = true ∧ n = (rest.takeWhile isWordPart).length + 1
  | _ => True

theorem slash_fits (c : Char) (rest : List Char) : Fits c rest (slash rest) := by
  unfold slash
  split
  · trivial
  · split <;> trivial
  · trivial
  · trivial

theorem dot_fits (c : Char) (rest : List Char) : Fits c rest (dot rest) := by
  unfold dot
  split
  · repeat' split
    all_goals trivial
  · trivial

theorem string_fits {c : Char} (rest : List Char) (hc : isMark c = true) :
    Fits c rest (string c rest) := by
  unfold string
  dsimp only
  split
  · next h =>
    refine ⟨hc, rest.takeWhile (· != c), (rest.dropWhile (· != c)).tail, ?_, fun hmem => ?_, rfl⟩
    · have hsplit := List.takeWhile_append_dropWhile (p := (· != c)) (l := rest)
      cases hd : rest.dropWhile (· != c) with
      | nil =>
        rw [hd, List.append_nil] at hsplit
        rw [hsplit] at h
        omega
      | cons d more =>
        have hne := List.head_dropWhile_not (p := (· != c)) (l := rest) (by rw [hd]; simp)
        simp only [hd, List.head_cons, bne_eq_false_iff_eq] at hne
        rw [hd, hne] at hsplit
        exact hsplit.symm
    · have hall := List.all_takeWhile (p := (· != c)) (l := rest)
      simpa using List.all_eq_true.mp hall c hmem
  · trivial

/-- Every piece is of a kind that its first character allows, and ends where that kind does. -/
theorem piece_fits (c : Char) (rest : List Char) : Fits c rest (piece c rest) := by
  unfold piece
  split
  · trivial
  split
  · trivial
  split
  · trivial
  split
  · trivial
  split
  · exact slash_fits c rest
  split
  · trivial
  split
  · split <;> trivial
  split
  · exact dot_fits c rest
  split
  · next h => exact string_fits rest h
  split
  · next h => exact ⟨h, rfl⟩
  split
  · next h => exact ⟨h, rfl⟩
  · trivial

end Piece

/-! ## Tokens -/

/-- A word is a truth value, a keyword or a name. -/
theorem Kind.ofWord_cases (word : String) :
    (∃ b, ofWord word = .logical b) ∨ (∃ k, ofWord word = .keyword k) ∨ ofWord word = .name := by
  unfold ofWord
  split
  · exact .inl ⟨true, rfl⟩
  split
  · exact .inl ⟨false, rfl⟩
  cases Keyword.ofWord? word with
  | none => exact .inr (.inr rfl)
  | some k => exact .inr (.inl ⟨k, rfl⟩)

namespace Lexer

open Piece

/-- A word in small letters is a name unless it is reserved. -/
theorem isName_of_word {c : Char} {cs : List Char} (hc : isWordStart c = true)
    (hcs : ∀ d ∈ cs, isWordPart d = true)
    (hk : Kind.ofWord (String.ofList ((c :: cs).map Char.toLower)) = .name) :
    IsName (String.ofList ((c :: cs).map Char.toLower)) := by
  refine ⟨⟨c.toLower, cs.map Char.toLower, String.toList_ofList, isWordStart_toLower hc, ?_⟩, ?_,
    hk⟩
  · intro d hd
    obtain ⟨d', hd', rfl⟩ := List.mem_map.mp hd
    exact isWordPart_toLower (hcs d' hd')
  · rw [String.toList_ofList, List.map_map]
    exact List.map_congr_left fun d _ => toLower_toLower d

/-- The token that a step makes has a text that fits its kind, and it is not the end of the
source. -/
theorem step_lexical {lx lx' : Lexer} {t : Token} (h : lx.step = some (some (.ok t), lx')) :
    t.Lexical ∧ t.kind ≠ .endOfFile := by
  unfold step at h
  split at h
  · cases h
  · next c cs _ =>
    have hfits := piece_fits c cs
    revert hfits h
    obtain ⟨kind, count⟩ := piece c cs
    intro h hfits
    obtain ⟨hitem, -⟩ := Prod.mk.inj (Option.some.inj h)
    cases kind with
    | skipped | semicolon | fault f => cases hitem
    | newline =>
      dsimp only [emit] at hitem
      split at hitem <;> cases hitem
      exact ⟨trivial, by simp [emit.place]⟩
    | token k =>
      cases hitem
      cases k with
      | number => exact ⟨⟨c, _, String.toList_ofList, hfits.1⟩, by simp [emit.place]⟩
      | string =>
        obtain ⟨hmark, body, more, rfl, hbody, hn⟩ := hfits
        refine ⟨⟨c, body, ?_, hmark, hbody⟩, by simp [emit.place]⟩
        obtain rfl : count = body.length + 2 := hn
        simp [emit.place, List.take_length_add_append]
      | symbol s | logical b => exact ⟨trivial, by simp [emit.place]⟩
      | keyword k | name | newline | endOfFile => exact hfits.elim
    | word =>
      obtain ⟨hc, hn⟩ := hfits
      cases hitem
      have hpart (d : Char) (hd : d ∈ cs.take (count - 1)) : isWordPart d = true := by
        obtain rfl : count = (cs.takeWhile isWordPart).length + 1 := hn
        rw [Nat.add_sub_cancel, ← List.prefix_iff_eq_take.mp (List.takeWhile_prefix _)] at hd
        exact List.all_eq_true.mp List.all_takeWhile d hd
      obtain ⟨b, hk⟩ | ⟨k, hk⟩ | hk := Kind.ofWord_cases
        (String.ofList ((c :: cs.take (count - 1)).map Char.toLower))
      · simp only [Token.Lexical, emit.place, hk]
        exact ⟨trivial, by simp⟩
      · simp only [Token.Lexical, emit.place, hk]
        exact ⟨trivial, by simp⟩
      · simp only [Token.Lexical, emit.place, hk]
        exact ⟨isName_of_word hc hpart hk, by decide⟩

/-! ## Streams -/

theorem stream_none {lx : Lexer} (h : lx.step = none) : lx.stream = ⟨[], lx.endToken, none⟩ := by
  rw [stream]
  split <;> simp_all

/-- A fault ends the stream of tokens. -/
theorem stream_error {lx lx' : Lexer} {e : LexError} (h : lx.step = some (some (.error e), lx')) :
    lx.stream = ⟨[], e.endToken, some e⟩ := by
  rw [stream]
  split <;> simp_all

theorem stream_ok {lx lx' : Lexer} {t : Token} (h : lx.step = some (some (.ok t), lx')) :
    lx.stream = { lx'.stream with tokens := t :: lx'.stream.tokens } := by
  rw [stream]
  split <;> simp_all

theorem stream_skip {lx lx' : Lexer} (h : lx.step = some (none, lx')) : lx.stream = lx'.stream := by
  rw [stream]
  split <;> simp_all

/-- Every token of a text fits its kind, and none is the end of the source. -/
theorem stream_lexical (lx : Lexer) :
    ∀ t ∈ lx.stream.tokens, t.Lexical ∧ t.kind ≠ .endOfFile := by
  induction lx using Lexer.stream.induct with
  | case1 lx h => simp [stream_none h]
  | case2 lx e lx' h => simp [stream_error h]
  | case3 lx t lx' h ih =>
    rw [stream_ok h]
    intro u hu
    obtain rfl | hu := List.mem_cons.mp hu
    · exact step_lexical h
    · exact ih u hu
  | case4 lx lx' h ih =>
    rw [stream_skip h]
    exact ih

/-- Behind the tokens of a text stands the end of the source. -/
theorem stream_stop (lx : Lexer) : lx.stream.stop.kind = .endOfFile := by
  induction lx using Lexer.stream.induct with
  | case1 lx h => rw [stream_none h]; rfl
  | case2 lx e lx' h => rw [stream_error h]; rfl
  | case3 lx t lx' h ih => rw [stream_ok h]; exact ih
  | case4 lx lx' h ih => rw [stream_skip h]; exact ih

end Lexer

end Xbase
