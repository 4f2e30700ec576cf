import Xbase.Proofs.Token.Line
import Xbase.Proofs.Token.Scan
import Xbase.SyntaxError

/-!
# The tokens of two texts with a line break between them

What stands behind a line break does not change the tokens in front of it (`Lexer.stream_extend`),
and the tokens behind it are those of the second text by itself, except for their places
(`TokenStream.ofText_append`).

A `Move` says how places change: it acts on tokens and on errors, and leaves everything else.
-/

namespace Xbase

/-! ## Places -/

/-- A change of places. -/
structure Move where
  span : Span → Span
  line : UInt32 → UInt32
  col : UInt32 → UInt32

/-- The span `n` bytes further on. -/
def Span.shift (n : Nat) (s : Span) : Span :=
  ⟨s.start + UInt32.ofNat n, s.length⟩

/-- `n` bytes and `k` lines further on. -/
def Move.shift (n k : Nat) : Move := ⟨Span.shift n, (· + UInt32.ofNat k), id⟩

/-- Behind a text: all of its bytes and line breaks further on. -/
def Move.past (text : String) : Move :=
  .shift text.utf8ByteSize (text.toList.count '\n')

def Token.move (m : Move) (t : Token) : Token :=
  ⟨t.kind, t.lexeme, m.span t.span, m.line t.line, m.col t.col⟩

def LexError.move (m : Move) (e : LexError) : LexError :=
  ⟨e.fault, m.span e.span, m.line e.line, m.col e.col⟩

def SyntaxError.move (m : Move) (e : SyntaxError) : SyntaxError :=
  ⟨e.fault, m.span e.span, m.line e.line, m.col e.col⟩

def TokenStream.move (m : Move) (ts : TokenStream) : TokenStream :=
  ⟨ts.tokens.map (Token.move m), ts.stop.move m, ts.fault.map (LexError.move m)⟩

def Position.shift (n k : Nat) (p : Position) : Position :=
  ⟨p.offset + n, p.line + UInt32.ofNat k, p.col⟩

namespace Span

theorem ofBounds_add (a b n : Nat) : ofBounds (a + n) (b + n) = (ofBounds a b).shift n := by
  simp [ofBounds, shift, UInt32.ofNat_add, Nat.add_sub_add_right]

theorem merge_ofBounds {a b c d : Nat} (hab : a ≤ b) (hcd : c ≤ d) (hb : b < 2 ^ 32)
    (hd : d < 2 ^ 32) : (ofBounds a b).merge (ofBounds c d) = ofBounds (min a c) (max b d) := by
  have hstop {a b : Nat} (hab : a ≤ b) : (ofBounds a b).stop = UInt32.ofNat b := by
    rw [stop, ofBounds, ← UInt32.ofNat_add, Nat.add_sub_cancel' hab]
  have hle {x y : Nat} (hx : x < 2 ^ 32) (hy : y < 2 ^ 32) :
      UInt32.ofNat x ≤ UInt32.ofNat y ↔ x ≤ y := by
    rw [UInt32.le_iff_toNat_le, UInt32.toNat_ofNat_of_lt' hx, UInt32.toNat_ofNat_of_lt' hy]
  have hmin : min (UInt32.ofNat a) (UInt32.ofNat c) = UInt32.ofNat (min a c) := by
    have hac := hle (x := a) (y := c) (by omega) (by omega)
    by_cases h : a ≤ c
    · exact (if_pos (hac.2 h)).trans (congrArg _ (Nat.min_eq_left h).symm)
    · exact (if_neg (mt hac.1 h)).trans (congrArg _ (Nat.min_eq_right (by omega)).symm)
  have hmax : max (UInt32.ofNat b) (UInt32.ofNat d) = UInt32.ofNat (max b d) := by
    have hbd := hle hb hd
    by_cases h : b ≤ d
    · exact (if_pos (hbd.2 h)).trans (congrArg _ (Nat.max_eq_right h).symm)
    · exact (if_neg (mt hbd.1 h)).trans (congrArg _ (Nat.max_eq_left (by omega)).symm)
  have hlength : UInt32.ofNat (max b d) - UInt32.ofNat (min a c) =
      UInt32.ofNat (max b d - min a c) := by
    rw [UInt32.ofNat_sub]
    omega
  rw [merge, hstop hab, hstop hcd, hmax]
  show Span.mk (min (UInt32.ofNat a) (UInt32.ofNat c)) _ = _
  rw [ofBounds, ofBounds, hmin, hlength, ofBounds]

/-- Spans that are put together further on are further on, unless they leave the range of places. -/
theorem shift_merge {a b c d n : Nat} (hab : a ≤ b) (hcd : c ≤ d) (hb : b + n < 2 ^ 32)
    (hd : d + n < 2 ^ 32) :
    ((ofBounds a b).merge (ofBounds c d)).shift n =
      ((ofBounds a b).shift n).merge ((ofBounds c d).shift n) := by
  rw [← ofBounds_add, ← ofBounds_add, merge_ofBounds hab hcd (by omega) (by omega),
    merge_ofBounds (by omega) (by omega) hb hd, ← ofBounds_add, Nat.add_min_add_right,
    Nat.add_max_add_right]

end Span

namespace Position

theorem advance_append (p : Position) (a b : List Char) :
    p.advance (a ++ b) = (p.advance a).advance b :=
  List.foldl_append

theorem advance_shift (n k : Nat) (p : Position) (text : List Char) :
    (p.shift n k).advance text = (p.advance text).shift n k := by
  induction text generalizing p with
  | nil => rfl
  | cons c text ih =>
    have hstep : (p.shift n k).step c = (p.step c).shift n k := by
      unfold step
      split
      · simp only [shift]
        congr 1
        · omega
        · rw [UInt32.add_assoc, UInt32.add_comm _ 1, ← UInt32.add_assoc]
      · simp only [shift]
        congr 1
        omega
    exact (congrArg (advance · text) hstep).trans (ih (p.step c))

/-- Behind a text, the offset has grown by its bytes and the line by its line breaks. -/
theorem advance_offset_line (p : Position) (text : List Char) :
    (p.advance text).offset = p.offset + (String.ofList text).utf8ByteSize ∧
      (p.advance text).line = p.line + UInt32.ofNat (text.count '\n') := by
  induction text generalizing p with
  | nil => exact ⟨rfl, (UInt32.add_zero p.line).symm⟩
  | cons c text ih =>
    obtain ⟨hoffset, hline⟩ := ih (p.step c)
    have hsize : (String.ofList (c :: text)).utf8ByteSize =
        c.utf8Size + (String.ofList text).utf8ByteSize := by
      have hsplit : String.ofList (c :: text) = String.singleton c ++ String.ofList text := by
        rw [String.singleton_eq_ofList, ← String.ofList_append]
        rfl
      rw [hsplit, String.utf8ByteSize_append, String.utf8ByteSize_singleton]
    have hoff : (p.advance (c :: text)).offset = ((p.step c).advance text).offset := rfl
    have hlin : (p.advance (c :: text)).line = ((p.step c).advance text).line := rfl
    rw [hoff, hlin, hoffset, hline, hsize, List.count_cons]
    by_cases hc : c = '\n'
    · subst hc
      have hone : '\n'.utf8Size = 1 := rfl
      simp only [step, if_true, beq_self_eq_true, hone, UInt32.ofNat_add]
      refine ⟨by omega, ?_⟩
      rw [UInt32.add_assoc, UInt32.add_comm 1]
      rfl
    · simp only [step, if_neg hc, beq_eq_false_iff_ne.2 hc]
      refine ⟨by omega, rfl⟩

/-- A text that ends with a line break moves the start by whole lines. -/
theorem advance_start_line (text : List Char) :
    start.advance (text ++ ['\n']) =
      start.shift (String.ofList (text ++ ['\n'])).utf8ByteSize ((text ++ ['\n']).count '\n') := by
  obtain ⟨hoffset, hline⟩ := advance_offset_line start (text ++ ['\n'])
  have hcol : (start.advance (text ++ ['\n'])).col = 1 := by
    rw [advance_append]
    rfl
  have heta : ∀ p : Position, p = ⟨p.offset, p.line, p.col⟩ := fun _ => rfl
  rw [heta (start.advance (text ++ ['\n'])), hoffset, hline, hcol]
  rfl

end Position

/-! ## Lexers in front of a line break -/

namespace Lexer

open Piece

/-- Nothing but a piece at fault makes an error. -/
theorem isFault_iff (pos : Position) (last : Boundary) (text : List Char) (kind : Piece) :
    kind.isFault = true ↔ ∃ e, (emit pos last text kind).1 = some (.error e) := by
  cases kind with
  | newline =>
    simp only [isFault, emit]
    split <;> simp
  | skipped | semicolon | token k | word | fault f => simp [isFault, emit]

variable {lx lx' : Lexer} {item : Option (Except LexError Token)}

/-- All that a step does: it takes off one piece. -/
theorem step_cases (h : lx.step = some (item, lx')) :
    ∃ c cs kind count, lx.rest = c :: cs ∧ piece c cs = (kind, count) ∧
      item = (emit lx.pos lx.last (c :: cs.take (count - 1)) kind).1 ∧
      lx' = ⟨cs.drop (count - 1), lx.pos.advance (c :: cs.take (count - 1)),
        (emit lx.pos lx.last (c :: cs.take (count - 1)) kind).2⟩ := by
  obtain ⟨rest, pos, last⟩ := lx
  cases rest with
  | nil => cases h
  | cons c cs =>
    refine ⟨c, cs, (piece c cs).1, (piece c cs).2, rfl, rfl, ?_, ?_⟩
    · exact (congrArg Prod.fst (Option.some.inj h)).symm
    · exact (congrArg Prod.snd (Option.some.inj h)).symm

theorem step_of_piece {c : Char} {cs : List Char} {kind : Piece} {count : Nat}
    (hr : lx.rest = c :: cs) (h : piece c cs = (kind, count)) :
    lx.step = some ((emit lx.pos lx.last (c :: cs.take (count - 1)) kind).1,
      ⟨cs.drop (count - 1), lx.pos.advance (c :: cs.take (count - 1)),
        (emit lx.pos lx.last (c :: cs.take (count - 1)) kind).2⟩) := by
  simp only [step, hr, h]

/-- The lexer with more text behind its own. -/
def extend (lx : Lexer) (more : List Char) : Lexer :=
  { lx with rest := lx.rest ++ more }

theorem step_extend (h : lx.step = some (item, lx')) (hitem : ∀ e, item ≠ some (.error e))
    (more : List Char) :
    (lx.extend ('\n' :: more)).step = some (item, lx'.extend ('\n' :: more)) := by
  obtain ⟨c, cs, kind, count, hr, hp, rfl, rfl⟩ := step_cases h
  have hok : (piece c cs).1.isFault = false := by
    rw [hp, ← Bool.not_eq_true, isFault_iff lx.pos lx.last (c :: cs.take (count - 1))]
    exact fun ⟨e, he⟩ => hitem e he
  have hcount : count - 1 ≤ cs.length := by
    have := piece_count_le c cs
    rw [hp] at this
    exact Nat.sub_le_of_le_add this
  have hr' : (lx.extend ('\n' :: more)).rest = c :: (cs ++ '\n' :: more) := by
    rw [extend, hr, List.cons_append]
  rw [step_of_piece hr' ((piece_extend hok more).trans hp), List.take_append_of_le_length hcount,
    List.drop_append_of_le_length hcount]
  rfl

theorem step_newline_error {e : LexError} (h : lx.step = some (some (.error e), lx')) :
    ∃ e' lx'', (lx.extend ['\n']).step = some (some (.error e'), lx'') := by
  obtain ⟨c, cs, kind, count, hr, hp, hitem, -⟩ := step_cases h
  have hfault : (piece c cs).1.isFault = true := by
    rw [hp]
    exact (isFault_iff _ _ _ _).2 ⟨e, hitem.symm⟩
  have hr' : (lx.extend ['\n']).rest = c :: (cs ++ ['\n']) := by
    rw [extend, hr, List.cons_append]
  obtain ⟨e', he'⟩ := (isFault_iff lx.pos lx.last
    (c :: (cs ++ ['\n']).take ((piece c (cs ++ ['\n'])).2 - 1)) _).1 (piece_newline hfault)
  exact ⟨e', _, (step_of_piece hr' rfl).trans (congrArg some (Prod.ext he' rfl))⟩

/-- A step goes on by the text that it takes off. -/
theorem step_advance (h : lx.step = some (item, lx')) :
    lx'.pos.advance lx'.rest = lx.pos.advance lx.rest := by
  obtain ⟨c, cs, kind, count, hr, -, -, rfl⟩ := step_cases h
  rw [hr, ← Position.advance_append, List.cons_append, List.take_append_drop]

/-- A step that makes no token comes behind a token only if it starts there. -/
theorem step_none_last (h : lx.step = some (none, lx')) (hlast : lx'.last = .token) :
    lx.last = .token := by
  obtain ⟨c, cs, kind, count, hr, hp, hitem, rfl⟩ := step_cases h
  cases kind with
  | skipped => exact hlast
  | newline =>
    dsimp only [emit] at hitem hlast
    split at hitem
    · assumption
    · next hne =>
      rw [if_neg hne] at hlast
      exact hlast
  | semicolon | token k | word | fault f => cases hitem <;> cases hlast

/-- A step that makes a token comes behind a token, unless the token is a line break. -/
theorem step_ok_last {t : Token} (h : lx.step = some (some (.ok t), lx'))
    (hlast : lx'.last = .token) : t.kind ≠ .newline := by
  obtain ⟨c, cs, kind, count, hr, hp, hitem, rfl⟩ := step_cases h
  have hfits := piece_fits c cs
  rw [hp] at hfits
  cases kind with
  | skipped | semicolon | fault f => cases hitem
  | newline =>
    dsimp only [emit] at hitem hlast
    split at hitem
    · next htoken =>
      rw [if_pos htoken] at hlast
      cases hlast
    · cases hitem
  | token k =>
    cases hitem
    rintro rfl
    exact hfits
  | word =>
    cases hitem
    intro hk
    obtain ⟨b, h⟩ | ⟨k, h⟩ | h := Kind.ofWord_cases
      (String.ofList ((c :: cs.take (count - 1)).map Char.toLower)) <;>
      cases h.symm.trans hk

/-- What stands behind a line break changes nothing in front of it. -/
theorem stream_extend (lx : Lexer) (h : lx.stream.fault = none) :
    ∃ last, (∀ more, (lx.extend ('\n' :: more)).stream =
        (⟨'\n' :: more, lx.pos.advance lx.rest, last⟩ : Lexer).stream.behind lx.stream.tokens) ∧
      (last = .token → lx.stream.tokens = [] ∧ lx.last = .token ∨
        ∃ t, lx.stream.tokens.getLast? = some t ∧ t.kind ≠ .newline) := by
  induction lx using Lexer.stream.induct with
  | case1 lx hstep =>
    obtain ⟨rest, pos, last⟩ := lx
    cases rest with
    | nil =>
      rw [stream_none hstep]
      exact ⟨last, fun more => rfl, fun htoken => .inl ⟨rfl, htoken⟩⟩
    | cons c cs => cases hstep
  | case2 lx e lx' hstep =>
    rw [stream_error hstep] at h
    cases h
  | case3 lx t lx' hstep ih =>
    rw [stream_ok hstep] at h
    obtain ⟨last, hstream, hlast⟩ := ih h
    refine ⟨last, fun more => ?_, fun htoken => .inr ?_⟩
    · rw [stream_ok (step_extend hstep (by simp) more), hstream, stream_ok hstep,
        step_advance hstep]
      rfl
    · rw [stream_ok hstep]
      obtain ⟨hnil, hlast'⟩ | ⟨u, hu, hk⟩ := hlast htoken
      · exact ⟨t, by rw [hnil]; rfl, step_ok_last hstep hlast'⟩
      · exact ⟨u, by rw [List.getLast?_cons, hu]; rfl, hk⟩
  | case4 lx lx' hstep ih =>
    rw [stream_skip hstep] at h
    obtain ⟨last, hstream, hlast⟩ := ih h
    refine ⟨last, fun more => ?_, fun htoken => ?_⟩
    · rw [stream_skip (step_extend hstep (by simp) more), hstream, stream_skip hstep,
        step_advance hstep]
    · rw [stream_skip hstep]
      exact (hlast htoken).imp_left (And.imp_right (step_none_last hstep))

/-- A line break puts no end to a fault. -/
theorem stream_newline_fault (lx : Lexer) (h : (lx.extend ['\n']).stream.fault = none) :
    lx.stream.fault = none := by
  induction lx using Lexer.stream.induct with
  | case1 lx hstep => rw [stream_none hstep]
  | case2 lx e lx' hstep =>
    obtain ⟨e', lx'', hstep'⟩ := step_newline_error hstep
    rw [stream_error hstep'] at h
    cases h
  | case3 lx t lx' hstep ih =>
    rw [stream_ok (step_extend hstep (by simp) [])] at h
    rw [stream_ok hstep]
    exact ih h
  | case4 lx lx' hstep ih =>
    rw [stream_skip (step_extend hstep (by simp) [])] at h
    rw [stream_skip hstep]
    exact ih h

/-! ## Lexers behind a line break -/

/-- Behind a line break, a semicolon and the start, the same tokens follow. -/
theorem stream_last (lx : Lexer) (last : Boundary)
    (h : last = lx.last ∨ last ≠ .token ∧ lx.last ≠ .token) :
    ({ lx with last := last } : Lexer).stream = lx.stream := by
  have hstep {lx lx' : Lexer} {item : Option (Except LexError Token)} {last : Boundary}
      (hstep : lx.step = some (item, lx')) (h : last = lx.last ∨ last ≠ .token ∧ lx.last ≠ .token) :
      ∃ last', ({ lx with last := last } : Lexer).step = some (item, { lx' with last := last' }) ∧
        (last' = lx'.last ∨ last' ≠ .token ∧ lx'.last ≠ .token) := by
    obtain ⟨c, cs, kind, count, hr, hp, rfl, rfl⟩ := step_cases hstep
    have hr' : ({ lx with last := last } : Lexer).rest = c :: cs := hr
    rw [step_of_piece hr' hp]
    cases kind with
    | newline =>
      obtain rfl | ⟨h₁, h₂⟩ := h
      · exact ⟨_, rfl, .inl rfl⟩
      · simp only [emit, if_neg h₁, if_neg h₂]
        exact ⟨last, rfl, .inr ⟨h₁, h₂⟩⟩
    | skipped | fault f => exact ⟨last, rfl, h⟩
    | semicolon | token k | word => exact ⟨_, rfl, .inl rfl⟩
  induction lx using Lexer.stream.induct generalizing last with
  | case1 lx hnone =>
    have hnone' : ({ lx with last := last } : Lexer).step = none := by
      obtain ⟨rest, pos, last⟩ := lx
      cases rest with
      | nil => rfl
      | cons c cs => cases hnone
    rw [stream_none hnone, stream_none hnone']
    rfl
  | case2 lx e lx' herror =>
    obtain ⟨last', h', -⟩ := hstep herror h
    rw [stream_error herror, stream_error h']
  | case3 lx t lx' hok ih =>
    obtain ⟨last', h', hlast⟩ := hstep hok h
    rw [stream_ok hok, stream_ok h', ih last' hlast]
  | case4 lx lx' hskip ih =>
    obtain ⟨last', h', hlast⟩ := hstep hskip h
    rw [stream_skip hskip, stream_skip h', ih last' hlast]

/-- The lexer `n` bytes and `k` lines further on. -/
def shift (n k : Nat) (lx : Lexer) : Lexer :=
  { lx with pos := lx.pos.shift n k }

def moveItem (m : Move) : Except LexError Token → Except LexError Token
  | .ok t => .ok (t.move m)
  | .error e => .error (e.move m)

theorem step_shift (n k : Nat) (h : lx.step = some (item, lx')) :
    (lx.shift n k).step = some (item.map (moveItem (.shift n k)), lx'.shift n k) := by
  obtain ⟨c, cs, kind, count, hr, hp, rfl, rfl⟩ := step_cases h
  have hspan (text : List Char) :
      emit.span (lx.pos.shift n k) text = (emit.span lx.pos text).shift n := by
    rw [emit.span, Position.advance_shift]
    exact Span.ofBounds_add ..
  have hr' : (lx.shift n k).rest = c :: cs := hr
  rw [step_of_piece hr' hp]
  have hpos : (lx.shift n k).pos = lx.pos.shift n k := rfl
  have hlast : (lx.shift n k).last = lx.last := rfl
  rw [hpos, hlast, Position.advance_shift]
  cases kind with
  | newline =>
    by_cases htoken : lx.last = .token
    · simp only [emit, if_pos htoken, emit.place, hspan]
      rfl
    · simp only [emit, if_neg htoken]
      rfl
  | skipped | semicolon => rfl
  | token k | word | fault f =>
    simp only [emit, emit.place, hspan]
    rfl

/-- Further on in a text, the tokens and the fault are further on. -/
theorem stream_shift (n k : Nat) (lx : Lexer) :
    (lx.shift n k).stream = lx.stream.move (.shift n k) := by
  induction lx using Lexer.stream.induct with
  | case1 lx hstep =>
    have hstep' : (lx.shift n k).step = none := by
      obtain ⟨rest, pos, last⟩ := lx
      cases rest with
      | nil => rfl
      | cons c cs => cases hstep
    rw [stream_none hstep, stream_none hstep']
    simp only [endToken, shift, TokenStream.move, Position.shift, Span.ofBounds_add]
    rfl
  | case2 lx e lx' hstep =>
    rw [stream_error hstep, stream_error (step_shift n k hstep)]
    rfl
  | case3 lx t lx' hstep ih =>
    rw [stream_ok hstep, stream_ok (step_shift n k hstep), ih]
    rfl
  | case4 lx lx' hstep ih => rw [stream_skip hstep, stream_skip (step_shift n k hstep), ih]

/-- A token has the bytes that its step takes off. -/
theorem step_ok_span {t : Token} (h : lx.step = some (some (.ok t), lx')) :
    t.span = .ofBounds lx.pos.offset lx'.pos.offset := by
  obtain ⟨c, cs, kind, count, hr, hp, hitem, rfl⟩ := step_cases h
  cases kind with
  | skipped | semicolon | fault f => cases hitem
  | newline =>
    dsimp only [emit] at hitem
    split at hitem
    · cases hitem
      rfl
    · cases hitem
  | token k | word =>
    cases hitem
    rfl

/-- The places of all tokens lie in the text. -/
theorem stream_span (lx : Lexer) : ∀ t ∈ lx.stream.tokens, ∃ a b, t.span = .ofBounds a b ∧
    a ≤ b ∧ b ≤ (lx.pos.advance lx.rest).offset := by
  have hle (p : Position) (text : List Char) : p.offset ≤ (p.advance text).offset := by
    rw [(p.advance_offset_line text).1]
    exact Nat.le_add_right _ _
  induction lx using Lexer.stream.induct with
  | case1 lx hstep => simp [stream_none hstep]
  | case2 lx e lx' hstep => simp [stream_error hstep]
  | case3 lx t lx' hstep ih =>
    rw [stream_ok hstep, ← step_advance hstep]
    intro u hu
    obtain rfl | hu := List.mem_cons.1 hu
    · refine ⟨_, _, step_ok_span hstep, ?_, hle _ _⟩
      obtain ⟨c, cs, kind, count, -, -, -, rfl⟩ := step_cases hstep
      exact hle _ _
    · exact ih u hu
  | case4 lx lx' hstep ih =>
    rw [stream_skip hstep, ← step_advance hstep]
    exact ih

/-- A line break makes a token behind a token, and nothing otherwise; what stands behind it is cut
as if nothing were in front. -/
theorem stream_newline (pos : Position) (last : Boundary) :
    ∃ tokens, (∀ more, (⟨'\n' :: more, pos, last⟩ : Lexer).stream =
        (⟨more, pos.advance ['\n'], .start⟩ : Lexer).stream.behind tokens) ∧
      (last ≠ .token ∧ tokens = [] ∨ last = .token ∧ Single .newline tokens) := by
  by_cases hlast : last = .token
  · subst hlast
    let newline := emit.place pos ['\n'] .newline (String.ofList ['\n'])
    refine ⟨[newline], fun more => ?_, .inr ⟨rfl, newline, rfl, rfl⟩⟩
    have hstep : (⟨'\n' :: more, pos, .token⟩ : Lexer).step =
        some (some (.ok newline), ⟨more, pos.advance ['\n'], .newline⟩) := rfl
    rw [stream_ok hstep, ← stream_last _ .start (.inr ⟨nofun, by simp⟩)]
    rfl
  · refine ⟨[], fun more => ?_, .inl ⟨hlast, rfl⟩⟩
    have hstep : (⟨'\n' :: more, pos, last⟩ : Lexer).step =
        some (none, ⟨more, pos.advance ['\n'], last⟩) := by
      rw [step_of_piece rfl (show piece '\n' more = (.newline, 1) from rfl)]
      simp only [emit, if_neg hlast]
      rfl
    rw [stream_skip hstep, ← stream_last _ .start (.inr ⟨nofun, hlast⟩)]
    rfl

end Lexer

/-! ## Two texts -/

namespace TokenStream

theorem behind_behind (ts : TokenStream) (a b : List Token) :
    (ts.behind a).behind b = ts.behind (b ++ a) := by
  rw [behind, behind, behind, List.append_assoc]

/-- A line break makes no fault and mends none. -/
theorem ofText_newline_fault {text : String} (h : (ofText (text ++ "\n")).fault = none) :
    (ofText text).fault = none := by
  refine Lexer.stream_newline_fault _ ?_
  simpa [ofText, Lexer.ofText, Lexer.extend] using h

/-- The tokens of a text with a line break behind it do not depend on what follows: they are those
of the text, and then the line break if the last of them is not one already. -/
theorem ofText_line {first : String} (h : (ofText first).fault = none) :
    ∃ line, (ofText (first ++ "\n")).tokens = (ofText first).tokens ++ line ∧
      (∀ second : String, ofText (first ++ "\n" ++ second) =
        (⟨second.toList, Position.start.advance (first ++ "\n").toList,
          .start⟩ : Lexer).stream.behind ((ofText first).tokens ++ line)) ∧
      (line = [] ∨ Single .newline line ∧
        ∃ t, (ofText first).tokens.getLast? = some t ∧ t.kind ≠ .newline) := by
  have hlist (second : String) :
      Lexer.ofText (first ++ "\n" ++ second) =
        (Lexer.ofText first).extend ('\n' :: second.toList) := by
    simp [Lexer.ofText, Lexer.extend]
  obtain ⟨last, hstream, hlast⟩ := Lexer.stream_extend (Lexer.ofText first) h
  obtain ⟨line, hline, hcases⟩ :=
    Lexer.stream_newline (Position.start.advance first.toList) last
  have hboth (second : String) : ofText (first ++ "\n" ++ second) =
      (⟨second.toList, Position.start.advance (first ++ "\n").toList,
        .start⟩ : Lexer).stream.behind ((ofText first).tokens ++ line) := by
    have hpos : (Lexer.ofText first).pos.advance (Lexer.ofText first).rest =
        Position.start.advance first.toList := rfl
    rw [ofText, hlist, hstream, hpos, hline, behind_behind, ← Position.advance_append,
      String.toList_append]
    rfl
  refine ⟨line, ?_, hboth, ?_⟩
  · have hempty := hboth ""
    rw [String.append_empty] at hempty
    rw [hempty, Lexer.stream_none rfl]
    simp [behind]
  · obtain ⟨-, hnil⟩ | ⟨htoken, hsingle⟩ := hcases
    · exact .inl hnil
    · obtain ⟨-, hstart⟩ | ht := hlast htoken
      · cases hstart
      · exact .inr ⟨hsingle, ht⟩

/-- A line break behind a text adds at most itself to the tokens, and that only behind a token that
is no line break. -/
theorem ofText_newline {text : String} (h : (ofText text).fault = none) :
    (ofText (text ++ "\n")).tokens = (ofText text).tokens ∨
      ∃ t newline, (ofText text).tokens.getLast? = some t ∧ t.kind ≠ .newline ∧
        newline.kind = .newline ∧
        (ofText (text ++ "\n")).tokens = (ofText text).tokens ++ [newline] := by
  obtain ⟨line, htokens, -, hcases⟩ := ofText_line h
  obtain rfl | ⟨⟨newline, rfl, hk⟩, t, ht, hne⟩ := hcases
  · exact .inl (htokens.trans (List.append_nil _))
  · exact .inr ⟨t, newline, ht, hne, hk, htokens⟩

/-- The tokens of two texts with a line break between them are those of the first up to the line
break, and then those of the second in later places. -/
theorem ofText_append {first : String} (h : (ofText first).fault = none) (second : String) :
    ofText (first ++ "\n" ++ second) =
      ((ofText second).move (.past (first ++ "\n"))).behind (ofText (first ++ "\n")).tokens := by
  obtain ⟨line, htokens, hline, -⟩ := ofText_line h
  have hlist : (first ++ "\n").toList = first.toList ++ ['\n'] := String.toList_append
  have hpast : Move.past (first ++ "\n") =
      .shift (String.ofList (first.toList ++ ['\n'])).utf8ByteSize
        ((first.toList ++ ['\n']).count '\n') := by
    rw [← hlist, String.ofList_toList]
    rfl
  rw [hline, htokens, hpast, ofText.eq_1 second, ← Lexer.stream_shift, hlist,
    Position.advance_start_line]
  rfl

end TokenStream

end Xbase
