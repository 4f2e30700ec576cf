import Xbase.Proofs.Number.Text
import Xbase.Proofs.Token.Append

/-!
# One token after the other

`Lexer.Meets`: whoever asks for one token after the other gets a fault before the end of the source.
`Lexer.stream_fault_iff` says that this is the fault of the stream, and `Lexer.stream_number` that
every number in the stream can be read.
-/

namespace Xbase

namespace Lexer

variable {lx lx' : Lexer}

/-! ## Faults -/

theorem rest_of_step_none (h : lx.step = none) : lx.rest = [] := by
  obtain ⟨rest, pos, last⟩ := lx
  cases rest with
  | nil => rfl
  | cons c cs => cases h

theorem next_none (h : lx.step = none) : lx.next = (.ok lx.endToken, lx) := by
  rw [next]
  split <;> simp_all

theorem next_item {item : Except LexError Token} (h : lx.step = some (some item, lx')) :
    lx.next = (item, lx') := by
  rw [next]
  split <;> simp_all

theorem next_skip (h : lx.step = some (none, lx')) : lx.next = lx'.next := by
  rw [next]
  split <;> simp_all

/-- Asked for one token after the other, the lexer gives the fault `e` before the end of the
source. -/
inductive Meets : Lexer → LexError → Prop
  | fault {lx lx' : Lexer} {e : LexError} (h : lx.next = (.error e, lx')) : Meets lx e
  | token {lx lx' : Lexer} {t : Token} {e : LexError} (h : lx.next = (.ok t, lx'))
      (hk : t.kind ≠ .endOfFile) (more : Meets lx' e) : Meets lx e

/-- The stream, by the next token. -/
theorem stream_next (lx : Lexer) :
    lx.stream = match lx.next with
      | (.error e, _) => ⟨[], e.endToken, some e⟩
      | (.ok t, lx') =>
        if t.kind = .endOfFile then ⟨[], t, none⟩
        else { lx'.stream with tokens := t :: lx'.stream.tokens } := by
  induction lx using Lexer.stream.induct with
  | case1 lx h =>
    rw [stream_none h, next_none h]
    exact (if_pos rfl).symm
  | case2 lx e lx' h => rw [stream_error h, next_item h]
  | case3 lx t lx' h ih =>
    rw [stream_ok h, next_item h]
    exact (if_neg (step_lexical h).2).symm
  | case4 lx lx' h ih => rw [stream_skip h, next_skip h, ih]

/-- The fault of the stream is the first one that the lexer gives. -/
theorem stream_fault_iff {e : LexError} : lx.stream.fault = some e ↔ lx.Meets e := by
  constructor
  · intro hfault
    induction lx using Lexer.stream.induct with
    | case1 lx h =>
      rw [stream_none h] at hfault
      cases hfault
    | case2 lx e' lx' h =>
      rw [stream_error h] at hfault
      cases hfault
      exact .fault (next_item h)
    | case3 lx t lx' h ih =>
      rw [stream_ok h] at hfault
      exact .token (next_item h) (step_lexical h).2 (ih hfault)
    | case4 lx lx' h ih =>
      rw [stream_skip h] at hfault
      cases ih hfault with
      | fault hnext => exact .fault ((next_skip h).trans hnext)
      | token hnext hk more => exact .token ((next_skip h).trans hnext) hk more
  · intro hmeets
    induction hmeets with
    | fault h => rw [stream_next, h]
    | token h hk _ ih =>
      rw [stream_next, h]
      simpa only [if_neg hk] using ih

/-! ## Numbers -/

open Piece

/-- The characters of a number are a numeral. -/
theorem take_numberLength {c : Char} (hc : c.isDigit = true) (cs : List Char) :
    ∃ whole fraction, c :: cs.take (numberLength cs) = Number.numeral whole fraction ∧ whole ≠ [] ∧
      ∀ d ∈ whole ++ fraction, d.isDigit = true := by
  have hdigits (ds : List Char) : ∀ d ∈ ds.takeWhile Char.isDigit, d.isDigit = true :=
    fun d hd => List.all_eq_true.mp List.all_takeWhile d hd
  have htake (ds : List Char) :
      ds.take (ds.takeWhile Char.isDigit).length = ds.takeWhile Char.isDigit :=
    (List.prefix_iff_eq_take.mp (List.takeWhile_prefix _)).symm
  have hwhole : ∃ whole fraction, c :: cs.take (cs.takeWhile Char.isDigit).length =
      Number.numeral whole fraction ∧ whole ≠ [] ∧ ∀ d ∈ whole ++ fraction, d.isDigit = true := by
    refine ⟨c :: cs.takeWhile Char.isDigit, [], ?_, by simp, ?_⟩
    · rw [htake, Number.numeral, if_pos rfl, List.append_nil]
    · simpa [hc] using hdigits cs
  unfold numberLength
  split
  · next digit more hrest =>
    split
    · next hdigit =>
      refine ⟨c :: cs.takeWhile Char.isDigit, digit :: more.takeWhile Char.isDigit, ?_, by simp, ?_⟩
      · have hsplit := List.takeWhile_append_dropWhile (p := Char.isDigit) (l := cs)
        rw [hrest] at hsplit
        generalize cs.takeWhile Char.isDigit = whole at hsplit ⊢
        rw [← hsplit, Nat.add_assoc, List.take_length_add_append, Nat.add_comm 2]
        simp [htake, Number.numeral]
      · intro d hd
        obtain hd | hd := List.mem_append.mp hd
        · obtain rfl | hd := List.mem_cons.mp hd
          · exact hc
          · exact hdigits cs d hd
        · obtain rfl | hd := List.mem_cons.mp hd
          · exact hdigit
          · exact hdigits more d hd
    · exact hwhole
  · exact hwhole

/-- A step makes a number only of what can be read as one. -/
theorem step_number {t : Token} (h : lx.step = some (some (.ok t), lx')) (hk : t.kind = .number) :
    ∃ n, Number.ofText? t.lexeme = some n := by
  obtain ⟨c, cs, kind, count, -, hp, hitem, -⟩ := step_cases h
  have hfits := piece_fits c cs
  rw [hp] at hfits
  cases kind with
  | skipped | semicolon | fault f => cases hitem
  | newline =>
    dsimp only [emit] at hitem
    split at hitem <;> cases hitem
    cases hk
  | word =>
    cases hitem
    obtain ⟨b, hword⟩ | ⟨k, hword⟩ | hword := Kind.ofWord_cases
      (String.ofList ((c :: cs.take (count - 1)).map Char.toLower))
    all_goals
      rw [emit.place, hword] at hk
      cases hk
  | token k =>
    cases hitem
    obtain rfl : k = .number := hk
    obtain ⟨hc, rfl⟩ := hfits
    obtain ⟨whole, fraction, hnumeral, hne, hdigits⟩ := take_numberLength hc cs
    exact ⟨_, (congrArg _ (congrArg _ hnumeral)).trans (Number.ofText?_numeral hne hdigits)⟩

/-- Every number of a text can be read. -/
theorem stream_number (lx : Lexer) :
    ∀ t ∈ lx.stream.tokens, t.kind = .number → ∃ n, Number.ofText? t.lexeme = some n := by
  induction lx using Lexer.stream.induct with
  | case1 lx h => simp [stream_none h]
  | case2 lx e lx' h => simp [stream_error h]
  | case3 lx t lx' h ih =>
    rw [stream_ok h]
    intro u hu
    obtain rfl | hu := List.mem_cons.mp hu
    · exact step_number h
    · exact ih u hu
  | case4 lx lx' h ih =>
    rw [stream_skip h]
    exact ih

end Lexer

end Xbase
