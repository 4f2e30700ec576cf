import Xbase.Proofs.Token.Case
import Xbase.Proofs.Token.Spelling

/-!
# Carriage returns in front of line breaks

`Text.withReturns` puts a carriage return in front of every line break of a text. A carriage return
is a blank, so it makes no token; it belongs to the comment line in front of it, if there is one,
and otherwise to no piece.

The lexer on the longer text keeps abreast of the one on the text (`Lexer.Abreast`): it stands at
the same character, or it has already taken off the carriage return that the text lacks. In either
case it gives the same tokens and faults, in the same lines and columns, only that a line break
stands one column further on (`Alike`, `Lexer.Abreast.items_alike`). Strings keep what stands in
them, so there must be no line break in a string.
-/

namespace Xbase

/-! ## Texts -/

namespace Text

/-- The text with a carriage return in front of every line break. -/
def withReturns (cs : List Char) : List Char :=
  cs.flatMap fun c => if c = '\n' then ['\r', '\n'] else [c]

variable {c d : Char} {cs : List Char} {p : Char → Bool}

theorem withReturns_nil : withReturns [] = [] := rfl

theorem withReturns_newline (cs : List Char) :
    withReturns ('\n' :: cs) = '\r' :: '\n' :: withReturns cs := rfl

theorem withReturns_cons (hc : c ≠ '\n') (cs : List Char) :
    withReturns (c :: cs) = c :: withReturns cs := by
  simp [withReturns, hc]

theorem withReturns_append (as bs : List Char) :
    withReturns (as ++ bs) = withReturns as ++ withReturns bs := List.flatMap_append

/-- Within a line nothing changes. -/
theorem withReturns_of_not_mem (h : '\n' ∉ cs) : withReturns cs = cs := by
  induction cs with
  | nil => rfl
  | cons c cs ih =>
    rw [List.mem_cons, not_or] at h
    rw [withReturns_cons (Ne.symm h.1), ih h.2]

/-- A run of characters that ends at a line break ends at the carriage return. -/
theorem takeWhile_withReturns (hn : p '\n' = false) (hr : p '\r' = false) (cs : List Char) :
    (withReturns cs).takeWhile p = cs.takeWhile p ∧
      (withReturns cs).dropWhile p = withReturns (cs.dropWhile p) := by
  induction cs with
  | nil => exact ⟨rfl, rfl⟩
  | cons c cs ih =>
    by_cases hc : c = '\n'
    · subst hc
      simp [withReturns_newline, hn, hr]
    · rw [withReturns_cons hc]
      cases hp : p c with
      | true => simpa [hp] using ih
      | false => simp [hp, withReturns_cons hc]

theorem head?_withReturns (hn : d ≠ '\n') (hr : d ≠ '\r') (cs : List Char) :
    ((withReturns cs).head? = some d) = (cs.head? = some d) := by
  cases cs with
  | nil => rfl
  | cons c cs =>
    by_cases hc : c = '\n'
    · subst hc
      simp [withReturns_newline, hn.symm, hr.symm]
    · simp [withReturns_cons hc]

theorem mem_withReturns (hd : d ≠ '\r') : d ∈ withReturns cs ↔ d ∈ cs := by
  rw [withReturns, List.mem_flatMap]
  constructor
  · rintro ⟨c, hc, hmem⟩
    split at hmem
    · next hn =>
      obtain rfl : d = c := by simpa [hd, hn] using hmem
      exact hc
    · obtain rfl := List.mem_singleton.1 hmem
      exact hc
  · intro hmem
    refine ⟨d, hmem, ?_⟩
    split <;> simp_all

end Text

/-! ## Pieces -/

namespace Piece

open Text

variable {c : Char} {cs : List Char} {kind : Piece} {count : Nat}

/-- The carriage return belongs to the comment line in front of it. -/
theorem lineLength_withReturns (cs : List Char) :
    lineLength (withReturns cs) = lineLength cs + if '\n' ∈ cs then 1 else 0 := by
  induction cs with
  | nil => rfl
  | cons c cs ih =>
    by_cases hc : c = '\n'
    · subst hc
      simp [withReturns_newline, lineLength]
    · rw [withReturns_cons hc]
      simp only [lineLength] at ih ⊢
      simp [hc, Ne.symm hc, ih]
      omega

theorem commentLength?_cons (h : c = '*' → cs.head? ≠ some '/') :
    commentLength? (c :: cs) = (commentLength? cs).map (· + 1) := by
  rw [commentLength?]
  rintro more rfl rfl
  exact h rfl rfl

/-- No carriage return comes between the two characters that end a comment. -/
theorem commentLength?_withReturns (cs : List Char) :
    commentLength? (withReturns cs) =
      (commentLength? cs).map fun n => (withReturns (cs.take n)).length := by
  fun_induction commentLength? cs with
  | case1 => rfl
  | case2 rest => rfl
  | case3 c rest hne ih =>
    by_cases hc : c = '\n'
    · subst hc
      rw [withReturns_newline, commentLength?_cons (by simp), commentLength?_cons (by simp), ih]
      cases commentLength? rest <;> simp [withReturns_newline]
    · have hhead : c = '*' → (withReturns rest).head? ≠ some '/' := by
        rintro rfl hhead
        rw [head?_withReturns (by decide) (by decide)] at hhead
        obtain ⟨more, rfl⟩ := List.head?_eq_some_iff.1 hhead
        exact hne more rfl rfl
      rw [withReturns_cons hc, commentLength?_cons hhead, ih]
      cases commentLength? rest <;> simp [withReturns_cons hc]

/-- Only the next two characters decide whether a point starts a truth value. -/
theorem dot_congr (a b : Char) (cs cs' : List Char) : dot (a :: b :: cs) = dot (a :: b :: cs') := by
  by_cases hb : b = '.'
  · subst hb
    rfl
  · rw [dot_of_ne hb, dot_of_ne hb]

/-- No dot token reaches across a line break. -/
theorem dot_withReturns (cs : List Char) : dot (withReturns cs) = dot cs := by
  obtain _ | ⟨a, _ | ⟨b, cs⟩⟩ := cs
  · rfl
  · by_cases ha : a = '\n'
    · subst ha
      rfl
    · rw [withReturns_cons ha, withReturns_nil]
  · by_cases ha : a = '\n'
    · subst ha
      rw [withReturns_newline, dot_of_ne (by decide)]
      by_cases hb : b = '.'
      · subst hb
        rfl
      · rw [dot_of_ne hb]
    · rw [withReturns_cons ha]
      by_cases hb : b = '\n'
      · subst hb
        rw [withReturns_newline, dot_of_ne (by decide), dot_of_ne (by decide)]
      · rw [withReturns_cons hb, dot_congr]

/-- No number reaches across a line break. -/
theorem numberLength_withReturns (cs : List Char) :
    numberLength (withReturns cs) = numberLength cs := by
  have hrun := takeWhile_withReturns (p := Char.isDigit) rfl rfl
  unfold numberLength
  rw [(hrun cs).1, (hrun cs).2]
  obtain _ | ⟨a, more⟩ := cs.dropWhile Char.isDigit
  · rfl
  by_cases ha : a = '.'
  · subst ha
    rw [withReturns_cons (by decide)]
    obtain _ | ⟨b, more⟩ := more
    · rfl
    by_cases hb : b = '\n'
    · subst hb
      rfl
    · simp only [withReturns_cons hb, (hrun more).1]
  · by_cases hn : a = '\n'
    · subst hn
      simp [withReturns_newline]
    · simp [withReturns_cons hn, ha]

/-- A string ends at the first mark behind it. -/
theorem string_closed {body : List Char} (hb : c ∉ body) (more : List Char) :
    string c (body ++ c :: more) = (.token .string, body.length + 2) := by
  have htake : (body ++ c :: more).takeWhile (· != c) = body := by
    refine (Text.takeWhile_run (fun d hd => ?_) (by simp)).1
    simp only [bne_iff_ne, ne_eq]
    rintro rfl
    exact hb hd
  simp [string, htake]

theorem string_open (h : c ∉ cs) : string c cs = (.fault .unclosedString, cs.length + 1) := by
  have htake : cs.takeWhile (· != c) = cs := by
    refine List.takeWhile_eq_self_iff.2 fun d hd => ?_
    simp only [bne_iff_ne, ne_eq]
    rintro rfl
    exact h hd
  simp [string, htake]

/-- How a piece `w` with `r` behind it is split off the text with carriage returns: with its own,
or, if it is a comment line, also with that of the line break behind it. -/
inductive Splits (w r : List Char) : (kind : Piece) → (w' r' : List Char) → Prop
  | even {kind : Piece} : Splits w r kind (withReturns w) (withReturns r)
  | ahead {more : List Char} (h : r = '\n' :: more) :
      Splits w r .skipped (withReturns w ++ ['\r']) ('\n' :: withReturns more)

/-- With carriage returns, the piece is of the same kind, and split off in the same place or behind
a carriage return. -/
def Follows (c : Char) (cs : List Char) (kind : Piece) (n : Nat) : Prop :=
  ∃ count, piece c (withReturns cs) = (kind, count) ∧
    Splits (cs.take n) (cs.drop n) kind ((withReturns cs).take (count - 1))
      ((withReturns cs).drop (count - 1))

/-- The piece ends in the same place. -/
theorem Follows.even {n : Nat} (h : piece c (withReturns cs) = (kind, count))
    (hcount : count - 1 = (withReturns (cs.take n)).length) : Follows c cs kind n := by
  have hsplit : withReturns cs = withReturns (cs.take n) ++ withReturns (cs.drop n) := by
    rw [← withReturns_append, List.take_append_drop]
  refine ⟨count, h, ?_⟩
  rw [hcount, hsplit, List.take_left, List.drop_left]
  exact .even

/-- The piece is skipped and has taken the carriage return in front of a line break with it. -/
theorem Follows.ahead {n : Nat} {more : List Char} (hmore : cs.drop n = '\n' :: more)
    (h : piece c (withReturns cs) = (.skipped, count))
    (hcount : count - 1 = (withReturns (cs.take n)).length + 1) : Follows c cs .skipped n := by
  have hsplit : withReturns cs =
      (withReturns (cs.take n) ++ ['\r']) ++ '\n' :: withReturns more := by
    rw [List.append_assoc, List.singleton_append, ← withReturns_newline, ← hmore,
      ← withReturns_append, List.take_append_drop]
  have hlength : count - 1 = (withReturns (cs.take n) ++ ['\r']).length := by simp [hcount]
  refine ⟨count, h, ?_⟩
  rw [hlength, hsplit, List.take_left, List.drop_left]
  exact .ahead hmore

/-- A comment line takes in the carriage return at its end. -/
theorem line_follows {d : Char} (hd : d ≠ '\n') (h : ∀ more, piece c (d :: more) =
    (.skipped, 2 + lineLength more)) (cs : List Char) :
    Follows c (d :: cs) .skipped (lineLength cs + 1) := by
  cases line_spells (.inl rfl) cs with
  | line _ hb hrest =>
    have hle : lineLength cs ≤ cs.length := (List.takeWhile_prefix _).length_le
    have hlength :
        (withReturns ((d :: cs).take (lineLength cs + 1))).length = lineLength cs + 1 := by
      rw [List.take_succ_cons, withReturns_cons hd, withReturns_of_not_mem hb, List.length_cons,
        List.length_take, Nat.min_eq_left hle]
    have hpiece := h (withReturns cs)
    rw [lineLength_withReturns, ← withReturns_cons hd] at hpiece
    obtain hnil | hnewline := hrest
    · have hmem : '\n' ∉ cs := by
        rw [← List.take_append_drop (lineLength cs) cs, hnil, List.append_nil]
        exact hb
      rw [if_neg hmem] at hpiece
      exact .even hpiece (by omega)
    · obtain ⟨more, hmore⟩ := List.head?_eq_some_iff.1 hnewline
      have hmem : '\n' ∈ cs := by
        rw [← List.take_append_drop (lineLength cs) cs, hmore]
        simp
      rw [if_pos hmem] at hpiece
      exact .ahead hmore hpiece (by omega)

/-- A piece that is neither a comment nor a string is the same with carriage returns behind it. -/
theorem piece_withReturns_other (hs : c ≠ '/') (ha : c ≠ '&') (hm : isMark c = false)
    (cs : List Char) : piece c (withReturns cs) = piece c cs := by
  have hword := (takeWhile_withReturns (p := isWordPart) rfl rfl cs).1
  simp only [piece, if_neg hs, ha, false_and, if_false, hm, Bool.false_eq_true,
    head?_withReturns (d := '=') (by decide) (by decide), dot_withReturns,
    numberLength_withReturns, hword]

/-- A comment goes up to the mark that ends it. -/
theorem piece_comment {n : Nat} (h : commentLength? cs = some n) :
    piece '/' ('*' :: cs) = (.skipped, 2 + n) := by
  change slash ('*' :: cs) = _
  simp [slash, h]

theorem piece_openComment (h : commentLength? cs = none) :
    piece '/' ('*' :: cs) = (.fault .unclosedComment, 2 + cs.length) := by
  change slash ('*' :: cs) = _
  simp [slash, h]

/-- What a slash opens follows: a line comment takes the carriage return, a block comment all of
them. -/
theorem slash_follows (h : slash cs = (kind, count)) : Follows '/' cs kind (count - 1) := by
  unfold slash at h
  split at h
  · next more =>
    cases h
    rw [show 2 + lineLength more - 1 = lineLength more + 1 by omega]
    exact line_follows (by decide) (fun _ => rfl) more
  · next more =>
    have hcomment := commentLength?_withReturns more
    have hstar : withReturns ('*' :: more) = '*' :: withReturns more :=
      withReturns_cons (by decide) _
    split at h
    · next n hn =>
      cases h
      rw [hn, Option.map_some] at hcomment
      refine .even (hstar ▸ piece_comment hcomment) ?_
      rw [show 2 + n - 1 = n + 1 by omega, List.take_succ_cons, withReturns_cons (by decide),
        List.length_cons]
      omega
    · next hn =>
      cases h
      rw [hn, Option.map_none] at hcomment
      refine .even (hstar ▸ piece_openComment hcomment) ?_
      rw [show 2 + more.length - 1 = more.length + 1 by omega, List.take_succ_cons,
        List.take_length, withReturns_cons (by decide), List.length_cons]
      omega
  · next more =>
    cases h
    have hequal : piece '/' (withReturns ('=' :: more)) = (.token (.symbol .slashEqual), 2) := by
      rw [withReturns_cons (by decide)]
      rfl
    exact .even hequal rfl
  · next h₁ h₂ h₃ =>
    cases h
    have hother : piece '/' (withReturns cs) = (.token (.symbol .slash), 1) := by
      obtain _ | ⟨a, more⟩ := cs
      · rfl
      by_cases ha : a = '\n'
      · subst ha
        rfl
      · rw [withReturns_cons ha]
        refine slash_of_ne ?_ ?_ ?_ _
        · rintro rfl
          exact h₁ more rfl
        · rintro rfl
          exact h₂ more rfl
        · rintro rfl
          exact h₃ more rfl
    exact .even hother rfl

/-- A string follows, with the carriage returns in it. -/
theorem string_follows (hm : isMark c = true) (h : string c cs = (kind, count)) :
    Follows c cs kind (count - 1) := by
  have hne : c ≠ '\n' ∧ c ≠ '\r' := by
    constructor <;> (rintro rfl; cases hm)
  by_cases hmem : c ∈ cs
  · obtain ⟨body, more, rfl, hb⟩ := List.eq_append_cons_of_mem hmem
    have hpiece : piece c (withReturns (body ++ c :: more)) =
        (.token .string, (withReturns body).length + 2) := by
      rw [piece_mark hm, withReturns_append, withReturns_cons hne.1,
        string_closed (mt (mem_withReturns hne.2).1 hb)]
    rw [string_closed hb] at h
    cases h
    refine .even hpiece ?_
    rw [show body.length + 2 - 1 = body.length + 1 by omega, List.take_length_add_append,
      withReturns_append, List.take_succ_cons, List.take_zero, withReturns_cons hne.1]
    simp [withReturns_nil]
  · rw [string_open hmem] at h
    cases h
    have hpiece : piece c (withReturns cs) =
        (.fault .unclosedString, (withReturns cs).length + 1) := by
      rw [piece_mark hm, string_open (mt (mem_withReturns hne.2).1 hmem)]
    refine .even hpiece ?_
    rw [Nat.add_sub_cancel, Nat.add_sub_cancel, List.take_length]

/-- A character `&` that starts no comment is unknown. -/
theorem piece_ampersand (h : cs.head? ≠ some '&') :
    piece '&' cs = (.fault (.unrecognized '&'), 1) := by
  have hpiece : piece '&' cs = if '&' = '&' ∧ cs.head? = some '&' then
      (.skipped, 1 + lineLength cs) else (.fault (.unrecognized '&'), 1) := rfl
  rw [hpiece, if_neg fun h' => h h'.2]

/-- A comment after `&&` takes the carriage return with it. -/
theorem ampersand_follows (h : piece '&' cs = (kind, count)) : Follows '&' cs kind (count - 1) := by
  by_cases hhead : cs.head? = some '&'
  · obtain ⟨more, rfl⟩ := List.head?_eq_some_iff.1 hhead
    have hpiece (more : List Char) : piece '&' ('&' :: more) = (.skipped, 2 + lineLength more) := by
      have hlength : 1 + lineLength ('&' :: more) = 2 + lineLength more := by
        simp [lineLength]
        omega
      rw [← hlength]
      rfl
    rw [hpiece] at h
    cases h
    rw [show 2 + lineLength more - 1 = lineLength more + 1 by omega]
    exact line_follows (by decide) hpiece more
  · rw [piece_ampersand hhead] at h
    cases h
    have hhead' : (withReturns cs).head? ≠ some '&' := by
      rwa [ne_eq, head?_withReturns (by decide) (by decide)]
    exact .even (piece_ampersand hhead') rfl

/-- With carriage returns in the text, the next piece is of the same kind and split off in the same
place, or else behind a carriage return. -/
theorem piece_follows (hc : c ≠ '\n') (h : piece c cs = (kind, count)) :
    Follows c cs kind (count - 1) := by
  by_cases hs : c = '/'
  · subst hs
    exact slash_follows h
  by_cases ha : c = '&'
  · subst ha
    exact ampersand_follows h
  cases hm : isMark c with
  | true => exact string_follows hm ((piece_mark hm cs).symm.trans h)
  | false =>
    have hle : count - 1 ≤ cs.length := by
      have := piece_count_le c cs
      rw [h] at this
      exact Nat.sub_le_of_le_add this
    have hfree : '\n' ∉ cs.take (count - 1) := by
      intro hmem
      obtain rfl | ⟨hstart, -⟩ | ⟨hmark, -⟩ :=
        (piece_spells h).of_newline_mem (List.mem_cons_of_mem c hmem)
      · exact hc (List.cons.inj (piece_spells h).text_of_newline).1
      · exact hs (List.cons_prefix_cons.1 hstart).1.symm
      · cases hm.symm.trans hmark
    refine .even ((piece_withReturns_other hs ha hm cs).trans h) ?_
    rw [withReturns_of_not_mem hfree, List.length_take, Nat.min_eq_left hle]

end Piece

/-! ## Places -/

/-- The second place is in the same line, `n` columns further on. -/
structure Position.Beside (n : UInt32) (p p' : Position) : Prop where
  line : p'.line = p.line
  col : p'.col = p.col + n

namespace Position.Beside

variable {n : UInt32} {p p' : Position}

theorem col_eq (h : Beside 0 p p') : p'.col = p.col :=
  h.col.trans (UInt32.add_zero _)

theorem step (h : Beside 0 p p') {c : Char} (hc : c ≠ '\n') : Beside 0 (p.step c) (p'.step c) := by
  simp only [Position.step, if_neg hc]
  exact ⟨h.line, by rw [h.col_eq, UInt32.add_zero]⟩

theorem step_newline (h : Beside n p p') : Beside 0 (p.step '\n') (p'.step '\n') :=
  ⟨congrArg (· + 1) h.line, rfl⟩

theorem step_return (h : Beside 0 p p') : Beside 1 p (p'.step '\r') :=
  ⟨h.line, congrArg (· + 1) h.col_eq⟩

/-- Carriage returns change neither the line nor the column behind a text. -/
theorem advance (h : Beside 0 p p') (text : List Char) :
    Beside 0 (p.advance text) (p'.advance (Text.withReturns text)) := by
  induction text generalizing p p' with
  | nil => exact h
  | cons c text ih =>
    by_cases hc : c = '\n'
    · subst hc
      exact ih h.step_return.step_newline
    · rw [Text.withReturns_cons hc]
      exact ih (h.step hc)

end Position.Beside

/-! ## Tokens and faults -/

/-- The same token, which may be in another place of its line only if it is a line break. -/
structure Token.Alike (t t' : Token) : Prop where
  kind : t'.kind = t.kind
  lexeme : t'.lexeme = t.lexeme
  line : t'.line = t.line
  col : t'.col = t.col + if t.kind = .newline then 1 else 0

/-- The same fault in the same line and column. -/
structure LexError.Alike (e e' : LexError) : Prop where
  fault : e'.fault = e.fault
  line : e'.line = e.line
  col : e'.col = e.col

/-- The same token or the same fault. -/
inductive Alike : (item item' : Except LexError Token) → Prop
  | token {t t' : Token} (h : t.Alike t') : Alike (.ok t) (.ok t')
  | fault {e e' : LexError} (h : e.Alike e') : Alike (.error e) (.error e')

/-- No string among the items goes on behind a line break. -/
def UnbrokenStrings (items : List (Except LexError Token)) : Prop :=
  ∀ t, .ok t ∈ items → t.kind = .string → '\n' ∉ t.lexeme.toList

namespace Lexer

open Piece Text

variable {lx lx' lx₁ : Lexer} {item : Option (Except LexError Token)} {pos pos' : Position}
  {last : Boundary}

/-- A piece makes the same with carriage returns in it, if it is neither a line break nor a string
that goes on behind one. -/
theorem emit_alike {c : Char} {w r w' r' : List Char} {kind : Piece} (hc : c ≠ '\n')
    (hspells : Spells r kind (c :: w)) (hsplits : Splits w r kind w' r') (hpos : pos.Beside 0 pos')
    (hstring : UnbrokenStrings (emit pos last (c :: w) kind).1.toList) :
    Option.Rel Alike (emit pos last (c :: w) kind).1 (emit pos' last (c :: w') kind).1 ∧
      (emit pos' last (c :: w') kind).2 = (emit pos last (c :: w) kind).2 := by
  have hcol : pos'.col = pos.col := hpos.col_eq
  cases kind with
  | skipped | semicolon => exact ⟨.none, rfl⟩
  | newline =>
    cases hspells
    exact absurd rfl hc
  | fault f => exact ⟨.some (.fault ⟨rfl, hpos.line, hcol⟩), rfl⟩
  | token k =>
    cases hsplits
    have hfree : '\n' ∉ w := by
      intro hmem
      obtain h | ⟨-, h | h⟩ | ⟨-, h | h⟩ :=
        hspells.of_newline_mem (List.mem_cons_of_mem c hmem) <;> cases h
      exact hstring _ (List.mem_singleton.2 rfl) rfl
        (by simpa [emit.place] using List.mem_cons_of_mem c hmem)
    rw [withReturns_of_not_mem hfree]
    refine ⟨.some (.token ⟨rfl, rfl, hpos.line, ?_⟩), rfl⟩
    simp [emit.place, hspells.kind_ne_newline, hcol]
  | word =>
    cases hsplits
    have hfree : '\n' ∉ w := by
      intro hmem
      obtain h | ⟨-, h | h⟩ | ⟨-, h | h⟩ :=
        hspells.of_newline_mem (List.mem_cons_of_mem c hmem) <;> cases h
    rw [withReturns_of_not_mem hfree]
    refine ⟨.some (.token ⟨rfl, rfl, hpos.line, ?_⟩), rfl⟩
    simp [emit.place, Kind.ofWord_ne_newline, hcol]

/-! ## Lexers -/

/-- The second lexer has the text of the first one with carriage returns in it, or it is in front of
a line break and has already taken off its carriage return. -/
inductive Abreast : (lx lx' : Lexer) → Prop
  | level {rest : List Char} {pos pos' : Position} {last : Boundary} (h : pos.Beside 0 pos') :
      Abreast ⟨rest, pos, last⟩ ⟨withReturns rest, pos', last⟩
  | ahead {more : List Char} {pos pos' : Position} {last : Boundary} (h : pos.Beside 1 pos') :
      Abreast ⟨'\n' :: more, pos, last⟩ ⟨'\n' :: withReturns more, pos', last⟩

/-- A piece that is not a line break. -/
theorem step_level {c : Char} {cs : List Char} (hc : c ≠ '\n') (hpos : pos.Beside 0 pos')
    (hstep : (⟨c :: cs, pos, last⟩ : Lexer).step = some (item, lx'))
    (hstring : UnbrokenStrings item.toList) :
    ∃ item' lx₁, (⟨withReturns (c :: cs), pos', last⟩ : Lexer).step = some (item', lx₁) ∧
      lx'.Abreast lx₁ ∧ Option.Rel Alike item item' := by
  obtain ⟨c, cs, kind, count, hr, hp, rfl, rfl⟩ := step_cases hstep
  cases hr
  obtain ⟨count', hp', hsplits⟩ := piece_follows hc hp
  have hrest : (⟨withReturns (c :: cs), pos', last⟩ : Lexer).rest = c :: withReturns cs :=
    withReturns_cons hc cs
  obtain ⟨hitem, hlast⟩ := emit_alike hc (piece_spells hp) hsplits hpos hstring
  refine ⟨_, _, step_of_piece hrest hp', ?_, hitem⟩
  rw [hlast]
  generalize (withReturns cs).take (count' - 1) = w' at hsplits ⊢
  generalize (withReturns cs).drop (count' - 1) = r' at hsplits ⊢
  have hadvance := (hpos.step hc).advance (cs.take (count - 1))
  cases hsplits with
  | even => exact .level hadvance
  | ahead hmore =>
    rw [hmore]
    have hreturn : pos'.advance (c :: (withReturns (cs.take (count - 1)) ++ ['\r'])) =
        ((pos'.step c).advance (withReturns (cs.take (count - 1)))).step '\r' :=
      Position.advance_append ..
    rw [hreturn]
    exact .ahead hadvance.step_return

/-- A line break, the carriage return in front of which is taken off. -/
theorem step_ahead {more : List Char} (hpos : pos.Beside 1 pos')
    (hstep : (⟨'\n' :: more, pos, last⟩ : Lexer).step = some (item, lx')) :
    ∃ item' lx₁, (⟨'\n' :: withReturns more, pos', last⟩ : Lexer).step = some (item', lx₁) ∧
      lx'.Abreast lx₁ ∧ Option.Rel Alike item item' := by
  obtain ⟨rfl, rfl⟩ := Prod.mk.inj (Option.some.inj hstep)
  refine ⟨(emit pos' last ['\n'] .newline).1,
    ⟨withReturns more, pos'.step '\n', (emit pos' last ['\n'] .newline).2⟩, rfl, ?_⟩
  change Abreast ⟨more, pos.step '\n', (emit pos last ['\n'] .newline).2⟩ _ ∧
    Option.Rel Alike (emit pos last ['\n'] .newline).1 _
  by_cases hlast : last = .token
  · simp only [emit, if_pos hlast]
    exact ⟨.level hpos.step_newline, .some (.token ⟨rfl, rfl, hpos.line, hpos.col⟩)⟩
  · simp only [emit, if_neg hlast]
    exact ⟨.level hpos.step_newline, .none⟩

/-- A step of the first lexer is made good by the second one, which may have to take off a carriage
return before. -/
theorem Abreast.step (h : lx.Abreast lx₁) (hstep : lx.step = some (item, lx'))
    (hstring : UnbrokenStrings item.toList) :
    ∃ item' lx₁', lx₁.items = item'.toList ++ lx₁'.items ∧ lx'.Abreast lx₁' ∧
      Option.Rel Alike item item' := by
  cases h with
  | @level rest pos pos' last hpos =>
    cases rest with
    | nil => cases hstep
    | cons c cs =>
      by_cases hc : c = '\n'
      · subst hc
        obtain ⟨item', lx₁', hstep', hmore⟩ := step_ahead hpos.step_return hstep
        have hreturn : (⟨withReturns ('\n' :: cs), pos', last⟩ : Lexer).step =
            some (none, ⟨'\n' :: withReturns cs, pos'.step '\r', last⟩) := rfl
        exact ⟨item', lx₁', (items_step hreturn).trans (items_step hstep'), hmore⟩
      · obtain ⟨item', lx₁', hstep', hmore⟩ := step_level hc hpos hstep hstring
        exact ⟨item', lx₁', items_step hstep', hmore⟩
  | ahead hpos =>
    obtain ⟨item', lx₁', hstep', hmore⟩ := step_ahead hpos hstep
    exact ⟨item', lx₁', items_step hstep', hmore⟩

/-- One step, and then the rest of the text. -/
theorem Abreast.items_alike_of_step (h : lx.Abreast lx₁) (hstep : lx.step = some (item, lx'))
    (hstring : UnbrokenStrings lx.items)
    (hmore : ∀ lx₁', lx'.Abreast lx₁' → UnbrokenStrings lx'.items →
      List.Forall₂ Alike lx'.items lx₁'.items) :
    List.Forall₂ Alike lx.items lx₁.items := by
  rw [items_step hstep] at hstring ⊢
  obtain ⟨item', lx₁', hitems, habreast, hitem⟩ :=
    h.step hstep fun t ht => hstring t (List.mem_append_left _ ht)
  have hfirst : List.Forall₂ Alike item.toList item'.toList := by
    cases hitem with
    | none => exact .nil
    | some hitem => exact .cons hitem .nil
  rw [hitems]
  exact List.rel_append hfirst
    (hmore lx₁' habreast fun t ht => hstring t (List.mem_append_right _ ht))

/-- Lexers that are abreast give the same tokens and faults. -/
theorem Abreast.items_alike (h : lx.Abreast lx₁) (hstring : UnbrokenStrings lx.items) :
    List.Forall₂ Alike lx.items lx₁.items := by
  induction lx using Lexer.items.induct generalizing lx₁ with
  | case1 lx hstep =>
    cases h with
    | @level rest pos pos' last hpos =>
      obtain rfl : rest = [] := rest_of_step_none hstep
      rw [items_none rfl, items_none rfl]
      exact .nil
    | ahead => cases hstep
  | case2 lx item lx' hstep ih => exact h.items_alike_of_step hstep hstring fun _ => ih
  | case3 lx lx' hstep ih => exact h.items_alike_of_step hstep hstring fun _ => ih

/-- The ends of the two files are alike. -/
theorem Abreast.finalToken_alike (h : lx.Abreast lx₁) : lx.finalToken.Alike lx₁.finalToken := by
  have hend : (lx.pos.advance lx.rest).Beside 0 (lx₁.pos.advance lx₁.rest) := by
    cases h with
    | level hpos => exact hpos.advance _
    | ahead hpos => exact hpos.step_newline.advance _
  exact ⟨rfl, rfl, hend.line, hend.col⟩

theorem getD_alike {items items' : List (Except LexError Token)} {stop stop' : Token}
    (h : List.Forall₂ Alike items items') (hstop : stop.Alike stop') (n : Nat) :
    Alike (items.getD n (.ok stop)) (items'.getD n (.ok stop')) := by
  induction h generalizing n with
  | nil => exact .token hstop
  | cons h _ ih =>
    cases n with
    | zero => exact h
    | succ n => exact ih n

/-- The same call gives what is alike, unless a string reaches across a line break. -/
theorem Abreast.call_alike (h : lx.Abreast lx₁) (hstring : UnbrokenStrings lx.items) (n : Nat) :
    Alike (lx.call n) (lx₁.call n) := by
  rw [call_eq, call_eq]
  exact getD_alike (h.items_alike hstring) h.finalToken_alike n

/-- The lexers start abreast. -/
theorem ofText_abreast (text : String) :
    (ofText text).Abreast (ofText (String.ofList (withReturns text.toList))) := by
  rw [ofText, ofText, String.toList_ofList]
  exact .level ⟨rfl, rfl⟩

end Lexer

/-! ## Streams -/

/-- The same tokens and the same fault. -/
structure TokenStream.Alike (ts ts' : TokenStream) : Prop where
  tokens : List.Forall₂ Token.Alike ts.tokens ts'.tokens
  stop : ts.stop.Alike ts'.stop
  fault : Option.Rel LexError.Alike ts.fault ts'.fault

/-- The tokens among the items up to the first fault, or else up to the end `stop` of the source. -/
def TokenStream.ofItems (stop : Token) : List (Except LexError Token) → TokenStream
  | [] => ⟨[], stop, none⟩
  | .error e :: _ => ⟨[], e.endToken, some e⟩
  | .ok t :: items => { ofItems stop items with tokens := t :: (ofItems stop items).tokens }

theorem TokenStream.ofItems_alike {items items' : List (Except LexError Token)} {stop stop' : Token}
    (h : List.Forall₂ Xbase.Alike items items') (hstop : stop.Alike stop') :
    (ofItems stop items).Alike (ofItems stop' items') := by
  induction h with
  | nil => exact ⟨.nil, hstop, .none⟩
  | cons h _ ih =>
    cases h with
    | token ht => exact ⟨.cons ht ih.tokens, ih.stop, ih.fault⟩
    | fault he => exact ⟨.nil, ⟨rfl, rfl, he.line, he.col.trans (UInt32.add_zero _).symm⟩, .some he⟩

namespace Lexer

theorem stream_eq_ofItems (lx : Lexer) : lx.stream = .ofItems lx.finalToken lx.items := by
  induction lx using Lexer.stream.induct with
  | case1 lx h =>
    rw [stream_none h, items_none h, finalToken, rest_of_step_none h]
    rfl
  | case2 lx e lx' h =>
    rw [stream_error h, items_item h]
    rfl
  | case3 lx t lx' h ih =>
    rw [stream_ok h, items_item h, ih, finalToken_step h]
    rfl
  | case4 lx lx' h ih => rw [stream_skip h, items_skip h, ih, finalToken_step h]

/-- Lexers that are abreast give streams that are alike. -/
theorem Abreast.stream_alike {lx lx₁ : Lexer} (h : lx.Abreast lx₁)
    (hstring : UnbrokenStrings lx.items) : lx.stream.Alike lx₁.stream := by
  rw [stream_eq_ofItems, stream_eq_ofItems]
  exact TokenStream.ofItems_alike (h.items_alike hstring) h.finalToken_alike

end Lexer

end Xbase
