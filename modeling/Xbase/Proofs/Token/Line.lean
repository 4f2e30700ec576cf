import Xbase.Token.Lexer

/-!
# Pieces in front of a line break

No piece of text goes beyond a line break, strings and comments apart, and those that do not end are
faults. So a piece in front of a line break does not depend on what stands behind it
(`Piece.piece_extend`), and a line break mends no fault (`Piece.piece_newline`).
-/

namespace Xbase

namespace Piece

/-- Whether the piece is at fault. -/
def isFault : Piece → Bool
  | fault _ => true
  | _ => false

variable {c : Char} {w : List Char}

/-- A run of characters ends at the latest where a character does not belong to it. -/
theorem takeWhile_append_stop {p : Char → Bool} (hc : p c = false) (w more : List Char) :
    (w ++ c :: more).takeWhile p = w.takeWhile p ∧
      (w ++ c :: more).dropWhile p = w.dropWhile p ++ c :: more := by
  induction w with
  | nil => simp [hc]
  | cons d w ih =>
    cases hd : p d with
    | true => simpa [hd] using ih
    | false => simp [hd]

theorem lineLength_extend (w more : List Char) :
    lineLength (w ++ '\n' :: more) = lineLength w := by
  rw [lineLength, (takeWhile_append_stop (by decide) w more).1, lineLength]

/-- A closed comment does not see what follows. -/
theorem commentLength?_append {n : Nat} (h : commentLength? w = some n) (more : List Char) :
    commentLength? (w ++ more) = some n := by
  fun_induction commentLength? w generalizing n with
  | case1 => cases h
  | case2 rest => exact h
  | case3 d rest hne ih =>
    obtain ⟨m, hm, rfl⟩ := Option.map_eq_some_iff.1 h
    cases rest with
    | nil => cases hm
    | cons e rest =>
      rw [List.cons_append, commentLength?, ih hm]
      · rfl
      · rintro tail rfl htail
        obtain ⟨rfl, -⟩ := List.cons.inj htail
        exact hne rest rfl rfl

/-- A line break closes no block comment. -/
theorem commentLength?_newline (h : commentLength? w = none) :
    commentLength? (w ++ ['\n']) = none := by
  fun_induction commentLength? w with
  | case1 => rfl
  | case2 rest => cases h
  | case3 d rest hne ih =>
    rw [List.cons_append, commentLength?, ih (Option.map_eq_none_iff.1 h)]
    · rfl
    · rintro tail rfl htail
      cases rest with
      | nil => cases htail
      | cons e rest =>
        obtain ⟨rfl, -⟩ := List.cons.inj htail
        exact hne rest rfl rfl

/-- What a slash opens in a line does not see the next lines, unless it is an open comment. -/
theorem slash_extend (h : (slash w).1.isFault = false) (more : List Char) :
    slash (w ++ '\n' :: more) = slash w := by
  unfold slash at h ⊢
  split at h
  · simp only [List.cons_append, lineLength_extend]
  · next rest =>
    cases hn : commentLength? rest with
    | none => simp [hn, isFault] at h
    | some n => simp only [List.cons_append, commentLength?_append hn]
  · rfl
  · next h₁ h₂ h₃ =>
    cases w with
    | nil => rfl
    | cons a w =>
      split
      · next heq => cases heq; exact (h₁ _ rfl).elim
      · next heq => cases heq; exact (h₂ _ rfl).elim
      · next heq => cases heq; exact (h₃ _ rfl).elim
      · rfl

theorem slash_newline (h : (slash w).1.isFault = true) :
    (slash (w ++ ['\n'])).1.isFault = true := by
  unfold slash at h ⊢
  split at h
  · cases h
  · next rest =>
    cases hn : commentLength? rest with
    | none =>
      simp only [List.cons_append, commentLength?_newline hn]
      rfl
    | some n => simp [hn, isFault] at h
  · cases h
  · cases h

/-- A truth value has its second point two characters behind the first. -/
theorem dot_of_ne {b : Char} (hb : b ≠ '.') (a : Char) (rest : List Char) :
    dot (a :: b :: rest) = (.token (.symbol .dot), 1) := by
  unfold dot
  split
  · next h =>
    obtain ⟨-, h⟩ := List.cons.inj h
    exact absurd (List.cons.inj h).1 hb
  · rfl

theorem dot_extend (w more : List Char) : dot (w ++ '\n' :: more) = dot w := by
  match w with
  | [] =>
    cases more with
    | nil => rfl
    | cons b more =>
      by_cases hb : b = '.'
      · subst hb
        rfl
      · exact dot_of_ne hb _ _
  | [a] => exact dot_of_ne (by decide) a more
  | a :: b :: w =>
    by_cases hb : b = '.'
    · subst hb
      rfl
    · exact (dot_of_ne hb a _).trans (dot_of_ne hb a w).symm

/-- A closed string does not see what follows. -/
theorem string_extend {mark : Char} (h : (string mark w).1.isFault = false) (more : List Char) :
    string mark (w ++ '\n' :: more) = string mark w := by
  unfold string at h ⊢
  dsimp only at h ⊢
  split at h
  · next hlt =>
    have hstop : ¬ (w.takeWhile (· != mark)).length = w.length := Nat.ne_of_lt hlt
    have htake : (w ++ '\n' :: more).takeWhile (· != mark) = w.takeWhile (· != mark) := by
      rw [List.takeWhile_append, if_neg hstop]
    have hlt' : (w.takeWhile (· != mark)).length < (w ++ '\n' :: more).length := by
      rw [List.length_append]
      omega
    rw [htake, if_pos hlt', if_pos hlt]
  · cases h

/-- A line break closes no string. -/
theorem string_newline {mark : Char} (hm : isMark mark = true)
    (h : (string mark w).1.isFault = true) : (string mark (w ++ ['\n'])).1.isFault = true := by
  have hne : '\n' ≠ mark := by
    rintro rfl
    cases hm
  unfold string at h ⊢
  dsimp only at h ⊢
  split at h
  · cases h
  · next hge =>
    have hall : (w.takeWhile (· != mark)).length = w.length :=
      Nat.le_antisymm (List.takeWhile_prefix _).length_le (Nat.le_of_not_lt hge)
    rw [List.takeWhile_append, if_pos hall]
    simp [hne, isFault]

theorem numberLength_extend (w more : List Char) :
    numberLength (w ++ '\n' :: more) = numberLength w := by
  have hstop := takeWhile_append_stop (p := Char.isDigit) (c := '\n') rfl
  unfold numberLength
  rw [(hstop w more).1, (hstop w more).2]
  match w.dropWhile Char.isDigit with
  | [] => rfl
  | [a] =>
    by_cases ha : a = '.'
    · subst ha
      rfl
    · simp [ha]
  | a :: b :: rest =>
    by_cases ha : a = '.'
    · subst ha
      simp only [List.cons_append, (hstop rest more).1]
    · simp [ha]

theorem head?_extend {d : Char} (hd : d ≠ '\n') (w more : List Char) :
    ((w ++ '\n' :: more).head? = some d) = (w.head? = some d) := by
  cases w with
  | nil => simp [Ne.symm hd]
  | cons a w => rfl

theorem piece_mark (hc : isMark c = true) (w : List Char) : piece c w = string c w := by
  simp only [isMark, Bool.or_eq_true, beq_iff_eq] at hc
  obtain (rfl | rfl) | rfl := hc <;> rfl

/-- What starts neither a comment nor a string looks ahead two characters at most. -/
theorem piece_extend_other (hs : c ≠ '/') (hm : isMark c = false) (w more : List Char) :
    piece c (w ++ '\n' :: more) = piece c w := by
  have hword := (takeWhile_append_stop (p := isWordPart) (c := '\n') rfl w more).1
  simp only [piece, if_neg hs, hm, Bool.false_eq_true, if_false,
    head?_extend (d := '&') (by decide), head?_extend (d := '=') (by decide), dot_extend,
    numberLength_extend, hword, lineLength_extend]

/-- A piece in front of a line break does not depend on what stands behind the line break. -/
theorem piece_extend (h : (piece c w).1.isFault = false) (more : List Char) :
    piece c (w ++ '\n' :: more) = piece c w := by
  by_cases hs : c = '/'
  · subst hs
    exact slash_extend h more
  cases hm : isMark c with
  | true =>
    rw [piece_mark hm] at h
    rw [piece_mark hm, piece_mark hm]
    exact string_extend h more
  | false => exact piece_extend_other hs hm w more

/-- A line break puts no end to a fault. -/
theorem piece_newline (h : (piece c w).1.isFault = true) :
    (piece c (w ++ ['\n'])).1.isFault = true := by
  by_cases hs : c = '/'
  · subst hs
    exact slash_newline h
  cases hm : isMark c with
  | true =>
    rw [piece_mark hm] at h ⊢
    exact string_newline hm h
  | false => rwa [piece_extend_other hs hm]

theorem commentLength?_le {n : Nat} (h : commentLength? w = some n) : n ≤ w.length := by
  fun_induction commentLength? w generalizing n with
  | case1 => cases h
  | case2 rest =>
    cases h
    simp
  | case3 d rest hne ih =>
    obtain ⟨m, hm, rfl⟩ := Option.map_eq_some_iff.1 h
    exact Nat.succ_le_succ (ih hm)

theorem numberLength_le (w : List Char) : numberLength w ≤ w.length := by
  have hlen := congrArg List.length (List.takeWhile_append_dropWhile (p := Char.isDigit) (l := w))
  rw [List.length_append] at hlen
  unfold numberLength
  dsimp only
  split
  · next digit more heq =>
    rw [heq, List.length_cons, List.length_cons] at hlen
    have := (List.takeWhile_prefix (l := more) Char.isDigit).length_le
    split <;> omega
  · omega

/-- A piece lies within the text. -/
theorem piece_count_le (c : Char) (w : List Char) : (piece c w).2 ≤ w.length + 1 := by
  have htake (p : Char → Bool) (w : List Char) : (w.takeWhile p).length ≤ w.length :=
    (List.takeWhile_prefix p).length_le
  have hone : 1 ≤ w.length + 1 := Nat.le_add_left 1 _
  unfold piece
  split
  · exact hone
  split
  · exact hone
  split
  · exact hone
  split
  · exact hone
  split
  · unfold slash
    split
    · next rest =>
      have := htake (· != '\n') rest
      simp only [lineLength, List.length_cons]
      omega
    · next rest =>
      split
      · next n hn =>
        have := commentLength?_le hn
        simp only [List.length_cons]
        omega
      · simp only [List.length_cons]
        omega
    · simp
    · exact hone
  split
  · have := htake (· != '\n') w
    simp only [lineLength]
    omega
  split
  · split
    · next h =>
      cases w with
      | nil => cases h
      | cons d w => simp
    · exact hone
  split
  · unfold dot
    split
    · split
      · simp
      split <;> simp
    · exact hone
  split
  · unfold string
    dsimp only
    split <;> dsimp only <;> omega
  split
  · exact Nat.succ_le_succ (numberLength_le w)
  split
  · exact Nat.succ_le_succ (htake isWordPart w)
  · exact hone

end Piece

end Xbase
