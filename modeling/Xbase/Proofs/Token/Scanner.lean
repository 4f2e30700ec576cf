import Xbase.Proofs.Token.Reader
import Xbase.Proofs.Token.Tiling

/-!
# A scanner with two characters of lookahead

`Scanner` makes tokens out of a text that it reads one character after the other, and looks ahead by
taking characters and putting them back. It has no result if it puts back a third character or cuts
the text inside of a character.

* `Scan.piece_inHand`: whatever the reader, no more characters are put back than have been taken, so
  the scanner comes to an end.
* `Scan.piece_cuts`: the scanner finds the same pieces as `piece`, which has the text as a list.
* `Scanner.Tracks`: the scanner stands where a lexer stands, and `Scanner.Tracks.next` says that it
  gives what the lexer gives and stands there again.

So there always is a result: whoever asks for one token after the other gets those of the lexer,
behind faults and behind the end as well, and at all times the characters put back, with those never
taken behind them, are the rest of the text (`Scanner.calls_ofText`).
-/

namespace Xbase

/-! ## Pieces -/

namespace Piece

/-- A slash that opens no comment is an operator. -/
theorem slash_of_not_comment {cs : List Char} (hline : cs.head? ≠ some '/')
    (hblock : cs.head? ≠ some '*') :
    slash cs = if cs.head? = some '=' then (.token (.symbol .slashEqual), 2)
      else (.token (.symbol .slash), 1) := by
  fun_cases slash cs with
  | case1 | case2 | case3 => simp at hline hblock
  | case4 => rfl
  | case5 _ _ _ hne =>
    rw [if_neg]
    intro hhead
    obtain ⟨more, rfl⟩ := List.head?_eq_some_iff.1 hhead
    exact hne more rfl

end Piece

namespace Scan

/-- Whether `c` is the first of the two characters and the second one follows. -/
def opens (c : Spot) (first second : Char) : Scan Bool := do
  if c.value = first then
    let c? ← peek
    return c?.map Spot.value = some second
  else return false

/-- A comment that goes up to the line break. -/
def lineComment (start : Spot) : Scan (Piece × Nat) := do
  let stop ← takeWhile (· != '\n') start.stop
  return (.skipped, stop)

/-- A comment that has to be closed in front of the end of the text, which is at `size`. -/
def blockComment (size : Nat) : Scan (Piece × Nat) := do
  let _ ← next
  match ← takeComment none with
  | some stop => return (.skipped, stop)
  | none => return (.fault .unclosedComment, size)

/-- An operator of one character, or of two with an equality sign. -/
def operator (first : Spot) (alone withEqual : Symbol) : Scan (Piece × Nat) := do
  match ← next with
  | none => return (.token (.symbol alone), first.stop)
  | some second =>
    if second.value = '=' then return (.token (.symbol withEqual), second.stop)
    else
      putBack second
      return (.token (.symbol alone), first.stop)

/-- The letters of the truth values. -/
def logical? : Char → Option Bool
  | 't' | 'T' => some true
  | 'f' | 'F' => some false
  | _ => none

/-- A truth value such as `.T.`, or else a point. -/
def dot (start : Spot) : Scan (Piece × Nat) := do
  match ← next with
  | none => return (.token (.symbol .dot), start.stop)
  | some letter =>
    match logical? letter.value with
    | none =>
      putBack letter
      return (.token (.symbol .dot), start.stop)
    | some b =>
      match ← next with
      | none =>
        putBack letter
        return (.token (.symbol .dot), start.stop)
      | some closing =>
        if closing.value = '.' then return (.token (.logical b), closing.stop)
        else
          putBackBoth letter closing
          return (.token (.symbol .dot), start.stop)

/-- A number. A point belongs to it only if a digit follows. -/
def number (first : Spot) : Scan (Piece × Nat) := do
  let stop ← takeWhile Char.isDigit first.stop
  match ← next with
  | none => return (.token .number, stop)
  | some point =>
    if point.value ≠ '.' then
      putBack point
      return (.token .number, stop)
    else
      match ← next with
      | none =>
        putBack point
        return (.token .number, stop)
      | some digit =>
        if digit.value.isDigit then
          let stop ← takeWhile Char.isDigit digit.stop
          return (.token .number, stop)
        else
          putBackBoth point digit
          return (.token .number, stop)

/-- A string that has to be closed in front of the end of the text, which is at `size`. -/
def string (size : Nat) (mark : Spot) : Scan (Piece × Nat) := do
  match ← takeTo mark.value with
  | some stop => return (.token .string, stop)
  | none => return (.fault .unclosedString, size)

/-- A name or a keyword. -/
def word (first : Spot) : Scan (Piece × Nat) := do
  let stop ← takeWhile Piece.isWordPart first.stop
  return (.word, stop)

open Piece in
/-- The piece that starts with the character `c`, which has been taken, and the offset behind the
piece. The text ends at `size`. -/
def piece (size : Nat) (c : Spot) : Scan (Piece × Nat) := do
  if c.value = '\n' then return (.newline, c.stop)
  else if c.value = ';' then return (.semicolon, c.stop)
  else if Text.isBlank c.value then return (.skipped, c.stop)
  else if let some s := single? c.value then return (.token (.symbol s), c.stop)
  else if ← opens c '/' '/' then lineComment c
  else if ← opens c '/' '*' then blockComment size
  else if ← opens c '&' '&' then lineComment c
  else if let some (alone, withEqual) := operator? c.value then operator c alone withEqual
  else if c.value = '.' then dot c
  else if isMark c.value then string size c
  else if c.value.isDigit then number c
  else if isWordStart c.value then word c
  else return (.fault (.unrecognized c.value), c.stop)

/-! ### What the pieces put back -/

namespace InHand

theorem opens (c : Spot) (first second : Char) : InHand 0 (opens c first second) fun _ => 0 := by
  unfold Scan.opens
  split
  · exact peek.bind fun _ => .pure (Nat.le_refl 0)
  · exact .pure (Nat.le_refl 0)

theorem takeWhile (keep : Char → Bool) (stop : Nat) :
    InHand 0 (takeWhile keep stop) fun _ => 0 := by
  refine .loop (fun stop c finish hstep => ?_) stop
  split at hstep <;> cases hstep
  exact (putBack c).bind fun _ => .pure (Nat.le_refl 0)

theorem takeTo (mark : Char) : InHand 0 (takeTo mark) fun _ => 0 := by
  refine .loop (fun _ c finish hstep => ?_) ()
  split at hstep <;> cases hstep
  exact .pure (Nat.zero_le 1)

theorem takeComment (previous : Option Char) : InHand 0 (takeComment previous) fun _ => 0 := by
  refine .loop (fun _ c finish hstep => ?_) previous
  split at hstep <;> cases hstep
  exact .pure (Nat.zero_le 1)

theorem lineComment (start : Spot) : InHand 0 (lineComment start) fun _ => 0 :=
  (takeWhile _ _).bind fun _ => .pure (Nat.le_refl 0)

theorem blockComment (size : Nat) : InHand 0 (blockComment size) fun _ => 0 := by
  refine next.bind fun _ => ((takeComment none).mono (Nat.zero_le _)).bind fun stop? => ?_
  cases stop? with
  | none => exact .pure (Nat.le_refl 0)
  | some stop => exact .pure (Nat.le_refl 0)

theorem operator (first : Spot) (alone withEqual : Symbol) :
    InHand 0 (operator first alone withEqual) fun _ => 0 := by
  refine next.bind fun second? => ?_
  cases second? with
  | none => exact .pure (Nat.le_refl 0)
  | some second =>
    dsimp only
    split
    · exact .pure (Nat.zero_le _)
    · exact (putBack second).bind fun _ => .pure (Nat.le_refl 0)

theorem dot (start : Spot) : InHand 0 (dot start) fun _ => 0 := by
  refine next.bind fun letter? => ?_
  cases letter? with
  | none => exact .pure (Nat.le_refl 0)
  | some letter =>
    dsimp only
    split
    · exact (putBack letter).bind fun _ => .pure (Nat.le_refl 0)
    refine next.bind fun closing? => ?_
    cases closing? with
    | none => exact (putBack letter).bind fun _ => .pure (Nat.le_refl 0)
    | some closing =>
      dsimp only
      split
      · exact .pure (Nat.zero_le _)
      · exact (putBackBoth letter closing).bind fun _ => .pure (Nat.le_refl 0)

theorem number (first : Spot) : InHand 0 (number first) fun _ => 0 := by
  refine (takeWhile _ _).bind fun stop => next.bind fun point? => ?_
  cases point? with
  | none => exact .pure (Nat.le_refl 0)
  | some point =>
    dsimp only
    split
    · exact (putBack point).bind fun _ => .pure (Nat.le_refl 0)
    refine next.bind fun digit? => ?_
    cases digit? with
    | none => exact (putBack point).bind fun _ => .pure (Nat.le_refl 0)
    | some digit =>
      dsimp only
      split
      · exact ((takeWhile _ _).mono (Nat.zero_le _)).bind fun _ => .pure (Nat.le_refl 0)
      · exact (putBackBoth point digit).bind fun _ => .pure (Nat.le_refl 0)

/-- A string puts back no character but those it has taken. -/
theorem string (size : Nat) (mark : Spot) : InHand 0 (string size mark) fun _ => 0 := by
  refine (takeTo mark.value).bind fun stop? => ?_
  cases stop? with
  | none => exact .pure (Nat.le_refl 0)
  | some stop => exact .pure (Nat.le_refl 0)

end InHand

/-- No more characters are put back than have been taken behind the first. -/
theorem piece_inHand (size : Nat) (c : Spot) : InHand 0 (piece size c) fun _ => 0 := by
  have hpure (out : Piece × Nat) : InHand 0 (pure out : Scan _) fun _ => 0 := .pure (Nat.le_refl 0)
  refine .ite (hpure _) (.ite (hpure _) (.ite (hpure _) ?_))
  cases Piece.single? c.value with
  | some s => exact hpure _
  | none =>
    refine (InHand.opens c '/' '/').bind fun _ => .ite (.lineComment c) ?_
    refine (InHand.opens c '/' '*').bind fun _ => .ite (.blockComment size) ?_
    refine (InHand.opens c '&' '&').bind fun _ => .ite (.lineComment c) ?_
    cases Piece.operator? c.value with
    | some symbols => exact .operator c symbols.1 symbols.2
    | none =>
      refine .ite (.dot c) (.ite (.string size c) (.ite (.number c) (.ite ?_ (hpure _))))
      exact (InHand.takeWhile _ _).bind fun _ => hpure _

variable {α : Type} {f : Scan α} {r : Reader} {m : Nat} {a : α} {p q : Position} {c : Char}
  {cs : List Char}

/-- Whether two characters stand together is found out without taking the second. -/
theorem opens_gives (h : r.At 1 q cs) (first second : Char) :
    Gives (opens ⟨c, p⟩ first second) r 1 (decide (c = first ∧ cs.head? = some second)) q cs := by
  unfold opens
  split
  · next hc =>
    refine (peek_gives h).bind fun _ h => ?_
    have hsame : decide (((cs.head?.map (⟨·, q⟩)).map Spot.value) = some second) =
        decide (c = first ∧ cs.head? = some second) := by
      have hc : c = first := hc
      simp [hc, Function.comp_def]
    rw [hsame]
    exact .pure h
  · next hc =>
    rw [decide_eq_false (fun hboth => hc hboth.1)]
    exact .pure h

/-- The program has the first character of a text, `c`, which stands at `p` in front of `cs`, and
finds the piece `out` with it. -/
def Cuts (f : Scan (Piece × Nat)) (r : Reader) (p : Position) (c : Char) (cs : List Char)
    (out : Piece × Nat) : Prop :=
  ∃ text rest, cs = text ++ rest ∧ out.2 = text.length + 1 ∧
    Gives f r 2 (out.1, (p.advance (c :: text)).offset) (p.advance (c :: text)) rest

variable {kind : Piece} {size : Nat}

theorem pure_cuts (h : r.At 2 (p.step c) cs) :
    Cuts (pure (kind, (⟨c, p⟩ : Spot).stop)) r p c cs (kind, 1) := by
  rw [Spot.stop_eq]
  exact ⟨[], cs, rfl, rfl, .pure h⟩

/-- A piece that goes on as long as it can. -/
theorem takeWhile_cuts (keep : Char → Bool) (h : r.At 1 (p.step c) cs) :
    Cuts (do let stop ← takeWhile keep (⟨c, p⟩ : Spot).stop; return (kind, stop)) r p c cs
      (kind, (cs.takeWhile keep).length + 1) := by
  refine ⟨cs.takeWhile keep, cs.dropWhile keep, List.takeWhile_append_dropWhile.symm, rfl, ?_⟩
  rw [Spot.stop_eq]
  exact (takeWhile_gives keep h).bind fun _ h => .pure (h.mono (by omega))

theorem lineComment_cuts (h : r.At 1 (p.step c) cs) :
    Cuts (lineComment ⟨c, p⟩) r p c cs (.skipped, 1 + Piece.lineLength cs) := by
  rw [Nat.add_comm]
  exact takeWhile_cuts _ h

/-- An operator is cut with the `=` behind it, if there is one. -/
theorem operator_cuts (h : r.At 1 (p.step c) cs) (alone withEqual : Symbol) :
    Cuts (operator ⟨c, p⟩ alone withEqual) r p c cs
      (if cs.head? = some '=' then (.token (.symbol withEqual), 2)
        else (.token (.symbol alone), 1)) := by
  rw [operator, Spot.stop_eq]
  cases cs with
  | nil => exact ⟨[], [], rfl, rfl, (next_nil h).bind fun _ h => .pure (h.mono (by omega))⟩
  | cons d cs =>
    by_cases hd : d = '='
    · subst hd
      refine ⟨['='], cs, rfl, rfl, (next_cons h).bind fun _ h => ?_⟩
      simp only [if_true, Spot.stop_eq]
      exact .pure (h.mono (by omega))
    · rw [if_neg (by simpa using hd)]
      refine ⟨[], d :: cs, rfl, rfl, (next_cons h).bind fun _ h => ?_⟩
      simp only [hd, if_false]
      exact (putBack_gives h (by omega)).bind fun _ h => .pure (h.mono (by omega))

/-- A string is cut as the lexer does it, also if it is never closed. -/
theorem string_cuts (hsize : size = (p.advance (c :: cs)).offset) (h : r.At 1 (p.step c) cs) :
    Cuts (string size ⟨c, p⟩) r p c cs (Piece.string c cs) := by
  have hloop := takeTo_gives c h
  unfold Piece.string
  dsimp only
  split
  · next hlt =>
    rw [if_pos hlt] at hloop
    have hsplit := List.take_append_drop ((cs.takeWhile (· != c)).length + 1) cs
    refine ⟨_, _, hsplit.symm, ?_, hloop.bind fun _ h => ?_⟩
    · rw [List.length_take]
      omega
    · exact .pure (h.mono (by omega))
  · next hge =>
    rw [if_neg hge, List.take_of_length_le (by omega), List.drop_of_length_le (by omega)] at hloop
    refine ⟨cs, [], (List.append_nil cs).symm, rfl, hloop.bind fun _ h => ?_⟩
    rw [hsize]
    exact .pure (h.mono (by omega))

theorem toLower_eq_letter_iff {small large : Char} (hs : small.toLower = small)
    (hl : large.toLower = small) (hval : small.val = large.val + 32) :
    c.toLower = small ↔ c = small ∨ c = large := by
  constructor
  · intro h
    unfold Char.toLower at h
    split at h
    · have hsum : c.val + 32 = large.val + 32 := (congrArg Char.val h).trans hval
      exact .inr (Char.ext (by grind))
    · exact .inl h
  · rintro (rfl | rfl)
    · exact hs
    · exact hl

/-- The letters of the truth values are two, large or small. -/
theorem logical?_eq (c : Char) :
    logical? c = if c.toLower = 't' then some true else if c.toLower = 'f' then some false
      else none := by
  have ht : c.toLower = 't' ↔ c = 't' ∨ c = 'T' := toLower_eq_letter_iff rfl rfl rfl
  have hf : c.toLower = 'f' ↔ c = 'f' ∨ c = 'F' := toLower_eq_letter_iff rfl rfl rfl
  simp only [ht, hf]
  unfold logical?
  split <;> simp_all

theorem dot_of_logical {letter : Char} {b : Bool} (hb : logical? letter = some b)
    (cs : List Char) : Piece.dot (letter :: '.' :: cs) = (.token (.logical b), 3) := by
  rw [logical?_eq] at hb
  unfold Piece.dot
  grind

theorem dot_of_not_logical {letter : Char} (hb : logical? letter = none) (cs : List Char) :
    Piece.dot (letter :: cs) = (.token (.symbol .dot), 1) := by
  rw [logical?_eq] at hb
  unfold Piece.dot
  split
  · grind
  · rfl

/-- A dot is cut as the lexer does it: as a logical value if it opens one. -/
theorem dot_cuts (h : r.At 1 (p.step c) cs) :
    Cuts (dot ⟨c, p⟩) r p c cs (Piece.dot cs) := by
  rw [dot, Spot.stop_eq]
  cases cs with
  | nil => exact ⟨[], [], rfl, rfl, (next_nil h).bind fun _ h => .pure (h.mono (by omega))⟩
  | cons letter cs =>
    cases hb : logical? letter with
    | none =>
      rw [dot_of_not_logical hb]
      refine ⟨[], letter :: cs, rfl, rfl, (next_cons h).bind fun _ h => ?_⟩
      simp only [hb]
      exact (putBack_gives h (by omega)).bind fun _ h => .pure (h.mono (by omega))
    | some b =>
      cases cs with
      | nil =>
        refine ⟨[], [letter], rfl, rfl, (next_cons h).bind fun _ h => ?_⟩
        simp only [hb]
        refine (next_nil h).bind fun _ h => (putBack_gives h (by omega)).bind fun _ h => ?_
        exact .pure (h.mono (by omega))
      | cons closing cs =>
        by_cases hclosing : closing = '.'
        · subst hclosing
          rw [dot_of_logical hb]
          refine ⟨[letter, '.'], cs, rfl, rfl, (next_cons h).bind fun _ h => ?_⟩
          simp only [hb]
          refine (next_cons h).bind fun _ h => ?_
          simp only [if_true, Spot.stop_eq]
          exact .pure (h.mono (by omega))
        · rw [Piece.dot_of_ne hclosing]
          refine ⟨[], letter :: closing :: cs, rfl, rfl, (next_cons h).bind fun _ h => ?_⟩
          simp only [hb]
          refine (next_cons h).bind fun _ h => ?_
          simp only [hclosing, if_false]
          exact (putBackBoth_gives h).bind fun _ h => .pure h

/-- A number is cut as the lexer does it; a dot without a digit behind it is put back. -/
theorem number_cuts (h : r.At 1 (p.step c) cs) :
    Cuts (number ⟨c, p⟩) r p c cs (.token .number, Piece.numberLength cs + 1) := by
  have hsplit := List.takeWhile_append_dropWhile (p := Char.isDigit) (l := cs)
  have hloop := takeWhile_gives Char.isDigit h
  rw [number, Spot.stop_eq]
  unfold Piece.numberLength
  generalize cs.takeWhile Char.isDigit = whole at hsplit hloop ⊢
  generalize cs.dropWhile Char.isDigit = after at hsplit hloop ⊢
  subst hsplit
  -- Behind the digits, two more characters at most have to be seen.
  cases after with
  | nil =>
    refine ⟨whole, [], rfl, rfl, hloop.bind fun _ h => (next_nil h).bind fun _ h => ?_⟩
    exact .pure (h.mono (by omega))
  | cons point more =>
    by_cases hpoint : point = '.'
    · subst hpoint
      cases more with
      | nil =>
        refine ⟨whole, ['.'], rfl, rfl, hloop.bind fun _ h => (next_cons h).bind fun _ h => ?_⟩
        refine (next_nil h).bind fun _ h => (putBack_gives h (by omega)).bind fun _ h => ?_
        exact .pure (h.mono (by omega))
      | cons digit more =>
        by_cases hdigit : digit.isDigit = true
        · simp only [hdigit, if_true]
          refine ⟨whole ++ '.' :: digit :: more.takeWhile Char.isDigit, more.dropWhile Char.isDigit,
            by simp, by simp; omega, hloop.bind fun _ h => (next_cons h).bind fun _ h => ?_⟩
          refine (next_cons h).bind fun _ h => ?_
          simp only [hdigit, if_true, Spot.stop_eq]
          rw [← List.cons_append, Position.advance_append]
          refine (takeWhile_gives Char.isDigit (h.mono (by omega))).bind fun _ h => ?_
          exact .pure (h.mono (by omega))
        · simp only [hdigit]
          refine ⟨whole, '.' :: digit :: more, rfl, rfl,
            hloop.bind fun _ h => (next_cons h).bind fun _ h => ?_⟩
          refine (next_cons h).bind fun _ h => ?_
          simp only [hdigit]
          exact (putBackBoth_gives h).bind fun _ h => .pure h
    · refine ⟨whole, point :: more, rfl, ?_, hloop.bind fun _ h => (next_cons h).bind fun _ h => ?_⟩
      · split
        · next hcons => exact absurd (List.cons.inj hcons).1 hpoint
        · rfl
      · simp only [hpoint, ne_eq, not_false_eq_true, if_true]
        exact (putBack_gives h (by omega)).bind fun _ h => .pure (h.mono (by omega))

/-- A comment is cut up to its end, or up to the end of the text as a fault. -/
theorem blockComment_cuts (hsize : size = (p.advance (c :: '*' :: cs)).offset)
    (h : r.At 1 (p.step c) ('*' :: cs)) :
    Cuts (blockComment size) r p c ('*' :: cs)
      (match Piece.commentLength? cs with
        | some n => (.skipped, 2 + n)
        | none => (.fault .unclosedComment, 2 + cs.length)) := by
  -- The star that opens the comment does not count for its end.
  have hloop (r' : Reader) (h : r'.At 0 ((p.step c).step '*') cs) :=
    takeComment_gives (h.mono (by omega : 0 ≤ 1))
  cases hk : Piece.commentLength? cs with
  | none =>
    rw [hk, Option.getD_none, List.take_length, List.drop_length] at hloop
    refine ⟨'*' :: cs, [], (List.append_nil _).symm, Nat.add_comm .., ?_⟩
    refine (next_cons h).bind fun _ h => (hloop _ h).bind fun _ h => ?_
    rw [hsize]
    exact .pure (h.mono (by omega))
  | some n =>
    rw [hk] at hloop
    refine ⟨'*' :: cs.take n, cs.drop n, by simp, ?_, ?_⟩
    · have hle := Piece.commentLength?_le hk
      simp
      omega
    · refine (next_cons h).bind fun _ h => (hloop _ h).bind fun _ h => ?_
      exact .pure (h.mono (by omega))

/-- What only looks at the text may come first. -/
theorem Cuts.bind {out : Piece × Nat} {g : α → Scan (Piece × Nat)}
    (hf : Gives f r m a (p.step c) cs)
    (hg : ∀ r', r'.At m (p.step c) cs → Cuts (g a) r' p c cs out) :
    Cuts (f >>= g) r p c cs out := by
  obtain ⟨r', hrun, hat⟩ := hf
  obtain ⟨text, rest, hcs, hcount, hcut⟩ := hg r' hat
  exact ⟨text, rest, hcs, hcount, .of_run hrun hcut⟩

theorem Cuts.ite {P : Prop} [Decidable P] {f₁ f₂ : Scan (Piece × Nat)} {out₁ out₂ : Piece × Nat}
    (h₁ : Cuts f₁ r p c cs out₁) (h₂ : Cuts f₂ r p c cs out₂) :
    Cuts (if P then f₁ else f₂) r p c cs (if P then out₁ else out₂) := by
  split
  · exact h₁
  · exact h₂

/-- What a slash opens is cut as the lexer does it. -/
theorem slash_cuts (hsize : size = (p.advance ('/' :: cs)).offset) (h : r.At 1 (p.step '/') cs) :
    Cuts (piece size ⟨'/', p⟩) r p '/' cs (Piece.slash cs) := by
  show Cuts (opens ⟨'/', p⟩ '/' '/' >>= _) r p '/' cs _
  refine .bind (opens_gives h '/' '/') fun _ h => ?_
  simp only [true_and, decide_eq_true_eq]
  split
  · next hhead =>
    obtain ⟨more, rfl⟩ := List.head?_eq_some_iff.1 hhead
    have hlength : 1 + Piece.lineLength ('/' :: more) = 2 + Piece.lineLength more := by
      simp [Piece.lineLength]
      omega
    have hcuts := lineComment_cuts h
    rwa [hlength] at hcuts
  next hline =>
  refine .bind (opens_gives h '/' '*') fun _ h => ?_
  simp only [true_and, decide_eq_true_eq]
  split
  · next hhead =>
    obtain ⟨more, rfl⟩ := List.head?_eq_some_iff.1 hhead
    exact blockComment_cuts hsize h
  next hblock =>
  refine .bind (opens_gives h '&' '&') fun _ h => ?_
  rw [Piece.slash_of_not_comment hline hblock]
  exact operator_cuts h .slash .slashEqual

open Piece in
/-- The program finds the piece that the text starts with. -/
theorem piece_cuts (hsize : size = (p.advance (c :: cs)).offset) (h : r.At 1 (p.step c) cs) :
    Cuts (piece size ⟨c, p⟩) r p c cs (Xbase.piece c cs) := by
  have hchar {kind : Piece} : Cuts (pure (kind, (⟨c, p⟩ : Spot).stop)) r p c cs (kind, 1) :=
    pure_cuts (h.mono (by omega))
  by_cases hslash : c = '/'
  · subst hslash
    exact slash_cuts hsize h
  unfold Xbase.piece
  rw [if_neg hslash]
  refine .ite hchar (.ite hchar (.ite hchar ?_))
  cases single? c with
  | some s => exact hchar
  | none =>
    refine .bind (opens_gives h '/' '/') fun _ h => ?_
    rw [decide_eq_false fun hboth => hslash hboth.1]
    refine .bind (opens_gives h '/' '*') fun _ h => ?_
    rw [decide_eq_false fun hboth => hslash hboth.1]
    refine .bind (opens_gives h '&' '&') fun _ h => ?_
    simp only [decide_eq_true_eq]
    refine .ite (lineComment_cuts h) ?_
    cases operator? c with
    | some symbols => exact operator_cuts h symbols.1 symbols.2
    | none =>
      refine .ite (dot_cuts h) (.ite (string_cuts hsize h) (.ite (number_cuts h) ?_))
      exact .ite (takeWhile_cuts _ h) (pure_cuts (h.mono (by omega)))

end Scan

/-! ## Slices -/

namespace Text

/-- The text of the first `n` bytes and the text behind them. There is none if the text is too short
or a character goes across. -/
def splitBytes? : (n : Nat) → List Char → Option (List Char × List Char)
  | 0, cs => some ([], cs)
  | _ + 1, [] => none
  | n + 1, c :: cs =>
    if c.utf8Size ≤ n + 1 then
      (splitBytes? (n + 1 - c.utf8Size) cs).map fun (front, rest) => (c :: front, rest)
    else none

/-- The text from the byte `start` up to the byte `stop`. -/
def slice? (text : String) (start stop : Nat) : Option (List Char) := do
  if stop < start then none
  let (_, rest) ← splitBytes? start text.toList
  let (middle, _) ← splitBytes? (stop - start) rest
  return middle

/-- The bytes of the front are cut off exactly. -/
theorem splitBytes?_append (front rest : List Char) :
    splitBytes? (String.ofList front).utf8ByteSize (front ++ rest) = some (front, rest) := by
  induction front with
  | nil => simp [splitBytes?]
  | cons c front ih =>
    have hsize : (String.ofList (c :: front)).utf8ByteSize =
        (c.utf8Size - 1 + (String.ofList front).utf8ByteSize) + 1 := by
      have hpos := c.utf8Size_pos
      rw [String.ofList_cons, String.utf8ByteSize_append, String.utf8ByteSize_singleton]
      omega
    have hpos := c.utf8Size_pos
    rw [hsize, List.cons_append, splitBytes?, if_pos (by omega)]
    rw [show c.utf8Size - 1 + (String.ofList front).utf8ByteSize + 1 - c.utf8Size =
      (String.ofList front).utf8ByteSize by omega, ih]
    rfl

/-- The bytes between two places of a text are the characters between them. -/
theorem slice?_eq {text : String} {front middle rest : List Char}
    (h : text.toList = front ++ (middle ++ rest)) :
    slice? text (Position.start.advance front).offset
      ((Position.start.advance front).advance middle).offset = some middle := by
  obtain ⟨hfront, -⟩ := Position.advance_offset_line .start front
  obtain ⟨hmiddle, -⟩ := Position.advance_offset_line (Position.start.advance front) middle
  have hzero : Position.start.offset = 0 := rfl
  rw [hzero, Nat.zero_add] at hfront
  rw [hmiddle, hfront, slice?, if_neg (by omega), h, Nat.add_sub_cancel_left]
  simp [splitBytes?_append]

end Text

/-! ## The scanner -/

/-- A text that is read one character after the other. -/
structure Scanner where
  source : String
  reader : Reader
  last : Boundary
deriving DecidableEq

namespace Scanner

def ofText (text : String) : Scanner :=
  ⟨text, ⟨text.toList, .none, .start⟩, .start⟩

/-- What a piece makes that starts with the character `c` and ends at `stop`: the token or fault, if
there is one, and what then stands before the next piece. -/
def emit (source : String) (last : Boundary) (c : Spot) (stop : Nat) :
    Piece → Option (Option (Except LexError Token) × Boundary)
  | .skipped => some (none, last)
  | .semicolon => some (none, .semicolon)
  | .newline =>
    if last = .token then do
      let text ← text
      return (some (.ok (place .newline (String.ofList text))), .newline)
    else some (none, last)
  | .token kind => do
    let text ← text
    return (some (.ok (place kind (String.ofList text))), .token)
  | .word => do
    let text ← text
    let lexeme := String.ofList (text.map Char.toLower)
    return (some (.ok (place (.ofWord lexeme) lexeme)), .token)
  | .fault f => some (some (.error ⟨f, span, c.pos.line, c.pos.col⟩), last)
where
  /-- The characters of the piece. -/
  text : Option (List Char) := Text.slice? source c.pos.offset stop
  /-- The bytes of the piece. -/
  span : Span := .ofBounds c.pos.offset stop
  /-- A token in the place of the piece. -/
  place (kind : Kind) (lexeme : String) : Token := ⟨kind, lexeme, span, c.pos.line, c.pos.col⟩

/-- The token that marks the end of the source. -/
def endToken (sc : Scanner) : Token :=
  ⟨.endOfFile, "", .ofBounds sc.source.utf8ByteSize sc.source.utf8ByteSize, sc.reader.pos.line,
    sc.reader.pos.col⟩

/-- Takes off the next piece, or gives the end of the source. -/
def step (sc : Scanner) : Option (Option (Except LexError Token) × Scanner) := do
  match ← Scan.next sc.reader with
  | (none, reader) =>
    let sc := { sc with reader }
    return (some (.ok sc.endToken), sc)
  | (some c, reader) =>
    let ((kind, stop), reader) ← Scan.piece sc.source.utf8ByteSize c reader
    let (item, last) ← emit sc.source sc.last c stop kind
    return (item, { sc with reader, last })

/-- What is skipped takes at least one character. -/
theorem step_length_lt {sc sc' : Scanner} (h : sc.step = some (none, sc')) :
    sc'.reader.remaining.length < sc.reader.remaining.length := by
  obtain ⟨⟨_ | c, r₁⟩, hnext, h⟩ := Option.bind_eq_some_iff.1 h
  · cases h
  · obtain ⟨⟨⟨kind, stop⟩, r₂⟩, hpiece, h⟩ := Option.bind_eq_some_iff.1 h
    obtain ⟨⟨item, last⟩, -, h⟩ := Option.bind_eq_some_iff.1 h
    cases h
    have hle := Scan.piece_inHand _ c r₁ _ r₂ hpiece
    exact Nat.lt_of_le_of_lt hle (Scan.next_length_lt hnext)

/-- The next token or fault, and the scanner behind it. -/
def next (sc : Scanner) : Option (Except LexError Token × Scanner) :=
  match _h : sc.step with
  | none => none
  | some (some item, sc') => some (item, sc')
  | some (none, sc') => next sc'
termination_by sc.reader.remaining.length
decreasing_by exact step_length_lt (by assumption)

theorem next_item {sc sc' : Scanner} {item : Except LexError Token}
    (h : sc.step = some (some item, sc')) : sc.next = some (item, sc') := by
  rw [next]
  split <;> simp_all

theorem next_skip {sc sc' : Scanner} (h : sc.step = some (none, sc')) : sc.next = sc'.next := by
  rw [next]
  split <;> simp_all

/-- What the scanner gives when it is asked `n` times, and the scanner behind that. -/
def calls (sc : Scanner) : (n : Nat) → Option (List (Except LexError Token) × Scanner)
  | 0 => some ([], sc)
  | n + 1 => do
    let (item, sc) ← sc.next
    let (items, sc) ← sc.calls n
    return (item :: items, sc)

end Scanner

/-! ## True places -/

/-- The place behind the text `before`. Lines and columns count from 1, and the column counts the
characters since the last line break. Both are words of 32 bits. -/
structure Position.Behind (p : Position) (before : List Char) : Prop where
  offset : p.offset = (String.ofList before).utf8ByteSize
  line : p.line = UInt32.ofNat (1 + before.count '\n')
  col : p.col = UInt32.ofNat (1 + (before.rtakeWhile (· != '\n')).length)

theorem Position.behind_advance (before : List Char) : (start.advance before).Behind before := by
  obtain ⟨hoffset, -⟩ := advance_offset_line start before
  exact ⟨hoffset.trans (Nat.zero_add _), advance_start_line_eq before, advance_start_col before⟩

namespace Reader

/-- The reader has the text in front of it except for `front`, and all places in it are true: those
of the characters that have been put back, and the one of the first character never taken. -/
structure Within (r : Reader) (text front : List Char) : Prop where
  split : text = front ++ r.remaining
  held : ∀ before c after, r.held = before ++ c :: after →
    c.pos.Behind (front ++ before.map Spot.value)
  pos : r.pos.Behind (front ++ r.held.map Spot.value)

variable {r : Reader} {n : Nat} {p : Position} {text rest front : List Char}

/-- A character that has been put back is part of the text, so the counts in front of it fit into
their words if the text fits into the range of places. -/
theorem Within.counts (h : r.Within text front)
    (hsize : (String.ofList text).utf8ByteSize < 2 ^ 32) {before after : List Spot} {c : Spot}
    (hheld : r.held = before ++ c :: after) :
    Counts (front ++ before.map Spot.value) c.pos.line c.pos.col := by
  have hbehind := h.held before c after hheld
  have hsplit : text = (front ++ before.map Spot.value) ++
      (c.value :: (after.map Spot.value ++ r.chars)) := by
    simp [h.split, remaining, hheld]
  rw [hsplit] at hsize
  rw [hbehind.line, hbehind.col]
  exact .of_size (Counts.size_of_ne_nil (List.cons_ne_nil _ _) hsize)

theorem At.remaining (h : r.At n p rest) : r.remaining = rest := by
  cases h <;> rfl

theorem At.within (h : r.At n (Position.start.advance front) rest) :
    r.Within (front ++ rest) front := by
  have hbehind (text : List Char) :
      ((Position.start.advance front).advance text).Behind (front ++ text) := by
    rw [← Position.advance_append]
    exact Position.behind_advance (front ++ text)
  refine ⟨by rw [h.remaining], fun before c after hheld => ?_, ?_⟩
  · cases h with
    | none => simp [Reader.held] at hheld
    | single =>
      obtain _ | ⟨b, _ | ⟨_, _⟩⟩ := before <;> cases hheld
      exact hbehind []
    | @double _ _ b =>
      obtain _ | ⟨_, _ | ⟨_, _ | ⟨_, _⟩⟩⟩ := before <;> cases hheld
      · exact hbehind []
      · exact hbehind [b]
  · cases h with
    | none => exact hbehind []
    | @single _ _ c => exact hbehind [c]
    | @double _ _ c d => exact hbehind [c, d]

end Reader

/-! ## The scanner and the lexer -/

/-- The lexer behind `n` calls. -/
def Lexer.after (lx : Lexer) : (n : Nat) → Lexer
  | 0 => lx
  | n + 1 => lx.next.2.after n

namespace Scanner

/-- The scanner stands in the text where the lexer stands. -/
structure Tracks (text : String) (sc : Scanner) (lx : Lexer) : Prop where
  source : sc.source = text
  reader : sc.reader.At 2 lx.pos lx.rest
  last : sc.last = lx.last
  front : ∃ front, text.toList = front ++ lx.rest ∧ lx.pos = Position.start.advance front

variable {text : String} {sc : Scanner} {lx lx' : Lexer}

/-- The scanner makes the item that the lexer makes of the same piece. -/
theorem emit_eq {front middle rest : List Char} (h : text.toList = front ++ (middle ++ rest))
    (last : Boundary) (c : Char) (kind : Piece) :
    emit text last ⟨c, Position.start.advance front⟩
        ((Position.start.advance front).advance middle).offset kind =
      some (Lexer.emit (Position.start.advance front) last middle kind) := by
  have htext : emit.text text ⟨c, Position.start.advance front⟩
      ((Position.start.advance front).advance middle).offset = some middle := Text.slice?_eq h
  cases kind with
  | skipped | semicolon | fault f => rfl
  | token k | word =>
    rw [emit, htext]
    rfl
  | newline =>
    rw [emit, Lexer.emit, htext]
    split <;> rfl

theorem advance_size {front rest : List Char} (h : text.toList = front ++ rest) :
    ((Position.start.advance front).advance rest).offset = text.utf8ByteSize := by
  obtain ⟨hoffset, -⟩ := Position.advance_offset_line .start text.toList
  rw [← Position.advance_append, ← h, hoffset, String.ofList_toList]
  exact Nat.zero_add _

namespace Tracks

theorem ofText (text : String) : Tracks text (.ofText text) (.ofText text) :=
  ⟨rfl, .none, rfl, [], rfl, rfl⟩

/-- At the end of the text the scanner gives the end of the source, and stays there. -/
theorem step_none (h : Tracks text sc lx) (hstep : lx.step = none) :
    ∃ sc', sc.step = some (some (.ok lx.endToken), sc') ∧ Tracks text sc' lx := by
  obtain ⟨source, reader, last⟩ := sc
  obtain ⟨rest, pos, last'⟩ := lx
  obtain ⟨rfl, hreader, rfl, front, htext, rfl⟩ := h
  obtain rfl : rest = [] := Lexer.rest_of_step_none hstep
  obtain ⟨r, hrun, hat⟩ := Scan.next_nil hreader
  refine ⟨⟨source, r, last⟩, ?_, rfl, hat.mono (by omega), rfl, front, htext, rfl⟩
  rw [step, hrun]
  cases hat
  show some _ = some _
  rw [endToken, Lexer.endToken, ← advance_size htext]
  rfl

/-- The scanner takes off the piece that the lexer takes off. -/
theorem step_some {item : Option (Except LexError Token)} (h : Tracks text sc lx)
    (hstep : lx.step = some (item, lx')) :
    ∃ sc', sc.step = some (item, sc') ∧ Tracks text sc' lx' := by
  obtain ⟨source, reader, last⟩ := sc
  obtain ⟨rest, pos, last'⟩ := lx
  obtain ⟨rfl, hreader, rfl, front, htext, rfl⟩ := h
  obtain ⟨c, cs, kind, count, rfl, hp, rfl, rfl⟩ := Lexer.step_cases hstep
  obtain ⟨r₁, hrun₁, hat₁⟩ := Scan.next_cons hreader
  obtain ⟨middle, rest, rfl, hcount, r₂, hrun₂, hat₂⟩ :=
    Scan.piece_cuts (advance_size htext).symm hat₁
  rw [hp] at hcount hrun₂
  obtain rfl : count = middle.length + 1 := hcount
  simp only [Nat.add_sub_cancel, List.take_left, List.drop_left]
  have hsplit : source.toList = front ++ ((c :: middle) ++ rest) := htext
  refine ⟨⟨source, r₂, _⟩, ?_, rfl, hat₂, rfl, front ++ c :: middle, ?_, ?_⟩
  · rw [step, hrun₁]
    show (Scan.piece _ _ r₁).bind _ = _
    rw [hrun₂]
    show (emit ..).bind _ = _
    rw [emit_eq hsplit]
    rfl
  · rw [hsplit, List.append_assoc]
  · rw [Position.advance_append]

/-- The scanner gives what the lexer gives next, and they stand in one place again. -/
theorem next (h : Tracks text sc lx) :
    ∃ sc', sc.next = some (lx.next.1, sc') ∧ Tracks text sc' lx.next.2 := by
  induction lx using Lexer.items.induct generalizing sc with
  | case1 lx hstep =>
    obtain ⟨sc', hsc, htracks⟩ := h.step_none hstep
    rw [Lexer.next_none hstep]
    exact ⟨sc', next_item hsc, htracks⟩
  | case2 lx item lx' hstep _ =>
    obtain ⟨sc', hsc, htracks⟩ := h.step_some hstep
    rw [Lexer.next_item hstep]
    exact ⟨sc', next_item hsc, htracks⟩
  | case3 lx lx' hstep ih =>
    obtain ⟨sc', hsc, htracks⟩ := h.step_some hstep
    rw [Lexer.next_skip hstep, next_skip hsc]
    exact ih htracks

/-- After any number of calls, the scanner has given what the lexer gives and still tracks it. -/
theorem calls (h : Tracks text sc lx) (n : Nat) :
    ∃ sc', sc.calls n = some ((List.range n).map lx.call, sc') ∧ Tracks text sc' (lx.after n) := by
  induction n generalizing sc lx with
  | zero => exact ⟨sc, rfl, h⟩
  | succ n ih =>
    obtain ⟨sc₁, hnext, h₁⟩ := h.next
    obtain ⟨sc₂, hcalls, h₂⟩ := ih h₁
    refine ⟨sc₂, ?_, h₂⟩
    rw [Scanner.calls, hnext]
    show (sc₁.calls n).bind _ = _
    rw [hcalls, List.range_succ_eq_map, List.map_cons, List.map_map]
    rfl

end Tracks

end Scanner

end Xbase
