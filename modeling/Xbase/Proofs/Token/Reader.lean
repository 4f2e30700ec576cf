import Xbase.Proofs.Token.Append

/-!
# Reading with two characters of lookahead

A scanner need not have the text as a list. It can take one character after the other from a source
that gives each of them once, and put characters back that it has taken too many. `Reader` has room
for two such characters, and `Scan` is a program that takes characters and puts them back; it has no
result if there is no room.

* `Scan.InHand m f k`: with `m` characters in its hand, `f` puts back none but these and those that
  it takes. This holds for every reader, and it is the reason why a scanner comes to an end.
* `Reader.At n r p rest`: the reader `r` stands at the place `p` in front of the text `rest`, and at
  most `n` characters of it have been put back, each with its own place.
* `Scan.Gives f r n a p rest`: run from `r`, `f` gives the result `a`, and then the reader stands at
  `p` in front of `rest` and holds at most `n` characters.

There is one lemma of the last form for each step and each loop. All loops start with at most one
character put back, and stop with at most one.
-/

namespace Xbase

/-! ## Readers -/

/-- A character with its place. -/
structure Spot where
  value : Char
  pos : Position
deriving DecidableEq

/-- The offset behind the character. -/
def Spot.stop (c : Spot) : Nat := c.pos.offset + c.value.utf8Size

/-- The characters that have been put back, first one first. -/
inductive Ahead where
  | none
  | single (c : Spot)
  | double (first second : Spot)
deriving DecidableEq

/-- A source of characters. -/
structure Reader where
  /-- The characters that have never been taken. -/
  chars : List Char
  ahead : Ahead
  /-- The place of the first of `chars`. -/
  pos : Position
deriving DecidableEq

namespace Reader

/-- The characters that have been put back. -/
def held (r : Reader) : List Spot :=
  match r.ahead with
  | .none => []
  | .single c => [c]
  | .double c d => [c, d]

/-- All characters that the reader will give. -/
def remaining (r : Reader) : List Char := r.held.map Spot.value ++ r.chars

end Reader

/-- A program that reads characters. -/
abbrev Scan : Type → Type := StateT Reader Option

namespace Scan

/-- Takes the next character; at the end there is none. -/
def next : Scan (Option Spot) := fun r =>
  match r.ahead with
  | .none =>
    match r.chars with
    | [] => some (none, r)
    | c :: cs => some (some ⟨c, r.pos⟩, { r with chars := cs, pos := r.pos.step c })
  | .single c => some (some c, { r with ahead := .none })
  | .double c d => some (some c, { r with ahead := .single d })

/-- Puts a character back, which has to be the last one taken. There is room for two. -/
def putBack (c : Spot) : Scan Unit := fun r =>
  match r.ahead with
  | .none => some ((), { r with ahead := .single c })
  | .single d => some ((), { r with ahead := .double c d })
  | .double .. => none

/-- Puts the last two characters back. -/
def putBackBoth (first second : Spot) : Scan Unit := do
  putBack second
  putBack first

/-- Looks at the next character. -/
def peek : Scan (Option Spot) := do
  match ← next with
  | none => return none
  | some c =>
    putBack c
    return some c

/-- What is taken was the first of the remaining characters. -/
theorem next_remaining {r r' : Reader} {c : Spot} (h : next r = some (some c, r')) :
    r.remaining = c.value :: r'.remaining := by
  obtain ⟨chars, ahead, pos⟩ := r
  cases ahead with
  | none =>
    cases chars with
    | nil => cases h
    | cons _ _ =>
      cases h
      rfl
  | single | double =>
    cases h
    rfl

theorem next_length_lt {r r' : Reader} {c : Spot} (h : next r = some (some c, r')) :
    r'.remaining.length < r.remaining.length := by
  rw [next_remaining h]
  exact Nat.lt_succ_self _

/-- At the end nothing changes. -/
theorem next_eq_self {r r' : Reader} (h : next r = some (none, r')) : r' = r := by
  obtain ⟨chars, ahead, pos⟩ := r
  cases ahead with
  | none =>
    cases chars with
    | nil =>
      cases h
      rfl
    | cons _ _ => cases h
  | single | double => cases h

/-- What is put back is the first of the remaining characters. -/
theorem putBack_remaining {r r' : Reader} {c : Spot} (h : putBack c r = some ((), r')) :
    r'.remaining = c.value :: r.remaining := by
  obtain ⟨chars, ahead, pos⟩ := r
  cases ahead with
  | none | single =>
    cases h
    rfl
  | double => cases h

/-! ## Loops -/

/-- Takes one character after the other. With each of them, `step` says how to go on or what to do
at last; `atEnd` is the result at the end of the text. -/
def loop {σ α : Type} (atEnd : σ → α) (step : σ → Spot → σ ⊕ Scan α) (s : σ) : Scan α := fun r =>
  match _h : next r with
  | none => none
  | some (none, r') => some (atEnd s, r')
  | some (some c, r') =>
    match step s c with
    | .inl s' => loop atEnd step s' r'
    | .inr finish => finish r'
termination_by r => r.remaining.length
decreasing_by exact next_length_lt (by assumption)

/-- Takes characters as long as they are to be kept; `stop` is the offset behind the last one. -/
def takeWhile (keep : Char → Bool) (stop : Nat) : Scan Nat :=
  loop id (fun stop c =>
    if keep c.value then .inl c.stop
    else .inr do
      putBack c
      return stop) stop

/-- Takes characters up to the mark, and gives the offset behind it. -/
def takeTo (mark : Char) : Scan (Option Nat) :=
  loop (fun _ => none) (fun _ c =>
    if c.value = mark then .inr (return some c.stop) else .inl ()) ()

/-- Takes characters up to the end of a block comment, and gives the offset behind it. -/
def takeComment (previous : Option Char) : Scan (Option Nat) :=
  loop (fun _ => none) (fun previous c =>
    if previous = some '*' ∧ c.value = '/' then .inr (return some c.stop)
    else .inl (some c.value)) previous

/-- One round of a loop: it ends with the text, or the step says whether it goes on. -/
theorem loop_eq {σ α : Type} (atEnd : σ → α) (step : σ → Spot → σ ⊕ Scan α) (s : σ) :
    loop atEnd step s = (do
      match ← next with
      | none => return atEnd s
      | some c => (step s c).elim (loop atEnd step) id) := by
  funext r
  rw [loop.eq_def]
  show _ = (next r).bind _
  split
  · next h => rw [h, Option.bind_none]
  · next h =>
    rw [h]
    rfl
  · next c r' h =>
    rw [h]
    show _ = (step s c).elim (loop atEnd step) id r'
    split
    · next hstep =>
      rw [hstep]
      rfl
    · next hstep =>
      rw [hstep]
      rfl

/-- A loop has taken nothing, or a first character. -/
theorem loop_cases {σ α : Type} {atEnd : σ → α} {step : σ → Spot → σ ⊕ Scan α} {s : σ}
    {r r' : Reader} {a : α} (h : loop atEnd step s r = some (a, r')) :
    r' = r ∨ ∃ c r₁, next r = some (some c, r₁) ∧
      (step s c).elim (loop atEnd step) id r₁ = some (a, r') := by
  rw [loop_eq] at h
  obtain ⟨⟨_ | c, r₁⟩, hnext, hrun⟩ := Option.bind_eq_some_iff.1 h
  · cases hrun
    exact .inl (next_eq_self hnext)
  · exact .inr ⟨c, r₁, hnext, hrun⟩

/-! ## What is put back -/

/-- A program with `m` characters in its hand puts back none but these and those that it takes, and
keeps `k a` of them when it gives `a`. -/
def InHand {α : Type} (m : Nat) (f : Scan α) (k : α → Nat) : Prop :=
  ∀ r a r', f r = some (a, r') → r'.remaining.length + k a ≤ r.remaining.length + m

namespace InHand

variable {α β : Type} {f : Scan α} {g : α → Scan β} {k : α → Nat} {l : β → Nat} {m : Nat}

theorem pure {a : α} (h : k a ≤ m) : InHand m (Pure.pure a) k := by
  intro r a r' hrun
  cases hrun
  omega

theorem bind (hf : InHand m f k) (hg : ∀ a, InHand (k a) (g a) l) : InHand m (f >>= g) l := by
  intro r b r₂ hrun
  obtain ⟨⟨a, r₁⟩, hrun₁, hrun₂⟩ := Option.bind_eq_some_iff.1 hrun
  have h₁ := hf r a r₁ hrun₁
  have h₂ := hg a r₁ b r₂ hrun₂
  omega

theorem mono {n : Nat} (h : InHand m f k) (hle : m ≤ n) : InHand n f k := by
  intro r a r' hrun
  have := h r a r' hrun
  omega

theorem ite {P : Prop} [Decidable P] {f₁ f₂ : Scan α} (h₁ : InHand m f₁ k) (h₂ : InHand m f₂ k) :
    InHand m (if P then f₁ else f₂) k := by
  split
  · exact h₁
  · exact h₂

/-- Whoever takes a character has one more in hand. -/
theorem next : InHand m next fun c? => c?.elim m fun _ => m + 1 := by
  intro r c? r' hrun
  cases c? with
  | none =>
    rw [next_eq_self hrun]
    rfl
  | some c =>
    rw [next_remaining hrun]
    simp only [Option.elim_some, List.length_cons]
    omega

theorem putBack (c : Spot) : InHand (m + 1) (putBack c) fun _ => m := by
  intro r _ r' hrun
  rw [putBack_remaining hrun, List.length_cons]
  exact Nat.le_of_eq (Nat.add_right_comm ..)

theorem putBackBoth (c d : Spot) : InHand (m + 2) (putBackBoth c d) fun _ => m :=
  (putBack d).bind fun _ => putBack c

/-- To look at a character takes none. -/
theorem peek : InHand m peek fun _ => m := by
  refine next.bind fun c? => ?_
  cases c? with
  | none => exact .pure (Nat.le_refl m)
  | some c => exact (putBack c).bind fun _ => .pure (Nat.le_refl m)

/-- A loop may put back the last character that it has taken. -/
theorem loop {σ : Type} {atEnd : σ → α} {step : σ → Spot → σ ⊕ Scan α}
    (hstep : ∀ s c finish, step s c = .inr finish → InHand 1 finish fun _ => 0) (s : σ) :
    InHand 0 (loop atEnd step s) fun _ => 0 := by
  intro r a r' hrun
  induction hn : r.remaining.length using Nat.strongRecOn generalizing s r with
  | ind n ih =>
    obtain rfl | ⟨c, r₁, hnext, hrun⟩ := loop_cases hrun
    · exact Nat.le_of_eq hn
    · have hlength := congrArg List.length (next_remaining hnext)
      rw [List.length_cons] at hlength
      cases hs : step s c with
      | inl s' =>
        rw [hs] at hrun
        have hle := ih _ (by omega) s' r₁ hrun rfl
        omega
      | inr finish =>
        rw [hs] at hrun
        have hle := hstep s c finish hs r₁ a r' hrun
        omega

end InHand

end Scan

/-! ## Where a reader stands -/

/-- The reader stands at the place `p` in front of `rest`. At most `n` characters have been put
back; each of them has its own place, and the reader goes on behind the last. -/
inductive Reader.At : (n : Nat) → Reader → Position → List Char → Prop
  | none {n : Nat} {p : Position} {rest : List Char} : At n ⟨rest, .none, p⟩ p rest
  | single {n : Nat} {p : Position} {c : Char} {rest : List Char} :
      At (n + 1) ⟨rest, .single ⟨c, p⟩, p.step c⟩ p (c :: rest)
  | double {n : Nat} {p : Position} {c d : Char} {rest : List Char} :
      At (n + 2) ⟨rest, .double ⟨c, p⟩ ⟨d, p.step c⟩, (p.step c).step d⟩ p (c :: d :: rest)

theorem Reader.At.mono {m n : Nat} {r : Reader} {p : Position} {rest : List Char}
    (h : r.At m p rest) (hle : m ≤ n) : r.At n p rest := by
  obtain ⟨k, rfl⟩ := Nat.exists_eq_add_of_le' hle
  cases h with
  | none => exact .none
  | single => exact .single
  | double => exact .double

/-- Run from `r`, the program comes to an end and gives `a`. The reader then stands at `p` in front
of `rest` and holds at most `n` characters. -/
def Scan.Gives {α : Type} (f : Scan α) (r : Reader) (n : Nat) (a : α) (p : Position)
    (rest : List Char) : Prop :=
  ∃ r', f r = some (a, r') ∧ r'.At n p rest

theorem Spot.stop_eq (c : Char) (p : Position) : (⟨c, p⟩ : Spot).stop = (p.step c).offset := by
  unfold Spot.stop Position.step
  split
  · next hc =>
    rw [hc]
    rfl
  · rfl

namespace Scan

variable {α β : Type} {f : Scan α} {g : α → Scan β} {r : Reader} {m n : Nat} {a : α} {b : β}
  {p q : Position} {c d : Char} {cs rest : List Char}

/-! ## Single steps -/

namespace Gives

theorem pure (h : r.At n p rest) : Gives (Pure.pure a) r n a p rest :=
  ⟨r, rfl, h⟩

theorem of_run {r' : Reader} (hrun : f r = some (a, r')) (hg : Gives (g a) r' n b p rest) :
    Gives (f >>= g) r n b p rest := by
  obtain ⟨r₂, hrun', hat⟩ := hg
  refine ⟨r₂, ?_, hat⟩
  show (f r).bind _ = _
  rw [hrun]
  exact hrun'

theorem bind (hf : Gives f r m a q cs) (hg : ∀ r', r'.At m q cs → Gives (g a) r' n b p rest) :
    Gives (f >>= g) r n b p rest := by
  obtain ⟨r', hrun, hat⟩ := hf
  exact of_run hrun (hg r' hat)

end Gives

theorem next_nil (h : r.At n p []) : Gives next r 0 none p [] := by
  cases h
  exact ⟨_, rfl, .none⟩

/-- To take a character makes room for one. -/
theorem next_cons (h : r.At n p (c :: rest)) :
    Gives next r (n - 1) (some ⟨c, p⟩) (p.step c) rest := by
  cases h with
  | none => exact ⟨_, rfl, .none⟩
  | single => exact ⟨_, rfl, .none⟩
  | double => exact ⟨_, rfl, .single⟩

/-- There is room for a character as long as the reader holds at most one. -/
theorem putBack_gives (h : r.At n (p.step c) rest) (hn : n ≤ 1) :
    Gives (putBack ⟨c, p⟩) r (n + 1) () p (c :: rest) := by
  cases h with
  | none => exact ⟨_, rfl, .single⟩
  | single => exact ⟨_, rfl, .double⟩
  | double => omega

theorem putBackBoth_gives (h : r.At 0 ((p.step c).step d) rest) :
    Gives (putBackBoth ⟨c, p⟩ ⟨d, p.step c⟩) r 2 () p (c :: d :: rest) :=
  (putBack_gives h (by omega)).bind fun _ h => putBack_gives h (by omega)

/-- To look at a character leaves everything in its place. -/
theorem peek_gives (h : r.At 1 p cs) :
    Gives peek r 1 (cs.head?.map (⟨·, p⟩)) p cs := by
  cases cs with
  | nil => exact (next_nil h).bind fun _ h => .pure (h.mono (by omega))
  | cons c cs =>
    refine (next_cons h).bind fun _ h => ?_
    exact (putBack_gives h (by omega)).bind fun _ h => .pure h

section

variable {σ : Type} {atEnd : σ → α} {step : σ → Spot → σ ⊕ Scan α} {s : σ}

theorem loop_nil (h : r.At n p []) : Gives (loop atEnd step s) r n (atEnd s) p [] := by
  rw [loop_eq]
  exact (next_nil h).bind fun _ h => .pure (h.mono (by omega))

theorem loop_cons (h : r.At n q (c :: cs))
    (hg : ∀ r', r'.At (n - 1) (q.step c) cs →
      Gives ((step s ⟨c, q⟩).elim (loop atEnd step) id) r' m a p rest) :
    Gives (loop atEnd step s) r m a p rest := by
  rw [loop_eq]
  exact (next_cons h).bind hg

end

end Scan

/-! ## What the loops take -/

namespace Piece

/-- A comment ends with the first `*/`, or goes on behind its first character. -/
theorem commentLength?_cons_cons (a b : Char) (cs : List Char) :
    commentLength? (a :: b :: cs) = if a = '*' ∧ b = '/' then some 2
      else (commentLength? (b :: cs)).map (· + 1) := by
  split
  · next h =>
    obtain ⟨rfl, rfl⟩ := h
    rfl
  · next h =>
    rw [commentLength?.eq_3]
    rintro _ rfl hcons
    exact h ⟨rfl, (List.cons.inj hcons).1⟩

theorem commentLength?_ne_zero (cs : List Char) : commentLength? cs ≠ some 0 := by
  fun_cases commentLength? cs <;> simp

end Piece

namespace Scan

variable {r : Reader} {p : Position} {c : Char} {cs : List Char}

/-- The loop stops in front of the first character that is not to be kept. -/
theorem takeWhile_gives (keep : Char → Bool) (h : r.At 1 p cs) :
    Gives (takeWhile keep p.offset) r 1 (p.advance (cs.takeWhile keep)).offset
      (p.advance (cs.takeWhile keep)) (cs.dropWhile keep) := by
  induction cs generalizing r p with
  | nil => exact loop_nil h
  | cons c cs ih =>
    refine loop_cons h fun r' h => ?_
    by_cases hc : keep c = true
    · rw [List.takeWhile_cons_of_pos hc, List.dropWhile_cons_of_pos hc]
      simp only [hc, if_true, Sum.elim_inl, Spot.stop_eq]
      exact ih (h.mono (by omega))
    · rw [List.takeWhile_cons_of_neg hc, List.dropWhile_cons_of_neg hc]
      simp only [hc]
      exact (putBack_gives h (by omega)).bind fun _ h => .pure h

/-- The loop stops behind the first mark, or at the end of the text. -/
theorem takeTo_gives (mark : Char) (h : r.At 1 p cs) :
    Gives (takeTo mark) r 1
      (if (cs.takeWhile (· != mark)).length < cs.length
        then some (p.advance (cs.take ((cs.takeWhile (· != mark)).length + 1))).offset else none)
      (p.advance (cs.take ((cs.takeWhile (· != mark)).length + 1)))
      (cs.drop ((cs.takeWhile (· != mark)).length + 1)) := by
  induction cs generalizing r p with
  | nil => exact loop_nil h
  | cons c cs ih =>
    refine loop_cons h fun r' h => ?_
    by_cases hc : c = mark
    · subst hc
      rw [List.takeWhile_cons_of_neg (by simp)]
      simp only [List.length_nil, List.length_cons, Nat.zero_lt_succ, if_true, Sum.elim_inr,
        Spot.stop_eq]
      exact .pure (h.mono (by omega))
    · rw [List.takeWhile_cons_of_pos (by simpa using hc)]
      simp only [hc, if_false, Sum.elim_inl, List.length_cons, Nat.add_lt_add_iff_right]
      exact ih (h.mono (by omega))

/-- With `c` in front, a comment that is closed is taken up to the mark that closes it. -/
theorem takeComment_closed {k : Nat} (h : r.At 1 p cs)
    (hk : Piece.commentLength? (c :: cs) = some (k + 1)) :
    Gives (takeComment (some c)) r 1 (some (p.advance (cs.take k)).offset) (p.advance (cs.take k))
      (cs.drop k) := by
  induction cs generalizing r p c k with
  | nil => simp [Piece.commentLength?] at hk
  | cons d cs ih =>
    refine loop_cons h fun r' h => ?_
    rw [Piece.commentLength?_cons_cons] at hk
    by_cases hclose : c = '*' ∧ d = '/'
    · obtain ⟨rfl, rfl⟩ := hclose
      cases hk
      simp only [and_self, if_true, Sum.elim_inr, Spot.stop_eq]
      exact .pure (h.mono (by omega))
    · simp only [Option.some.injEq, hclose, if_false, Sum.elim_inl] at hk ⊢
      cases k with
      | zero => simp [Piece.commentLength?_ne_zero] at hk
      | succ k => exact ih (h.mono (by omega)) (by simpa using hk)

/-- With `c` in front, a comment that is not closed is taken up to the end of the text. -/
theorem takeComment_unclosed (h : r.At 1 p cs) (hk : Piece.commentLength? (c :: cs) = none) :
    Gives (takeComment (some c)) r 1 none (p.advance cs) [] := by
  induction cs generalizing r p c with
  | nil => exact loop_nil h
  | cons d cs ih =>
    refine loop_cons h fun r' h => ?_
    rw [Piece.commentLength?_cons_cons] at hk
    by_cases hclose : c = '*' ∧ d = '/'
    · simp [hclose] at hk
    · simp only [Option.some.injEq, hclose, if_false, Sum.elim_inl] at hk ⊢
      exact ih (h.mono (by omega)) (by simpa using hk)

/-- A comment is taken up to its end, or all of the text is. -/
theorem takeComment_gives (h : r.At 1 p cs) :
    Gives (takeComment none) r 1
      ((Piece.commentLength? cs).map fun n => (p.advance (cs.take n)).offset)
      (p.advance (cs.take ((Piece.commentLength? cs).getD cs.length)))
      (cs.drop ((Piece.commentLength? cs).getD cs.length)) := by
  cases cs with
  | nil => exact loop_nil h
  | cons c cs =>
    refine loop_cons h fun r' h => ?_
    have hat : r'.At 1 (p.step c) cs := h.mono (by omega)
    simp only [reduceCtorEq, false_and, if_false, Sum.elim_inl]
    cases hk : Piece.commentLength? (c :: cs) with
    | none =>
      have hgives := takeComment_unclosed hat hk
      rwa [Option.getD_none, List.take_length, List.drop_length]
    | some n =>
      cases n with
      | zero => exact absurd hk (Piece.commentLength?_ne_zero _)
      | succ k => exact (takeComment_closed hat hk :)

end Scan

end Xbase
