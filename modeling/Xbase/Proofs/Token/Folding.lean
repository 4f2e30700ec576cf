import Xbase.Proofs.Token.Spelling

/-!
# Which line breaks are tokens

The lexer takes a text off in stretches (`Cut`), and gives a token or a fault for some of them. Its
cuts are the whole text, and what it gives for them are its items (`Lexer.textOf_cuts`,
`Lexer.items_eq_cuts`).

Whether a line break makes a token is decided by what the lexer remembers of the cuts before it.
That memory is a function of the cuts alone (`Boundary.after`, `Lexer.Run.last_eq`), and it says
what `Cut.Awaits` says in words: there is a token before, the last one is no line break, and no
semicolon stands behind it, comments apart.

`Lexer.ofText_folds` puts this together for all line breaks of a text.
-/

namespace Xbase

/-! ## Cuts -/

/-- A stretch of text that the lexer takes off at once, and what it gives for it. -/
structure Cut where
  text : List Char
  item : Option (Except LexError Token)

namespace Cut

/-- The text of some cuts in a row. -/
def textOf (cuts : List Cut) : List Char := cuts.flatMap Cut.text

/-- The token that is given for the cut, if it is one. -/
def token? (cut : Cut) : Option Token := cut.item.bind Except.toOption

/-- A comment, closed or not. -/
def IsComment (cut : Cut) : Prop :=
  ['/', '/'] <+: cut.text ∨ ['&', '&'] <+: cut.text ∨ ['/', '*'] <+: cut.text

/-- A string or a block comment, closed or not. -/
inductive Encloses : Cut → Prop
  | string {text : List Char} {t : Token} (h : t.kind = .string) : Encloses ⟨text, some (.ok t)⟩
  | openString {text : List Char} {e : LexError} (h : e.fault = .unclosedString) :
      Encloses ⟨text, some (.error e)⟩
  | comment {text : List Char} : Encloses ⟨'/' :: '*' :: text, none⟩
  | openComment {text : List Char} {e : LexError} (h : e.fault = .unclosedComment) :
      Encloses ⟨text, some (.error e)⟩

/-- The character `i` of the text of the cuts belongs to `cut`, which stands behind `before`. -/
structure Spans (cuts : List Cut) (i : Nat) (before : List Cut) (cut : Cut) : Prop where
  split : ∃ after, cuts = before ++ cut :: after
  le : (textOf before).length ≤ i
  lt : i < (textOf before).length + cut.text.length

/-- The character `i` of the text of the cuts belongs to a string or to a block comment. -/
def Enclosed (cuts : List Cut) (i : Nat) : Prop :=
  ∃ before cut, Spans cuts i before cut ∧ cut.Encloses

/-- There is a token among the cuts, the last one is no line break, and behind it there is no
semicolon, comments apart. -/
def Awaits (cuts : List Cut) : Prop :=
  ∃ before cut after t, cuts = before ++ cut :: after ∧ cut.token? = some t ∧ t.kind ≠ .newline ∧
    ∀ other ∈ after, other.token? = none ∧ (';' ∈ other.text → other.IsComment)

variable {cut cut' : Cut} {cuts before before' : List Cut} {i : Nat}

theorem textOf_cons (cut : Cut) (cuts : List Cut) :
    textOf (cut :: cuts) = cut.text ++ textOf cuts := List.flatMap_cons

theorem textOf_append (as bs : List Cut) : textOf (as ++ bs) = textOf as ++ textOf bs :=
  List.flatMap_append

/-- Every character of the text belongs to a cut. -/
theorem exists_spans (h : i < (textOf cuts).length) : ∃ before cut, Spans cuts i before cut := by
  induction cuts generalizing i with
  | nil => cases h
  | cons first cuts ih =>
    rw [textOf_cons, List.length_append] at h
    by_cases hi : i < first.text.length
    · exact ⟨[], first, ⟨cuts, rfl⟩, Nat.zero_le _, by simpa [textOf] using hi⟩
    · obtain ⟨before, cut, ⟨after, hsplit⟩, hle, hlt⟩ := ih (i := i - first.text.length) (by omega)
      refine ⟨first :: before, cut, ⟨after, by rw [hsplit]; rfl⟩, ?_, ?_⟩
      · rw [textOf_cons, List.length_append]
        omega
      · rw [textOf_cons, List.length_append]
        omega

/-- No character of the text belongs to two cuts. -/
theorem Spans.unique (h : Spans cuts i before cut) (h' : Spans cuts i before' cut') :
    before' = before ∧ cut' = cut := by
  induction cuts generalizing i before before' with
  | nil =>
    obtain ⟨after, hsplit⟩ := h.split
    simp at hsplit
  | cons first cuts ih =>
    obtain ⟨⟨after, hsplit⟩, hle, hlt⟩ := h
    obtain ⟨⟨after', hsplit'⟩, hle', hlt'⟩ := h'
    cases before with
    | nil =>
      cases before' with
      | nil =>
        cases hsplit
        cases hsplit'
        exact ⟨rfl, rfl⟩
      | cons second before' =>
        cases hsplit
        cases hsplit'
        rw [textOf_cons, List.length_append] at hle'
        simp only [textOf, List.flatMap_nil, List.length_nil] at hlt
        omega
    | cons second before =>
      obtain ⟨rfl, hcuts⟩ := List.cons.inj hsplit
      rw [textOf_cons, List.length_append] at hle hlt
      cases before' with
      | nil =>
        cases hsplit'
        simp only [textOf, List.flatMap_nil, List.length_nil] at hlt'
        omega
      | cons third before' =>
        obtain ⟨rfl, hcuts'⟩ := List.cons.inj hsplit'
        rw [textOf_cons, List.length_append] at hle' hlt'
        obtain ⟨rfl, rfl⟩ := ih (i := i - first.text.length) ⟨⟨after, hcuts⟩, by omega, by omega⟩
          ⟨⟨after', hcuts'⟩, by omega, by omega⟩
        exact ⟨rfl, rfl⟩

/-- The character is one of its cut. -/
theorem Spans.getElem? (h : Spans cuts i before cut) :
    (textOf cuts)[i]? = cut.text[i - (textOf before).length]? := by
  obtain ⟨⟨after, rfl⟩, hle, hlt⟩ := h
  rw [textOf_append, textOf_cons, List.getElem?_append_right hle,
    List.getElem?_append_left (by omega)]

end Cut

/-! ## The lexer and its cuts -/

namespace Lexer

open Piece

variable {lx lx' : Lexer} {item : Option (Except LexError Token)} {text : List Char}

/-- The cuts of the text in front of the lexer. -/
def cuts (lx : Lexer) : List Cut :=
  match _h : lx.step with
  | none => []
  | some (item, lx') => ⟨lx.rest.take (lx.rest.length - lx'.rest.length), item⟩ :: cuts lx'
termination_by lx.rest.length
decreasing_by exact step_length_lt (by assumption)

theorem cuts_none (h : lx.step = none) : lx.cuts = [] := by
  rw [cuts]
  split <;> simp_all

theorem cuts_step (h : lx.step = some (item, lx')) (hrest : lx.rest = text ++ lx'.rest) :
    lx.cuts = ⟨text, item⟩ :: lx'.cuts := by
  have htext : lx.rest.take (lx.rest.length - lx'.rest.length) = text := by
    rw [hrest, List.length_append, Nat.add_sub_cancel, List.take_left]
  rw [cuts]
  split <;> simp_all

/-- The cuts are the text in front of the lexer. -/
theorem textOf_cuts (lx : Lexer) : Cut.textOf lx.cuts = lx.rest := by
  induction lx using Lexer.cuts.induct with
  | case1 lx h => rw [cuts_none h, rest_of_step_none h]; rfl
  | case2 lx item lx' h ih =>
    obtain ⟨kind, text, hrest, -⟩ := step_spells h
    rw [cuts_step h hrest, Cut.textOf_cons, ih, hrest]

/-- What the lexer gives are the items of its cuts. -/
theorem items_eq_cuts (lx : Lexer) : lx.items = lx.cuts.filterMap Cut.item := by
  induction lx using Lexer.cuts.induct with
  | case1 lx h => rw [cuts_none h, items_none h]; rfl
  | case2 lx item lx' h ih =>
    obtain ⟨kind, text, hrest, -⟩ := step_spells h
    rw [cuts_step h hrest, items_step h, ih]
    cases item <;> rfl

/-- The steps by which the lexer takes off some cuts. -/
inductive Run : (lx : Lexer) → (cuts : List Cut) → (lx' : Lexer) → Prop
  | nil {lx : Lexer} : Run lx [] lx
  | cons {lx lx₁ lx' : Lexer} {item : Option (Except LexError Token)} {text : List Char}
      {cuts : List Cut} (h : lx.step = some (item, lx₁)) (hrest : lx.rest = text ++ lx₁.rest)
      (more : Run lx₁ cuts lx') : Run lx (⟨text, item⟩ :: cuts) lx'

/-- The first cuts of a text are taken off before the others. -/
theorem run_of_cuts {xs ys : List Cut} (h : lx.cuts = xs ++ ys) :
    ∃ lx', Run lx xs lx' ∧ lx'.cuts = ys := by
  induction xs generalizing lx with
  | nil => exact ⟨lx, .nil, h⟩
  | cons cut xs ih =>
    cases hstep : lx.step with
    | none =>
      rw [cuts_none hstep] at h
      cases h
    | some result =>
      obtain ⟨item, lx₁⟩ := result
      obtain ⟨kind, text, hrest, -⟩ := step_spells hstep
      rw [cuts_step hstep hrest] at h
      obtain ⟨rfl, hcuts⟩ := List.cons.inj h
      obtain ⟨lx', hrun, hys⟩ := ih hcuts
      exact ⟨lx', .cons hstep hrest hrun, hys⟩

end Lexer

/-! ## What the lexer remembers -/

open Piece in
/-- What becomes of a cut at the place `pos`, with `rest` behind it: `last` and `last'` are what the
lexer remembers before and behind it. -/
inductive Cut.Made (pos : Position) (rest : List Char) :
    (last : Boundary) → (cut : Cut) → (last' : Boundary) → Prop
  | token {last : Boundary} {text : List Char} {t : Token} (hk : t.kind ≠ .newline)
      (hne : text ≠ ['\n']) (hn : '\n' ∈ text → t.kind = .string) :
      Made pos rest last ⟨text, some (.ok t)⟩ .token
  | newline : Made pos rest .token
      ⟨['\n'], some (.ok (Lexer.emit.place pos ['\n'] .newline "\n"))⟩ .newline
  | folded {last : Boundary} (h : last ≠ .token) : Made pos rest last ⟨['\n'], none⟩ last
  | semicolon {last : Boundary} : Made pos rest last ⟨[';'], none⟩ .semicolon
  | blank {last : Boundary} {c : Char} (hn : c ≠ '\n') (hs : c ≠ ';') :
      Made pos rest last ⟨[c], none⟩ last
  | comment {last : Boundary} {text : List Char} (hc : IsComment ⟨text, none⟩)
      (hn : '\n' ∈ text → ['/', '*'] <+: text) : Made pos rest last ⟨text, none⟩ last
  | fault {last : Boundary} {text : List Char} {e : LexError} (hne : text ≠ ['\n'])
      (hn : '\n' ∈ text → e.fault = .unclosedString ∨ e.fault = .unclosedComment)
      (hs : ';' ∈ text → rest = []) : Made pos rest last ⟨text, some (.error e)⟩ last

/-- What stands behind one more cut: only tokens and semicolons change it. -/
def Boundary.after (last : Boundary) (cut : Cut) : Boundary :=
  match cut.item with
  | some (.ok t) => if t.kind = .newline then .newline else .token
  | some (.error _) => last
  | none => if cut.text = [';'] then .semicolon else last

namespace Lexer

open Piece

variable {lx lx' : Lexer} {item : Option (Except LexError Token)} {text : List Char}

/-- All that a step can make of the cut that it takes off. -/
theorem step_made (h : lx.step = some (item, lx')) (hrest : lx.rest = text ++ lx'.rest) :
    Cut.Made lx.pos lx'.rest lx.last ⟨text, item⟩ lx'.last := by
  obtain ⟨kind, text', hrest', hspells, -, hitem, hlast⟩ := step_spells h
  obtain rfl : text' = text := List.append_cancel_right (hrest'.symm.trans hrest)
  rw [hitem, hlast]
  have hne (hk : kind ≠ .newline) : text' ≠ ['\n'] := by
    rintro rfl
    exact hk hspells.eq_newline
  cases kind with
  | token k =>
    refine .token hspells.kind_ne_newline (hne (by simp)) fun hmem => ?_
    obtain h | ⟨-, h | h⟩ | ⟨-, h | h⟩ := hspells.of_newline_mem hmem <;> cases h
    rfl
  | word =>
    refine .token (Kind.ofWord_ne_newline _) (hne (by simp)) fun hmem => ?_
    obtain h | ⟨-, h | h⟩ | ⟨-, h | h⟩ := hspells.of_newline_mem hmem <;> cases h
  | newline =>
    cases hspells
    by_cases htoken : lx.last = .token
    · simp only [emit, if_pos htoken]
      rw [htoken]
      exact .newline
    · simp only [emit, if_neg htoken]
      exact .folded htoken
  | semicolon =>
    cases hspells
    exact .semicolon
  | skipped =>
    have hcomment (hmem : '\n' ∈ text') : ['/', '*'] <+: text' := by
      obtain h | ⟨hstart, -⟩ | ⟨-, h | h⟩ := hspells.of_newline_mem hmem <;> try cases h
      exact hstart
    cases hspells with
    | @blank c hb hn =>
      refine .blank hn ?_
      rintro rfl
      cases hb
    | @line mark body hm =>
      refine .comment ?_ hcomment
      obtain rfl | rfl := hm
      · exact .inl ⟨body, rfl⟩
      · exact .inr (.inl ⟨body, rfl⟩)
    | block => exact .comment (.inr (.inr ⟨_, rfl⟩)) hcomment
  | fault f =>
    refine .fault (hne (by simp)) (fun hmem => ?_) fun hmem => ?_
    · obtain h | ⟨-, h | h⟩ | ⟨-, h | h⟩ := hspells.of_newline_mem hmem <;> cases h
      · exact .inr rfl
      · exact .inl rfl
    · cases hspells with
      | unknown _ hs => exact absurd (List.mem_singleton.1 hmem).symm hs
      | openString _ _ hend => exact hend
      | openComment hend => exact hend

end Lexer

namespace Cut.Made

variable {pos : Position} {rest : List Char} {last last' : Boundary} {cut : Cut}

/-- The lexer remembers what the cuts say. -/
theorem last_eq (h : Made pos rest last cut last') : last' = last.after cut := by
  cases h with
  | token hk hne hn => exact (if_neg hk).symm
  | newline | folded h | semicolon => rfl
  | blank hn hs => exact (if_neg (by simpa using hs)).symm
  | comment hc hn =>
    refine (if_neg ?_).symm
    rintro rfl
    simp [IsComment] at hc
  | fault hne hn hs => rfl

/-- A line break stands alone, or else in a string or in a block comment. -/
theorem alone_or_encloses (h : Made pos rest last cut last') (hmem : '\n' ∈ cut.text) :
    cut.text = ['\n'] ∨ cut.Encloses := by
  cases h with
  | token hk hne hn => exact .inr (.string (hn hmem))
  | newline | folded h => exact .inl rfl
  | semicolon => simp at hmem
  | blank hn hs => exact absurd (List.mem_singleton.1 hmem).symm hn
  | comment hc hn =>
    obtain ⟨body, rfl⟩ := hn hmem
    exact .inr .comment
  | fault hne hn hs =>
    obtain hfault | hfault := hn hmem
    · exact .inr (.openString hfault)
    · exact .inr (.openComment hfault)

/-- A line break that stands alone is in no string and in no comment. It makes a token exactly
behind a token, and then this one. -/
theorem of_newline (h : Made pos rest last cut last') (htext : cut.text = ['\n']) :
    ¬ cut.Encloses ∧ cut.item =
      if last = .token then some (.ok (Lexer.emit.place pos ['\n'] .newline "\n")) else none := by
  cases h with
  | token hk hne hn => exact absurd htext hne
  | newline =>
    refine ⟨fun h => ?_, rfl⟩
    cases h with
    | string h => cases h
  | folded h => exact ⟨fun h => (by cases h), (if_neg h).symm⟩
  | semicolon => cases htext
  | blank hn hs => exact absurd (List.cons.inj htext).1 hn
  | comment hc hn =>
    obtain rfl := htext
    simp [IsComment] at hc
  | fault hne hn hs => exact absurd htext hne

/-- No token but that of a line break that stands alone is a line break. -/
theorem text_of_newline (h : Made pos rest last cut last') {t : Token} (ht : cut.token? = some t)
    (hk : t.kind = .newline) : cut.text = ['\n'] := by
  cases h with
  | token hk' hne hn =>
    cases ht
    exact absurd hk hk'
  | newline => rfl
  | folded h | semicolon | blank hn hs | comment hc hn | fault hne hn hs => cases ht

/-- A line break is a token only behind another token, and nothing but a token is remembered as
one. -/
theorem remembers (h : Made pos rest last cut last') :
    (cut.token? = none → last' = .token → last = .token) ∧
      ∀ t, cut.token? = some t → t.kind = .newline → last = .token ∧ last' ≠ .token := by
  cases h with
  | token hk hne hn =>
    refine ⟨fun h => (by cases h), fun t ht hk' => ?_⟩
    cases ht
    exact absurd hk' hk
  | newline => exact ⟨fun h => (by cases h), fun t _ _ => ⟨rfl, by decide⟩⟩
  | semicolon => exact ⟨fun _ h => (by cases h), fun t ht => (by cases ht)⟩
  | folded h | blank hn hs | comment hc hn | fault hne hn hs =>
    exact ⟨fun _ h => h, fun t ht => (by cases ht)⟩

/-- A semicolon that is no token stands alone or in a comment, unless the text ends with it. -/
theorem semicolon_or_comment (h : Made pos rest last cut last') (hrest : rest ≠ [])
    (ht : cut.token? = none) (hmem : ';' ∈ cut.text) :
    cut.item = none ∧ cut.text = [';'] ∨ cut.IsComment := by
  cases h with
  | token hk hne hn | newline => cases ht
  | folded h => simp at hmem
  | semicolon => exact .inl ⟨rfl, rfl⟩
  | blank hn hs => exact absurd (List.mem_singleton.1 hmem).symm hs
  | comment hc hn => exact .inr hc
  | fault hne hn hs => exact absurd (hs hmem) hrest

end Cut.Made

/-! ## Runs -/

namespace Cut

/-- The cut holds a semicolon only if it is a token, the semicolon itself or a comment. -/
def Tidy (cut : Cut) : Prop :=
  cut.token? = none → ';' ∈ cut.text → cut.item = none ∧ cut.text = [';'] ∨ cut.IsComment

variable {cut : Cut} {cuts : List Cut}

theorem awaits_concat_token {t : Token} (ht : cut.token? = some t) :
    Awaits (cuts ++ [cut]) ↔ t.kind ≠ .newline := by
  constructor
  · rintro ⟨before, other, after, u, hsplit, hu, hk, hafter⟩
    cases after using List.reverseRecOn with
    | nil =>
      obtain ⟨-, rfl⟩ := List.append_singleton_inj.1 hsplit
      rw [ht] at hu
      cases hu
      exact hk
    | append_singleton after last _ =>
      rw [← List.cons_append, ← List.append_assoc] at hsplit
      obtain ⟨-, rfl⟩ := List.append_singleton_inj.1 hsplit
      have hnone := (hafter cut (by simp)).1
      rw [ht] at hnone
      cases hnone
  · intro hk
    exact ⟨cuts, cut, [], t, rfl, ht, hk, by simp⟩

theorem awaits_concat_none (ht : cut.token? = none) :
    Awaits (cuts ++ [cut]) ↔ Awaits cuts ∧ (';' ∈ cut.text → cut.IsComment) := by
  constructor
  · rintro ⟨before, other, after, u, hsplit, hu, hk, hafter⟩
    cases after using List.reverseRecOn with
    | nil =>
      obtain ⟨-, rfl⟩ := List.append_singleton_inj.1 hsplit
      rw [ht] at hu
      cases hu
    | append_singleton after last _ =>
      rw [← List.cons_append, ← List.append_assoc] at hsplit
      obtain ⟨rfl, rfl⟩ := List.append_singleton_inj.1 hsplit
      exact ⟨⟨before, other, after, u, rfl, hu, hk, fun x hx => hafter x (by simp [hx])⟩,
        (hafter cut (by simp)).2⟩
  · rintro ⟨⟨before, other, after, u, rfl, hu, hk, hafter⟩, hcut⟩
    refine ⟨before, other, after ++ [cut], u, by simp, hu, hk, fun x hx => ?_⟩
    obtain hx | hx := List.mem_append.1 hx
    · exact hafter x hx
    · obtain rfl := List.mem_singleton.1 hx
      exact ⟨ht, hcut⟩

/-- What is remembered of the cuts is whether a line break makes a token. -/
theorem awaits_iff (h : ∀ cut ∈ cuts, cut.Tidy) :
    Awaits cuts ↔ cuts.foldl Boundary.after .start = .token := by
  induction cuts using List.reverseRecOn with
  | nil =>
    constructor
    · rintro ⟨before, cut, after, t, hsplit, -⟩
      simp at hsplit
    · intro hstart
      cases hstart
  | append_singleton cuts cut ih =>
    have ih := ih fun x hx => h x (List.mem_append_left _ hx)
    have hcut := h cut (by simp)
    rw [List.foldl_append, List.foldl_cons, List.foldl_nil]
    obtain ⟨text, _ | (e | t)⟩ := cut
    · by_cases hs : text = [';']
      · subst hs
        rw [awaits_concat_none rfl]
        simp [Boundary.after, IsComment]
      · have hcomment : ';' ∈ text → IsComment ⟨text, none⟩ := fun hmem =>
          (hcut rfl hmem).resolve_left fun ⟨_, htext⟩ => hs htext
        rw [awaits_concat_none rfl, and_iff_left hcomment, ih]
        simp [Boundary.after, hs]
    · have hcomment : ';' ∈ text → IsComment ⟨text, some (.error e)⟩ := fun hmem =>
        (hcut rfl hmem).resolve_left fun ⟨hnone, _⟩ => (by cases hnone)
      rw [awaits_concat_none rfl, and_iff_left hcomment, ih]
      rfl
    · rw [awaits_concat_token rfl]
      by_cases hk : t.kind = .newline <;> simp [Boundary.after, hk]

end Cut

namespace Lexer

variable {lx lx' : Lexer} {xs : List Cut}

namespace Run

theorem last_eq (h : Run lx xs lx') : lx'.last = xs.foldl Boundary.after lx.last := by
  induction h with
  | nil => rfl
  | cons h hrest _ ih => rw [ih, (step_made h hrest).last_eq, List.foldl_cons]

theorem rest_eq (h : Run lx xs lx') : lx.rest = Cut.textOf xs ++ lx'.rest := by
  induction h with
  | nil => rfl
  | cons h hrest _ ih => rw [hrest, ih, Cut.textOf_cons, List.append_assoc]

theorem pos_eq (h : Run lx xs lx') : lx'.pos = lx.pos.advance (Cut.textOf xs) := by
  induction h with
  | nil => rfl
  | cons h hrest _ ih =>
    obtain ⟨kind, text, hrest', -, hpos, -⟩ := step_spells h
    obtain rfl := List.append_cancel_right (hrest'.symm.trans hrest)
    rw [ih, hpos, Cut.textOf_cons, Position.advance_append]

/-- Where text is left, the cuts before it are tidy. -/
theorem tidy (h : Run lx xs lx') (hrest : lx'.rest ≠ []) : ∀ cut ∈ xs, cut.Tidy := by
  induction h with
  | nil => simp
  | cons h htext more ih =>
    intro cut hcut
    obtain rfl | hcut := List.mem_cons.1 hcut
    · refine (step_made h htext).semicolon_or_comment ?_
      rw [more.rest_eq]
      simp [hrest]
    · exact ih hrest cut hcut

end Run

/-- What becomes of a cut of a text: it is made at its place, and a line break in it makes a token
as the cuts before it say. -/
theorem cut_made {text : String} {before after : List Cut} {cut : Cut}
    (h : (ofText text).cuts = before ++ cut :: after) :
    ∃ rest last', Cut.Made (Position.start.advance (Cut.textOf before)) rest
        (before.foldl Boundary.after .start) cut last' ∧
      (Cut.Awaits before ↔ before.foldl Boundary.after .start = .token) := by
  obtain ⟨lx, hrun, hcuts⟩ := run_of_cuts h
  obtain ⟨lx', hlast, -⟩ := run_of_cuts (show lx.cuts = [cut] ++ after from hcuts)
  have hpos : lx.pos = Position.start.advance (Cut.textOf before) := hrun.pos_eq
  have hbefore : lx.last = before.foldl Boundary.after .start := hrun.last_eq
  cases hlast with
  | @cons _ lx₁ _ item text _ hstep hrest more =>
    have hmade := step_made hstep hrest
    rw [hpos, hbefore] at hmade
    refine ⟨_, _, hmade, Cut.awaits_iff (hrun.tidy ?_)⟩
    intro hnil
    rw [step] at hstep
    simp [hnil] at hstep

/-- All tokens from the place of the lexer on, also those behind faults. -/
def tokens (lx : Lexer) : List Token := lx.items.filterMap Except.toOption

theorem tokens_step {item : Option (Except LexError Token)} (h : lx.step = some (item, lx'))
    (text : List Char) : lx.tokens = (Cut.token? ⟨text, item⟩).toList ++ lx'.tokens := by
  rw [tokens, items_step h, List.filterMap_append]
  obtain _ | (e | t) := item <;> rfl

/-- No line break is a token directly behind another one, nor where no token is remembered. -/
theorem tokens_fold (lx : Lexer) :
    (lx.last ≠ .token → ∀ t ∈ lx.tokens.head?, t.kind ≠ .newline) ∧
      lx.tokens.IsChain fun t u => ¬ (t.kind = .newline ∧ u.kind = .newline) := by
  induction lx using Lexer.cuts.induct with
  | case1 lx h => simp [tokens, items_none h]
  | case2 lx item lx' h ih =>
    obtain ⟨kind, text, hrest, -⟩ := step_spells h
    obtain ⟨ihHead, ihChain⟩ := ih
    obtain ⟨hnone, hsome⟩ := (step_made h hrest).remembers
    rw [tokens_step h text]
    cases ht : Cut.token? ⟨text, item⟩ with
    | none => exact ⟨fun hlast => ihHead (mt (hnone ht) hlast), ihChain⟩
    | some t =>
      refine ⟨fun hlast u hu hk => ?_, List.isChain_cons.2 ⟨fun u hu => ?_, ihChain⟩⟩
      · cases hu
        exact hlast (hsome t ht hk).1
      · rintro ⟨hk, hk'⟩
        exact ihHead (hsome t ht hk).2 u hu hk'

/-! ## The line breaks of a text -/

/-- The token of the line break behind `before`. -/
def newlineToken (before : List Char) : Token :=
  ⟨.newline, "\n", .ofBounds (String.ofList before).utf8ByteSize
    ((String.ofList before).utf8ByteSize + 1), UInt32.ofNat (1 + before.count '\n'),
    UInt32.ofNat (1 + (before.rtakeWhile (· != '\n')).length)⟩

/-- The lexer counts the bytes, the lines and the columns of the text as it goes on. -/
theorem place_newline (before : List Char) :
    emit.place (Position.start.advance before) ['\n'] .newline "\n" = newlineToken before := by
  obtain ⟨hoffset, -⟩ := Position.start.advance_offset_line before
  have hzero : Position.start.offset = 0 := rfl
  rw [hzero, Nat.zero_add] at hoffset
  have hstop : ((Position.start.advance before).advance ['\n']).offset =
      (Position.start.advance before).offset + 1 := rfl
  rw [emit.place, emit.span, hstop, hoffset, Position.advance_start_line_eq,
    Position.advance_start_col]
  rfl

/-- A place in a text is known by the bytes in front of it. -/
theorem before_unique {before before' after after' : List Char}
    (h : before ++ after = before' ++ after')
    (hsize : (String.ofList before).utf8ByteSize = (String.ofList before').utf8ByteSize) :
    before = before' := by
  induction before generalizing before' with
  | nil =>
    have hempty : String.ofList before' = "" := String.utf8ByteSize_eq_zero_iff.1 hsize.symm
    simpa using hempty.symm
  | cons c before ih =>
    cases before' with
    | nil =>
      have hempty : String.ofList (c :: before) = "" := String.utf8ByteSize_eq_zero_iff.1 hsize
      simp at hempty
    | cons c' before' =>
      obtain ⟨rfl, hmore⟩ := List.cons.inj h
      simp only [String.ofList_cons, String.utf8ByteSize_append] at hsize
      rw [ih hmore (by omega)]

variable {text : String}

/-- What the lexer gives for a cut comes behind what it gives for the cuts before. -/
theorem call_of_cuts {xs ys : List Cut} {cut : Cut} {item : Except LexError Token}
    (h : (ofText text).cuts = xs ++ cut :: ys) (hitem : cut.item = some item) :
    (ofText text).call (xs.filterMap Cut.item).length = item := by
  rw [call_eq, items_eq_cuts, h, List.filterMap_append, List.filterMap_cons_some hitem,
    List.getD_eq_getElem?_getD, List.getElem?_append_right (Nat.le_refl _), Nat.sub_self]
  rfl

/-- Every token but the end of the source is given for a cut. -/
theorem cuts_of_call {n : Nat} {t : Token} (h : (ofText text).call n = .ok t)
    (hk : t.kind ≠ .endOfFile) :
    ∃ xs cut ys, (ofText text).cuts = xs ++ cut :: ys ∧ cut.item = some (.ok t) ∧
      n = (xs.filterMap Cut.item).length := by
  rw [call_eq, items_eq_cuts, List.getD_eq_getElem?_getD] at h
  cases hn : ((ofText text).cuts.filterMap Cut.item)[n]? with
  | none =>
    rw [hn] at h
    cases h
    exact absurd rfl hk
  | some item =>
    rw [hn] at h
    obtain rfl : item = .ok t := h
    obtain ⟨hlt, hget⟩ := List.getElem?_eq_some_iff.1 hn
    have hsplit := List.take_append_drop n ((ofText text).cuts.filterMap Cut.item)
    rw [List.drop_eq_getElem_cons hlt, hget] at hsplit
    obtain ⟨front, back, hcuts, hfront, hback⟩ := List.filterMap_eq_append_iff.1 hsplit.symm
    obtain ⟨gap, cut, ys, rfl, hgap, hcut, -⟩ := List.filterMap_eq_cons_iff.1 hback
    refine ⟨front ++ gap, cut, ys, by rw [hcuts, List.append_assoc], hcut, ?_⟩
    rw [List.filterMap_append, hfront, List.filterMap_eq_nil_iff.2 hgap, List.append_nil,
      List.length_take, Nat.min_eq_left (Nat.le_of_lt hlt)]

/-- A line break that is in no string and in no block comment is a cut. -/
theorem cut_of_newline {before after : List Char} (h : text.toList = before ++ '\n' :: after)
    (hfree : ¬ Cut.Enclosed (ofText text).cuts before.length) :
    ∃ xs item, Cut.Spans (ofText text).cuts before.length xs ⟨['\n'], item⟩ ∧
      Cut.textOf xs = before := by
  have htext : Cut.textOf (ofText text).cuts = before ++ '\n' :: after := by
    rw [textOf_cuts, ← h]
    rfl
  have hlt : before.length < (Cut.textOf (ofText text).cuts).length := by
    rw [htext]
    simp
  obtain ⟨xs, cut, hspans⟩ := Cut.exists_spans hlt
  obtain ⟨ys, hsplit⟩ := hspans.split
  obtain ⟨rest, last', hmade, -⟩ := cut_made hsplit
  have hmem : '\n' ∈ cut.text := by
    have hchar := hspans.getElem?
    rw [htext] at hchar
    exact List.mem_of_getElem? (hchar.symm.trans (by simp))
  obtain halone | hencloses := hmade.alone_or_encloses hmem
  · obtain ⟨ctext, item⟩ := cut
    obtain rfl : ctext = ['\n'] := halone
    refine ⟨xs, item, hspans, ?_⟩
    rw [hsplit, Cut.textOf_append] at htext
    have hle := hspans.le
    have hlt := hspans.lt
    simp at hlt
    exact (List.append_inj htext (by omega)).1
  · exact absurd ⟨xs, cut, hspans, hencloses⟩ hfree

/-- What the lexer gives for the cut of a line break. -/
theorem item_of_newline {xs ys : List Cut} {item : Option (Except LexError Token)}
    (h : (ofText text).cuts = xs ++ ⟨['\n'], item⟩ :: ys) :
    (Cut.Awaits xs ∧ item = some (.ok (newlineToken (Cut.textOf xs)))) ∨
      (¬ Cut.Awaits xs ∧ item = none) := by
  obtain ⟨rest, last', hmade, hawaits⟩ := cut_made h
  have hitem := (hmade.of_newline rfl).2
  by_cases hlast : xs.foldl Boundary.after .start = .token
  · rw [if_pos hlast, place_newline] at hitem
    exact .inl ⟨hawaits.2 hlast, hitem⟩
  · rw [if_neg hlast] at hitem
    exact .inr ⟨mt hawaits.1 hlast, hitem⟩

/-- Every token that is a line break is given for the cut of one. -/
theorem newline_of_call {n : Nat} {t : Token} (h : (ofText text).call n = .ok t)
    (hk : t.kind = .newline) :
    ∃ xs, Cut.Spans (ofText text).cuts (Cut.textOf xs).length xs ⟨['\n'], some (.ok t)⟩ ∧
      ¬ Cut.Enclosed (ofText text).cuts (Cut.textOf xs).length ∧ Cut.Awaits xs ∧
      t = newlineToken (Cut.textOf xs) ∧ n = (xs.filterMap Cut.item).length := by
  obtain ⟨xs, ⟨ctext, item⟩, ys, hsplit, rfl, hn⟩ := cuts_of_call h (by rw [hk]; decide)
  obtain ⟨rest, last', hmade, -⟩ := cut_made hsplit
  obtain rfl : ctext = ['\n'] := hmade.text_of_newline rfl hk
  have hspans : Cut.Spans (ofText text).cuts (Cut.textOf xs).length xs ⟨['\n'], some (.ok t)⟩ :=
    ⟨⟨ys, hsplit⟩, Nat.le_refl _, by simp⟩
  have hfree : ¬ Cut.Enclosed (ofText text).cuts (Cut.textOf xs).length := by
    rintro ⟨before, cut, hspans', hencloses⟩
    obtain ⟨-, rfl⟩ := hspans.unique hspans'
    exact (hmade.of_newline rfl).1 hencloses
  obtain ⟨hawaits, hitem⟩ | ⟨-, hitem⟩ := item_of_newline hsplit
  · exact ⟨xs, hspans, hfree, hawaits, by simpa using hitem, hn⟩
  · cases hitem

/-- In a text that fits into the range of places, the span of a token tells from which line break it
comes. -/
theorem newline_of_span {before after : List Char} {xs : List Cut}
    {item : Option (Except LexError Token)} (hsize : text.utf8ByteSize < 2 ^ 32)
    (htext : text.toList = before ++ '\n' :: after)
    (hspans : Cut.Spans (ofText text).cuts before.length xs ⟨['\n'], item⟩)
    {n : Nat} {t : Token} (hcall : (ofText text).call n = .ok t) (hk : t.kind = .newline)
    (hspan : t.span = (newlineToken before).span) : Cut.Awaits xs := by
  obtain ⟨xs', hspans', -, hawaits, rfl, -⟩ := newline_of_call hcall hk
  obtain ⟨ys, hsplit⟩ := hspans'.split
  have htext' : text.toList = Cut.textOf xs' ++ '\n' :: Cut.textOf ys := by
    have hcover : Cut.textOf (ofText text).cuts = text.toList := textOf_cuts _
    rw [← hcover, hsplit, Cut.textOf_append, Cut.textOf_cons]
    rfl
  have hfits {front back : List Char} (h : text.toList = front ++ back) :
      (String.ofList front).utf8ByteSize < 2 ^ 32 := by
    rw [← String.ofList_toList (s := text), h, String.ofList_append,
      String.utf8ByteSize_append] at hsize
    omega
  have hstart := congrArg (·.start.toNat) hspan
  simp only [newlineToken, Span.ofBounds, UInt32.toNat_ofNat_of_lt' (hfits htext),
    UInt32.toNat_ofNat_of_lt' (hfits htext')] at hstart
  obtain rfl := before_unique (htext'.symm.trans htext) hstart
  obtain ⟨rfl, -⟩ := hspans.unique hspans'
  exact hawaits

/-- The line breaks of a text that are tokens. The lexer takes the whole text off in cuts, and what
it gives, call after call, are their items and then the end of the source. A line break in no string
and in no block comment is a cut; the lexer gives a token for it exactly if there is a token before
it, the last one is no line break, and no semicolon stands between the two, comments apart, and
nothing at all otherwise. In a text of fewer than `2 ^ 32` bytes this is to say that there is such a
token with the span of the line break; in a longer one two line breaks may have the same span. No
other token is a line break. So the first token is none, and no two of them follow each other. -/
theorem ofText_folds (text : String) :
    Cut.textOf (ofText text).cuts = text.toList ∧
    (∀ n, (ofText text).call n =
      ((ofText text).cuts.filterMap Cut.item).getD n (.ok (ofText text).finalToken)) ∧
    (∀ before after, text.toList = before ++ '\n' :: after →
      ¬ Cut.Enclosed (ofText text).cuts before.length →
      ∃ xs item, Cut.Spans (ofText text).cuts before.length xs ⟨['\n'], item⟩ ∧
        Cut.textOf xs = before ∧
        (item = some (.ok (newlineToken before)) ↔ Cut.Awaits xs) ∧
        (item = none ↔ ¬ Cut.Awaits xs) ∧
        (Cut.Awaits xs →
          (ofText text).call (xs.filterMap Cut.item).length = .ok (newlineToken before)) ∧
        (text.utf8ByteSize < 2 ^ 32 →
          ((∃ n t, (ofText text).call n = .ok t ∧ t.kind = .newline ∧
            t.span = (newlineToken before).span) ↔ Cut.Awaits xs))) ∧
    (∀ n t, (ofText text).call n = .ok t → t.kind = .newline →
      ∃ xs, Cut.Spans (ofText text).cuts (Cut.textOf xs).length xs ⟨['\n'], some (.ok t)⟩ ∧
        ¬ Cut.Enclosed (ofText text).cuts (Cut.textOf xs).length ∧ Cut.Awaits xs ∧
        t = newlineToken (Cut.textOf xs) ∧ n = (xs.filterMap Cut.item).length) ∧
    (∀ t ∈ (ofText text).tokens.head?, t.kind ≠ .newline) ∧
    (ofText text).tokens.IsChain fun t u => ¬ (t.kind = .newline ∧ u.kind = .newline) := by
  obtain ⟨hhead, hchain⟩ := (ofText text).tokens_fold
  refine ⟨textOf_cuts _, fun n => by rw [call_eq, items_eq_cuts],
    fun before after htext hfree => ?_, fun n t hcall hk => newline_of_call hcall hk,
    hhead fun h => (by cases h), hchain⟩
  obtain ⟨xs, item, hspans, hbefore⟩ := cut_of_newline htext hfree
  obtain ⟨ys, hsplit⟩ := hspans.split
  have hitem := item_of_newline hsplit
  rw [hbefore] at hitem
  have hcall (hxs : Cut.Awaits xs) :
      (ofText text).call (xs.filterMap Cut.item).length = .ok (newlineToken before) := by
    obtain ⟨-, rfl⟩ | ⟨hnot, -⟩ := hitem
    · exact call_of_cuts hsplit rfl
    · exact absurd hxs hnot
  refine ⟨xs, item, hspans, hbefore, ?_, ?_, hcall, fun hsize => ⟨?_, fun hxs => ?_⟩⟩
  · obtain ⟨hxs, rfl⟩ | ⟨hnot, rfl⟩ := hitem <;> simp_all
  · obtain ⟨hxs, rfl⟩ | ⟨hnot, rfl⟩ := hitem <;> simp_all
  · rintro ⟨n, t, hcall, hk, hspan⟩
    exact newline_of_span hsize htext hspans hcall hk hspan
  · exact ⟨_, _, hcall hxs, rfl, rfl⟩

theorem ofText_folds_comment :
    "x // ;\n\n".toList = ['x', ' ', '/', '/', ' ', ';'] ++ '\n' :: ['\n'] ∧
    ¬ Cut.Enclosed (ofText "x // ;\n\n").cuts 6 ∧ "x // ;\n\n".utf8ByteSize < 2 ^ 32 ∧
    ∃ xs item, Cut.Spans (ofText "x // ;\n\n").cuts 6 xs ⟨['\n'], item⟩ ∧
      Cut.textOf xs = ['x', ' ', '/', '/', ' ', ';'] ∧ Cut.Awaits xs ∧
      item = some (.ok (newlineToken ['x', ' ', '/', '/', ' ', ';'])) ∧
      (ofText "x // ;\n\n").call 1 = .ok (newlineToken ['x', ' ', '/', '/', ' ', ';']) := by
  have hcuts : (ofText "x // ;\n\n").cuts =
      [⟨['x'], some (.ok ⟨.name, "x", ⟨0, 1⟩, 1, 1⟩)⟩, ⟨[' '], none⟩,
        ⟨['/', '/', ' ', ';'], none⟩] ++
      ⟨['\n'], some (.ok ⟨.newline, "\n", ⟨6, 1⟩, 1, 7⟩)⟩ :: [⟨['\n'], none⟩] := by cbv
  have hcall : (ofText "x // ;\n\n").call 1 =
      .ok (newlineToken ['x', ' ', '/', '/', ' ', ';']) := by cbv
  have hspans : Cut.Spans (ofText "x // ;\n\n").cuts 6 _ _ := ⟨⟨_, hcuts⟩, by decide, by decide⟩
  have hfree : ¬ Cut.Enclosed (ofText "x // ;\n\n").cuts 6 := by
    rintro ⟨before, cut, hspans', hencloses⟩
    obtain ⟨-, rfl⟩ := hspans.unique hspans'
    cases hencloses with
    | string h => cases h
  have hsize : "x // ;\n\n".utf8ByteSize < 2 ^ 32 := by decide
  obtain ⟨xs, item, hline, hbefore, hitem, -, -, hspan⟩ := (ofText_folds "x // ;\n\n").2.2.1
    ['x', ' ', '/', '/', ' ', ';'] ['\n'] rfl hfree
  have hawaits : Cut.Awaits xs := (hspan hsize).1 ⟨1, _, hcall, rfl, rfl⟩
  exact ⟨rfl, hfree, hsize, xs, item, hline, hbefore, hawaits, hitem.2 hawaits, hcall⟩

end Lexer

end Xbase
