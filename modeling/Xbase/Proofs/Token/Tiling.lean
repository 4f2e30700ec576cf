import Xbase.Proofs.Token.Next

/-!
# Tokens and the text between them

Whoever asks the lexer for one token after the other, and goes on behind faults, gets the items of
the text (`Lexer.items`) and then the end of the source again and again (`Lexer.call_eq`).

* `Filler` and `Gap` say what may stand between two items: blanks, line breaks, semicolons and
  complete comments;
* `Place.Covers` says what the bytes, the line and the column of a stretch of text are in 32 bits,
  and `Counts` what the line and the column are where they fit into them;
* `Tiles` puts these together: the items and the gaps between them are the whole text, in order.

`Lexer.items_tile` says that the items of a lexer tile the text in front of it, and all that is said
about their order and their number comes from this.
-/

namespace Xbase

/-! ## Gaps -/

/-- A blank, a line break, a semicolon or a complete comment, with `rest` behind it. -/
inductive Filler (rest : List Char) : (text : List Char) → Prop
  | blank {c : Char} (h : Text.isBlank c = true) : Filler rest [c]
  | newline : Filler rest ['\n']
  | semicolon : Filler rest [';']
  /-- A comment that goes up to the line break, which is not part of it. -/
  | line {mark : Char} {body : List Char} (hm : mark = '/' ∨ mark = '&') (hb : '\n' ∉ body)
      (hrest : rest = [] ∨ rest.head? = some '\n') : Filler rest (mark :: mark :: body)
  /-- A comment that goes up to the first mark that ends it. -/
  | block {body : List Char} (hb : ¬ ['*', '/'] <:+: body) :
      Filler rest ('/' :: '*' :: (body ++ ['*', '/']))

/-- A text of nothing but fillers, with `rest` behind it. -/
inductive Gap : (text rest : List Char) → Prop
  | nil {rest : List Char} : Gap [] rest
  | cons {filler text rest : List Char} (h : Filler (text ++ rest) filler) (more : Gap text rest) :
      Gap (filler ++ text) rest

namespace Piece

/-- The pieces that make no token, and a line break, which makes one at times. -/
def IsFiller : Piece → Prop
  | newline | semicolon | skipped => True
  | _ => False

variable {c : Char} {cs : List Char}

/-- A comment ends at the first mark that ends it. -/
theorem take_commentLength {n : Nat} (h : commentLength? cs = some n) :
    ∃ body, cs.take n = body ++ ['*', '/'] ∧ ¬ ['*', '/'] <:+: body := by
  fun_induction commentLength? cs generalizing n with
  | case1 => cases h
  | case2 rest =>
    cases h
    exact ⟨[], rfl, by simp⟩
  | case3 d rest hne ih =>
    obtain ⟨m, hm, rfl⟩ := Option.map_eq_some_iff.1 h
    obtain ⟨body, hbody, hnot⟩ := ih hm
    refine ⟨d :: body, by rw [List.take_succ_cons, hbody, List.cons_append], fun hin => ?_⟩
    rcases List.infix_cons_iff.1 hin with hpre | hin
    · -- The mark would have begun one character earlier.
      obtain ⟨tail, htail⟩ := hpre
      obtain ⟨rfl, rfl⟩ := List.cons.inj htail
      have hrest := List.take_append_drop m rest
      rw [hbody] at hrest
      exact hne _ rfl hrest.symm
    · exact hnot hin

/-- A comment line ends in front of the line break. -/
theorem filler_line {mark : Char} (hm : mark = '/' ∨ mark = '&') (cs : List Char) :
    Filler (cs.drop (lineLength cs)) (mark :: mark :: cs.take (lineLength cs)) := by
  have hsplit := List.takeWhile_append_dropWhile (p := (· != '\n')) (l := cs)
  have htake : cs.take (lineLength cs) = cs.takeWhile (· != '\n') :=
    (List.prefix_iff_eq_take.mp (List.takeWhile_prefix _)).symm
  have hboth : cs.takeWhile (· != '\n') ++ cs.drop (lineLength cs) =
      cs.takeWhile (· != '\n') ++ cs.dropWhile (· != '\n') := by
    rw [hsplit, ← htake, List.take_append_drop]
  have hdrop : cs.drop (lineLength cs) = cs.dropWhile (· != '\n') :=
    List.append_cancel_left hboth
  rw [htake, hdrop]
  refine .line hm (fun hmem => ?_) ?_
  · simpa using List.all_eq_true.mp (List.all_takeWhile (p := (· != '\n')) (l := cs)) _ hmem
  · have hhead := List.head?_dropWhile_not (· != '\n') cs
    cases hrest : cs.dropWhile (· != '\n') with
    | nil => exact .inl rfl
    | cons d rest =>
      rw [hrest] at hhead
      exact .inr (by simpa using hhead)

theorem filler_slash {kind : Piece} {count : Nat} (h : slash cs = (kind, count))
    (hk : kind.IsFiller) : Filler (cs.drop (count - 1)) ('/' :: cs.take (count - 1)) := by
  unfold slash at h
  split at h
  · next more =>
    cases h
    rw [show 2 + lineLength more - 1 = lineLength more + 1 by omega]
    exact filler_line (.inl rfl) more
  · next more =>
    split at h
    · next n hn =>
      cases h
      obtain ⟨body, hbody, hnot⟩ := take_commentLength hn
      rw [show 2 + n - 1 = n + 1 by omega, List.take_succ_cons, hbody]
      exact .block hnot
    · cases h
      exact hk.elim
  · cases h
    exact hk.elim
  · cases h
    exact hk.elim

/-- A piece that makes no token is a filler. -/
theorem filler_piece {kind : Piece} {count : Nat} (h : piece c cs = (kind, count))
    (hk : kind.IsFiller) : Filler (cs.drop (count - 1)) (c :: cs.take (count - 1)) := by
  unfold piece at h
  split at h
  · next hc =>
    cases h
    rw [hc]
    exact .newline
  split at h
  · next hc =>
    cases h
    rw [hc]
    exact .semicolon
  split at h
  · next hc =>
    cases h
    exact .blank hc
  split at h
  · cases h
    exact hk.elim
  split at h
  · next hc =>
    rw [hc]
    exact filler_slash h hk
  split at h
  · next hc =>
    obtain ⟨rfl, hhead⟩ := hc
    cases cs with
    | nil => cases hhead
    | cons d more =>
      obtain rfl : d = '&' := Option.some.inj hhead
      cases h
      have hlength : 1 + lineLength ('&' :: more) - 1 = lineLength more + 1 := by
        simp [lineLength]
      rw [hlength]
      exact filler_line (.inr rfl) more
  -- All other pieces are tokens, words or faults.
  exfalso
  split at h
  · split at h <;> cases h <;> exact hk
  split at h
  · unfold dot at h
    split at h
    · split at h
      · cases h
        exact hk
      split at h <;> cases h <;> exact hk
    · cases h
      exact hk
  split at h
  · unfold string at h
    dsimp only at h
    split at h <;> cases h <;> exact hk
  split at h
  · cases h
    exact hk
  split at h <;> cases h <;> exact hk

end Piece

/-! ## Places -/

/-- The line and the column behind `before`. Both count from 1, and the column counts the characters
since the last line break. -/
structure Counts (before : List Char) (line col : UInt32) : Prop where
  line : line.toNat = 1 + before.count '\n'
  col : col.toNat = 1 + (before.rtakeWhile (· != '\n')).length

namespace Counts

theorem length_le_utf8ByteSize (text : List Char) :
    text.length ≤ (String.ofList text).utf8ByteSize := by
  induction text with
  | nil => exact Nat.zero_le _
  | cons c cs ih =>
    have hpos := c.utf8Size_pos
    rw [String.ofList_cons, String.utf8ByteSize_append, String.utf8ByteSize_singleton,
      List.length_cons]
    omega

/-- A text has no more characters than bytes, so it takes a text as long as the range of places for
a count not to fit into its word. -/
theorem of_size {before : List Char} (h : (String.ofList before).utf8ByteSize + 1 < 2 ^ 32) :
    Counts before (UInt32.ofNat (1 + before.count '\n'))
      (UInt32.ofNat (1 + (before.rtakeWhile (· != '\n')).length)) := by
  have hlength := length_le_utf8ByteSize before
  have hcount := before.count_le_length (a := '\n')
  have hcol := (before.rtakeWhile_suffix (· != '\n')).length_le
  exact ⟨UInt32.toNat_ofNat_of_lt' (show _ < 2 ^ 32 by omega),
    UInt32.toNat_ofNat_of_lt' (show _ < 2 ^ 32 by omega)⟩

/-- In front of something there is room for one more. -/
theorem size_of_ne_nil {before text : List Char} (htext : text ≠ [])
    (h : (String.ofList (before ++ text)).utf8ByteSize < 2 ^ 32) :
    (String.ofList before).utf8ByteSize + 1 < 2 ^ 32 := by
  have hpos := List.length_pos_iff.2 htext
  have hlength := length_le_utf8ByteSize text
  rw [String.ofList_append, String.utf8ByteSize_append] at h
  omega

end Counts

/-- The bytes, the line and the column of a token or a fault. -/
structure Place where
  span : Span
  line : UInt32
  col : UInt32

namespace Place

def ofItem : Except LexError Token → Place
  | .ok t => ⟨t.span, t.line, t.col⟩
  | .error e => ⟨e.span, e.line, e.col⟩

/-- The byte behind the last one. -/
def stop (p : Place) : Nat := p.span.start.toNat + p.span.length.toNat

/-- The place is that of `text`, where `before` is all that stands in front of it. The line and the
column are words of 32 bits. -/
structure Covers (p : Place) (before text : List Char) : Prop where
  start : p.span.start.toNat = (String.ofList before).utf8ByteSize
  length : p.span.length.toNat = (String.ofList text).utf8ByteSize
  line : p.line = UInt32.ofNat (1 + before.count '\n')
  col : p.col = UInt32.ofNat (1 + (before.rtakeWhile (· != '\n')).length)

theorem Covers.counts {p : Place} {before text : List Char} (h : p.Covers before text)
    (hsize : (String.ofList before).utf8ByteSize + 1 < 2 ^ 32) : Counts before p.line p.col := by
  rw [h.line, h.col]
  exact .of_size hsize

theorem Covers.stop {p : Place} {before text : List Char} (h : p.Covers before text) :
    p.stop = (String.ofList (before ++ text)).utf8ByteSize := by
  rw [Place.stop, h.start, h.length, String.ofList_append, String.utf8ByteSize_append]

end Place

namespace Position

/-- Behind a text, the column is that of the characters since its last line break. -/
theorem advance_start_col (text : List Char) :
    (start.advance text).col = UInt32.ofNat (1 + (text.rtakeWhile (· != '\n')).length) := by
  induction text using List.reverseRecOn with
  | nil => rfl
  | append_singleton text c ih =>
    rw [advance_append]
    by_cases hc : c = '\n'
    · rw [List.rtakeWhile_concat_neg _ _ _ (by simp [hc]), hc]
      rfl
    · have hstep : ((start.advance text).advance [c]).col = (start.advance text).col + 1 := by
        simp [advance, step, hc]
      rw [hstep, ih, List.rtakeWhile_concat_pos _ _ _ (by simp [hc]), List.length_append,
        List.length_singleton, ← Nat.add_assoc, UInt32.ofNat_add _ 1]
      rfl

/-- Behind a text, the line is that of the line breaks in it. -/
theorem advance_start_line_eq (text : List Char) :
    (start.advance text).line = UInt32.ofNat (1 + text.count '\n') := by
  rw [(advance_offset_line start text).2, UInt32.ofNat_add]
  rfl

/-- The place of a stretch of a text that fits into the range of places. -/
theorem covers {before text : List Char}
    (h : (String.ofList (before ++ text)).utf8ByteSize < 2 ^ 32) :
    Place.Covers ⟨.ofBounds (start.advance before).offset
      ((start.advance before).advance text).offset, (start.advance before).line,
      (start.advance before).col⟩ before text := by
  obtain ⟨hoffset, -⟩ := advance_offset_line start before
  obtain ⟨hstop, -⟩ := advance_offset_line (start.advance before) text
  have hzero : start.offset = 0 := rfl
  rw [String.ofList_append, String.utf8ByteSize_append] at h
  have hbefore : (String.ofList before).utf8ByteSize < 2 ^ 32 := by omega
  have htext : (String.ofList text).utf8ByteSize < 2 ^ 32 := by omega
  refine ⟨?_, ?_, advance_start_line_eq before, advance_start_col before⟩
  · rw [Span.ofBounds, hoffset, hzero, Nat.zero_add, UInt32.toNat_ofNat_of_lt' hbefore]
  · rw [Span.ofBounds, hstop, Nat.add_sub_cancel_left, UInt32.toNat_ofNat_of_lt' htext]

end Position

/-! ## Tiles -/

/-- The text of a token as the token has it: a word in small letters, all else as it stands. -/
def lexemeOf (text : List Char) : String :=
  String.ofList (if text.head?.any Piece.isWordStart then text.map Char.toLower else text)

/-- The token or fault is that of `text`, which stands behind `before`. -/
structure Stands (before text : List Char) (item : Except LexError Token) : Prop where
  nonempty : text ≠ []
  place : (Place.ofItem item).Covers before text
  counts : Counts before (Place.ofItem item).line (Place.ofItem item).col
  token : ∀ t, item = .ok t → t.kind ≠ .endOfFile ∧ t.lexeme = lexemeOf text

/-- The items stand in `rest` one behind the other, with gaps in front of each of them and behind
the last; `before` is all that stands in front of `rest`. -/
inductive Tiles : (before rest : List Char) → (items : List (Except LexError Token)) → Prop
  | nil {before gap : List Char} (hgap : Gap gap []) : Tiles before gap []
  | cons {before gap text rest : List Char} {item : Except LexError Token}
      {items : List (Except LexError Token)} (hgap : Gap gap (text ++ rest))
      (hitem : Stands (before ++ gap) text item) (more : Tiles (before ++ gap ++ text) rest items) :
      Tiles before (gap ++ (text ++ rest)) (item :: items)

namespace Tiles

variable {before rest : List Char} {items : List (Except LexError Token)}

/-- A filler in front belongs to the first gap. -/
theorem filler {text : List Char} (h : Filler rest text)
    (more : Tiles (before ++ text) rest items) : Tiles before (text ++ rest) items := by
  cases more with
  | nil hgap => exact .nil (.cons (by simpa using h) hgap)
  | @cons _ gap text' rest _ _ hgap hitem more =>
    rw [← List.append_assoc]
    rw [List.append_assoc before] at hitem more
    exact .cons (.cons h hgap) hitem more

/-- There are no more items than characters. -/
theorem length_le (h : Tiles before rest items) : items.length ≤ rest.length := by
  induction h with
  | nil _ => exact Nat.zero_le _
  | cons _ hitem _ ih =>
    have hpos := List.length_pos_iff.2 hitem.nonempty
    simp only [List.length_cons, List.length_append]
    omega

/-- All items stand behind `before`. -/
theorem start_le (h : Tiles before rest items) {item : Except LexError Token}
    (hmem : item ∈ items) :
    (String.ofList before).utf8ByteSize ≤ (Place.ofItem item).span.start.toNat := by
  induction h with
  | nil _ => cases hmem
  | cons _ hitem _ ih =>
    rcases List.mem_cons.1 hmem with rfl | hmem
    · rw [hitem.place.start, String.ofList_append, String.utf8ByteSize_append]
      omega
    · have hle := ih hmem
      simp only [String.ofList_append, String.utf8ByteSize_append] at hle
      omega

/-- Each item ends before the next one starts. -/
theorem pairwise (h : Tiles before rest items) :
    items.Pairwise fun x y => (Place.ofItem x).stop ≤ (Place.ofItem y).span.start.toNat := by
  induction h with
  | nil _ => exact .nil
  | cons _ hitem more ih =>
    refine .cons (fun y hy => ?_) ih
    rw [hitem.place.stop]
    exact more.start_le hy

/-- No item is empty. -/
theorem length_pos (h : Tiles before rest items) {item : Except LexError Token}
    (hmem : item ∈ items) : 0 < (Place.ofItem item).span.length.toNat := by
  induction h with
  | nil _ => cases hmem
  | @cons _ _ text _ _ _ _ hitem _ ih =>
    rcases List.mem_cons.1 hmem with rfl | hmem
    · rw [hitem.place.length]
      obtain ⟨c, cs, rfl⟩ := List.exists_cons_of_ne_nil hitem.nonempty
      rw [Nat.pos_iff_ne_zero, ne_eq, String.utf8ByteSize_eq_zero_iff]
      simp
    · exact ih hmem

end Tiles

/-! ## One call after the other -/

namespace Lexer

variable {lx lx' : Lexer}

/-- What the lexer gives when it is asked for the `n`-th time, counted from 0, whatever it gave
before. -/
def call (lx : Lexer) : Nat → Except LexError Token
  | 0 => lx.next.1
  | n + 1 => lx.next.2.call n

/-- All tokens and faults from the place of the lexer on. -/
def items (lx : Lexer) : List (Except LexError Token) :=
  match _h : lx.step with
  | none => []
  | some (some item, lx') => item :: items lx'
  | some (none, lx') => items lx'
termination_by lx.rest.length
decreasing_by all_goals exact step_length_lt (by assumption)

theorem items_none (h : lx.step = none) : lx.items = [] := by
  rw [items]
  split <;> simp_all

theorem items_item {item : Except LexError Token} (h : lx.step = some (some item, lx')) :
    lx.items = item :: lx'.items := by
  rw [items]
  split <;> simp_all

theorem items_skip (h : lx.step = some (none, lx')) : lx.items = lx'.items := by
  rw [items]
  split <;> simp_all

theorem items_step {item : Option (Except LexError Token)} (h : lx.step = some (item, lx')) :
    lx.items = item.toList ++ lx'.items := by
  obtain _ | item := item
  · exact items_skip h
  · exact items_item h

theorem call_congr (h : lx.next = lx'.next) (n : Nat) : lx.call n = lx'.call n := by
  cases n with
  | zero => rw [call, call, h]
  | succ n => rw [call, call, h]

/-- At the end of the text the lexer gives the end of the source, and stays there. -/
theorem call_none (h : lx.step = none) (n : Nat) : lx.call n = .ok lx.endToken := by
  induction n with
  | zero => rw [call, next_none h]
  | succ n ih =>
    rw [call, next_none h]
    exact ih

/-- The end of the source behind the text of the lexer. -/
def finalToken (lx : Lexer) : Token :=
  ({ lx with rest := [], pos := lx.pos.advance lx.rest } : Lexer).endToken

theorem finalToken_step {item : Option (Except LexError Token)} (h : lx.step = some (item, lx')) :
    lx'.finalToken = lx.finalToken := by
  simp only [finalToken, endToken, step_advance h]

/-- The lexer gives its items in order, and then the end of the source. -/
theorem call_eq (lx : Lexer) (n : Nat) : lx.call n = lx.items.getD n (.ok lx.finalToken) := by
  induction lx using Lexer.items.induct generalizing n with
  | case1 lx h =>
    rw [call_none h, items_none h, finalToken, rest_of_step_none h]
    rfl
  | case2 lx item lx' h ih =>
    rw [items_item h, ← finalToken_step h]
    cases n with
    | zero => rw [call, next_item h, List.getD_cons_zero]
    | succ n => rw [call, next_item h, List.getD_cons_succ, ih]
  | case3 lx lx' h ih => rw [call_congr (next_skip h), items_skip h, ← finalToken_step h, ih]

/-- The lexer gives nothing but its items and the end of the source. -/
theorem call_mem_or_eq (lx : Lexer) (n : Nat) :
    lx.call n ∈ lx.items ∨ lx.call n = .ok lx.finalToken := by
  rw [call_eq, List.getD_eq_getElem?_getD]
  cases hn : lx.items[n]? with
  | none => exact .inr rfl
  | some item => exact .inl (List.mem_of_getElem? hn)

theorem mem_items_of_call {n : Nat} {t : Token} (h : lx.call n = .ok t) (hk : t.kind ≠ .endOfFile) :
    .ok t ∈ lx.items := by
  obtain hmem | hend := lx.call_mem_or_eq n
  · rwa [h] at hmem
  · cases h.symm.trans hend
    exact absurd rfl hk

theorem exists_call_of_mem {item : Except LexError Token} (h : item ∈ lx.items) :
    ∃ n, lx.call n = item := by
  obtain ⟨n, hn⟩ := List.mem_iff_getElem?.1 h
  refine ⟨n, ?_⟩
  rw [call_eq, List.getD_eq_getElem?_getD, hn]
  rfl

/-! ## The items of a text -/

/-- A step that gives nothing takes off a filler. -/
theorem step_filler (h : lx.step = some (none, lx')) :
    ∃ text, lx.rest = text ++ lx'.rest ∧ lx'.pos = lx.pos.advance text ∧
      Filler lx'.rest text := by
  obtain ⟨c, cs, kind, count, hr, hp, hitem, rfl⟩ := step_cases h
  refine ⟨c :: cs.take (count - 1), ?_, rfl, Piece.filler_piece hp ?_⟩
  · rw [hr, List.cons_append, List.take_append_drop]
  · cases kind with
    | newline | semicolon | skipped => trivial
    | token k | word | fault f => cases hitem

/-- A word starts with a letter or an underscore, and nothing else does. -/
theorem lexeme_emit {c : Char} {cs : List Char} {kind : Piece} {count : Nat} {t : Token}
    (pos : Position) (last : Boundary) (h : piece c cs = (kind, count))
    (ht : (emit pos last (c :: cs.take (count - 1)) kind).1 = some (.ok t)) :
    t.lexeme = lexemeOf (c :: cs.take (count - 1)) := by
  have hstart : Piece.isWordStart c = true ↔ kind = .word := by
    have hfits := Piece.piece_fits c cs
    rw [h] at hfits
    constructor
    · intro hc
      obtain ⟨hpart, hdigit⟩ := Piece.isWordStart_part hc
      rw [Piece.piece_plain hpart, hdigit, hc] at h
      exact (Prod.mk.inj h).1.symm
    · rintro rfl
      exact hfits.1
  rw [lexemeOf, List.head?_cons, Option.any_some]
  cases kind with
  | skipped | semicolon | fault f => cases ht
  | newline =>
    dsimp only [emit] at ht
    split at ht <;> cases ht
    rw [if_neg (by simp [hstart])]
    rfl
  | token k =>
    cases ht
    rw [if_neg (by simp [hstart])]
    rfl
  | word =>
    cases ht
    rw [if_pos (hstart.2 rfl)]
    rfl

/-- A step that gives a token or a fault takes off its text. -/
theorem step_stands {item : Except LexError Token} {before : List Char}
    (h : lx.step = some (some item, lx')) (hpos : lx.pos = Position.start.advance before)
    (hsize : (String.ofList (before ++ lx.rest)).utf8ByteSize < 2 ^ 32) :
    ∃ text, lx.rest = text ++ lx'.rest ∧ lx'.pos = lx.pos.advance text ∧
      Stands before text item := by
  obtain ⟨c, cs, kind, count, hr, hp, hitem, rfl⟩ := step_cases h
  have hrest : lx.rest = (c :: cs.take (count - 1)) ++ cs.drop (count - 1) := by
    rw [hr, List.cons_append, List.take_append_drop]
  have hne : c :: cs.take (count - 1) ≠ [] := List.cons_ne_nil _ _
  rw [hrest, ← List.append_assoc, String.ofList_append, String.utf8ByteSize_append] at hsize
  have hbound := Nat.lt_of_le_of_lt (Nat.le_add_right _ _) hsize
  have hplace : (Place.ofItem item).Covers before (c :: cs.take (count - 1)) := by
    have hcovers := Position.covers hbound
    rw [← hpos] at hcovers
    cases kind with
    | skipped | semicolon => cases hitem
    | newline =>
      dsimp only [emit] at hitem
      split at hitem <;> cases hitem
      exact hcovers
    | token k | word | fault f =>
      cases hitem
      exact hcovers
  refine ⟨c :: cs.take (count - 1), hrest, rfl, hne, hplace,
    hplace.counts (Counts.size_of_ne_nil hne hbound), ?_⟩
  rintro t rfl
  exact ⟨(step_lexical h).2, lexeme_emit lx.pos lx.last hp hitem.symm⟩

/-- The items of a lexer tile the text in front of it. -/
theorem items_tile (lx : Lexer) (before : List Char) (hpos : lx.pos = Position.start.advance before)
    (hsize : (String.ofList (before ++ lx.rest)).utf8ByteSize < 2 ^ 32) :
    Tiles before lx.rest lx.items := by
  induction lx using Lexer.items.induct generalizing before with
  | case1 lx h =>
    rw [items_none h, rest_of_step_none h]
    exact .nil .nil
  | case2 lx item lx' h ih =>
    obtain ⟨text, hrest, hpos', hstands⟩ := step_stands h hpos hsize
    rw [items_item h]
    rw [hrest, ← List.append_assoc] at hsize
    have hmore := ih (before ++ text) (by rw [hpos', hpos, Position.advance_append]) hsize
    have htiles : Tiles before ([] ++ (text ++ lx'.rest)) (item :: lx'.items) :=
      .cons .nil (by simpa using hstands) (by simpa using hmore)
    rwa [hrest]
  | case3 lx lx' h ih =>
    obtain ⟨text, hrest, hpos', hfiller⟩ := step_filler h
    rw [items_skip h]
    rw [hrest, ← List.append_assoc] at hsize
    rw [hrest]
    exact .filler hfiller (ih _ (by rw [hpos', hpos, Position.advance_append]) hsize)

theorem ofText_items_tile {text : String} (h : text.utf8ByteSize < 2 ^ 32) :
    Tiles [] text.toList (ofText text).items := by
  refine (ofText text).items_tile [] rfl ?_
  rwa [List.nil_append, ofText, String.ofList_toList]

end Lexer

end Xbase
