import Xbase.Proofs.Token.Tiling

/-!
# Spans without overflow

Spans are pairs of 32-bit words, and sums and differences of such words may wrap around.
`Span.bound` is the end of a span as a number, and `Span.merge?` joins two spans only if nothing
wraps around.

`Laid limit tokens` says that the tokens follow each other within the first `limit` bytes, a number
that fits into a word. It holds of the tokens of every text that is short enough (`ofText_laid`),
and then spans that go from one of the tokens to another (`Joins`) are joined without overflow
(`Joins.merge`).
-/

namespace Xbase

/-! ## Spans as stretches of numbers -/

namespace Span

/-- The number of the first byte behind the span. -/
def bound (s : Span) : Nat := s.start.toNat + s.length.toNat

/-- The first byte behind the span, if its number fits into a word. -/
def stop? (s : Span) : Option UInt32 :=
  if s.bound < 2 ^ 32 then some s.stop else none

/-- The least span that holds both, if no sum and no difference wraps around. -/
def merge? (a b : Span) : Option Span := do
  let start := min a.start b.start
  let stop := max (← a.stop?) (← b.stop?)
  if start ≤ stop then some ⟨start, stop - start⟩ else none

/-- All bytes of `s` are among those of `t`. -/
def Within (s t : Span) : Prop :=
  t.start.toNat ≤ s.start.toNat ∧ s.bound ≤ t.bound

/-- All bytes of `s` stand in front of those of `t`. -/
def Before (s t : Span) : Prop :=
  s.bound ≤ t.start.toNat

instance (s t : Span) : Decidable (s.Within t) := inferInstanceAs (Decidable (_ ∧ _))

variable {a b : Span}

theorem start_le_bound (s : Span) : s.start.toNat ≤ s.bound := Nat.le_add_right ..

/-- Below 2³² bytes, the end of a span does not wrap around. -/
theorem stop_toNat (h : a.bound < 2 ^ 32) : a.stop.toNat = a.bound := by
  rw [stop, UInt32.toNat_add]
  exact Nat.mod_eq_of_lt h

/-- What stands between two spans is within every span that holds them both. -/
theorem Within.between {x y c : Span} (hx : x.Within a) (hy : y.Within a) (hxc : x.Before c)
    (hcy : c.Before y) : c.Within a :=
  ⟨hx.1.trans (x.start_le_bound.trans hxc), Nat.le_trans hcy (y.start_le_bound.trans hy.2)⟩

theorem ext_bound (hstart : a.start = b.start) (hbound : a.bound = b.bound) : a = b := by
  obtain ⟨start, length⟩ := a
  obtain ⟨start', length'⟩ := b
  obtain rfl : start = start' := hstart
  have hlength : length.toNat = length'.toNat := Nat.add_left_cancel hbound
  rw [UInt32.toNat_inj.1 hlength]

/-- A span that neither starts nor ends behind another is joined with it without overflow. -/
theorem merge_of_le (hstart : a.start.toNat ≤ b.start.toNat) (hbound : a.bound ≤ b.bound)
    (hb : b.bound < 2 ^ 32) :
    a.merge? b = some (a.merge b) ∧ (a.merge b).start = a.start ∧ (a.merge b).bound = b.bound := by
  have ha : a.bound < 2 ^ 32 := Nat.lt_of_le_of_lt hbound hb
  have hend := a.start_le_bound
  have hmin : min a.start b.start = a.start := if_pos (UInt32.le_iff_toNat_le.2 hstart)
  have hmax : max a.stop b.stop = b.stop := by
    refine if_pos (UInt32.le_iff_toNat_le.2 ?_)
    rwa [stop_toNat ha, stop_toNat hb]
  have hle : a.start ≤ b.stop := by
    rw [UInt32.le_iff_toNat_le, stop_toNat hb]
    omega
  have hmerge : a.merge b = ⟨a.start, b.stop - a.start⟩ := by rw [merge, hmin, hmax]
  refine ⟨?_, by rw [hmerge], ?_⟩
  · simp only [merge?, stop?, if_pos ha, if_pos hb, Option.bind_eq_bind, Option.bind_some, hmin,
      hmax, if_pos hle, hmerge]
  · have hlength := UInt32.toNat_sub_of_le _ _ hle
    rw [stop_toNat hb] at hlength
    rw [hmerge]
    change a.start.toNat + (b.stop - a.start).toNat = b.bound
    omega

end Span

/-! ## Tokens in order -/

/-- The tokens stand within the first `limit` bytes, one behind the other, and none is empty. -/
structure Laid (limit : Nat) (tokens : List Token) : Prop where
  fits : limit < 2 ^ 32
  ordered : tokens.Pairwise fun t u => t.span.Before u.span
  nonempty : ∀ t ∈ tokens, 0 < t.span.length.toNat
  bound_le : ∀ t ∈ tokens, t.span.bound ≤ limit

/-- The span goes from the start of one of the tokens to the end of one of them. -/
structure Joins (tokens : List Token) (s : Span) : Prop where
  nonempty : s.start.toNat < s.bound
  ends : ∃ t ∈ tokens, ∃ u ∈ tokens, s.start = t.span.start ∧ s.bound = u.span.bound

section

variable {limit : Nat} {ts us : List Token} {x y : Span}

theorem Laid.sublist (h : Laid limit us) (hs : ts.Sublist us) : Laid limit ts :=
  ⟨h.fits, h.ordered.sublist hs, fun t ht => h.nonempty t (hs.subset ht),
    fun t ht => h.bound_le t (hs.subset ht)⟩

theorem Laid.left (h : Laid limit (ts ++ us)) : Laid limit ts :=
  h.sublist (List.sublist_append_left ..)

theorem Laid.right (h : Laid limit (ts ++ us)) : Laid limit us :=
  h.sublist (List.sublist_append_right ..)

theorem Laid.tail {t : Token} (h : Laid limit (t :: ts)) : Laid limit ts :=
  h.sublist (List.sublist_cons_self ..)

/-- A token that starts before the end of another neither starts nor ends behind it. -/
theorem Laid.le_of_lt (h : Laid limit ts) {t u : Token} (ht : t ∈ ts) (hu : u ∈ ts)
    (hlt : t.span.start.toNat < u.span.bound) :
    t.span.start.toNat ≤ u.span.start.toNat ∧ t.span.bound ≤ u.span.bound := by
  obtain ⟨i, hi, rfl⟩ := List.getElem_of_mem ht
  obtain ⟨j, hj, rfl⟩ := List.getElem_of_mem hu
  rcases Nat.lt_trichotomy i j with hij | rfl | hij
  · have hbefore : ts[i].span.bound ≤ ts[j].span.start.toNat :=
      List.pairwise_iff_getElem.1 h.ordered i j hi hj hij
    have := ts[i].span.start_le_bound
    have := ts[j].span.start_le_bound
    omega
  · exact ⟨Nat.le_refl _, Nat.le_refl _⟩
  · have hbefore : ts[j].span.bound ≤ ts[i].span.start.toNat :=
      List.pairwise_iff_getElem.1 h.ordered j i hj hi hij
    omega

theorem Joins.mono (h : Joins ts x) (hs : ts ⊆ us) : Joins us x := by
  obtain ⟨hne, t, ht, u, hu, hends⟩ := h
  exact ⟨hne, t, hs ht, u, hs hu, hends⟩

/-- The span of a token goes from that token to itself. -/
theorem Laid.joins (h : Laid limit ts) {t : Token} (ht : t ∈ ts) : Joins ts t.span :=
  ⟨Nat.lt_add_of_pos_right (h.nonempty t ht), t, ht, t, ht, rfl, rfl⟩

/-- A span that joins tokens ends within their limit. -/
theorem Joins.bound_le (h : Joins ts x) (hl : Laid limit ts) : x.bound ≤ limit := by
  obtain ⟨-, -, -, u, hu, -, hbound⟩ := h
  rw [hbound]
  exact hl.bound_le u hu

/-- Spans that join earlier and later tokens follow each other. -/
theorem Joins.before (hx : Joins ts x) (hy : Joins us y) (hl : Laid limit (ts ++ us)) :
    x.Before y := by
  obtain ⟨-, -, -, t, ht, -, hbound⟩ := hx
  obtain ⟨-, u, hu, -, -, hstart, -⟩ := hy
  rw [Span.Before, hbound, hstart]
  exact (List.pairwise_append.1 hl.ordered).2.2 t ht u hu

/-- Spans over tokens that follow each other are joined to one over all of these tokens. -/
theorem Joins.merge (hx : Joins ts x) (hy : Joins us y) (hl : Laid limit (ts ++ us)) :
    x.merge? y = some (x.merge y) ∧ Joins (ts ++ us) (x.merge y) ∧ x.Within (x.merge y) ∧
      y.Within (x.merge y) := by
  have hbefore : x.bound ≤ y.start.toNat := hx.before hy hl
  have hfits := Nat.lt_of_le_of_lt (hy.bound_le hl.right) hl.fits
  have hxne := hx.nonempty
  have hyne := hy.nonempty
  obtain ⟨hmerge, hstart, hbound⟩ := Span.merge_of_le (a := x) (b := y) (by omega) (by omega) hfits
  obtain ⟨-, t, ht, -, -, hst, -⟩ := hx
  obtain ⟨-, -, -, u, hu, -, hsu⟩ := hy
  refine ⟨hmerge, ⟨?_, t, List.mem_append_left _ ht, u, List.mem_append_right _ hu, ?_, ?_⟩, ?_, ?_⟩
  · rw [hstart, hbound]
    omega
  · rw [hstart, hst]
  · rw [hbound, hsu]
  · exact ⟨by rw [hstart], by rw [hbound]; omega⟩
  · exact ⟨by rw [hstart]; omega, by rw [hbound]⟩

/-- The span over tokens is the join of the first and the last of them. -/
theorem Joins.merge_ends (h : Joins ts x) (hl : Laid limit ts) :
    ∃ t ∈ ts, ∃ u ∈ ts, x.start = t.span.start ∧ x.bound = u.span.bound ∧
      t.span.merge? u.span = some x := by
  obtain ⟨hne, t, ht, u, hu, hstart, hbound⟩ := h
  refine ⟨t, ht, u, hu, hstart, hbound, ?_⟩
  have horder := hl.le_of_lt ht hu (by rwa [hstart, hbound] at hne)
  obtain ⟨hmerge, hstart', hbound'⟩ := Span.merge_of_le horder.1 horder.2
    (Nat.lt_of_le_of_lt (hl.bound_le u hu) hl.fits)
  rw [hmerge, Span.ext_bound (hstart.trans hstart'.symm) (hbound.trans hbound'.symm)]

end

/-! ## The tokens of a text -/

/-- No item ends behind the text. -/
theorem Tiles.stop_le {before rest : List Char} {items : List (Except LexError Token)}
    (h : Tiles before rest items) {item : Except LexError Token} (hmem : item ∈ items) :
    (Place.ofItem item).stop ≤ (String.ofList (before ++ rest)).utf8ByteSize := by
  induction h with
  | nil _ => cases hmem
  | cons _ hitem _ ih =>
    rcases List.mem_cons.1 hmem with rfl | hmem
    · rw [hitem.place.stop]
      simp only [String.ofList_append, String.utf8ByteSize_append]
      omega
    · have hle := ih hmem
      simpa only [List.append_assoc] using hle

/-- The tokens of a text are its items up to the first fault. -/
theorem Lexer.stream_items (lx : Lexer) : lx.stream.tokens.map .ok <+: lx.items := by
  induction lx using Lexer.stream.induct with
  | case1 lx h => simp [stream_none h]
  | case2 lx e lx' h => simp [stream_error h]
  | case3 lx t lx' h ih =>
    rw [stream_ok h, items_item h]
    exact (List.prefix_cons_inj _).2 ih
  | case4 lx lx' h ih =>
    rw [stream_skip h, items_skip h]
    exact ih

/-- The tokens of a text of fewer than 2³² bytes stand in order within it. -/
theorem ofText_laid {text : String} (h : text.utf8ByteSize < 2 ^ 32) :
    Laid text.utf8ByteSize (TokenStream.ofText text).tokens := by
  have htiles := Lexer.ofText_items_tile h
  have hprefix := (Lexer.ofText text).stream_items
  have hitem (t : Token) (ht : t ∈ (TokenStream.ofText text).tokens) :
      Except.ok t ∈ (Lexer.ofText text).items :=
    hprefix.subset (List.mem_map_of_mem ht)
  refine ⟨h, ?_, fun t ht => htiles.length_pos (hitem t ht), fun t ht => ?_⟩
  · have hpairwise := htiles.pairwise.sublist hprefix.sublist
    rwa [List.pairwise_map] at hpairwise
  · have hle := htiles.stop_le (hitem t ht)
    rwa [List.nil_append, String.ofList_toList] at hle

end Xbase
