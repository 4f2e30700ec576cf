import Xbase.Proofs.Expr.Nodes
import Xbase.Proofs.Parser.Origins
import Xbase.Proofs.Token.Spans

/-!
# The bytes of the nodes of an expression

The bytes of an operator are not stored with it. They are found by joining those of its parts, and
the bytes of a call by joining those of what is called with the closing parenthesis. `spans_nest`
says that this never overflows in a text that is short enough, and that the bytes of every node go
from the start of a token to the end of one, hold those of the parts of the node, and that the parts
follow each other.

The proof goes along the grammar (`Grammar.Phrase.nests`): the bytes of a phrase lie between its
first and its last token, and the tokens of one part stand in front of those of the next.
-/

namespace Xbase

namespace Expr

/-- The bytes of the expression, if no sum and no difference wraps around. -/
def checkedSpan? : Expr → Option Span
  | atom _ s => some s
  | unary _ operand s => do s.merge? (← operand.checkedSpan?)
  | binary _ left right | assign _ left right | logic _ left right => do
    (← left.checkedSpan?).merge? (← right.checkedSpan?)
  | call callee _ s => do (← callee.checkedSpan?).merge? s
  | iif _ _ _ s => some s

/-- The bytes of the expression go from one of the tokens to another and are found without overflow.
They hold those of its parts, which follow each other. -/
structure Orderly (tokens : List Token) (n : Expr) : Prop where
  joins : Joins tokens n.span
  checked : n.checkedSpan? = some n.span
  within : ∀ c ∈ n.parts, c.span.Within n.span
  ordered : n.parts.Pairwise fun c d => c.span.Before d.span

/-- The expression and all that stands in it are orderly. -/
def Nests (tokens : List Token) (e : Expr) : Prop :=
  ∀ n : Expr, n.Inside e → n.Orderly tokens

variable {ts us : List Token} {e : Expr}

theorem Nests.self (h : e.Nests ts) : e.Orderly ts := h e .self

theorem Nests.part (h : e.Nests ts) {c : Expr} (hc : c ∈ e.parts) : c.Nests ts :=
  fun n hn => h n (.part hc hn)

theorem Nests.mono (h : e.Nests ts) (hs : ts ⊆ us) : e.Nests us := by
  intro n hn
  obtain ⟨joins, checked, within, ordered⟩ := h n hn
  exact ⟨joins.mono hs, checked, within, ordered⟩

/-- What nests among some tokens nests also with others around them. -/
theorem Nests.between {ws : List Token} (h : e.Nests us) : e.Nests (ts ++ (us ++ ws)) :=
  h.mono fun _ hx => List.mem_append_right _ (List.mem_append_left _ hx)

/-- An orderly expression nests if its parts do. -/
theorem Orderly.nests (h : e.Orderly ts) (hparts : ∀ c ∈ e.parts, c.Nests ts) : e.Nests ts := by
  intro n hn
  cases hn with
  | self => exact h
  | part hc hn => exact hparts _ hc n hn

end Expr

/-! ## Phrases -/

section

variable {limit : Nat} {ts us : List Token} {e l r f : Expr} {args : List Expr} {t : Token}

/-- An operator between two operands. -/
theorem Expr.Nests.pair (hl : l.Nests ts) (hr : r.Nests us) (h : Laid limit (ts ++ us))
    (hparts : e.parts = [l, r]) (hspan : e.span = l.span.merge r.span)
    (hchecked : e.checkedSpan? = do (← l.checkedSpan?).merge? (← r.checkedSpan?)) :
    e.Nests (ts ++ us) := by
  obtain ⟨hmerge, hjoins, hleft, hright⟩ := hl.self.joins.merge hr.self.joins h
  refine Orderly.nests ⟨?_, ?_, ?_, ?_⟩ ?_
  · rwa [hspan]
  · rw [hchecked, hl.self.checked, hr.self.checked, hspan]
    exact hmerge
  · simp [hparts, hspan, hleft, hright]
  · simpa [hparts] using hl.self.joins.before hr.self.joins h
  · have hls := hl.mono (List.subset_append_left ts us)
    have hrs := hr.mono (List.subset_append_right ts us)
    simp [hparts, hls, hrs]

/-- Several expressions that follow each other. -/
structure NestAll (tokens : List Token) (es : List Expr) : Prop where
  nests : ∀ e ∈ es, e.Nests tokens
  ordered : es.Pairwise fun c d => c.span.Before d.span

theorem NestAll.one (h : e.Nests ts) : NestAll ts [e] :=
  ⟨List.forall_mem_singleton.2 h, List.pairwise_singleton ..⟩

/-- An expression in front of others lies before them. -/
theorem NestAll.cons (he : e.Nests ts) (hes : NestAll us args) (h : Laid limit (ts ++ us)) :
    NestAll (ts ++ us) (e :: args) := by
  refine ⟨List.forall_mem_cons.2 ⟨he.mono (List.subset_append_left ..), fun c hc => ?_⟩,
    .cons (fun c hc => ?_) hes.ordered⟩
  · exact (hes.nests c hc).mono (List.subset_append_right ..)
  · exact he.self.joins.before (hes.nests c hc).self.joins h

theorem NestAll.mono (h : NestAll ts args) (hs : ts ⊆ us) : NestAll us args :=
  ⟨fun c hc => (h.nests c hc).mono hs, h.ordered⟩

/-- What is called, or the first word of a conditional, and the closing parenthesis are joined
around the expressions between them. -/
theorem NestAll.enclosed {x : Span} (hx : Joins ts x) (hargs : NestAll us args)
    (h : Laid limit (ts ++ (us ++ [t]))) :
    x.merge? t.span = some (x.merge t.span) ∧ Joins (ts ++ (us ++ [t])) (x.merge t.span) ∧
      x.Within (x.merge t.span) ∧
      ∀ c ∈ args, x.Before c.span ∧ c.span.Within (x.merge t.span) := by
  have hclose : Joins [t] t.span := h.right.right.joins (List.mem_singleton_self t)
  obtain ⟨hmerge, hjoins, hfirst, hlast⟩ := hx.merge (hclose.mono (List.subset_append_right us _)) h
  refine ⟨hmerge, hjoins, hfirst, fun c hc => ?_⟩
  have hc := (hargs.nests c hc).self.joins
  have hbefore : x.Before c.span := hx.before (hc.mono (List.subset_append_left us _)) h
  exact ⟨hbefore, hfirst.between hlast hbefore (hc.before hclose h.right)⟩

/-- A call goes from the function called to the closing parenthesis. -/
theorem Expr.Nests.call (hf : f.Nests ts) (hargs : NestAll us args)
    (h : Laid limit (ts ++ (us ++ [t]))) :
    (Expr.call f args t.span).Nests (ts ++ (us ++ [t])) := by
  obtain ⟨hmerge, hjoins, hcallee, henclosed⟩ := hargs.enclosed hf.self.joins h
  refine Orderly.nests ⟨hjoins, ?_, ?_, ?_⟩ ?_
  · rw [checkedSpan?, hf.self.checked]
    exact hmerge
  · exact List.forall_mem_cons.2 ⟨hcallee, fun c hc => (henclosed c hc).2⟩
  · exact .cons (fun c hc => (henclosed c hc).1) hargs.ordered
  · refine List.forall_mem_cons.2 ⟨hf.mono (List.subset_append_left ..), fun c hc => ?_⟩
    exact (hargs.nests c hc).between

/-- `IIF` goes from its keyword to the closing parenthesis. -/
theorem Expr.Nests.iif {cond yes no : Expr} {t' : Token} (hparts : NestAll us [cond, yes, no])
    (h : Laid limit ([t'] ++ (us ++ [t]))) :
    (Expr.iif cond yes no (t'.span.merge t.span)).Nests ([t'] ++ (us ++ [t])) := by
  have hword : Joins [t'] t'.span := h.left.joins (List.mem_singleton_self t')
  obtain ⟨-, hjoins, -, henclosed⟩ := hparts.enclosed hword h
  refine Orderly.nests ⟨hjoins, rfl, fun c hc => (henclosed c hc).2, hparts.ordered⟩ fun c hc => ?_
  exact (hparts.nests c hc).between

theorem Expr.Nests.unary {op : UnaryOp} (he : e.Nests ts) (h : Laid limit ([t] ++ ts)) :
    (Expr.unary op e t.span).Nests ([t] ++ ts) := by
  have hsign : Joins [t] t.span := h.left.joins (List.mem_singleton_self t)
  obtain ⟨hmerge, hjoins, -, hoperand⟩ := hsign.merge he.self.joins h
  refine Orderly.nests ⟨hjoins, ?_, ?_, List.pairwise_singleton ..⟩ ?_
  · rw [checkedSpan?, he.self.checked]
    exact hmerge
  · exact List.forall_mem_singleton.2 hoperand
  · exact List.forall_mem_singleton.2 (he.mono (List.subset_append_right ..))

theorem Expr.Nests.atom (a : Atom) (h : Laid limit [t]) : (Expr.atom a t.span).Nests [t] :=
  Orderly.nests ⟨h.joins (List.mem_singleton_self t), rfl, List.forall_mem_nil _, .nil⟩
    (List.forall_mem_nil _)

end

namespace Grammar

mutual

/-- The bytes of a phrase and of all that stands in it are found from its tokens. -/
theorem Phrase.nests {level : Nat} {before after : List Token} {e : Expr} (limit : Nat) :
    Phrase level before e after → ∃ w, before = w ++ after ∧ (Laid limit w → e.Nests w)
  | @Phrase.leaf _ t a _ _ => ⟨[t], rfl, Expr.Nests.atom a⟩
  | @Phrase.group _ t t' _ _ _ _ h _ => by
    obtain ⟨w, rfl, hw⟩ := h.nests limit
    exact ⟨[t] ++ (w ++ [t']), by simp, fun hl => (hw hl.right.left).between⟩
  | @Phrase.iif _ t t₀ t₁ t₂ t₃ _ _ _ _ _ _ _ _ _ hc _ hy _ hn _ => by
    obtain ⟨w₁, rfl, hw₁⟩ := hc.nests limit
    obtain ⟨w₂, rfl, hw₂⟩ := hy.nests limit
    obtain ⟨w₃, rfl, hw₃⟩ := hn.nests limit
    refine ⟨[t] ++ (((t₀ :: w₁) ++ ((t₁ :: w₂) ++ (t₂ :: w₃))) ++ [t₃]), by simp, fun hl => ?_⟩
    have hparts := hl.right.left
    have hcond := (hw₁ hparts.left.tail).mono (List.subset_cons_self t₀ w₁)
    have hyes := (hw₂ hparts.right.left.tail).mono (List.subset_cons_self t₁ w₂)
    have hno := (hw₃ hparts.right.right.tail).mono (List.subset_cons_self t₂ w₃)
    exact .iif (.cons hcond (.cons hyes (.one hno) hparts.right) hparts) hl
  | @Phrase.callNone _ t t' _ _ _ _ hf _ _ => by
    obtain ⟨w, rfl, hw⟩ := hf.nests limit
    exact ⟨w ++ ([t] ++ [t']), by simp, fun hl =>
      (hw hl.left).call ⟨List.forall_mem_nil _, .nil⟩ hl⟩
  | @Phrase.call _ t t' _ _ _ _ _ _ hf _ ha _ => by
    obtain ⟨w, rfl, hw⟩ := hf.nests limit
    obtain ⟨w', rfl, hw'⟩ := ha.nests limit
    exact ⟨w ++ ((t :: w') ++ [t']), by simp, fun hl =>
      (hw hl.left).call ((hw' hl.right.left.tail).mono (List.subset_cons_self ..)) hl⟩
  | @Phrase.unary _ t _ _ _ _ _ _ h => by
    obtain ⟨w, rfl, hw⟩ := h.nests limit
    exact ⟨[t] ++ w, rfl, fun hl => (hw hl.right).unary hl⟩
  | @Phrase.binary _ t _ _ _ _ _ _ _ left _ right
  | @Phrase.logic _ t _ _ _ _ _ _ _ left _ right
  | @Phrase.assign _ t _ _ _ _ _ _ _ left _ right => by
    obtain ⟨w, rfl, hw⟩ := left.nests limit
    obtain ⟨w', rfl, hw'⟩ := right.nests limit
    exact ⟨w ++ (t :: w'), by simp, fun hl =>
      (hw hl.left).pair ((hw' hl.right.tail).mono (List.subset_cons_self ..)) hl rfl rfl rfl⟩

/-- Arguments nest in the tokens that they are read from. -/
theorem Phrases.nests {before after : List Token} {es : List Expr} (limit : Nat) :
    Phrases before es after → ∃ w, before = w ++ after ∧ (Laid limit w → NestAll w es)
  | .one h => by
    obtain ⟨w, rfl, hw⟩ := h.nests limit
    exact ⟨w, rfl, fun hl => .one (hw hl)⟩
  | @Phrases.more t _ _ _ _ _ h _ hs => by
    obtain ⟨w, rfl, hw⟩ := h.nests limit
    obtain ⟨w', rfl, hw'⟩ := hs.nests limit
    exact ⟨w ++ (t :: w'), by simp, fun hl =>
      .cons (hw hl.left) ((hw' hl.right.tail).mono (List.subset_cons_self ..)) hl⟩

end

end Grammar

/-- In a text of fewer than `2 ^ 32` bytes, the bytes of every expression are found from the
tokens. -/
theorem Expr.OfText.nests {text : String} {e : Expr} (h : e.OfText text)
    (hsize : text.utf8ByteSize < 2 ^ 32) : e.Nests (TokenStream.ofText text).tokens := by
  obtain ⟨before, after, hphrase, hbefore⟩ := h.phrase
  obtain ⟨w, rfl, hnests⟩ := hphrase.nests text.utf8ByteSize
  have hsub := (List.sublist_append_left w after).trans hbefore.sublist
  exact (hnests ((ofText_laid hsize).sublist hsub)).mono hsub.subset

/-! ## Nodes -/

namespace Arena

/-- The bytes of the node `i`, by a search of depth `depth` in which no sum and no difference wraps
around. -/
def checkedSpanWithin (nodes : Array Node) : (depth : Nat) → (i : Nat) → Option Span
  | 0, _ => none
  | depth + 1, i => do
    let spanOf := checkedSpanWithin nodes depth
    match ← nodes[i]? with
    | .atom _ s => some s
    | .unary _ operand s => s.merge? (← spanOf operand)
    | .binary _ left right => (← spanOf left).merge? (← spanOf right)
    | .assign _ target value => (← spanOf target).merge? (← spanOf value)
    | .logic _ left right => (← spanOf left).merge? (← spanOf right)
    | .call callee _ s => (← spanOf callee).merge? s
    | .iif _ _ _ s => some s

/-- The checked span of a node is that of its expression. -/
theorem Lays.checkedSpan {nodes : Array Node} {first i : Nat} {e : Expr}
    (h : Lays nodes first i e) (depth : Nat) (hd : i < depth) :
    checkedSpanWithin nodes depth i = e.checkedSpan? := by
  refine h.reads (P := fun depth i e => checkedSpanWithin nodes depth i = e.checkedSpan?) ?_
    depth hd
  intro d i node e get heads parts
  rw [checkedSpanWithin, get]
  cases heads with
  | atom | iif => rfl
  | unary | binary | assign | logic | call => simp_all [Node.parts, Expr.parts, Expr.checkedSpan?]

/-- The node `i` comes from the bytes `s`, which are found without overflow, and its parts from the
bytes `inner`. The text has `limit` bytes and the given tokens. -/
structure Spans (tokens : List Token) (limit : Nat) (a : Arena) (i : Nat) (s : Span)
    (inner : List Span) : Prop where
  span : a.span? i = some s
  checked : checkedSpanWithin a.nodes a.nodes.size i = some s
  parts : (partsAt a.nodes i).map a.span? = inner.map some
  nonempty : 0 < s.length.toNat
  bound_le : s.bound ≤ limit
  /-- The bytes go from the start of a token to the end of one. -/
  ends : ∃ t ∈ tokens, ∃ u ∈ tokens, s.start = t.span.start ∧ s.bound = u.span.bound ∧
    t.span.merge? u.span = some s
  within : ∀ c ∈ inner, c.Within s
  ordered : inner.Pairwise Span.Before

theorem Lays.spans {tokens : List Token} {limit : Nat} {a : Arena} {first i : Nat} {n : Expr}
    (h : Lays a.nodes first i n) (hn : n.Orderly tokens) (hl : Laid limit tokens) :
    a.Spans tokens limit i n.span (n.parts.map Expr.span) := by
  refine ⟨h.span_eq, ?_, ?_, ?_, hn.joins.bound_le hl, hn.joins.merge_ends hl, ?_, ?_⟩
  · rw [h.checkedSpan _ h.lt_size, hn.checked]
  · obtain ⟨parts, get, -⟩ := h
    rw [partsAt_of_get get, List.map_map, ← List.forall₂_eq_eq_eq, List.forall₂_map_left_iff,
      List.forall₂_map_right_iff]
    exact parts.parts.imp fun _ _ ⟨_, _, hx⟩ => hx.span_eq
  · exact Nat.pos_of_lt_add_right hn.joins.nonempty
  · exact List.forall_mem_map.2 hn.within
  · exact List.pairwise_map.2 hn.ordered

end Arena

/-- In a text of fewer than `2 ^ 32` bytes, the bytes of every node of an expression are found
without overflow. They go from the start of a token to the end of one, and hold those of the parts
of the node, which follow each other. -/
theorem spans_nest {text : String} (hsize : text.utf8ByteSize < 2 ^ 32) {a : Arena}
    (h : a.OfText text) :
    ∀ i < a.nodes.size, ∃ s inner,
      a.Spans (TokenStream.ofText text).tokens text.utf8ByteSize i s inner := by
  intro i hi
  obtain ⟨e, he, rfl⟩ := h.expr
  obtain ⟨hlays, hlast⟩ := Arena.ofExpr_lays e
  obtain ⟨f, n, hn, hin⟩ := hlays.inside i (Nat.zero_le i) (by omega)
  exact ⟨_, _, hn.spans (he.nests hsize n hin) (ofText_laid hsize)⟩

theorem spans_nest_call :
    let text := "f((a), -b)"
    let a : Arena := ⟨#[.atom (.name "f") ⟨0, 1⟩, .atom (.name "a") ⟨3, 1⟩,
      .atom (.name "b") ⟨8, 1⟩, .unary .negate 2 ⟨7, 1⟩, .call 0 [1, 3] ⟨9, 1⟩], 4⟩
    text.utf8ByteSize < 2 ^ 32 ∧ a.OfText text ∧
    ∀ i < a.nodes.size, ∃ s inner,
      a.Spans (TokenStream.ofText text).tokens text.utf8ByteSize i s inner := by
  intro text a
  have hsize : text.utf8ByteSize < 2 ^ 32 := by decide
  have h : a.OfText text := .inl ⟨.ofStream (.ofText text), ⟨List.suffix_rfl, rfl⟩, by cbv⟩
  exact ⟨hsize, h, spans_nest hsize h⟩

end Xbase
