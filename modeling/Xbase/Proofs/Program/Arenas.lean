import Xbase.Proofs.Eval.Nodes
import Xbase.Proofs.Parser.Origins

/-!
# The nodes of the expressions of a text

Every expression that is read in a text, by itself or in a statement, is a tree of nodes
(`Arena.IsTree`), with no more nodes than the text has characters. Whatever is asked of a node by
its number has an answer, which is that of the expression there (`Arena.Legible`): its bytes, its
texts and its value never depend on a node that is missing, and no search goes deeper than the
number of the node where it starts.
-/

namespace Xbase

/-! ## The count of the nodes -/

namespace Grammar

mutual

/-- A phrase has no more nodes than tokens. -/
theorem Phrase.push_size_le {level : Nat} {before after : List Token} {e : Expr} :
    Phrase level before e after → ∀ nodes : Array Node,
      (Arena.push nodes e).1.size + after.length ≤ nodes.size + before.length
  | .leaf _, nodes => by simp [Arena.push, Arena.push.add]; omega
  | .group _ h _, nodes => by
    have := h.push_size_le nodes
    simp only [List.length_cons] at this ⊢
    omega
  | @Phrase.iif _ _ _ _ _ _ cond yes _ _ _ _ _ _ _ hc _ hy _ hn _, nodes => by
    have hcond := hc.push_size_le nodes
    have hyes := hy.push_size_le (Arena.push nodes cond).1
    have hno := hn.push_size_le (Arena.push (Arena.push nodes cond).1 yes).1
    simp only [Arena.push, Arena.push.add, Array.size_push, List.length_cons] at hcond hyes hno ⊢
    omega
  | .callNone _ hf _ _, nodes => by
    have hcallee := hf.push_size_le nodes
    simp only [Arena.push, Arena.pushAll, Arena.push.add, Array.size_push, List.length_cons]
      at hcallee ⊢
    omega
  | @Phrase.call _ _ _ f _ _ _ _ _ hf _ ha _, nodes => by
    have hcallee := hf.push_size_le nodes
    have hargs := ha.pushAll_size_le (Arena.push nodes f).1
    simp only [Arena.push, Arena.push.add, Array.size_push, List.length_cons] at hcallee hargs ⊢
    omega
  | .unary _ _ h, nodes => by
    have := h.push_size_le nodes
    simp only [Arena.push, Arena.push.add, Array.size_push, List.length_cons] at this ⊢
    omega
  | @Phrase.binary _ _ _ l _ _ _ _ _ left _ right, nodes
  | @Phrase.logic _ _ _ l _ _ _ _ _ left _ right, nodes
  | @Phrase.assign _ _ _ l _ _ _ _ _ left _ right, nodes => by
    have hleft := left.push_size_le nodes
    have hright := right.push_size_le (Arena.push nodes l).1
    simp only [Arena.push, Arena.push.add, Array.size_push, List.length_cons] at hleft hright ⊢
    omega

theorem Phrases.pushAll_size_le {before after : List Token} {es : List Expr} :
    Phrases before es after → ∀ nodes : Array Node,
      (Arena.pushAll nodes es).1.size + after.length ≤ nodes.size + before.length
  | .one h, nodes => h.push_size_le nodes
  | @Phrases.more _ e _ _ _ _ h _ hs, nodes => by
    have hhead := h.push_size_le nodes
    have hrest := hs.pushAll_size_le (Arena.push nodes e).1
    simp only [Arena.pushAll, List.length_cons] at hhead hrest ⊢
    omega

end

end Grammar

/-- A text has no more tokens than characters. -/
theorem Lexer.stream_length_le (lx : Lexer) : lx.stream.tokens.length ≤ lx.rest.length := by
  induction lx using Lexer.stream.induct with
  | case1 lx h => simp [stream_none h]
  | case2 lx e lx' h => simp [stream_error h]
  | case3 lx t lx' h ih =>
    have := step_length_lt h
    simp only [stream_ok h, List.length_cons]
    omega
  | case4 lx lx' h ih =>
    have := step_length_lt h
    rw [stream_skip h]
    omega

theorem Expr.OfText.size_le {text : String} {e : Expr} (h : e.OfText text) :
    (Arena.ofExpr e).nodes.size ≤ text.toList.length := by
  obtain ⟨before, after, hphrase, hbefore⟩ := h.phrase
  have hnodes : (Arena.ofExpr e).nodes.size + after.length ≤ 0 + before.length :=
    hphrase.push_size_le #[]
  have hstream : (TokenStream.ofText text).tokens.length ≤ text.toList.length :=
    (Lexer.ofText text).stream_length_le
  have := hbefore.length_le
  omega

/-! ## What is asked of a node -/

/-- Whatever is asked of the node `i` is answered as for the expression `n`, by a search that is
deeper than the number of the node; `whole` are the bytes of the expression that it belongs to. The
value does not depend on what is done where a node is missing. -/
structure Arena.Legible (a : Arena) (whole : Span) (i : Nat) (n : Expr) : Prop where
  node : ∃ node, a.nodes[i]? = some node ∧ node.Heads n
  tree : ∀ depth > i, treeWithin a.nodes depth i = some n
  span : ∀ depth > i, spanWithin a.nodes depth i = some n.span
  sexpr : ∀ depth > i, sexprWithin a.nodes depth i = some n.sexpr
  source : ∀ depth > i, ∀ nested, sourceWithin a.nodes depth nested i = some (n.sourceIn nested)
  value : ∀ depth > i, ∀ (missing : ∀ α : Type, Eval α) (fuel : Nat) (scope : ScopeId),
    (Eval.node missing fuel depth a scope i).erase = Eval.expr fuel whole scope n

theorem Arena.Lays.legible {a : Arena} {first i : Nat} {n : Expr} {whole : Span}
    (h : Lays a.nodes first i n) (hroot : a.span? a.root = some whole) : a.Legible whole i n where
  node := by
    obtain ⟨-, get, heads⟩ := h
    exact ⟨_, get, heads⟩
  tree := h.tree
  span := h.span
  sexpr := h.sexpr
  source := h.source
  value _ hd missing fuel scope := Eval.node_erase missing fuel scope hroot h hd

/-- The nodes of an expression of a text are those of one tree, and there are no more of them than
characters. Whatever is asked of one of them has an answer, which is that of the expression
there. -/
theorem arena_legible {text : String} {a : Arena} (h : a.OfText text) :
    a.IsTree ∧ a.nodes.size ≤ text.toList.length ∧
    ∃ e, a.tree? = some e ∧ ∀ i < a.nodes.size, ∃ n, n.Inside e ∧ a.Legible e.span i n := by
  obtain ⟨e, he, rfl⟩ := h.expr
  obtain ⟨hlays, hsize⟩ := Arena.ofExpr_lays e
  refine ⟨hlays.isTree hsize, he.size_le, e, hlays.tree _ hlays.lt_size, fun i hi => ?_⟩
  obtain ⟨f, n, hn, hin⟩ := hlays.inside i (Nat.zero_le i) (by omega)
  exact ⟨n, hin, hn.legible hlays.span_eq⟩

theorem arena_legible_conditional :
    let text := "IIF(.T., (x), f())"
    let a : Arena := ⟨#[.atom (.logical true) ⟨4, 3⟩, .atom (.name "x") ⟨10, 1⟩,
      .atom (.name "f") ⟨14, 1⟩, .call 2 [] ⟨16, 1⟩, .iif 0 1 3 ⟨0, 18⟩], 4⟩
    a.OfText text ∧ a.IsTree ∧ a.nodes.size ≤ text.toList.length ∧
    ∃ e, a.tree? = some e ∧ ∀ i < a.nodes.size, ∃ n, n.Inside e ∧ a.Legible e.span i n := by
  intro text a
  have h : a.OfText text := .inl ⟨.ofStream (.ofText text), ⟨List.suffix_rfl, rfl⟩, by cbv⟩
  exact ⟨h, arena_legible h⟩

end Xbase
