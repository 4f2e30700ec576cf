import Xbase.Proofs.Parser.Expr

/-!
# The stratified grammar of expressions

`Derives c w e` says that the tokens `w` are an expression of the category `c` with the tree `e`.
The rules are those of a context-free grammar with ten categories: each category has the next one as
a special case, and the operators of a category have operands of that category on the left and of
the next one on the right, so they group to the left. Only assignments group to the right.

* `derives_iff`: a derivation is a phrase, whatever follows it;
* `Derives.unique`: no tokens have two trees, for the parser reads only one;
* `Parser.expression_reads`: the parser reads what the grammar derives, up to the first place where
  no token goes on with it.
-/

namespace Xbase

namespace Grammar

/-! ## Categories -/

/-- The categories of expressions, loosest first. -/
inductive Category where
  | assign | or | and | equality | comparison | sum | product | sign | call | primary
deriving DecidableEq

namespace Category

/-- The category of the tighter operands. There is none tighter than the primaries. -/
def next : Category → Category
  | assign => or
  | or => and
  | and => equality
  | equality => comparison
  | comparison => sum
  | sum => product
  | product => sign
  | sign => call
  | call | primary => primary

/-- The level of the phrases of the category. -/
def level : Category → Nat
  | assign => 1
  | or => 2
  | and => 3
  | equality => 4
  | comparison => 5
  | sum => 6
  | product => 7
  | sign => 8
  | call => 9
  | primary => 10

theorem level_le_next (c : Category) : c.level ≤ c.next.level := by
  cases c <;> decide

theorem level_le_primary (c : Category) : c.level ≤ primary.level := by
  cases c <;> decide

theorem eq_or_next {c c' : Category} (h : c.level ≤ c'.level) :
    c = c' ∨ c.next.level ≤ c'.level ∧ c.level < c.next.level := by
  revert h
  cases c <;> cases c' <;> decide

end Category

end Grammar

open Grammar

/-- The category of the expressions with this operator. -/
def BinaryOp.category : BinaryOp → Category
  | multiply | divide => .product
  | add | subtract => .sum
  | less | lessEqual | greater | greaterEqual => .comparison
  | equal | notEqual => .equality

/-- The category of the expressions with this operator. -/
def LogicOp.category : LogicOp → Category
  | and => .and
  | or => .or

theorem BinaryOp.level_category (op : BinaryOp) :
    op.category.level = op.level ∧ op.category.next.level = op.level + 1 := by
  cases op <;> decide

theorem LogicOp.level_category (op : LogicOp) :
    op.category.level = op.level ∧ op.category.next.level = op.level + 1 := by
  cases op <;> decide

namespace Grammar

/-! ## Derivations -/

mutual

/-- The tokens are an expression of the category, with this tree. Parentheses leave no node. -/
inductive Derives : (c : Category) → (w : List Token) → (e : Expr) → Prop
  | next {c : Category} {w : List Token} {e : Expr} (h : Derives c.next w e) : Derives c w e
  | assign {t : Token} {op : AssignOp} {l r : Expr} {wl wr : List Token}
      (left : Derives .or wl l) (ht : t.kind = .symbol op.symbol) (right : Derives .assign wr r) :
      Derives .assign (wl ++ t :: wr) (.assign op l r)
  | logic {t : Token} {op : LogicOp} {l r : Expr} {wl wr : List Token}
      (left : Derives op.category wl l) (ht : t.kind = .keyword op.keyword)
      (right : Derives op.category.next wr r) :
      Derives op.category (wl ++ t :: wr) (.logic op l r)
  | binary {t : Token} {op : BinaryOp} {l r : Expr} {wl wr : List Token}
      (left : Derives op.category wl l) (ht : t.kind = .symbol op.symbol)
      (right : Derives op.category.next wr r) :
      Derives op.category (wl ++ t :: wr) (.binary op l r)
  | unary {t : Token} {op : UnaryOp} {e : Expr} {w : List Token}
      (ht : t.kind = .symbol op.symbol) (h : Derives .sign w e) :
      Derives .sign (t :: w) (.unary op e t.span)
  | callNone {t t' : Token} {f : Expr} {w : List Token} (hf : Derives .call w f)
      (ht : t.kind = .symbol .leftParen) (ht' : t'.kind = .symbol .rightParen) :
      Derives .call (w ++ [t, t']) (.call f [] t'.span)
  | call {t t' : Token} {f : Expr} {args : List Expr} {w wa : List Token} (hf : Derives .call w f)
      (ht : t.kind = .symbol .leftParen) (ha : DerivesList wa args)
      (ht' : t'.kind = .symbol .rightParen) :
      Derives .call (w ++ t :: wa ++ [t']) (.call f args t'.span)
  | leaf {t : Token} {a : Atom} (h : Leaf t a) : Derives .primary [t] (.atom a t.span)
  | group {t t' : Token} {e : Expr} {w : List Token} (ht : t.kind = .symbol .leftParen)
      (h : Derives .assign w e) (ht' : t'.kind = .symbol .rightParen) :
      Derives .primary (t :: w ++ [t']) e
  | iif {t t₀ t₁ t₂ t₃ : Token} {cond yes no : Expr} {w₁ w₂ w₃ : List Token}
      (ht : t.kind = .keyword .IIF) (h₀ : t₀.kind = .symbol .leftParen)
      (hc : Derives .assign w₁ cond) (h₁ : t₁.kind = .symbol .comma)
      (hy : Derives .assign w₂ yes) (h₂ : t₂.kind = .symbol .comma)
      (hn : Derives .assign w₃ no) (h₃ : t₃.kind = .symbol .rightParen) :
      Derives .primary (t :: t₀ :: w₁ ++ t₁ :: w₂ ++ t₂ :: w₃ ++ [t₃])
        (.iif cond yes no (t.span.merge t₃.span))

/-- The tokens are one or more expressions with commas between them. -/
inductive DerivesList : (w : List Token) → (es : List Expr) → Prop
  | one {e : Expr} {w : List Token} (h : Derives .assign w e) : DerivesList w [e]
  | more {t : Token} {e : Expr} {es : List Expr} {w ws : List Token} (h : Derives .assign w e)
      (ht : t.kind = .symbol .comma) (hs : DerivesList ws es) : DerivesList (w ++ t :: ws) (e :: es)

end

/-- An expression of a tight category is one of every looser category. -/
theorem Derives.loosen {c c' : Category} {w : List Token} {e : Expr} (h : Derives c' w e)
    (hc : c.level ≤ c'.level) : Derives c w e := by
  obtain rfl | ⟨hnext, hlt⟩ := Category.eq_or_next hc
  · exact h
  · exact .next (h.loosen hnext)
termination_by c'.level - c.level

/-! ## Derivations and phrases -/

mutual

theorem Derives.phrase {c : Category} {w : List Token} {e : Expr} :
    Derives c w e → ∀ after, Phrase c.level (w ++ after) e after
  | .next h, after => (h.phrase after).weaken c.level_le_next
  | .assign left ht right, after => by
    rw [List.append_assoc]
    exact .assign (Nat.le_refl _) (left.phrase _) ht (right.phrase after)
  | @Derives.logic _ op _ _ _ _ left ht right, after => by
    have hl := left.phrase
    have hr := right.phrase after
    rw [op.level_category.1] at hl ⊢
    rw [op.level_category.2] at hr
    rw [List.append_assoc]
    exact .logic (Nat.le_refl _) (hl _) ht hr
  | @Derives.binary _ op _ _ _ _ left ht right, after => by
    have hl := left.phrase
    have hr := right.phrase after
    rw [op.level_category.1] at hl ⊢
    rw [op.level_category.2] at hr
    rw [List.append_assoc]
    exact .binary (Nat.le_refl _) (hl _) ht hr
  | .unary ht h, after => .unary (Nat.le_refl _) ht (h.phrase after)
  | .callNone hf ht ht', after => by
    rw [List.append_assoc]
    exact .callNone (Nat.le_refl _) (hf.phrase _) ht ht'
  | .call hf ht ha ht', after => by
    rw [List.append_assoc, List.append_assoc]
    exact .call (Nat.le_refl _) (hf.phrase _) ht (ha.phrases _) ht'
  | .leaf h, _ => .leaf h
  | .group ht h ht', after => by
    rw [List.append_assoc]
    exact .group ht (h.phrase _) ht'
  | .iif ht h₀ hc h₁ hy h₂ hn h₃, after => by
    simp only [List.append_assoc, List.cons_append]
    exact .iif ht h₀ (hc.phrase _) h₁ (hy.phrase _) h₂ (hn.phrase _) h₃

theorem DerivesList.phrases {w : List Token} {es : List Expr} :
    DerivesList w es → ∀ after, Phrases (w ++ after) es after
  | .one h, after => .one (h.phrase after)
  | .more h ht hs, after => by
    rw [List.append_assoc]
    exact .more (h.phrase _) ht (hs.phrases after)

end

mutual

/-- A phrase is derived in every category of its level and above. -/
theorem Phrase.derives {level : Nat} {before after : List Token} {e : Expr} :
    Phrase level before e after →
      ∃ w, before = w ++ after ∧ ∀ c : Category, c.level ≤ level → Derives c w e
  | .leaf h => ⟨_, rfl, fun c _ => (Derives.leaf h).loosen c.level_le_primary⟩
  | .group ht h ht' => by
    obtain ⟨w, rfl, hw⟩ := h.derives
    exact ⟨_, by simp, fun c _ =>
      (Derives.group ht (hw .assign (Nat.le_refl _)) ht').loosen c.level_le_primary⟩
  | .iif ht h₀ hc h₁ hy h₂ hn h₃ => by
    obtain ⟨w₁, rfl, hcond⟩ := hc.derives
    obtain ⟨w₂, rfl, hyes⟩ := hy.derives
    obtain ⟨w₃, rfl, hno⟩ := hn.derives
    have h := Derives.iif ht h₀ (hcond .assign (Nat.le_refl _)) h₁ (hyes .assign (Nat.le_refl _)) h₂
      (hno .assign (Nat.le_refl _)) h₃
    exact ⟨_, by simp, fun c _ => h.loosen c.level_le_primary⟩
  | .callNone hl hf ht ht' => by
    obtain ⟨w, rfl, hw⟩ := hf.derives
    exact ⟨w ++ [_, _], by simp, fun c hc =>
      (Derives.callNone (hw .call (Nat.le_refl _)) ht ht').loosen (Nat.le_trans hc hl)⟩
  | .call hl hf ht ha ht' => by
    obtain ⟨w, rfl, hw⟩ := hf.derives
    obtain ⟨wa, rfl, hargs⟩ := ha.derives
    exact ⟨w ++ _ :: wa ++ [_], by simp, fun c hc =>
      (Derives.call (hw .call (Nat.le_refl _)) ht hargs ht').loosen (Nat.le_trans hc hl)⟩
  | .unary hl ht h => by
    obtain ⟨w, rfl, hw⟩ := h.derives
    exact ⟨_, rfl, fun c hc =>
      (Derives.unary ht (hw .sign (Nat.le_refl _))).loosen (Nat.le_trans hc hl)⟩
  | @Phrase.binary _ _ op _ _ _ _ _ hl left ht right => by
    obtain ⟨wl, rfl, hleft⟩ := left.derives
    obtain ⟨wr, rfl, hright⟩ := right.derives
    obtain ⟨hlevel, hnext⟩ := op.level_category
    exact ⟨_, by simp, fun c hc => (Derives.binary (hleft op.category (Nat.le_of_eq hlevel)) ht
      (hright op.category.next (Nat.le_of_eq hnext))).loosen (by omega)⟩
  | @Phrase.logic _ _ op _ _ _ _ _ hl left ht right => by
    obtain ⟨wl, rfl, hleft⟩ := left.derives
    obtain ⟨wr, rfl, hright⟩ := right.derives
    obtain ⟨hlevel, hnext⟩ := op.level_category
    exact ⟨_, by simp, fun c hc => (Derives.logic (hleft op.category (Nat.le_of_eq hlevel)) ht
      (hright op.category.next (Nat.le_of_eq hnext))).loosen (by omega)⟩
  | .assign hl left ht right => by
    obtain ⟨wl, rfl, hleft⟩ := left.derives
    obtain ⟨wr, rfl, hright⟩ := right.derives
    exact ⟨_, by simp, fun c hc => (Derives.assign (hleft .or (Nat.le_refl _)) ht
      (hright .assign (Nat.le_refl _))).loosen (Nat.le_trans hc hl)⟩

/-- Several phrases are derived as a list. -/
theorem Phrases.derives {before after : List Token} {es : List Expr} :
    Phrases before es after → ∃ w, before = w ++ after ∧ DerivesList w es
  | .one h => by
    obtain ⟨w, rfl, hw⟩ := h.derives
    exact ⟨w, rfl, .one (hw .assign (Nat.le_refl _))⟩
  | .more h ht hs => by
    obtain ⟨w, rfl, hw⟩ := h.derives
    obtain ⟨ws, rfl, hws⟩ := hs.derives
    exact ⟨w ++ _ :: ws, by simp, .more (hw .assign (Nat.le_refl _)) ht hws⟩

end

variable {c : Category} {w after : List Token} {e e' : Expr}

/-- A derivation is a phrase of the level of its category, whatever follows. -/
theorem derives_iff : Derives c w e ↔ Phrase c.level (w ++ after) e after := by
  constructor
  · exact fun h => h.phrase after
  · intro h
    obtain ⟨w', hw, h⟩ := h.derives
    rw [List.append_cancel_right hw]
    exact h c (Nat.le_refl _)

/-- The tree of an expression is unique: it is what the parser reads when nothing follows. -/
theorem Derives.unique (h : Derives .assign w e) (h' : Derives .assign w e') : e = e' := by
  have hstop : (⟨.endOfFile, "", ⟨0, 0⟩, 0, 0⟩ : Token).kind = .endOfFile := rfl
  have hrun := ((h.phrase []).runs rfl hstop []).1
  rw [((h'.phrase []).runs rfl hstop []).1] at hrun
  cases hrun
  rfl

end Grammar

/-- From every state of the parser: an expression that is returned is read off the front of the
tokens, and nothing else changes; the tokens `w` are read as the expression `e` if and only if the
grammar derives `w` from `assign` with the tree `e` and the token behind `w` does not go on with an
expression; and no `w` has two trees. -/
theorem Parser.expression_reads {s : ParseState} (hs : s.Closed) :
    (∀ e s', expression s = (some e, s') →
      ∃ w, s.rest = w ++ s'.rest ∧ s' = { s with rest := s'.rest }) ∧
    (∀ w e after, s.rest = w ++ after →
      (expression s = (some e, { s with rest := after }) ↔
        Derives .assign w e ∧
        Continuation.ofKind? ({ s with rest := after } : ParseState).current.kind = none)) ∧
    ∀ w e e', Derives .assign w e → Derives .assign w e' → e = e' := by
  refine ⟨fun e s' h => ?_, fun w e after hw => ⟨fun h => ?_, fun ⟨h, hn⟩ => ?_⟩,
    fun w e e' => Derives.unique⟩
  · obtain ⟨e, after, hrun, ⟨w, hw⟩, -⟩ | ⟨fault, after, hrun, -⟩ := expression_decides hs
    · rw [h] at hrun
      cases hrun
      exact ⟨w, hw.symm, rfl⟩
    · rw [h] at hrun
      cases hrun
  · obtain ⟨e', after', hrun, -, hphrase, hstops⟩ | ⟨fault, after', hrun, -⟩ :=
      expression_decides hs
    · rw [h] at hrun
      cases hrun
      rw [ParseState.current_kind_of hs]
      rw [hw] at hphrase
      exact ⟨derives_iff.2 hphrase, hstops.none⟩
    · rw [h] at hrun
      cases hrun
  · rw [ParseState.current_kind_of hs] at hn
    have hrun := ((h.phrase after).runs hn hs s.errors).1
    rw [← hw] at hrun
    exact hrun

/-- In `a - b = c` the difference is the target, which is derived from `or`. -/
theorem Parser.expression_reads_target :
    let a : Token := ⟨.name, "a", ⟨0, 1⟩, 1, 1⟩
    let minus : Token := ⟨.symbol .minus, "-", ⟨1, 2⟩, 1, 2⟩
    let b : Token := ⟨.name, "b", ⟨2, 3⟩, 1, 3⟩
    let equal : Token := ⟨.symbol .equal, "=", ⟨3, 4⟩, 1, 4⟩
    let c : Token := ⟨.name, "c", ⟨4, 5⟩, 1, 5⟩
    let s : ParseState := ⟨[a, minus, b, equal, c], ⟨.endOfFile, "", ⟨5, 5⟩, 1, 6⟩, []⟩
    let e : Expr := .assign .assign
      (.binary .subtract (.atom (.name "a") a.span) (.atom (.name "b") b.span))
      (.atom (.name "c") c.span)
    s.Closed ∧ Derives .assign s.rest e ∧ expression s = (some e, { s with rest := [] }) := by
  intro a minus b equal c s e
  have hname : ∀ c t, t.kind = .name → Derives c [t] (.atom (.name t.lexeme) t.span) :=
    fun c t ht => (Derives.leaf (.name ht)).loosen c.level_le_primary
  have hminus : minus.kind = .symbol BinaryOp.subtract.symbol := rfl
  have htarget : Derives .sum [a, minus, b] _ := .binary (hname _ a rfl) hminus (hname _ b rfl)
  have h : Derives .assign s.rest e :=
    .assign (htarget.loosen (by decide)) rfl (hname _ c rfl)
  exact ⟨rfl, h, ((expression_reads (s := s) rfl).2.1 s.rest e [] (by simp)).2 ⟨h, rfl⟩⟩

end Xbase
