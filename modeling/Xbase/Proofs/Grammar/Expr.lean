import Xbase.Parser.Expr
import Xbase.Proofs.Parser.Run

/-!
# The grammar of expressions

`Phrase level before e after` says that the tokens `before` start with a phrase of the given level
whose tree is `e`, and that the tokens `after` follow the phrase. The levels go from loose to tight:

1. `assign := or [(= | := | += | -= | *= | /=) assign]`
2. `or := and {OR and}`
3. `and := equality {AND equality}`
4. `equality := comparison {(== | !=) comparison}`
5. `comparison := sum {(< | <= | > | >=) sum}`
6. `sum := product {(+ | -) product}`
7. `product := sign {(* | /) sign}`
8. `sign := (- | !) sign | call`
9. `call := primary {( [assign {, assign}] )}`

and a primary is a literal, a name, `( assign )` or `IIF ( assign , assign , assign )`. A phrase of
a tight level is one of every looser level too.

The operators of the levels 2 to 7 group to the left. Statements need no separator between them, so
an expression may be followed by another one. If that starts with `-` or `(`, the tokens of both
also make one expression (`Phrase.join`).
-/

namespace Xbase

/-! ## The tokens of the operators -/

/-- The symbol that writes the operator. -/
def UnaryOp.symbol : UnaryOp → Symbol
  | not => .bang
  | negate => .minus

/-- The symbol that writes the operator. -/
def BinaryOp.symbol : BinaryOp → Symbol
  | multiply => .star
  | divide => .slash
  | add => .plus
  | subtract => .minus
  | less => .less
  | lessEqual => .lessEqual
  | greater => .greater
  | greaterEqual => .greaterEqual
  | equal => .equalEqual
  | notEqual => .bangEqual

/-- The keyword that writes the operator. -/
def LogicOp.keyword : LogicOp → Keyword
  | and => .AND
  | or => .OR

/-- The symbol that writes the operator. -/
def AssignOp.symbol : AssignOp → Symbol
  | assign => .equal
  | bind => .colonEqual
  | add => .plusEqual
  | subtract => .minusEqual
  | multiply => .starEqual
  | divide => .slashEqual

/-- The level of the expressions with this operator. -/
def BinaryOp.level : BinaryOp → Nat
  | multiply | divide => 7
  | add | subtract => 6
  | less | lessEqual | greater | greaterEqual => 5
  | equal | notEqual => 4

/-- The level of the expressions with this operator. -/
def LogicOp.level : LogicOp → Nat
  | and => 3
  | or => 2

namespace Grammar

/-! ## Phrases -/

/-- A token that is an expression by itself. -/
inductive Leaf : Token → Atom → Prop
  | number {t : Token} {n : Number} (h : t.kind = .number) (hn : Number.ofText? t.lexeme = some n) :
      Leaf t (.number n)
  | string {t : Token} (h : t.kind = .string) : Leaf t (.string t.stringValue)
  | logical {t : Token} {b : Bool} (h : t.kind = .logical b) : Leaf t (.logical b)
  | null {t : Token} (h : t.kind = .keyword .NULL) : Leaf t .null
  | name {t : Token} (h : t.kind = .name) : Leaf t (.name t.lexeme)

mutual

/-- The tokens `before` start with the expression `e` of the given level, and `after` follows. -/
inductive Phrase : (level : Nat) → (before : List Token) → (e : Expr) → (after : List Token) → Prop
  | leaf {level : Nat} {t : Token} {a : Atom} {after : List Token} (h : Leaf t a) :
      Phrase level (t :: after) (.atom a t.span) after
  | group {level : Nat} {t t' : Token} {e : Expr} {mid after : List Token}
      (ht : t.kind = .symbol .leftParen) (h : Phrase 1 mid e (t' :: after))
      (ht' : t'.kind = .symbol .rightParen) : Phrase level (t :: mid) e after
  | iif {level : Nat} {t t₀ t₁ t₂ t₃ : Token} {cond yes no : Expr} {m₁ m₂ m₃ after : List Token}
      (ht : t.kind = .keyword .IIF) (h₀ : t₀.kind = .symbol .leftParen)
      (hc : Phrase 1 m₁ cond (t₁ :: m₂)) (h₁ : t₁.kind = .symbol .comma)
      (hy : Phrase 1 m₂ yes (t₂ :: m₃)) (h₂ : t₂.kind = .symbol .comma)
      (hn : Phrase 1 m₃ no (t₃ :: after)) (h₃ : t₃.kind = .symbol .rightParen) :
      Phrase level (t :: t₀ :: m₁) (.iif cond yes no (t.span.merge t₃.span)) after
  | callNone {level : Nat} {t t' : Token} {f : Expr} {before after : List Token} (hl : level ≤ 9)
      (hf : Phrase 9 before f (t :: t' :: after)) (ht : t.kind = .symbol .leftParen)
      (ht' : t'.kind = .symbol .rightParen) : Phrase level before (.call f [] t'.span) after
  | call {level : Nat} {t t' : Token} {f : Expr} {args : List Expr} {before mid after : List Token}
      (hl : level ≤ 9) (hf : Phrase 9 before f (t :: mid)) (ht : t.kind = .symbol .leftParen)
      (ha : Phrases mid args (t' :: after)) (ht' : t'.kind = .symbol .rightParen) :
      Phrase level before (.call f args t'.span) after
  | unary {level : Nat} {t : Token} {op : UnaryOp} {e : Expr} {mid after : List Token}
      (hl : level ≤ 8) (ht : t.kind = .symbol op.symbol) (h : Phrase 8 mid e after) :
      Phrase level (t :: mid) (.unary op e t.span) after
  | binary {level : Nat} {t : Token} {op : BinaryOp} {l r : Expr} {before mid after : List Token}
      (hl : level ≤ op.level) (left : Phrase op.level before l (t :: mid))
      (ht : t.kind = .symbol op.symbol) (right : Phrase (op.level + 1) mid r after) :
      Phrase level before (.binary op l r) after
  | logic {level : Nat} {t : Token} {op : LogicOp} {l r : Expr} {before mid after : List Token}
      (hl : level ≤ op.level) (left : Phrase op.level before l (t :: mid))
      (ht : t.kind = .keyword op.keyword) (right : Phrase (op.level + 1) mid r after) :
      Phrase level before (.logic op l r) after
  | assign {level : Nat} {t : Token} {op : AssignOp} {l r : Expr} {before mid after : List Token}
      (hl : level ≤ 1) (left : Phrase 2 before l (t :: mid)) (ht : t.kind = .symbol op.symbol)
      (right : Phrase 1 mid r after) : Phrase level before (.assign op l r) after

/-- One or more expressions with commas between them. -/
inductive Phrases : (before : List Token) → (es : List Expr) → (after : List Token) → Prop
  | one {e : Expr} {before after : List Token} (h : Phrase 1 before e after) :
      Phrases before [e] after
  | more {t : Token} {e : Expr} {es : List Expr} {before mid after : List Token}
      (h : Phrase 1 before e (t :: mid)) (ht : t.kind = .symbol .comma)
      (hs : Phrases mid es after) : Phrases before (e :: es) after

end

/-- One or more items with commas between them, each of them related to the tokens by `R`. -/
inductive CommaList {α : Type} (R : List Token → α → List Token → Prop) :
    (before : List Token) → (xs : List α) → (after : List Token) → Prop
  | one {x : α} {before after : List Token} (h : R before x after) : CommaList R before [x] after
  | more {t : Token} {x : α} {xs : List α} {before mid after : List Token}
      (h : R before x (t :: mid)) (ht : t.kind = .symbol .comma) (hs : CommaList R mid xs after) :
      CommaList R before (x :: xs) after

/-- Several phrases are a list of them. -/
theorem phrases_iff {before after : List Token} {es : List Expr} :
    Phrases before es after ↔ CommaList (Phrase 1) before es after := by
  constructor
  · intro h
    induction es generalizing before with
    | nil => cases h
    | cons e es ih =>
      cases h with
      | one h => exact .one h
      | more h ht hs => exact .more h ht (ih hs)
  · intro h
    induction h with
    | one h => exact .one h
    | more h ht _ ih => exact .more h ht ih

/-! ## What a phrase takes -/

variable {level m : Nat} {before mid after : List Token} {e : Expr} {es : List Expr}

/-- A phrase of a tight level is one of every looser level. -/
theorem Phrase.weaken (h : Phrase level before e after) (hm : m ≤ level) :
    Phrase m before e after := by
  cases h with
  | leaf h => exact .leaf h
  | group ht h ht' => exact .group ht h ht'
  | iif ht h₀ hc h₁ hy h₂ hn h₃ => exact .iif ht h₀ hc h₁ hy h₂ hn h₃
  | callNone hl hf ht ht' => exact .callNone (Nat.le_trans hm hl) hf ht ht'
  | call hl hf ht ha ht' => exact .call (Nat.le_trans hm hl) hf ht ha ht'
  | unary hl ht h => exact .unary (Nat.le_trans hm hl) ht h
  | binary hl left ht right => exact .binary (Nat.le_trans hm hl) left ht right
  | logic hl left ht right => exact .logic (Nat.le_trans hm hl) left ht right
  | assign hl left ht right => exact .assign (Nat.le_trans hm hl) left ht right

mutual

/-- A phrase takes tokens off the front, one at least. -/
theorem Phrase.takes {level : Nat} {before after : List Token} {e : Expr} :
    Phrase level before e after → ∃ t w, before = t :: (w ++ after)
  | @Phrase.leaf _ t _ _ _ => ⟨t, [], rfl⟩
  | @Phrase.group _ t t' _ _ _ _ h _ => by
    obtain ⟨u, w, rfl⟩ := h.takes
    exact ⟨t, u :: w ++ [t'], by simp⟩
  | @Phrase.iif _ t t₀ t₁ t₂ t₃ _ _ _ _ _ _ _ _ _ hc _ hy _ hn _ => by
    obtain ⟨u₁, w₁, rfl⟩ := hc.takes
    obtain ⟨u₂, w₂, rfl⟩ := hy.takes
    obtain ⟨u₃, w₃, rfl⟩ := hn.takes
    exact ⟨t, t₀ :: u₁ :: w₁ ++ t₁ :: u₂ :: w₂ ++ t₂ :: u₃ :: w₃ ++ [t₃], by simp⟩
  | @Phrase.callNone _ t t' _ _ _ _ hf _ _ => by
    obtain ⟨u, w, rfl⟩ := hf.takes
    exact ⟨u, w ++ [t, t'], by simp⟩
  | @Phrase.call _ t t' _ _ _ _ _ _ hf _ ha _ => by
    obtain ⟨u, w, rfl⟩ := hf.takes
    obtain ⟨u', w', rfl⟩ := ha.takes
    exact ⟨u, w ++ t :: u' :: w' ++ [t'], by simp⟩
  | @Phrase.unary _ t _ _ _ _ _ _ h => by
    obtain ⟨u, w, rfl⟩ := h.takes
    exact ⟨t, u :: w, by simp⟩
  | @Phrase.binary _ t _ _ _ _ _ _ _ left _ right
  | @Phrase.logic _ t _ _ _ _ _ _ _ left _ right
  | @Phrase.assign _ t _ _ _ _ _ _ _ left _ right => by
    obtain ⟨u, w, rfl⟩ := left.takes
    obtain ⟨u', w', rfl⟩ := right.takes
    exact ⟨u, w ++ t :: u' :: w', by simp⟩

/-- Several phrases take tokens off the front, one at least. -/
theorem Phrases.takes {before after : List Token} {es : List Expr} :
    Phrases before es after → ∃ t w, before = t :: (w ++ after)
  | .one h => h.takes
  | @Phrases.more t _ _ _ _ _ h _ hs => by
    obtain ⟨u, w, rfl⟩ := h.takes
    obtain ⟨u', w', rfl⟩ := hs.takes
    exact ⟨u, w ++ t :: u' :: w', by simp⟩

end

theorem Phrase.length_lt (h : Phrase level before e after) : after.length < before.length := by
  obtain ⟨t, w, rfl⟩ := h.takes
  simp only [List.length_cons, List.length_append]
  omega

/-- The kinds of tokens that an expression can start with. -/
def startsExpr : Kind → Bool
  | .number | .string | .logical _ | .name => true
  | .keyword k => k = .NULL || k = .IIF
  | .symbol s => s = .minus || s = .bang || s = .leftParen
  | .newline | .endOfFile => false

theorem Leaf.starts {t : Token} {a : Atom} (h : Leaf t a) : startsExpr t.kind = true := by
  cases h with
  | number h | string h | logical h | null h | name h => rw [h]; rfl

theorem Phrase.starts {level : Nat} {before after : List Token} {e : Expr} :
    Phrase level before e after → startsExpr (headKind before) = true
  | .leaf h => h.starts
  | .group ht _ _ => by rw [headKind_cons, ht]; rfl
  | .iif ht .. => by rw [headKind_cons, ht]; rfl
  | .callNone _ hf _ _ => hf.starts
  | .call _ hf _ _ _ => hf.starts
  | @Phrase.unary _ _ op _ _ _ _ ht _ => by
    rw [headKind_cons, ht]
    cases op <;> rfl
  | .binary _ left _ _ => left.starts
  | .logic _ left _ _ => left.starts
  | .assign _ left _ _ => left.starts

theorem Phrases.starts (h : Phrases before es after) : startsExpr (headKind before) = true := by
  cases h with
  | one h => exact h.starts
  | more h _ _ => exact h.starts

/-! ## Two expressions side by side -/

/-- The tokens `mid` go on with every phrase of level `q` and make it one of level `p`, which ends
in front of `after`. -/
def GoesOn (q p : Nat) (mid after : List Token) : Prop :=
  ∀ before l, Phrase q before l mid → ∃ e, Phrase p before e after

/-- What goes on with a phrase of some level goes on with every expression: it belongs to the
rightmost part that is tight enough. -/
theorem GoesOn.attach {q p : Nat} {mid after : List Token} (h : GoesOn q p mid after) (hq : q ≤ 9)
    (hp : 1 ≤ p) (hqp : p = q ∨ q ≤ 2) {m : Nat} {before : List Token} {e : Expr} :
    Phrase m before e mid → m ≤ p → ∃ e', Phrase m before e' after
  | .leaf hl, hm => by
    obtain ⟨e', he⟩ := h _ _ (.leaf hl)
    exact ⟨e', he.weaken hm⟩
  | .group ht hi ht', hm => by
    obtain ⟨e', he⟩ := h _ _ (.group ht hi ht')
    exact ⟨e', he.weaken hm⟩
  | .iif ht h₀ hc h₁ hy h₂ hn h₃, hm => by
    obtain ⟨e', he⟩ := h _ _ (.iif ht h₀ hc h₁ hy h₂ hn h₃)
    exact ⟨e', he.weaken hm⟩
  | .callNone _ hf ht ht', hm => by
    obtain ⟨e', he⟩ := h _ _ (.callNone hq hf ht ht')
    exact ⟨e', he.weaken hm⟩
  | .call _ hf ht ha ht', hm => by
    obtain ⟨e', he⟩ := h _ _ (.call hq hf ht ha ht')
    exact ⟨e', he.weaken hm⟩
  | .unary hl ht hi, hm => by
    by_cases hk : q ≤ 8
    · obtain ⟨e', he⟩ := h _ _ (.unary hk ht hi)
      exact ⟨e', he.weaken hm⟩
    · obtain ⟨e', he⟩ := h.attach hq hp hqp hi (by omega)
      exact ⟨_, .unary hl ht he⟩
  | @Phrase.binary _ _ op _ _ _ _ _ hl left ht right, hm => by
    by_cases hk : q ≤ op.level
    · obtain ⟨e', he⟩ := h _ _ (.binary hk left ht right)
      exact ⟨e', he.weaken hm⟩
    · have : 4 ≤ op.level := by cases op <;> decide
      obtain ⟨e', he⟩ := h.attach hq hp hqp right (by omega)
      exact ⟨_, .binary hl left ht he⟩
  | @Phrase.logic _ _ op _ _ _ _ _ hl left ht right, hm => by
    by_cases hk : q ≤ op.level
    · obtain ⟨e', he⟩ := h _ _ (.logic hk left ht right)
      exact ⟨e', he.weaken hm⟩
    · have : 2 ≤ op.level := by cases op <;> decide
      obtain ⟨e', he⟩ := h.attach hq hp hqp right (by omega)
      exact ⟨_, .logic hl left ht he⟩
  | .assign hl left ht right, _ => by
    obtain ⟨e', he⟩ := h.attach hq hp hqp right hp
    exact ⟨_, .assign hl left ht he⟩

theorem GoesOn.binary {t : Token} {op : BinaryOp} {r : Expr} (ht : t.kind = .symbol op.symbol)
    (right : Phrase (op.level + 1) mid r after) : GoesOn op.level op.level (t :: mid) after :=
  fun _ l left => ⟨.binary op l r, .binary (Nat.le_refl _) left ht right⟩

theorem GoesOn.logic {t : Token} {op : LogicOp} {r : Expr} (ht : t.kind = .keyword op.keyword)
    (right : Phrase (op.level + 1) mid r after) : GoesOn op.level op.level (t :: mid) after :=
  fun _ l left => ⟨.logic op l r, .logic (Nat.le_refl _) left ht right⟩

/-- Whether a token of this kind starts an expression and also goes on with the one before it. -/
def Ambiguous (k : Kind) : Prop := k = .symbol .minus ∨ k = .symbol .leftParen

/-- Only `-` and `(` both start an expression and go on with one. -/
theorem Phrase.ambiguous (h : Phrase level before e after)
    (hk : Continuation.ofKind? (headKind before) ≠ none) : Ambiguous (headKind before) := by
  have hstart := h.starts
  revert hk hstart
  cases headKind before with
  | symbol s => cases s <;> simp [startsExpr, Continuation.ofKind?, Ambiguous]
  | keyword k => cases k <;> simp [startsExpr, Continuation.ofKind?]
  | logical b => simp [Continuation.ofKind?]
  | number | string | name | newline | endOfFile => simp [Continuation.ofKind?]

/-- If the second of two adjacent expressions starts with `-` or `(`, both together are one: the
minus sign becomes a difference, the parenthesis a call. -/
theorem Phrase.join {m : Nat} {before mid after : List Token} {e e₂ : Expr}
    (h : Phrase 1 before e mid) (hk : Ambiguous (headKind mid)) :
    Phrase m mid e₂ after → ∃ e', Phrase 1 before e' after
  | .leaf hl => by
    exfalso
    obtain hk | hk := hk <;> cases hl <;> simp_all
  | .group ht hi ht' => by
    have hg : GoesOn 9 9 _ after := fun _ l hl => ⟨_, .call (Nat.le_refl _) hl ht (.one hi) ht'⟩
    exact hg.attach (by decide) (by decide) (.inl rfl) h (by decide)
  | .iif ht .. => by
    exfalso
    obtain hk | hk := hk <;> simp_all
  | .callNone _ hf ht ht' => by
    obtain ⟨e', he⟩ := h.join hk hf
    have hg : GoesOn 9 9 _ after := fun _ l hl => ⟨_, .callNone (Nat.le_refl _) hl ht ht'⟩
    exact hg.attach (by decide) (by decide) (.inl rfl) he (by decide)
  | .call _ hf ht ha ht' => by
    obtain ⟨e', he⟩ := h.join hk hf
    have hg : GoesOn 9 9 _ after := fun _ l hl => ⟨_, .call (Nat.le_refl _) hl ht ha ht'⟩
    exact hg.attach (by decide) (by decide) (.inl rfl) he (by decide)
  | @Phrase.unary _ _ op _ _ _ _ ht hi => by
    cases op with
    | not => exfalso; obtain hk | hk := hk <;> simp_all [UnaryOp.symbol]
    | negate =>
      have ht : _ = Kind.symbol BinaryOp.subtract.symbol := ht
      have hg := GoesOn.binary ht (hi.weaken (by decide))
      exact hg.attach (by decide) (by decide) (.inl rfl) h (by decide)
  | @Phrase.binary _ _ op _ _ _ _ _ _ left ht right => by
    obtain ⟨e', he⟩ := h.join hk left
    have : 4 ≤ op.level ∧ op.level ≤ 7 := by cases op <;> decide
    exact (GoesOn.binary ht right).attach (by omega) (by omega) (.inl rfl) he (by omega)
  | @Phrase.logic _ _ op _ _ _ _ _ _ left ht right => by
    obtain ⟨e', he⟩ := h.join hk left
    have : 2 ≤ op.level ∧ op.level ≤ 3 := by cases op <;> decide
    exact (GoesOn.logic ht right).attach (by omega) (by omega) (.inl rfl) he (by omega)
  | .assign _ left ht right => by
    obtain ⟨e', he⟩ := h.join hk left
    have hg : GoesOn 2 1 _ after := fun _ l hl => ⟨_, .assign (Nat.le_refl _) hl ht right⟩
    exact hg.attach (by decide) (by decide) (.inr (by decide)) he (by decide)

end Grammar

end Xbase
