import Xbase.Program.Basic
import Xbase.Proofs.Grammar.Expr

/-!
# The grammar of statements

`Stmt E before s after` says that the tokens `before` start with the statement `s`, and that the
tokens `after` follow it. What an expression is, is left open: `E` relates tokens and expressions in
the same way. The language has `Phrase 1` for `E`, and `Whole` leaves only those expressions that
nothing goes on with.

```
program := {stmt [NEWLINE]} EOF
block   := NEWLINE {stmt [NEWLINE]}
stmt    := SCOPE decl {, decl} | SCOPE ( NEWLINE* decl NEWLINE* {, NEWLINE* decl NEWLINE*} )
         | FUNCTION name [( [name {, name}] )] block ENDFUNC
         | RETURN [expr] | IF expr [THEN] block [ELSE block] ENDIF
         | DO CASE NEWLINE {CASE expr block} [OTHERWISE block] ENDCASE
         | [DO] WHILE expr block ENDDO | EXIT | LOOP | ? [expr {, expr}] | expr
decl    := name [AS type] [= expr]
```

A `RETURN` without a value and a `?` without arguments must stand in front of a line break, of the
end of the source or of a keyword that closes a block.
-/

namespace Xbase

/-- The keyword that declares the visibility. -/
def Visibility.keyword : Visibility → Keyword
  | loc => .LOCAL
  | priv => .PRIVATE
  | pub => .PUBLIC

theorem Visibility.keyword_ne (v : Visibility) : v.keyword ≠ .AND ∧ v.keyword ≠ .OR := by
  cases v <;> decide

namespace Grammar

/-- The keywords that close a block. -/
def blockEnds : List Keyword :=
  [.ELSE, .ENDIF, .ENDFUNC, .ENDDO, .CASE, .OTHERWISE, .ENDCASE]

/-- What must follow a `RETURN` without a value and a `?` without arguments. -/
def EndsHere (k : Kind) : Prop :=
  k = .newline ∨ k = .endOfFile ∨ ∃ w ∈ blockEnds, k = .keyword w

/-! ## Parts of statements -/

/-- A token of the kind `k`, or nothing. -/
inductive Opt (k : Kind) : (before after : List Token) → Prop
  | absent {after : List Token} : Opt k after after
  | present {t : Token} {after : List Token} (h : t.kind = k) : Opt k (t :: after) after

/-- Any count of line breaks. -/
inductive Newlines : (before after : List Token) → Prop
  | none {after : List Token} : Newlines after after
  | more {t : Token} {before after : List Token} (ht : t.kind = .newline)
      (h : Newlines before after) : Newlines (t :: before) after

/-- A name. -/
inductive Name : (before : List Token) → (x : Ident) → (after : List Token) → Prop
  | mk {t : Token} {after : List Token} (h : t.kind = .name) :
      Name (t :: after) ⟨t.lexeme, t.span⟩ after

/-- `[AS type]` -/
inductive TypeClause : (before : List Token) → (type? : Option DeclaredType) →
    (after : List Token) → Prop
  | absent {after : List Token} : TypeClause after none after
  | present {t : Token} {mid after : List Token} {x : Ident} {type : DeclaredType}
      (ht : t.kind = .keyword .AS) (hx : Name mid x after)
      (h : DeclaredType.ofName? x.name = some type) : TypeClause (t :: mid) (some type) after

/-- `[( [name {, name}] )]` -/
inductive Params : (before : List Token) → (params : List Ident) → (after : List Token) → Prop
  | absent {after : List Token} : Params after [] after
  | empty {t t' : Token} {after : List Token} (ht : t.kind = .symbol .leftParen)
      (ht' : t'.kind = .symbol .rightParen) : Params (t :: t' :: after) [] after
  | names {t t' : Token} {params : List Ident} {mid after : List Token}
      (ht : t.kind = .symbol .leftParen) (h : CommaList Name mid params (t' :: after))
      (ht' : t'.kind = .symbol .rightParen) : Params (t :: mid) params after

section

variable (E : List Token → Expr → List Token → Prop)

/-- `[= expr]` -/
inductive Initial : (before : List Token) → (initial? : Option Expr) → (after : List Token) → Prop
  | absent {after : List Token} : Initial after none after
  | present {t : Token} {mid after : List Token} {e : Expr} (ht : t.kind = .symbol .equal)
      (h : E mid e after) : Initial (t :: mid) (some e) after

/-- `name [AS type] [= expr]` -/
inductive Decl : (before : List Token) → (d : Declarator) → (after : List Token) → Prop
  | mk {x : Ident} {type? : Option DeclaredType} {initial? : Option Expr}
      {before m₁ m₂ after : List Token} (hx : Name before x m₁) (ht : TypeClause m₁ type? m₂)
      (hi : Initial E m₂ initial? after) : Decl before ⟨x, type?, initial?⟩ after

/-- A declared name with line breaks around it. -/
inductive LooseDecl : (before : List Token) → (d : Declarator) → (after : List Token) → Prop
  | mk {d : Declarator} {before m₁ m₂ after : List Token} (h₁ : Newlines before m₁)
      (h : Decl E m₁ d m₂) (h₂ : Newlines m₂ after) : LooseDecl before d after

end

/-! ## Statements -/

mutual

/-- The tokens `before` start with the statement `s`, and `after` follows. -/
inductive Stmt (E : List Token → Expr → List Token → Prop) :
    (before : List Token) → (s : Statement) → (after : List Token) → Prop
  | declare {t : Token} {v : Visibility} {d : Declarator} {mid after : List Token}
      (ht : t.kind = .keyword v.keyword) (h : Decl E mid d after) :
      Stmt E (t :: mid) (.declare v d) after
  | declareAll {t : Token} {v : Visibility} {d d' : Declarator} {ds : List Declarator}
      {mid after : List Token} (ht : t.kind = .keyword v.keyword)
      (h : CommaList (Decl E) mid (d :: d' :: ds) after) :
      Stmt E (t :: mid) (.declareAll v (d :: d' :: ds) false) after
  | group {t t₀ t₁ : Token} {v : Visibility} {ds : List Declarator} {mid after : List Token}
      (ht : t.kind = .keyword v.keyword) (h₀ : t₀.kind = .symbol .leftParen)
      (h : CommaList (LooseDecl E) mid ds (t₁ :: after)) (h₁ : t₁.kind = .symbol .rightParen) :
      Stmt E (t :: t₀ :: mid) (.declareAll v ds true) after
  | function {t t' : Token} {x : Ident} {params : List Ident} {body : List Statement}
      {m₁ m₂ m₃ after : List Token} (ht : t.kind = .keyword .FUNCTION) (hx : Name m₁ x m₂)
      (hp : Params m₂ params m₃) (hb : Body E m₃ body (t' :: after))
      (ht' : t'.kind = .keyword .ENDFUNC) : Stmt E (t :: m₁) (.function x params body) after
  | ret {t : Token} {e : Expr} {mid after : List Token} (ht : t.kind = .keyword .RETURN)
      (h : E mid e after) : Stmt E (t :: mid) (.ret (some e) t.span) after
  | retNone {t : Token} {after : List Token} (ht : t.kind = .keyword .RETURN)
      (h : EndsHere (headKind after)) : Stmt E (t :: after) (.ret none t.span) after
  | ifThen {t t' : Token} {cond : Expr} {yes : List Statement} {m₁ m₂ m₃ after : List Token}
      (ht : t.kind = .keyword .IF) (hc : E m₁ cond m₂) (hthen : Opt (.keyword .THEN) m₂ m₃)
      (hy : Body E m₃ yes (t' :: after)) (ht' : t'.kind = .keyword .ENDIF) :
      Stmt E (t :: m₁) (.ifThen cond yes none) after
  | ifElse {t t₁ t' : Token} {cond : Expr} {yes no : List Statement}
      {m₁ m₂ m₃ m₄ after : List Token} (ht : t.kind = .keyword .IF) (hc : E m₁ cond m₂)
      (hthen : Opt (.keyword .THEN) m₂ m₃) (hy : Body E m₃ yes (t₁ :: m₄))
      (ht₁ : t₁.kind = .keyword .ELSE) (hn : Body E m₄ no (t' :: after))
      (ht' : t'.kind = .keyword .ENDIF) : Stmt E (t :: m₁) (.ifThen cond yes (some no)) after
  | doCase {t t₁ t₂ t' : Token} {branches : List (Expr × List Statement)} {mid after : List Token}
      (ht : t.kind = .keyword .DO) (h₁ : t₁.kind = .keyword .CASE) (h₂ : t₂.kind = .newline)
      (hb : Cases E mid branches (t' :: after)) (ht' : t'.kind = .keyword .ENDCASE) :
      Stmt E (t :: t₁ :: t₂ :: mid) (.doCase branches none) after
  | doCaseElse {t t₁ t₂ t₃ t' : Token} {branches : List (Expr × List Statement)}
      {body : List Statement} {m₁ m₂ after : List Token} (ht : t.kind = .keyword .DO)
      (h₁ : t₁.kind = .keyword .CASE) (h₂ : t₂.kind = .newline)
      (hb : Cases E m₁ branches (t₃ :: m₂)) (h₃ : t₃.kind = .keyword .OTHERWISE)
      (ho : Body E m₂ body (t' :: after)) (ht' : t'.kind = .keyword .ENDCASE) :
      Stmt E (t :: t₁ :: t₂ :: m₁) (.doCase branches (some body)) after
  | doWhile {t t' : Token} {cond : Expr} {body : List Statement} {m₀ m₁ m₂ after : List Token}
      (hd : Opt (.keyword .DO) m₀ (t :: m₁)) (ht : t.kind = .keyword .WHILE) (hc : E m₁ cond m₂)
      (hb : Body E m₂ body (t' :: after)) (ht' : t'.kind = .keyword .ENDDO) :
      Stmt E m₀ (.doWhile cond body) after
  | exit {t : Token} {after : List Token} (ht : t.kind = .keyword .EXIT) :
      Stmt E (t :: after) (.exit t.span) after
  | loop {t : Token} {after : List Token} (ht : t.kind = .keyword .LOOP) :
      Stmt E (t :: after) (.loop t.span) after
  | print {t : Token} {args : List Expr} {mid after : List Token}
      (ht : t.kind = .symbol .question) (h : CommaList E mid args after) :
      Stmt E (t :: mid) (.print args t.span) after
  | printNone {t : Token} {after : List Token} (ht : t.kind = .symbol .question)
      (h : EndsHere (headKind after)) : Stmt E (t :: after) (.print [] t.span) after
  | expr {e : Expr} {before after : List Token} (h : E before e after) :
      Stmt E before (.expr e) after

/-- `{stmt [NEWLINE]}` -/
inductive Stmts (E : List Token → Expr → List Token → Prop) :
    (before : List Token) → (ss : List Statement) → (after : List Token) → Prop
  | nil {after : List Token} : Stmts E after [] after
  | cons {s : Statement} {ss : List Statement} {before m₁ m₂ after : List Token}
      (h : Stmt E before s m₁) (hn : Opt .newline m₁ m₂) (hs : Stmts E m₂ ss after) :
      Stmts E before (s :: ss) after

/-- `NEWLINE {stmt [NEWLINE]}` -/
inductive Body (E : List Token → Expr → List Token → Prop) :
    (before : List Token) → (ss : List Statement) → (after : List Token) → Prop
  | mk {t : Token} {ss : List Statement} {mid after : List Token} (ht : t.kind = .newline)
      (hs : Stmts E mid ss after) : Body E (t :: mid) ss after

/-- `{CASE expr block}` -/
inductive Cases (E : List Token → Expr → List Token → Prop) :
    (before : List Token) → (branches : List (Expr × List Statement)) → (after : List Token) → Prop
  | nil {after : List Token} : Cases E after [] after
  | cons {t : Token} {cond : Expr} {body : List Statement}
      {branches : List (Expr × List Statement)} {m₁ m₂ m₃ after : List Token}
      (ht : t.kind = .keyword .CASE) (hc : E m₁ cond m₂) (hb : Body E m₂ body m₃)
      (hs : Cases E m₃ branches after) : Cases E (t :: m₁) ((cond, body) :: branches) after

end

/-- The tokens are those of the program `p`. -/
def IsProgram (tokens : List Token) (p : Program) : Prop :=
  Stmts (Phrase 1) tokens p []

/-! ## What a statement takes -/

section

variable {E : List Token → Expr → List Token → Prop} {before after : List Token}

theorem Opt.length_le {k : Kind} (h : Opt k before after) : after.length ≤ before.length := by
  cases h with
  | absent => exact Nat.le_refl _
  | present _ => exact Nat.le_succ _

theorem Newlines.length_le (h : Newlines before after) : after.length ≤ before.length := by
  induction h with
  | none => exact Nat.le_refl _
  | more _ _ ih => exact Nat.le_succ_of_le ih

/-- A name takes a token. -/
theorem Name.length_lt {x : Ident} (h : Name before x after) : after.length < before.length := by
  cases h with
  | mk _ => exact Nat.lt_succ_self _

theorem TypeClause.length_le {type? : Option DeclaredType} (h : TypeClause before type? after) :
    after.length ≤ before.length := by
  cases h with
  | absent => exact Nat.le_refl _
  | present _ hx _ => exact Nat.le_succ_of_le (Nat.le_of_lt hx.length_lt)

/-- Lists take what their items take. -/
theorem CommaList.length_lt {α : Type} {R : List Token → α → List Token → Prop}
    (hR : ∀ before x after, R before x after → after.length < before.length) {xs : List α}
    (h : CommaList R before xs after) : after.length < before.length := by
  induction h with
  | one h => exact hR _ _ _ h
  | more h _ _ ih =>
    have := hR _ _ _ h
    rw [List.length_cons] at this
    omega

theorem Params.length_le {params : List Ident} (h : Params before params after) :
    after.length ≤ before.length := by
  cases h with
  | absent => exact Nat.le_refl _
  | empty _ _ => simp only [List.length_cons]; omega
  | names _ h _ =>
    have := h.length_lt fun _ _ _ h => h.length_lt
    simp only [List.length_cons] at this ⊢
    omega

variable (hE : ∀ before e after, E before e after → after.length < before.length)

include hE

/-- A declarator takes a token at least, for it starts with a name. -/
theorem Decl.length_lt {d : Declarator} (h : Decl E before d after) :
    after.length < before.length := by
  cases h with
  | mk hx ht hi =>
    have h₁ := hx.length_lt
    have h₂ := ht.length_le
    cases hi with
    | absent => omega
    | present _ h =>
      have h₃ := hE _ _ _ h
      rw [List.length_cons] at h₂
      omega

theorem LooseDecl.length_lt {d : Declarator} (h : LooseDecl E before d after) :
    after.length < before.length := by
  cases h with
  | mk h₁ h h₂ =>
    have h₁ := h₁.length_le
    have h := h.length_lt hE
    have h₂ := h₂.length_le
    omega

end

mutual

/-- A statement takes tokens off the front, one at least. -/
theorem Stmt.length_lt {E : List Token → Expr → List Token → Prop}
    (hE : ∀ before e after, E before e after → after.length < before.length)
    {before after : List Token} {s : Statement} :
    Stmt E before s after → after.length < before.length
  | .declare _ h => Nat.lt_succ_of_lt (h.length_lt hE)
  | .declareAll _ h => Nat.lt_succ_of_lt (h.length_lt fun _ _ _ h => h.length_lt hE)
  | .group _ _ h _ => by
    have := h.length_lt fun _ _ _ h => h.length_lt hE
    simp only [List.length_cons] at this ⊢
    omega
  | .function _ hx hp hb _ => by
    have h₁ := hx.length_lt
    have h₂ := hp.length_le
    have h₃ := hb.length_lt hE
    simp only [List.length_cons] at h₃ ⊢
    omega
  | .ret _ h => Nat.lt_succ_of_lt (hE _ _ _ h)
  | .retNone _ _ => Nat.lt_succ_self _
  | .ifThen _ hc hthen hy _ => by
    have h₁ := hE _ _ _ hc
    have h₂ := hthen.length_le
    have h₃ := hy.length_lt hE
    simp only [List.length_cons] at h₃ ⊢
    omega
  | .ifElse _ hc hthen hy _ hn _ => by
    have h₁ := hE _ _ _ hc
    have h₂ := hthen.length_le
    have h₃ := hy.length_lt hE
    have h₄ := hn.length_lt hE
    simp only [List.length_cons] at h₃ h₄ ⊢
    omega
  | .doCase _ _ _ hb _ => by
    have h₁ := hb.length_le hE
    simp only [List.length_cons] at h₁ ⊢
    omega
  | .doCaseElse _ _ _ hb _ ho _ => by
    have h₁ := hb.length_le hE
    have h₂ := ho.length_lt hE
    simp only [List.length_cons] at h₁ h₂ ⊢
    omega
  | .doWhile hd _ hc hb _ => by
    have h₁ := hd.length_le
    have h₂ := hE _ _ _ hc
    have h₃ := hb.length_lt hE
    simp only [List.length_cons] at h₁ h₃
    omega
  | .exit _ => Nat.lt_succ_self _
  | .loop _ => Nat.lt_succ_self _
  | .print _ h => Nat.lt_succ_of_lt (h.length_lt hE)
  | .printNone _ _ => Nat.lt_succ_self _
  | .expr h => hE _ _ _ h

/-- Statements give back no tokens. -/
theorem Stmts.length_le {E : List Token → Expr → List Token → Prop}
    (hE : ∀ before e after, E before e after → after.length < before.length)
    {before after : List Token} {ss : List Statement} :
    Stmts E before ss after → after.length ≤ before.length
  | .nil => Nat.le_refl _
  | .cons h hn hs => by
    have h₁ := h.length_lt hE
    have h₂ := hn.length_le
    have h₃ := hs.length_le hE
    omega

/-- A body takes the newline before its statements at least. -/
theorem Body.length_lt {E : List Token → Expr → List Token → Prop}
    (hE : ∀ before e after, E before e after → after.length < before.length)
    {before after : List Token} {ss : List Statement} :
    Body E before ss after → after.length < before.length
  | .mk _ hs => Nat.lt_succ_of_le (hs.length_le hE)

/-- Cases give back no tokens. -/
theorem Cases.length_le {E : List Token → Expr → List Token → Prop}
    (hE : ∀ before e after, E before e after → after.length < before.length)
    {before after : List Token} {branches : List (Expr × List Statement)} :
    Cases E before branches after → after.length ≤ before.length
  | .nil => Nat.le_refl _
  | .cons _ hc hb hs => by
    have h₁ := hE _ _ _ hc
    have h₂ := hb.length_lt hE
    have h₃ := hs.length_le hE
    simp only [List.length_cons]
    omega

end

/-! ## Expressions that nothing goes on with

Two expressions side by side may be read as one. A derivation in which this happens is turned into
one in which every expression goes as far as it can. -/

/-- No token that goes on with an expression stands in front. -/
def Settled (ts : List Token) : Prop :=
  Continuation.ofKind? (headKind ts) = none

/-- An expression that nothing goes on with. -/
def Whole (before : List Token) (e : Expr) (after : List Token) : Prop :=
  Phrase 1 before e after ∧ Settled after

/-- An expression that ends at `after` can be made to end at `after'`, where nothing goes on with
it: that is `after` itself, or the expression that starts at `after` is taken along. -/
def Settles (after after' : List Token) : Prop :=
  after' = after ∧ Settled after ∨
    Ambiguous (headKind after) ∧ ∃ e, Phrase 1 after e after' ∧ Settled after'

variable {before mid after after' : List Token} {t : Token}

theorem settled_of_kind {k : Kind} (h : headKind after = k)
    (hk : Continuation.ofKind? k = none) : Settled after := by
  rw [Settled, h, hk]

theorem settled_cons {k : Kind} (h : t.kind = k) (hk : Continuation.ofKind? k = none) :
    Settled (t :: after) :=
  settled_of_kind h hk

theorem Settled.settles (h : Settled after) : Settles after after := .inl ⟨rfl, h⟩

/-- An expression before tokens that settle can be read to where they do. -/
theorem Phrase.settle {e : Expr} (h : Phrase 1 before e after) (hs : Settles after after') :
    ∃ e', Whole before e' after' := by
  obtain ⟨rfl, hs⟩ | ⟨hk, e₂, h₂, hs⟩ := hs
  · exact ⟨e, h, hs⟩
  · obtain ⟨e', he⟩ := h.join hk h₂
    exact ⟨e', he, hs⟩

theorem Phrase.whole {e : Expr} (h : Phrase 1 before e after) (hs : Settled after) :
    Whole before e after := ⟨h, hs⟩

/-- Newlines are none at all, or the first token is one. -/
theorem Newlines.eq_or_newline (h : Newlines before after) :
    before = after ∨ headKind before = .newline := by
  cases h with
  | none => exact .inl rfl
  | more ht _ => exact .inr ht

/-- An item of a list that ends in an expression, or does not. -/
def SettlesTo {α : Type} (R R' : List Token → α → List Token → Prop) : Prop :=
  ∀ before x after after', R before x after → Settles after after' →
    ∃ x', R' before x' after' ∨ R' before x' after

/-- A declarator can be read with a whole expression as its value. -/
theorem Decl.settle : SettlesTo (Decl (Phrase 1)) (Decl Whole) := by
  intro before d after after' h hs
  cases h with
  | mk hx ht hi =>
    cases hi with
    | absent => exact ⟨_, .inr (.mk hx ht .absent)⟩
    | present hq h =>
      obtain ⟨e', he⟩ := h.settle hs
      exact ⟨_, .inl (.mk hx ht (.present hq he))⟩

/-- The same with line breaks around the declarator, which may settle it too. -/
theorem LooseDecl.settle : SettlesTo (LooseDecl (Phrase 1)) (LooseDecl Whole) := by
  intro before d after after' h hs
  cases h with
  | mk h₁ h h₂ =>
    obtain rfl | hk := h₂.eq_or_newline
    · obtain ⟨d', hd | hd⟩ := Decl.settle _ _ _ _ h hs
      · exact ⟨d', .inl (.mk h₁ hd .none)⟩
      · exact ⟨d', .inr (.mk h₁ hd .none)⟩
    · have hset := (settled_of_kind hk rfl).settles
      obtain ⟨d', hd | hd⟩ := Decl.settle _ _ _ _ h hset
      · exact ⟨d', .inr (.mk h₁ hd h₂)⟩
      · exact ⟨d', .inr (.mk h₁ hd h₂)⟩

/-- If the members of a list can be settled, so can the list: only its last member meets what
follows. -/
theorem CommaList.settle {α : Type} {R R' : List Token → α → List Token → Prop}
    (hR : SettlesTo R R') {xs : List α} (h : CommaList R before xs after)
    (hs : Settles after after') :
    ∃ xs', xs'.length = xs.length ∧
      (CommaList R' before xs' after' ∨ CommaList R' before xs' after) := by
  induction h with
  | one h =>
    obtain ⟨x', hx | hx⟩ := hR _ _ _ _ h hs
    · exact ⟨[x'], rfl, .inl (.one hx)⟩
    · exact ⟨[x'], rfl, .inr (.one hx)⟩
  | more h ht _ ih =>
    -- A comma goes on with no expression.
    obtain ⟨x', hx⟩ := hR _ _ _ _ h (settled_cons ht rfl).settles
    obtain ⟨xs', hlen, hxs⟩ := ih hs
    have hlen : (x' :: xs').length = _ := congrArg Nat.succ hlen
    obtain hxs | hxs := hxs
    · exact ⟨x' :: xs', hlen, .inl (.more (or_self_iff.mp hx) ht hxs)⟩
    · exact ⟨x' :: xs', hlen, .inr (.more (or_self_iff.mp hx) ht hxs)⟩

/-- In front of the body of a compound statement nothing goes on with an expression. -/
theorem Body.settled {E : List Token → Expr → List Token → Prop} {ss : List Statement}
    (h : Body E before ss after) : Settled before := by
  cases h with
  | mk ht _ => exact settled_cons ht rfl

/-- Tokens before an optional token that continues no expression are settled. -/
theorem Opt.settled {k : Kind} (h : Opt k before after) (hk : Continuation.ofKind? k = none)
    (hs : Settled after) : Settled before := by
  cases h with
  | absent => exact hs
  | present ht => exact settled_cons ht hk

/-- Tokens before the cases are settled, for `CASE` continues no expression. -/
theorem Cases.settled {E : List Token → Expr → List Token → Prop}
    {branches : List (Expr × List Statement)} (h : Cases E before branches after)
    (hs : Settled after) : Settled before := by
  cases h with
  | nil => exact hs
  | cons ht _ _ _ => exact settled_cons ht rfl

/-- A statement that starts with a token that could go on with an expression is an expression. -/
theorem Stmt.expr_of_not_settled {s : Statement} (h : Stmt Whole before s after)
    (hn : ¬ Settled before) : ∃ e, s = .expr e ∧ Whole before e after := by
  have not_keyword {t : Token} {w : Keyword} {mid : List Token} (ht : t.kind = .keyword w)
      (hw : w ≠ .AND ∧ w ≠ .OR) : Settled (t :: mid) := by
    rw [Settled, headKind_cons, ht]
    revert hw
    cases w <;> decide
  cases h with
  | expr h => exact ⟨_, rfl, h⟩
  | declare ht _ | declareAll ht _ | group ht _ _ _ =>
    exact absurd (not_keyword ht (Visibility.keyword_ne _)) hn
  | function ht _ _ _ _ | ret ht _ | retNone ht _ | ifThen ht _ _ _ _ | ifElse ht _ _ _ _ _ _
  | doCase ht _ _ _ _ | doCaseElse ht _ _ _ _ _ _ | exit ht | loop ht =>
    exact absurd (not_keyword ht (by decide)) hn
  | doWhile hd ht _ _ _ =>
    cases hd with
    | absent => exact absurd (not_keyword ht (by decide)) hn
    | present hd => exact absurd (not_keyword hd (by decide)) hn
  | print ht _ | printNone ht _ => exact absurd (settled_cons ht rfl) hn

mutual

/-- A statement can be made to end where nothing goes on with its last expression. If it does not
end in an expression, it ends where it did. -/
theorem Stmt.settle {before after after' : List Token} {s : Statement} :
    Stmt (Phrase 1) before s after → Settles after after' →
    ∃ s', Stmt Whole before s' after' ∨ Stmt Whole before s' after
  | .declare ht h, hs => by
    obtain ⟨d', hd | hd⟩ := Decl.settle _ _ _ _ h hs
    · exact ⟨_, .inl (.declare ht hd)⟩
    · exact ⟨_, .inr (.declare ht hd)⟩
  | .declareAll ht h, hs => by
    obtain ⟨ds', hlen, hds⟩ := CommaList.settle Decl.settle h hs
    match ds', hlen with
    | d :: d' :: ds, _ =>
      obtain hds | hds := hds
      · exact ⟨_, .inl (.declareAll ht hds)⟩
      · exact ⟨_, .inr (.declareAll ht hds)⟩
  | .group ht h₀ h h₁, _ => by
    obtain ⟨ds', -, hds⟩ := CommaList.settle LooseDecl.settle h (settled_cons h₁ rfl).settles
    exact ⟨_, .inr (.group ht h₀ (or_self_iff.mp hds) h₁)⟩
  | .function ht hx hp hb ht', _ => by
    obtain ⟨body', hb⟩ := hb.settle (settled_cons ht' rfl)
    exact ⟨_, .inr (.function ht hx hp hb ht')⟩
  | .ret ht h, hs => by
    obtain ⟨e', he⟩ := h.settle hs
    exact ⟨_, .inl (.ret ht he)⟩
  | .retNone ht h, _ => ⟨_, .inr (.retNone ht h)⟩
  | .ifThen ht hc hthen hy ht', _ => by
    obtain ⟨yes', hy'⟩ := hy.settle (settled_cons ht' rfl)
    exact ⟨_, .inr (.ifThen ht (hc.whole (hthen.settled rfl hy.settled)) hthen hy' ht')⟩
  | .ifElse ht hc hthen hy ht₁ hn ht', _ => by
    obtain ⟨yes', hy'⟩ := hy.settle (settled_cons ht₁ rfl)
    obtain ⟨no', hn'⟩ := hn.settle (settled_cons ht' rfl)
    exact ⟨_, .inr (.ifElse ht (hc.whole (hthen.settled rfl hy.settled)) hthen hy' ht₁ hn' ht')⟩
  | .doCase ht h₁ h₂ hb ht', _ => by
    obtain ⟨branches', hb'⟩ := hb.settle (settled_cons ht' rfl)
    exact ⟨_, .inr (.doCase ht h₁ h₂ hb' ht')⟩
  | .doCaseElse ht h₁ h₂ hb h₃ ho ht', _ => by
    obtain ⟨branches', hb'⟩ := hb.settle (settled_cons h₃ rfl)
    obtain ⟨body', ho'⟩ := ho.settle (settled_cons ht' rfl)
    exact ⟨_, .inr (.doCaseElse ht h₁ h₂ hb' h₃ ho' ht')⟩
  | .doWhile hd ht hc hb ht', _ => by
    obtain ⟨body', hb'⟩ := hb.settle (settled_cons ht' rfl)
    exact ⟨_, .inr (.doWhile hd ht (hc.whole hb.settled) hb' ht')⟩
  | .exit ht, _ => ⟨_, .inr (.exit ht)⟩
  | .loop ht, _ => ⟨_, .inr (.loop ht)⟩
  | .print ht h, hs => by
    have hE : SettlesTo (Phrase 1) Whole := fun _ _ _ _ h hs => by
      obtain ⟨e', he⟩ := h.settle hs
      exact ⟨e', .inl he⟩
    obtain ⟨args', -, ha | ha⟩ := CommaList.settle hE h hs
    · exact ⟨_, .inl (.print ht ha)⟩
    · exact ⟨_, .inr (.print ht ha)⟩
  | .printNone ht h, _ => ⟨_, .inr (.printNone ht h)⟩
  | .expr h, hs => by
    obtain ⟨e', he⟩ := h.settle hs
    exact ⟨_, .inl (.expr he)⟩

/-- Statements can be read with whole expressions for theirs. -/
theorem Stmts.settle {before after : List Token} {ss : List Statement} :
    Stmts (Phrase 1) before ss after → Settled after → ∃ ss', Stmts Whole before ss' after
  | .nil, _ => ⟨[], .nil⟩
  | .cons h hn hs, hset => by
    obtain ⟨ss', hs'⟩ := hs.settle hset
    have ih := fun after' (hs : Settles _ after') => h.settle hs
    cases hn with
    | present hk =>
      obtain ⟨s', h'⟩ := ih _ (settled_cons hk rfl).settles
      exact ⟨_, .cons (or_self_iff.mp h') (.present hk) hs'⟩
    | absent =>
      rename_i mid
      by_cases hmid : Settled mid
      · obtain ⟨s', h'⟩ := ih _ hmid.settles
        exact ⟨_, .cons (or_self_iff.mp h') .absent hs'⟩
      · -- The next statement is an expression that the one before may take along.
        cases hs' with
        | nil => exact absurd hset hmid
        | cons h₂ hn₂ hs₂ =>
          obtain ⟨e, rfl, he⟩ := h₂.expr_of_not_settled hmid
          obtain ⟨s', h' | h'⟩ := ih _ (.inr ⟨he.1.ambiguous hmid, e, he⟩)
          · exact ⟨_, .cons h' hn₂ hs₂⟩
          · exact ⟨_, .cons h' .absent (.cons (.expr he) hn₂ hs₂)⟩

/-- A body can be read with whole expressions for those of its statements. -/
theorem Body.settle {before after : List Token} {ss : List Statement} :
    Body (Phrase 1) before ss after → Settled after → ∃ ss', Body Whole before ss' after
  | .mk ht hs, hset => by
    obtain ⟨ss', hs'⟩ := hs.settle hset
    exact ⟨ss', .mk ht hs'⟩

/-- Cases can be read with whole expressions as their conditions. -/
theorem Cases.settle {before after : List Token} {branches : List (Expr × List Statement)} :
    Cases (Phrase 1) before branches after → Settled after →
    ∃ branches', Cases Whole before branches' after
  | .nil, _ => ⟨[], .nil⟩
  | .cons ht hc hb hs, hset => by
    obtain ⟨branches', hs'⟩ := hs.settle hset
    obtain ⟨body', hb'⟩ := hb.settle (hs.settled hset)
    exact ⟨_, .cons ht (hc.whole hb.settled) hb' hs'⟩

end

end Grammar

end Xbase
