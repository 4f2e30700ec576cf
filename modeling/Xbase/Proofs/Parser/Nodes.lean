import Xbase.Proofs.Expr.Layout
import Xbase.Proofs.Parser.Run
import Xbase.Parser.Expr

/-!
# Reading an expression node by node

`Parser.arena` reads an expression into an arena: every rule adds its node when its parts have been
added, and parentheses add none. A rule that fails half-way may have added nodes of its parts, and
then the whole arena is given up.

`Parser.arena_run` says that this gives the nodes of the tree that `Parser.expression` reads, and
that it reads the same tokens and records the same errors. Numbers of nodes are exact, as in
`Arena`: they fit into 32 bits below `2 ^ 32` nodes.
-/

namespace Xbase.Parser

variable {α β : Type}

/-! ## Parsers that add nodes -/

/-- A parser that adds nodes to those that are there. -/
abbrev Builder : Type → Type := StateT (Array Node) Parser

/-- Adds a node behind the others; its number is how many there were. -/
def addNode (node : Node) : Builder Nat :=
  fun nodes => pure (nodes.size, nodes.push node)

/-- Reads one or more items with commas between them, `count` at most. -/
def nodeList (item : Builder Nat) : (count : Nat) → Builder (List Nat)
  | 0 => StateT.lift fail
  | count + 1 => do
    let first ← item
    if ← eat (.symbol .comma) then
      let more ← nodeList item count
      return first :: more
    else return [first]

mutual

/-- An expression whose operators outside parentheses bind tighter than `min`. -/
def nodeAt : (depth : Nat) → (min : Precedence) → Builder Nat
  | 0, _ => StateT.lift fail
  | depth + 1, min => do
    let left ← operandNode depth
    climbNode depth min left

/-- An atom, a sign with its operand, an expression in parentheses or a conditional. -/
def operandNode : (depth : Nat) → Builder Nat
  | 0 => StateT.lift fail
  | depth + 1 => do
    let token ← current
    if token.kind = .number then
      let _ ← advance
      match Number.ofText? token.lexeme with
      | some n => addNode (.atom (.number n) token.span)
      | none => StateT.lift (failWith (.invalidNumber token.lexeme))
    else if let some a := atom? token then
      let _ ← advance
      addNode (.atom a token.span)
    else if let some op := unary? token.kind then
      let _ ← advance
      let operand ← nodeAt depth .unary
      addNode (.unary op operand token.span)
    else if token.kind = .symbol .leftParen then
      let _ ← advance
      let inner ← nodeAt depth .lowest
      let _ ← expect (.symbol .rightParen)
      return inner
    else if token.kind = .keyword .IIF then
      let _ ← advance
      let _ ← expect (.symbol .leftParen)
      let condition ← nodeAt depth .lowest
      let _ ← expect (.symbol .comma)
      let yes ← nodeAt depth .lowest
      let _ ← expect (.symbol .comma)
      let no ← nodeAt depth .lowest
      let closing ← expect (.symbol .rightParen)
      addNode (.iif condition yes no (token.span.merge closing.span))
    else StateT.lift (failWith (.nonExpression token.kind))

/-- Goes on with the expression `left` while operators that bind tighter than `min` follow. -/
def climbNode : (depth : Nat) → (min : Precedence) → (left : Nat) → Builder Nat
  | 0, _, _ => StateT.lift fail
  | depth + 1, min, left => do
    let token ← current
    match Continuation.ofKind? token.kind with
    | none => return left
    | some rule =>
      if rule.precedence.rank ≤ min.rank then return left
      else
        let _ ← advance
        match rule with
        | .binary op =>
          let right ← nodeAt depth op.precedence
          climbNode depth min (← addNode (.binary op left right))
        | .logic op =>
          let right ← nodeAt depth op.precedence
          climbNode depth min (← addNode (.logic op left right))
        | .assign op =>
          let value ← nodeAt depth .lowest
          climbNode depth min (← addNode (.assign op left value))
        | .call =>
          let next ← current
          let args ← if next.kind = .symbol .rightParen then pure []
            else nodeList (nodeAt depth .lowest) depth
          let closing ← expect (.symbol .rightParen)
          climbNode depth min (← addNode (.call left args closing.span))

end

/-- One expression as an arena. If there is none, an error is recorded. -/
def arena : Parser Arena :=
  fun s => (do
    let (root, nodes) ← nodeAt s.budget .lowest #[]
    match Arena.ofNodes? nodes root with
    | some a => return a
    | none => fail : Parser Arena) s

/-! ## Trees and nodes -/

theorem bind_bind {γ : Type} (p : Parser α) (f : α → Parser β) (g : β → Parser γ) :
    (p >>= f) >>= g = p >>= fun a => f a >>= g := by
  funext s
  rw [bind_run, bind_run, bind_run]
  rcases p s with ⟨_ | a, s'⟩ <;> rfl

/-- Reads what `p` reads and adds the nodes of it. -/
def onto (p : Parser Expr) (nodes : Array Node) : Parser (Nat × Array Node) :=
  p >>= fun e => pure ((Arena.push nodes e).2, (Arena.push nodes e).1)

theorem lift_bind (p : Parser α) (f : α → Builder β) (nodes : Array Node) :
    ((liftM p : Builder α) >>= f) nodes = p >>= fun a => f a nodes := by
  change (p >>= fun a => pure (a, nodes)) >>= (fun x => f x.1 x.2) = _
  rw [bind_bind]
  rfl

theorem onto_bind (p : Parser α) (f : α → Parser Expr) (nodes : Array Node) :
    onto (p >>= f) nodes = p >>= fun a => onto (f a) nodes :=
  bind_bind ..

/-- What comes behind a builder that adds what `p` reads goes on with the nodes of it. -/
theorem builder_bind {b : Builder β} {nodes : Array Node} {p : Parser α} {add : α → β × Array Node}
    (h : b nodes = p >>= fun a => pure (add a)) {γ : Type} (f : β → Builder γ) :
    (b >>= f) nodes = p >>= fun a => f (add a).1 (add a).2 := by
  change b nodes >>= (fun x => f x.1 x.2) = _
  rw [h, bind_bind]
  rfl

/-- A list of nodes is laid out as the list of expressions is, if each member is. -/
theorem nodeList_of_onto {b : Builder Nat} {p : Parser Expr}
    (h : ∀ nodes, b nodes = onto p nodes) (count : Nat) (nodes : Array Node) :
    nodeList b count nodes = commaList p count >>= fun es =>
      pure ((Arena.pushAll nodes es).2, (Arena.pushAll nodes es).1) := by
  induction count generalizing nodes with
  | zero => rfl
  | succ count ih =>
    rw [nodeList, commaList, builder_bind (h nodes), bind_bind]
    congr 1
    funext e
    rw [lift_bind, bind_bind]
    congr 1
    funext more
    cases more with
    | false => rfl
    | true =>
      simp only [if_true, bind_bind]
      exact builder_bind (ih _) _

mutual

/-- Nodes are added as the expression is laid out that is read there. -/
theorem nodeAt_onto (depth : Nat) (min : Precedence) (nodes : Array Node) :
    nodeAt depth min nodes = onto (exprAt depth min) nodes := by
  cases depth with
  | zero => rw [nodeAt, exprAt]; rfl
  | succ depth =>
    rw [nodeAt, exprAt, builder_bind (operandNode_onto depth nodes), onto_bind]
    congr 1
    funext e
    exact climbNode_onto depth min e nodes

theorem operandNode_onto (depth : Nat) (nodes : Array Node) :
    operandNode depth nodes = onto (operand depth) nodes := by
  cases depth with
  | zero => rw [operandNode, operand]; rfl
  | succ depth =>
    have inner min nodes (f : Nat → Builder Nat) := builder_bind (nodeAt_onto depth min nodes) f
    rw [operandNode, operand, lift_bind, onto_bind]
    congr 1
    funext token
    by_cases hnumber : token.kind = .number
    · simp only [if_pos hnumber, number, lift_bind, onto_bind]
      cases Number.ofText? token.lexeme <;> rfl
    simp only [if_neg hnumber]
    cases atom? token with
    | some a => simp only [lift_bind, onto_bind]; rfl
    | none =>
    cases unary? token.kind with
    | some op => simp only [lift_bind, onto_bind, inner]; rfl
    | none =>
    by_cases hparen : token.kind = .symbol .leftParen
    · simp only [if_pos hparen, lift_bind, onto_bind, inner]; rfl
    simp only [if_neg hparen]
    by_cases hiif : token.kind = .keyword .IIF
    · simp only [if_pos hiif, lift_bind, onto_bind, inner]; rfl
    · simp only [if_neg hiif]
      rfl

/-- The same for what is read behind an operand that is laid out already. -/
theorem climbNode_onto (depth : Nat) (min : Precedence) (left : Expr) (nodes : Array Node) :
    climbNode depth min (Arena.push nodes left).2 (Arena.push nodes left).1 =
      onto (climb depth min left) nodes := by
  cases depth with
  | zero => rw [climbNode, climb]; rfl
  | succ depth =>
    have inner min nodes (f : Nat → Builder Nat) := builder_bind (nodeAt_onto depth min nodes) f
    rw [climbNode, climb, lift_bind, onto_bind]
    congr 1
    funext token
    cases Continuation.ofKind? token.kind with
    | none => rfl
    | some rule =>
      simp only
      by_cases hstop : rule.precedence.rank ≤ min.rank
      · simp only [if_pos hstop]; rfl
      simp only [if_neg hstop, lift_bind, onto_bind]
      congr 1
      funext _
      cases rule with
      | binary op =>
        simp only [inner, onto_bind]
        congr 1
        funext right
        exact climbNode_onto depth min (.binary op left right) nodes
      | logic op =>
        simp only [inner, onto_bind]
        congr 1
        funext right
        exact climbNode_onto depth min (.logic op left right) nodes
      | assign op =>
        simp only [inner, onto_bind]
        congr 1
        funext value
        exact climbNode_onto depth min (.assign op left value) nodes
      | call =>
        -- With or without arguments, the call ends at its closing parenthesis.
        have hclose (args : List Expr) :
            ((liftM (expect (.symbol .rightParen)) : Builder Token) >>= fun closing => do
              climbNode depth min (← addNode (.call (Arena.push nodes left).2
                (Arena.pushAll (Arena.push nodes left).1 args).2 closing.span)))
              (Arena.pushAll (Arena.push nodes left).1 args).1 =
            onto (expect (.symbol .rightParen) >>= fun closing =>
              climb depth min (.call left args closing.span)) nodes := by
          rw [lift_bind, onto_bind]
          congr 1
          funext closing
          exact climbNode_onto depth min (.call left args closing.span) nodes
        simp only [lift_bind, onto_bind]
        congr 1
        funext next
        by_cases hnone : next.kind = .symbol .rightParen
        · simp only [if_pos hnone]
          exact hclose []
        · simp only [if_neg hnone]
          rw [builder_bind (nodeList_of_onto (nodeAt_onto depth .lowest) depth _), onto_bind]
          congr 1
          funext args
          exact hclose args

end

/-- Reading an expression node by node gives the nodes of its tree. -/
theorem arena_run (s : ParseState) :
    arena s = ((expression s).1.map Arena.ofExpr, (expression s).2) := by
  have hroot (e : Expr) :
      Arena.ofNodes? (Arena.push #[] e).1 (Arena.push #[] e).2 = some (Arena.ofExpr e) := by
    rw [Arena.ofNodes?, (Arena.push_added #[] e).size, if_pos (Nat.lt_succ_self _)]
    rfl
  rw [arena, nodeAt_onto, onto, bind_bind, bind_run, expression]
  rcases exprAt s.budget .lowest s with ⟨_ | e, s'⟩
  · rfl
  · simp only [Option.map_some]
    rw [bind_some (pure_run _ s')]
    simp only [hroot]
    rfl

end Xbase.Parser
