import Xbase.Proofs.Expr.Layout
import Xbase.Proofs.Expr.RoundTrip

/-!
# Reading numbered nodes

An expression is shown and evaluated node by node where it is given as an arena. Each of these
functions goes from a node to its parts by their numbers, and has no result where a number has no
node. On the nodes of an expression they all have a result, which is that of the expression
(`Arena.Lays.span`, `Arena.Lays.tree`, `Arena.Lays.sexpr`, `Arena.Lays.source`).
-/

namespace Xbase.Arena

/-! ## Texts -/

/-- The S-expression of the node `i`, by a search of depth `depth`. -/
def sexprWithin (nodes : Array Node) : (depth : Nat) → (i : Nat) → Option String
  | 0, _ => none
  | depth + 1, i => do
    let text := sexprWithin nodes depth
    match ← nodes[i]? with
    | .atom a _ => return a.sexpr
    | .unary op operand _ => return "(" ++ op.sign ++ " " ++ (← text operand) ++ ")"
    | .binary op left right =>
      return "(" ++ op.sign ++ " " ++ (← text left) ++ " " ++ (← text right) ++ ")"
    | .assign op target value =>
      return "(" ++ op.sign ++ " " ++ (← text target) ++ " " ++ (← text value) ++ ")"
    | .logic op left right =>
      return "(" ++ op.sign ++ " " ++ (← text left) ++ " " ++ (← text right) ++ ")"
    | .call callee args _ =>
      return "(call " ++ (← text callee) ++ spaced (← args.mapM text) ++ ")"
    | .iif condition yes no _ =>
      return "(iif " ++ (← text condition) ++ " " ++ (← text yes) ++ " " ++ (← text no) ++ ")"

/-- The node `i` as it is written in a program, by a search of depth `depth`; `nested` if it is an
operand. -/
def sourceWithin (nodes : Array Node) : (depth : Nat) → (nested : Bool) → (i : Nat) → Option String
  | 0, _, _ => none
  | depth + 1, nested, i => do
    let text := sourceWithin nodes depth
    match ← nodes[i]? with
    | .atom a _ => return a.source
    | .unary op operand _ => return parenthesized nested (op.sign ++ (← text true operand))
    | .binary op left right =>
      return parenthesized nested
        ((← text true left) ++ " " ++ op.sign ++ " " ++ (← text true right))
    | .assign op target value =>
      return parenthesized nested
        ((← text true target) ++ " " ++ op.sign ++ " " ++ (← text true value))
    | .logic op left right =>
      return parenthesized nested
        ((← text true left) ++ " " ++ op.sign ++ " " ++ (← text true right))
    | .call callee args _ =>
      return (← text true callee) ++ "(" ++ ", ".intercalate (← args.mapM (text false)) ++ ")"
    | .iif condition yes no _ =>
      return "IIF(" ++ (← text false condition) ++ ", " ++ (← text false yes) ++ ", "
        ++ (← text false no) ++ ")"

/-! ## Nodes of expressions -/

variable {nodes : Array Node} {first i : Nat} {e : Expr}

/-- A function that is right on every part, computed part by part. -/
theorem mapM_of_parts {β : Type} {f : Nat → Option β} {g : Expr → β} {is : List Nat}
    {es : List Expr} (h : List.Forall₂ (fun c x => f c = some (g x)) is es) :
    is.mapM f = some (es.map g) := by
  induction h with
  | nil => rfl
  | cons hd _ ih =>
    rw [List.mapM_cons, hd, ih]
    rfl

/-- What a search finds out about a node from what it finds out about the parts holds of the nodes
of an expression, if the depth is above the number of its node. -/
theorem Lays.reads {P : (depth i : Nat) → Expr → Prop}
    (step : ∀ depth i node e, nodes[i]? = some node → node.Heads e →
      List.Forall₂ (P depth) node.parts e.parts → P (depth + 1) i e)
    (h : Lays nodes first i e) (depth : Nat) (hd : i < depth) : P depth i e := by
  revert depth
  refine h.induct (P := fun i e => ∀ depth, i < depth → P depth i e) ?_
  intro i node e get heads parts depth hd
  obtain ⟨d, rfl⟩ := Nat.exists_eq_add_one_of_ne_zero (Nat.ne_zero_of_lt hd)
  refine step d i node e get heads (parts.imp fun c x hc => ?_)
  exact hc.2 d (Nat.lt_of_lt_of_le hc.1 (Nat.lt_succ_iff.1 hd))

/-- The span that the nodes give is that of the expression. -/
theorem Lays.span (h : Lays nodes first i e) (depth : Nat) (hd : i < depth) :
    spanWithin nodes depth i = some e.span := by
  refine h.reads (P := fun depth i e => spanWithin nodes depth i = some e.span) ?_ depth hd
  intro d i node e get heads parts
  rw [spanWithin, get]
  cases heads with
  | atom | iif => rfl
  | unary | binary | assign | logic | call => simp_all [Node.parts, Expr.parts, Expr.span]

theorem Lays.lt_size (h : Lays nodes first i e) : i < nodes.size := by
  obtain ⟨-, get, -⟩ := h
  exact (Array.getElem?_eq_some_iff.1 get).1

theorem Lays.span_eq {a : Arena} (h : Lays a.nodes first i e) : a.span? i = some e.span :=
  h.span _ h.lt_size

theorem Lays.name (h : Lays nodes first i e) :
    ∃ node, nodes[i]? = some node ∧ node.name? = e.name? := by
  obtain ⟨-, get, heads⟩ := h
  refine ⟨_, get, ?_⟩
  cases heads with
  | @atom a _ => cases a <;> rfl
  | _ => rfl

/-- The expression can be read back from its nodes. -/
theorem Lays.tree (h : Lays nodes first i e) (depth : Nat) (hd : i < depth) :
    treeWithin nodes depth i = some e := by
  refine h.reads (P := fun depth i e => treeWithin nodes depth i = some e) ?_ depth hd
  intro d i node e get heads parts
  rw [treeWithin, get]
  cases heads with
  | atom => rfl
  | unary | binary | assign | logic | iif => simp_all [Node.parts, Expr.parts]
  | call =>
    obtain ⟨hcallee, hargs⟩ := List.forall₂_cons.1 parts
    simp [hcallee, mapM_of_parts (g := id) hargs]

theorem sexprs_eq (es : List Expr) : Expr.sexprs es = es.map Expr.sexpr := by
  induction es with
  | nil => rfl
  | cons e es ih => rw [Expr.sexprs, ih, List.map_cons]

/-- The S-expression made from the nodes is that of the expression. -/
theorem Lays.sexpr (h : Lays nodes first i e) (depth : Nat) (hd : i < depth) :
    sexprWithin nodes depth i = some e.sexpr := by
  refine h.reads (P := fun depth i e => sexprWithin nodes depth i = some e.sexpr) ?_ depth hd
  intro d i node e get heads parts
  rw [sexprWithin, get]
  cases heads with
  | atom => rfl
  | unary | binary | assign | logic | iif => simp_all [Node.parts, Expr.parts, Expr.sexpr]
  | call =>
    obtain ⟨hcallee, hargs⟩ := List.forall₂_cons.1 parts
    simp [hcallee, mapM_of_parts hargs, Expr.sexpr, sexprs_eq]

/-- The source text made from the nodes is that of the expression. -/
theorem Lays.source (h : Lays nodes first i e) (depth : Nat) (hd : i < depth) (nested : Bool) :
    sourceWithin nodes depth nested i = some (e.sourceIn nested) := by
  revert nested
  refine h.reads (P := fun depth i e =>
    ∀ nested, sourceWithin nodes depth nested i = some (e.sourceIn nested)) ?_ depth hd
  intro d i node e get heads parts nested
  rw [sourceWithin, get]
  cases heads with
  | atom => rfl
  | unary | binary | assign | logic | iif => simp_all [Node.parts, Expr.parts, Expr.sourceIn]
  | call =>
    obtain ⟨hcallee, hargs⟩ := List.forall₂_cons.1 parts
    have htexts := mapM_of_parts (g := Expr.source) (hargs.imp fun c x hc => hc false)
    simp [hcallee, htexts, Expr.sourceIn, Expr.sources_eq]

end Xbase.Arena
