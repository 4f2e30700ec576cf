import Mathlib.Data.List.Lattice
import Mathlib.Data.List.Nodup
import Mathlib.Data.List.Range
import Xbase.Expr.Arena

/-!
# The nodes of an expression in order

`Arena.Lays nodes first i e` says that the nodes from `first` to `i` are those of the expression
`e`: first the nodes of its parts, one part behind the other, and then `i`, the expression itself.
`Arena.ofExpr_lays` says that an arena that is made of an expression is laid out in this way.

Everything that is read off an arena follows from its layout. `Arena.IsTree` says that the nodes are
those of one tree, and `Arena.Lays.induct` is the induction for all functions that go from a node to
its parts: they find every node they ask for, and a depth above the number of the node is enough.
-/

namespace Xbase

/-! ## Parts -/

/-- The parts of an expression, from left to right. -/
def Expr.parts : Expr → List Expr
  | .atom _ _ => []
  | .unary _ operand _ => [operand]
  | .binary _ left right | .assign _ left right | .logic _ left right => [left, right]
  | .call callee args _ => callee :: args
  | .iif condition yes no _ => [condition, yes, no]

/-- The numbers of the parts of a node, from left to right. -/
def Node.parts : Node → List Nat
  | .atom _ _ => []
  | .unary _ operand _ => [operand]
  | .binary _ left right | .assign _ left right | .logic _ left right => [left, right]
  | .call callee args _ => callee :: args
  | .iif condition yes no _ => [condition, yes, no]

/-- `n` is the expression `e` itself or stands somewhere in it. -/
inductive Expr.Inside (n : Expr) : (e : Expr) → Prop
  | self : Inside n n
  | part {c e : Expr} (hc : c ∈ e.parts) (h : Inside n c) : Inside n e

/-- The node is that of the expression, whatever the numbers of its parts are. -/
inductive Node.Heads : Node → Expr → Prop
  | atom {a : Atom} {s : Span} : Heads (.atom a s) (.atom a s)
  | unary {op : UnaryOp} {i : Nat} {operand : Expr} {s : Span} :
      Heads (.unary op i s) (.unary op operand s)
  | binary {op : BinaryOp} {i j : Nat} {left right : Expr} :
      Heads (.binary op i j) (.binary op left right)
  | assign {op : AssignOp} {i j : Nat} {target value : Expr} :
      Heads (.assign op i j) (.assign op target value)
  | logic {op : LogicOp} {i j : Nat} {left right : Expr} :
      Heads (.logic op i j) (.logic op left right)
  | call {i : Nat} {is : List Nat} {callee : Expr} {args : List Expr} {s : Span} :
      Heads (.call i is s) (.call callee args s)
  | iif {i j k : Nat} {condition yes no : Expr} {s : Span} :
      Heads (.iif i j k s) (.iif condition yes no s)

namespace Arena

/-! ## Layouts -/

mutual

/-- The nodes from `first` to `i` are those of the expression, and `i` is its own. -/
inductive Lays (nodes : Array Node) : (first i : Nat) → (e : Expr) → Prop
  | node {first i : Nat} {node : Node} {e : Expr}
      (parts : LaysAll nodes first i node.parts e.parts) (get : nodes[i]? = some node)
      (heads : node.Heads e) : Lays nodes first i e

/-- The nodes from `first` up to `next`, without `next`, are those of the expressions in order, and
`is` are the numbers of the expressions. -/
inductive LaysAll (nodes : Array Node) :
    (first next : Nat) → (is : List Nat) → (es : List Expr) → Prop
  | nil {first : Nat} : LaysAll nodes first first [] []
  | cons {first i next : Nat} {is : List Nat} {e : Expr} {es : List Expr}
      (head : Lays nodes first i e) (tail : LaysAll nodes (i + 1) next is es) :
      LaysAll nodes first next (i :: is) (e :: es)

end

variable {nodes nodes' : Array Node} {first i next : Nat} {is : List Nat} {e : Expr}
  {es : List Expr}

/-- Every node of `nodes` has the same number in `nodes'`. -/
def Extends (nodes nodes' : Array Node) : Prop :=
  ∀ (i : Nat) (node : Node), nodes[i]? = some node → nodes'[i]? = some node

mutual

/-- A layout stays one when nodes are added. -/
theorem Lays.mono (h : Extends nodes nodes') {first i : Nat} {e : Expr} :
    Lays nodes first i e → Lays nodes' first i e
  | .node parts get heads => .node (parts.mono h) (h _ _ get) heads

theorem LaysAll.mono (h : Extends nodes nodes') {first next : Nat} {is : List Nat}
    {es : List Expr} : LaysAll nodes first next is es → LaysAll nodes' first next is es
  | .nil => .nil
  | .cons head tail => .cons (head.mono h) (tail.mono h)

end

mutual

/-- The nodes of an expression come before its own. -/
theorem Lays.first_le {first i : Nat} {e : Expr} : Lays nodes first i e → first ≤ i
  | .node parts _ _ => parts.first_le

theorem LaysAll.first_le {first next : Nat} {is : List Nat} {es : List Expr} :
    LaysAll nodes first next is es → first ≤ next
  | .nil => Nat.le_refl _
  | .cons head tail => Nat.le_trans head.first_le (Nat.le_of_succ_le tail.first_le)

end

/-! ## Expressions are laid out in order -/

/-- What it means that `e` has been added behind `nodes` under the number `i`. -/
structure Added (nodes nodes' : Array Node) (i : Nat) (e : Expr) : Prop where
  keeps : Extends nodes nodes'
  size : nodes'.size = i + 1
  lays : Lays nodes' nodes.size i e

/-- What it means that the expressions have been added behind `nodes` under the numbers `is`. -/
structure AddedAll (nodes nodes' : Array Node) (is : List Nat) (es : List Expr) : Prop where
  keeps : Extends nodes nodes'
  lays : LaysAll nodes' nodes.size nodes'.size is es

theorem extends_push (nodes : Array Node) (node : Node) : Extends nodes (nodes.push node) := by
  intro i node' h
  have hi : i < nodes.size := (Array.getElem?_eq_some_iff.1 h).1
  rw [Array.getElem?_push_lt hi, ← h, Array.getElem?_eq_getElem hi]

theorem AddedAll.nil : AddedAll nodes nodes [] [] := ⟨fun _ _ h => h, .nil⟩

theorem AddedAll.cons {mid : Array Node} (head : Added nodes mid i e)
    (tail : AddedAll mid nodes' is es) : AddedAll nodes nodes' (i :: is) (e :: es) := by
  refine ⟨fun k node h => tail.keeps k node (head.keeps k node h), ?_⟩
  have hrest := tail.lays
  rw [head.size] at hrest
  exact .cons (head.lays.mono tail.keeps) hrest

/-- An expression is added by adding its parts and then its own node. -/
theorem AddedAll.node {node : Node} (h : AddedAll nodes nodes' node.parts e.parts)
    (heads : node.Heads e) : Added nodes (nodes'.push node) nodes'.size e := by
  have hpush := extends_push nodes' node
  refine ⟨fun k other hk => hpush k other (h.keeps k other hk), Array.size_push .., ?_⟩
  exact .node (h.lays.mono hpush) Array.getElem?_push_size heads

mutual

/-- An expression is laid out behind the nodes that are there. -/
theorem push_added (nodes : Array Node) :
    (e : Expr) → Added nodes (push nodes e).1 (push nodes e).2 e
  | .atom _ _ => AddedAll.nil.node .atom
  | .unary _ operand _ => (AddedAll.cons (push_added _ operand) .nil).node .unary
  | .binary _ left right =>
    (AddedAll.cons (push_added _ left) (.cons (push_added _ right) .nil)).node .binary
  | .assign _ target value =>
    (AddedAll.cons (push_added _ target) (.cons (push_added _ value) .nil)).node .assign
  | .logic _ left right =>
    (AddedAll.cons (push_added _ left) (.cons (push_added _ right) .nil)).node .logic
  | .call callee args _ => (AddedAll.cons (push_added _ callee) (pushAll_added _ args)).node .call
  | .iif condition yes no _ =>
    (AddedAll.cons (push_added _ condition)
      (.cons (push_added _ yes) (.cons (push_added _ no) .nil))).node .iif

/-- Expressions are laid out one behind the other. -/
theorem pushAll_added (nodes : Array Node) :
    (es : List Expr) → AddedAll nodes (pushAll nodes es).1 (pushAll nodes es).2 es
  | [] => .nil
  | e :: rest => .cons (push_added _ e) (pushAll_added _ rest)

end

/-- The nodes of an expression are laid out from the first one on, and its own node is the last. -/
theorem ofExpr_lays (e : Expr) :
    Lays (ofExpr e).nodes 0 (ofExpr e).root e ∧ (ofExpr e).nodes.size = (ofExpr e).root + 1 :=
  ⟨(push_added #[] e).lays, (push_added #[] e).size⟩

/-! ## One tree -/

mutual

/-- Every number from `first` to `i` is that of an expression inside of `e`. -/
theorem Lays.inside {first i : Nat} {e : Expr} :
    Lays nodes first i e → ∀ k, first ≤ k → k ≤ i → ∃ f n, Lays nodes f k n ∧ n.Inside e
  | .node parts get heads, k, hfirst, hlast => by
    obtain hk | rfl := Nat.lt_or_eq_of_le hlast
    · obtain ⟨f, n, c, hc, hlays, hin⟩ := parts.inside k hfirst hk
      exact ⟨f, n, hlays, .part hc hin⟩
    · exact ⟨_, e, .node parts get heads, .self⟩

theorem LaysAll.inside {first next : Nat} {is : List Nat} {es : List Expr} :
    LaysAll nodes first next is es → ∀ k, first ≤ k → k < next →
      ∃ f n c, c ∈ es ∧ Lays nodes f k n ∧ n.Inside c
  | .nil, k, hfirst, hnext => by omega
  | @LaysAll.cons _ _ i _ _ e _ head tail, k, hfirst, hnext => by
    by_cases hk : k ≤ i
    · obtain ⟨f, n, hlays, hin⟩ := head.inside k hfirst hk
      exact ⟨f, n, e, List.mem_cons_self, hlays, hin⟩
    · obtain ⟨f, n, c, hc, hlays, hin⟩ := tail.inside k (by omega) hnext
      exact ⟨f, n, c, List.mem_cons_of_mem _ hc, hlays, hin⟩

end

/-- The numbers of the parts of the node `i`; a number without a node has none. -/
def partsAt (nodes : Array Node) (i : Nat) : List Nat :=
  nodes[i]?.elim [] Node.parts

theorem partsAt_of_get {node : Node} (h : nodes[i]? = some node) :
    partsAt nodes i = node.parts := by
  rw [partsAt, h]
  rfl

/-- The numbers from `first` up to `next`, without `next`. -/
def numbers (first next : Nat) : List Nat :=
  List.range' first (next - first)

theorem numbers_self (first : Nat) : numbers first first = [] := by
  rw [numbers, Nat.sub_self, List.range'_zero]

theorem numbers_append {mid : Nat} (h : first ≤ mid) (h' : mid ≤ next) :
    numbers first mid ++ numbers mid next = numbers first next := by
  have happend := List.range'_append_1 (s := first) (m := mid - first) (n := next - mid)
  rw [Nat.add_sub_cancel' h] at happend
  rw [numbers, numbers, numbers, happend, show mid - first + (next - mid) = next - first by omega]

theorem numbers_succ (h : first ≤ i) : numbers first (i + 1) = numbers first i ++ [i] := by
  rw [numbers, numbers, Nat.succ_sub h, List.range'_1_concat, Nat.add_sub_cancel' h]

/-- The numbers that a walk through the nodes comes to, the parts of a node from left to right and
then the node itself. -/
def walkWithin (nodes : Array Node) : (depth : Nat) → (i : Nat) → List Nat
  | 0, _ => []
  | depth + 1, i => (partsAt nodes i).flatMap (walkWithin nodes depth) ++ [i]

mutual

/-- A walk through an expression comes to its nodes in the order of their numbers. -/
theorem Lays.walk {first i : Nat} {e : Expr} :
    Lays nodes first i e → ∀ depth, i < depth → walkWithin nodes depth i = numbers first (i + 1)
  | .node parts get _, depth, hd => by
    obtain ⟨d, rfl⟩ := Nat.exists_eq_add_one_of_ne_zero (Nat.ne_zero_of_lt hd)
    rw [walkWithin, partsAt_of_get get, parts.walk d (Nat.lt_succ_iff.1 hd),
      numbers_succ parts.first_le]

/-- Walks over the parts, one after the other, visit the numbers of their layouts in order. -/
theorem LaysAll.walk {first next : Nat} {is : List Nat} {es : List Expr} :
    LaysAll nodes first next is es → ∀ depth, next ≤ depth →
      is.flatMap (walkWithin nodes depth) = numbers first next
  | .nil, _, _ => (numbers_self _).symm
  | .cons head tail, depth, hd => by
    rw [List.flatMap_cons, head.walk depth (Nat.lt_of_lt_of_le tail.first_le hd),
      tail.walk depth hd, numbers_append (Nat.le_succ_of_le head.first_le) tail.first_le]

end

mutual

/-- Among the nodes of an expression, each but its own is a part of one of them, and of no other. -/
theorem Lays.perm_parts {first i : Nat} {e : Expr} :
    Lays nodes first i e →
      ((numbers first (i + 1)).flatMap (partsAt nodes)).Perm (numbers first i)
  | .node parts get _ => by
    rw [numbers_succ parts.first_le, List.flatMap_append, List.flatMap_singleton,
      partsAt_of_get get]
    exact parts.perm_parts

/-- Each number of the layouts is a part of just one node, or one of the roots. -/
theorem LaysAll.perm_parts {first next : Nat} {is : List Nat} {es : List Expr} :
    LaysAll nodes first next is es →
      ((numbers first next).flatMap (partsAt nodes) ++ is).Perm (numbers first next)
  | .nil => by
    rw [numbers_self]
    exact .nil
  | @LaysAll.cons _ _ i _ is _ _ head tail => by
    rw [← numbers_append (Nat.le_succ_of_le head.first_le) tail.first_le, List.flatMap_append]
    -- The number of the first expression goes behind the parts found in it.
    have hmove (xs ys : List Nat) : (xs ++ ys ++ i :: is).Perm ((xs ++ [i]) ++ (ys ++ is)) := by
      rw [List.append_assoc, List.append_assoc]
      exact List.perm_middle.append_left xs
    have hhead := head.perm_parts.append_right [i]
    rw [← numbers_succ head.first_le] at hhead
    exact (hmove _ _).trans (hhead.append tail.perm_parts)

end

/-- The nodes are those of one tree: parts before wholes, from left to right, the root last. -/
structure IsTree (a : Arena) : Prop where
  /-- A walk through the tree comes to the nodes in the order of their numbers. -/
  walk : walkWithin a.nodes a.nodes.size a.root = List.range a.nodes.size
  root : a.root + 1 = a.nodes.size
  /-- Parts have smaller numbers. -/
  part_lt : ∀ i, ∀ c ∈ partsAt a.nodes i, c < i
  /-- Every node but the root is a part of one node, once. -/
  parent : ∀ c < a.root, ∃ i < a.nodes.size,
    (partsAt a.nodes i).count c = 1 ∧ ∀ j, c ∈ partsAt a.nodes j → j = i

mutual

/-- The parts of a node come before it. -/
theorem Lays.part_lt {first i : Nat} {e : Expr} :
    Lays nodes first i e → ∀ c ∈ partsAt nodes i, c < i
  | .node parts get _, c, hc => by
    rw [partsAt_of_get get] at hc
    exact parts.lt_next c hc

theorem LaysAll.lt_next {first next : Nat} {is : List Nat} {es : List Expr} :
    LaysAll nodes first next is es → ∀ c ∈ is, c < next
  | .cons _ tail, c, hc => by
    rcases List.mem_cons.1 hc with rfl | hc
    · exact tail.first_le
    · exact tail.lt_next c hc

end

theorem lt_size_of_mem_partsAt {c : Nat} (h : c ∈ partsAt nodes i) : i < nodes.size := by
  by_contra hi
  rw [partsAt, Array.getElem?_eq_none (Nat.le_of_not_lt hi)] at h
  cases h

/-- A layout that fills an arena makes it a tree. -/
theorem Lays.isTree {a : Arena} (h : Lays a.nodes 0 a.root e) (hsize : a.nodes.size = a.root + 1) :
    a.IsTree := by
  have hnumbers (n : Nat) : numbers 0 n = List.range n := (List.range_eq_range' ..).symm
  have hperm := h.perm_parts
  rw [hnumbers, hnumbers, ← hsize] at hperm
  obtain ⟨hnodup, hdisjoint⟩ := List.nodup_flatMap.1 (hperm.nodup_iff.2 List.nodup_range)
  refine ⟨?_, hsize.symm, fun i c hc => ?_, fun c hc => ?_⟩
  · rw [h.walk _ (by omega), hnumbers, hsize]
  · have hi := lt_size_of_mem_partsAt hc
    obtain ⟨f, n, hlays, -⟩ := h.inside i (Nat.zero_le i) (by omega)
    exact hlays.part_lt c hc
  · obtain ⟨i, hi, hmem⟩ := List.mem_flatMap.1 (hperm.mem_iff.2 (List.mem_range.2 hc))
    refine ⟨i, List.mem_range.1 hi, List.count_eq_one_of_mem (hnodup i hi) hmem, fun j hj => ?_⟩
    -- Two nodes with a part in common are the same.
    by_contra hne
    have hj' := List.mem_range.2 (lt_size_of_mem_partsAt hj)
    have : Std.Symm (Function.onFun List.Disjoint (partsAt a.nodes)) :=
      ⟨fun _ _ => List.Disjoint.symm⟩
    exact hdisjoint.forall hj' hi hne hj hmem

/-! ## Going from a node to its parts -/

theorem LaysAll.parts {first next : Nat} {is : List Nat} {es : List Expr} :
    LaysAll nodes first next is es →
      List.Forall₂ (fun c x => c < next ∧ ∃ f, Lays nodes f c x) is es
  | .nil => .nil
  | .cons head tail => .cons ⟨tail.first_le, _, head⟩ tail.parts

/-- Each of the roots is the layout of one of the expressions. -/
theorem LaysAll.of_mem {first next c : Nat} {is : List Nat} {es : List Expr} :
    LaysAll nodes first next is es → c ∈ is → ∃ x ∈ es, c < next ∧ ∃ f, Lays nodes f c x
  | @LaysAll.cons _ _ _ _ _ e _ head tail, hc => by
    rcases List.mem_cons.1 hc with rfl | hc
    · exact ⟨e, List.mem_cons_self, tail.first_le, _, head⟩
    · obtain ⟨x, hx, hlt, hlays⟩ := tail.of_mem hc
      exact ⟨x, List.mem_cons_of_mem _ hx, hlt, hlays⟩

mutual

/-- What holds of every node if it holds of its parts holds of every expression. -/
theorem Lays.induct {P : Nat → Expr → Prop}
    (step : ∀ i node e, nodes[i]? = some node → node.Heads e →
      List.Forall₂ (fun c x => c < i ∧ P c x) node.parts e.parts → P i e)
    {first i : Nat} {e : Expr} : Lays nodes first i e → P i e
  | .node parts get heads => step _ _ _ get heads (parts.induct step)

theorem LaysAll.induct {P : Nat → Expr → Prop}
    (step : ∀ i node e, nodes[i]? = some node → node.Heads e →
      List.Forall₂ (fun c x => c < i ∧ P c x) node.parts e.parts → P i e)
    {first next : Nat} {is : List Nat} {es : List Expr} :
    LaysAll nodes first next is es → List.Forall₂ (fun c x => c < next ∧ P c x) is es
  | .nil => .nil
  | .cons head tail => .cons ⟨tail.first_le, head.induct step⟩ (tail.induct step)

end

end Arena

end Xbase
