import Xbase.Expr.Basic

/-!
# Expressions as numbered nodes

An arena is a list of nodes that refer to their parts by number. `Arena.ofExpr` lists the nodes of
an expression so that parts stand before the whole, from left to right, and the last node is the
expression itself. Arenas can also be put together node by node, and then a node may refer to a
number that has no node; `Arena.span?` and `Arena.tree?` say what can still be read off.

The number of a node is meant for a 32-bit word. Here it is a natural number, so all that is said
about arenas holds of such words as long as there are fewer than `2 ^ 32` nodes. An expression has
no more nodes than its text has characters.
-/

namespace Xbase

/-- A node of an expression, with the numbers of its parts. -/
inductive Node where
  | atom (a : Atom) (span : Span)
  | unary (op : UnaryOp) (operand : Nat) (span : Span)
  | binary (op : BinaryOp) (left right : Nat)
  | assign (op : AssignOp) (target value : Nat)
  | logic (op : LogicOp) (left right : Nat)
  | call (callee : Nat) (args : List Nat) (span : Span)
  | iif (condition yes no : Nat) (span : Span)
deriving DecidableEq

/-- The name, if the node is a name. -/
def Node.name? : Node → Option String
  | .atom (.name s) _ => some s
  | _ => none

/-- Nodes and the number of the node that is the whole expression. -/
structure Arena where
  nodes : Array Node
  root : Nat
deriving DecidableEq

namespace Arena

/-! ## Numbering an expression -/

mutual

/-- Adds the nodes of an expression behind `nodes`; the number of the expression is that of the
last node added. -/
def push (nodes : Array Node) : Expr → Array Node × Nat
  | .atom a s => add nodes (.atom a s)
  | .unary op operand s =>
    let (nodes, operand) := push nodes operand
    add nodes (.unary op operand s)
  | .binary op left right =>
    let (nodes, left) := push nodes left
    let (nodes, right) := push nodes right
    add nodes (.binary op left right)
  | .assign op target value =>
    let (nodes, target) := push nodes target
    let (nodes, value) := push nodes value
    add nodes (.assign op target value)
  | .logic op left right =>
    let (nodes, left) := push nodes left
    let (nodes, right) := push nodes right
    add nodes (.logic op left right)
  | .call callee args s =>
    let (nodes, callee) := push nodes callee
    let (nodes, args) := pushAll nodes args
    add nodes (.call callee args s)
  | .iif condition yes no s =>
    let (nodes, condition) := push nodes condition
    let (nodes, yes) := push nodes yes
    let (nodes, no) := push nodes no
    add nodes (.iif condition yes no s)
where
  /-- One node behind the others, and its number. -/
  add (nodes : Array Node) (node : Node) : Array Node × Nat :=
    (nodes.push node, nodes.size)

/-- Adds the nodes of several expressions in order. -/
def pushAll (nodes : Array Node) : List Expr → Array Node × List Nat
  | [] => (nodes, [])
  | e :: rest =>
    let (nodes, first) := push nodes e
    let (nodes, more) := pushAll nodes rest
    (nodes, first :: more)

end

/-- The nodes of an expression, parts before wholes. -/
def ofExpr (e : Expr) : Arena :=
  let (nodes, root) := push #[] e
  ⟨nodes, root⟩

/-- The nodes with the given root, if there is such a node. -/
def ofNodes? (nodes : Array Node) (root : Nat) : Option Arena :=
  if root < nodes.size then some ⟨nodes, root⟩ else none

/-! ## Reading an arena

No path through an arena without cycles is longer than the count of its nodes, so that count bounds
the depth of every search. -/

/-- The span of the node `i`, by a search of depth `depth`. -/
def spanWithin (nodes : Array Node) : (depth : Nat) → (i : Nat) → Option Span
  | 0, _ => none
  | depth + 1, i => do
    match ← nodes[i]? with
    | .atom _ s => return s
    | .unary _ operand s => return s.merge (← spanWithin nodes depth operand)
    | .binary _ left right =>
      return (← spanWithin nodes depth left).merge (← spanWithin nodes depth right)
    | .assign _ target value =>
      return (← spanWithin nodes depth target).merge (← spanWithin nodes depth value)
    | .logic _ left right =>
      return (← spanWithin nodes depth left).merge (← spanWithin nodes depth right)
    | .call callee _ s => return (← spanWithin nodes depth callee).merge s
    | .iif _ _ _ s => return s

/-- The bytes that the node `i` came from; none if a part that decides it is missing. -/
def span? (a : Arena) (i : Nat) : Option Span :=
  spanWithin a.nodes a.nodes.size i

/-- The name at the node `i`, if it is a name. -/
def name? (a : Arena) (i : Nat) : Option String :=
  a.nodes[i]?.bind Node.name?

/-- The expression at the node `i`, by a search of depth `depth`. -/
def treeWithin (nodes : Array Node) : (depth : Nat) → (i : Nat) → Option Expr
  | 0, _ => none
  | depth + 1, i => do
    let tree := treeWithin nodes depth
    match ← nodes[i]? with
    | .atom a s => return .atom a s
    | .unary op operand s => return .unary op (← tree operand) s
    | .binary op left right => return .binary op (← tree left) (← tree right)
    | .assign op target value => return .assign op (← tree target) (← tree value)
    | .logic op left right => return .logic op (← tree left) (← tree right)
    | .call callee args s => return .call (← tree callee) (← args.mapM tree) s
    | .iif condition yes no s => return .iif (← tree condition) (← tree yes) (← tree no) s

/-- The expression that the arena stands for; none if a part is missing. -/
def tree? (a : Arena) : Option Expr :=
  treeWithin a.nodes a.nodes.size a.root

/-! ## Dumps -/

/-- The number of a node. -/
def dumpRef (i : Nat) : String :=
  Text.Dump.wrap "ExpressionNodeRef" (toString i)

end Arena

/-- The node with its field names. -/
def Node.dump : Node → String
  | .atom a s =>
    Text.Dump.wrap "Atom"
      (Text.Dump.record "ExpressionAtom" [("kind", a.dump), ("span", s.dump)])
  | .unary op operand s =>
    Text.Dump.record "Unary"
      [("operator", op.dump), ("rhs", Arena.dumpRef operand), ("span", s.dump)]
  | .binary op left right =>
    Text.Dump.record "Binary"
      [("operator", op.dump), ("lhs", Arena.dumpRef left), ("rhs", Arena.dumpRef right)]
  | .assign op target value =>
    Text.Dump.record "BinaryAssignment"
      [("operator", op.dump), ("lhs", Arena.dumpRef target), ("rhs", Arena.dumpRef value)]
  | .logic op left right =>
    Text.Dump.record "BinaryShortCircuit"
      [("operator", op.dump), ("lhs", Arena.dumpRef left), ("rhs", Arena.dumpRef right)]
  | .call callee args s =>
    Text.Dump.record "Call" [("callee", Arena.dumpRef callee),
      ("arguments", Text.Dump.list (args.map Arena.dumpRef)), ("span", s.dump)]
  | .iif condition yes no s =>
    Text.Dump.record "Iif" [("condition", Arena.dumpRef condition),
      ("success", Arena.dumpRef yes), ("failure", Arena.dumpRef no), ("span", s.dump)]

/-- The nodes in order and the number of the root. -/
def Arena.dump (a : Arena) : String :=
  Text.Dump.record "Expression" [("nodes", Text.Dump.list (a.nodes.toList.map Node.dump)),
    ("root", Arena.dumpRef a.root)]

/-- The expression as the dump of its nodes. -/
def Expr.dump (e : Expr) : String :=
  (Arena.ofExpr e).dump

end Xbase
