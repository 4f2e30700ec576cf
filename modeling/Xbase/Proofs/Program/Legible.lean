import Xbase.Proofs.Program.Atoms
import Xbase.Proofs.Program.SExpr
import Xbase.Token.Piece

/-!
# Reading S-expressions

`SExpr.statements?` makes statements of trees again. The word in front says which operator or which
kind of statement it is; only for the minus the count of operands has to be looked at, and a type is
told from a first value by its colon.

`Statement.statements?_trees`: if the atoms can be told by their words, the reader gives back the
statements that the trees were made of, up to what trees do not show, which is places and the
parentheses around lists of declared names (`Statement.ungrouped`).
-/

namespace Xbase

open SExpr

/-! ## Reading expressions -/

/-- The atom for a word. -/
def Atom.ofWord? (w : String) : Option Atom :=
  if w = "null" then some .null
  else if w = ".T." then some (.logical true)
  else if w = ".F." then some (.logical false)
  else if w.toList.head?.any Char.isDigit then (Number.ofText? w).map .number
  else if w.toList.head?.any Piece.isWordStart then some (.name w)
  else none

/-- The operator with the given sign, out of those in the list. -/
def withSign? {α : Type} (sign : α → String) (ops : List α) (s : String) : Option α :=
  ops.find? fun op => sign op = s

namespace Expr

/-- The expression with the given word in front of its parts. -/
def ofParts? : String → List Expr → Option Expr
  | "call", callee :: args => some (call callee args ⟨0, 0⟩)
  | "iif", [condition, yes, no] => some (iif condition yes no ⟨0, 0⟩)
  | sign, [operand] =>
    (withSign? UnaryOp.sign [.not, .negate] sign).map fun op => unary op operand ⟨0, 0⟩
  | sign, [left, right] =>
    ((withSign? BinaryOp.sign [.multiply, .divide, .add, .subtract, .less, .lessEqual, .greater,
        .greaterEqual, .equal, .notEqual] sign).map fun op => binary op left right) <|>
      ((withSign? AssignOp.sign [.assign, .bind, .add, .subtract, .multiply, .divide] sign).map
        fun op => assign op left right) <|>
      (withSign? LogicOp.sign [.and, .or] sign).map fun op => logic op left right
  | _, _ => none

end Expr

namespace SExpr

mutual

/-- The expression that the S-expression stands for. -/
def expr? : SExpr → Option Expr
  | word w => (Atom.ofWord? w).map fun a => .atom a ⟨0, 0⟩
  | quoted s => some (.atom (.string s) ⟨0, 0⟩)
  | node head parts => (exprs? parts).bind (Expr.ofParts? head)
  | _ => none

/-- The expressions that several S-expressions stand for. -/
def exprs? : List SExpr → Option (List Expr)
  | [] => some []
  | t :: ts => t.expr?.bind fun e => (exprs? ts).map fun es => e :: es

end

end SExpr

/-- The S-expression of the atom stands for it. -/
def Atom.Legible (a : Atom) : Prop := a.tree.expr? = some (.atom a ⟨0, 0⟩)

mutual

/-- An expression with legible atoms is read back from its tree, without places. -/
theorem Expr.expr?_tree : (e : Expr) → (∀ a ∈ e.atoms, a.Legible) →
    e.tree.expr? = some (e.map id noPlace)
  | .atom a s, h => h a List.mem_cons_self
  | .unary op operand s, h => by
    rw [Expr.tree, expr?, exprs?, exprs?, operand.expr?_tree h]
    cases op <;> rfl
  | .binary op left right, h | .assign op left right, h | .logic op left right, h => by
    rw [Expr.atoms, List.forall_mem_append] at h
    rw [Expr.tree, expr?, exprs?, exprs?, exprs?, left.expr?_tree h.1, right.expr?_tree h.2]
    cases op <;> rfl
  | .call callee args s, h => by
    rw [Expr.atoms, List.forall_mem_append] at h
    rw [Expr.tree, expr?, exprs?, callee.expr?_tree h.1, Expr.exprs?_trees args h.2]
    rfl
  | .iif condition yes no s, h => by
    rw [Expr.atoms, List.forall_mem_append, List.forall_mem_append] at h
    rw [Expr.tree, expr?, exprs?, exprs?, exprs?, exprs?, condition.expr?_tree h.1.1,
      yes.expr?_tree h.1.2, no.expr?_tree h.2]
    rfl

theorem Expr.exprs?_trees : (es : List Expr) → (∀ a ∈ Expr.atomsAll es, a.Legible) →
    exprs? (Expr.trees es) = some (Expr.mapAll id noPlace es)
  | [], _ => rfl
  | e :: rest, h => by
    rw [Expr.atomsAll, List.forall_mem_append] at h
    rw [Expr.trees, exprs?, e.expr?_tree h.1, Expr.exprs?_trees rest h.2]
    rfl

end

theorem Expr.exprs?_map (es : List Expr) (h : ∀ a ∈ es.flatMap Expr.atoms, a.Legible) :
    exprs? (es.map Expr.tree) = some (es.map (Expr.map id noPlace)) := by
  induction es with
  | nil => rfl
  | cons e es ih =>
    rw [List.flatMap_cons, List.forall_mem_append] at h
    rw [List.map_cons, exprs?, e.expr?_tree h.1, ih h.2]
    rfl

/-! ## Reading statements -/

namespace SExpr

/-- The type that the S-expression stands for. -/
def type? : SExpr → Option DeclaredType
  | word w => [DeclaredType.string, .number, .boolean].find? fun t => t.tag = w
  | _ => none

/-- Type and first value of a declared name. -/
def details? : List SExpr → Option (Option DeclaredType × Option Expr)
  | [] => some (none, none)
  | [t] =>
    match t.type? with
    | some type => some (some type, none)
    | none => t.expr?.map fun e => (none, some e)
  | [t, t'] => t.type?.bind fun type => t'.expr?.map fun e => (some type, some e)
  | _ => none

/-- The name with its details. -/
def declarator? (name : String) (details : List SExpr) : Option Declarator :=
  (details? details).map fun (type?, initial?) => ⟨⟨name, ⟨0, 0⟩⟩, type?, initial?⟩

/-- The declarators that several S-expressions stand for. -/
def declarators? : List SExpr → Option (List Declarator)
  | [] => some []
  | node name details :: ts =>
    (declarator? name details).bind fun d => (declarators? ts).map fun ds => d :: ds
  | _ => none

/-- The names that are words. -/
def names? : List SExpr → Option (List Ident)
  | [] => some []
  | word w :: ts => (names? ts).map fun xs => ⟨w, ⟨0, 0⟩⟩ :: xs
  | _ => none

/-- The kinds of statements that have a word in front, which expressions do not share. -/
inductive Head where
  | declare (visibility : Visibility)
  | declareAll (visibility : Visibility)
  | function | print | ifThen | doCase | doWhile | ret | exit | loop

/-- The kind of statement that the word stands for. -/
def Head.ofWord? : String → Option Head
  | "local" => some (.declare .loc)
  | "private" => some (.declare .priv)
  | "public" => some (.declare .pub)
  | "local-inline" => some (.declareAll .loc)
  | "private-inline" => some (.declareAll .priv)
  | "public-inline" => some (.declareAll .pub)
  | "function" => some .function
  | "print" => some .print
  | "if" => some .ifThen
  | "do-case" => some .doCase
  | "while" => some .doWhile
  | "return" => some .ret
  | "exit" => some .exit
  | "loop" => some .loop
  | _ => none

mutual

/-- The statement that the S-expression stands for. -/
def statement? : SExpr → Option Statement
  | node head parts =>
    match Head.ofWord? head, parts with
    | some (.declare v), word name :: details => (declarator? name details).map (.declare v)
    | some (.declareAll v), ts => (declarators? ts).map fun ds => .declareAll v ds false
    | some .function, [word name, list params, body] =>
      (names? params).bind fun xs => (block? body).map (.function ⟨name, ⟨0, 0⟩⟩ xs)
    | some .print, args => (exprs? args).map fun es => .print es ⟨0, 0⟩
    | some .ifThen, [condition, yes] =>
      condition.expr?.bind fun e => (block? yes).map fun ss => .ifThen e ss none
    | some .ifThen, [condition, yes, no] =>
      condition.expr?.bind fun e => (block? yes).bind fun ss =>
        (block? no).map fun ss' => .ifThen e ss (some ss')
    | some .doCase, branches => (cases? branches).map fun (bs, otherwise) => .doCase bs otherwise
    | some .doWhile, [condition, body] =>
      condition.expr?.bind fun e => (block? body).map (.doWhile e)
    | some .ret, [] => some (.ret none ⟨0, 0⟩)
    | some .ret, [value] => value.expr?.map fun e => .ret (some e) ⟨0, 0⟩
    | some .exit, [] => some (.exit ⟨0, 0⟩)
    | some .loop, [] => some (.loop ⟨0, 0⟩)
    | none, parts => (expr? (node head parts)).map .expr
    | _, _ => none
  | t => t.expr?.map .expr

/-- The statements that several S-expressions stand for. -/
def statements? : List SExpr → Option (List Statement)
  | [] => some []
  | t :: ts => t.statement?.bind fun s => (statements? ts).map fun ss => s :: ss

/-- The statements of a block. -/
def block? : SExpr → Option (List Statement)
  | node "block" ts => statements? ts
  | _ => none

/-- The branches of a case distinction, and what is done otherwise. -/
def cases? : List SExpr → Option (List (Expr × List Statement) × Option (List Statement))
  | [] => some ([], none)
  | [node "otherwise" [body]] => (block? body).map fun ss => ([], some ss)
  | node "case" [condition, body] :: ts =>
    condition.expr?.bind fun e => (block? body).bind fun ss =>
      (cases? ts).map fun (bs, otherwise) => ((e, ss) :: bs, otherwise)
  | _ => none

end

end SExpr

/-- A type is not taken for an expression. -/
theorem SExpr.type?_of_expr? {t : SExpr} {e : Expr} (h : t.expr? = some e) : t.type? = none := by
  cases t with
  | quoted _ | list _ => rfl
  | word w =>
    cases htype : (word w).type? with
    | none => rfl
    | some type =>
      rw [SExpr.type?] at htype
      have htag := List.find?_some htype
      obtain rfl : type.tag = w := of_decide_eq_true htag
      cases type <;> cases h

/-- A declarator is read back from its name and what stands behind it. -/
theorem Declarator.declarator?_details (d : Declarator) (h : ∀ a ∈ d.atoms, a.Legible) :
    declarator? d.name.name d.details = some (d.map id noPlace) := by
  obtain ⟨name, type?, initial?⟩ := d
  have htype (type : DeclaredType) : (word type.tag).type? = some type := by cases type <;> rfl
  cases initial? with
  | none =>
    cases type? with
    | none => rfl
    | some type => cases type <;> rfl
  | some e =>
    have he := e.expr?_tree h
    cases type? with
    | none =>
      rw [declarator?, Declarator.details, Option.map_none, Option.map_some, Option.toList_none,
        Option.toList_some, List.nil_append, details?, type?_of_expr? he, he]
      rfl
    | some type =>
      rw [declarator?, Declarator.details, Option.map_some, Option.map_some, Option.toList_some,
        Option.toList_some, List.singleton_append, details?, htype, he]
      rfl

theorem Declarator.declarators?_map (ds : List Declarator)
    (h : ∀ a ∈ ds.flatMap Declarator.atoms, a.Legible) :
    declarators? (ds.map fun d => node d.name.name d.details) =
      some (ds.map (Declarator.map id noPlace)) := by
  induction ds with
  | nil => rfl
  | cons d ds ih =>
    rw [List.flatMap_cons, List.forall_mem_append] at h
    rw [List.map_cons, declarators?, d.declarator?_details h.1, ih h.2]
    rfl

theorem Ident.names?_map (xs : List Ident) :
    names? (xs.map fun x => word x.name) = some (xs.map (Ident.map noPlace)) := by
  induction xs with
  | nil => rfl
  | cons x xs ih =>
    rw [List.map_cons, names?, ih]
    rfl

/-! ## What the S-expressions do not show -/

mutual

/-- The statement without the parentheses around lists of declared names. -/
def Statement.ungrouped : Statement → Statement
  | .declareAll visibility ds _ => .declareAll visibility ds false
  | .function name params body => .function name params (Statement.ungroupedAll body)
  | .ifThen condition yes none => .ifThen condition (Statement.ungroupedAll yes) none
  | .ifThen condition yes (some no) =>
    .ifThen condition (Statement.ungroupedAll yes) (some (Statement.ungroupedAll no))
  | .doCase branches none => .doCase (Statement.ungroupedCases branches) none
  | .doCase branches (some body) =>
    .doCase (Statement.ungroupedCases branches) (some (Statement.ungroupedAll body))
  | .doWhile condition body => .doWhile condition (Statement.ungroupedAll body)
  | .declare visibility d => .declare visibility d
  | .expr e => .expr e
  | .print args s => .print args s
  | .ret value s => .ret value s
  | .exit s => .exit s
  | .loop s => .loop s

/-- Several statements, each of them without those parentheses. -/
def Statement.ungroupedAll : List Statement → List Statement
  | [] => []
  | s :: rest => s.ungrouped :: Statement.ungroupedAll rest

/-- The branches of a case distinction, each of them without those parentheses. -/
def Statement.ungroupedCases : List (Expr × List Statement) → List (Expr × List Statement)
  | [] => []
  | (condition, body) :: rest =>
    (condition, Statement.ungroupedAll body) :: Statement.ungroupedCases rest

end

/-- The word in front of an expression is not that of a statement. -/
theorem Expr.statement?_tree (e : Expr) : e.tree.statement? = e.tree.expr?.map .expr := by
  cases e with
  | atom a s => cases a <;> rfl
  | unary op operand s => cases op <;> rfl
  | binary op left right => cases op <;> rfl
  | assign op left right => cases op <;> rfl
  | logic op left right => cases op <;> rfl
  | call callee args s => rfl
  | iif condition yes no s => rfl

mutual

/-- A statement with legible atoms is read back from its tree, without places and without the
parentheses around declarations. -/
theorem Statement.statement?_tree : (s : Statement) → (∀ a ∈ s.atoms, a.Legible) →
    s.tree.statement? = some (s.ungrouped.map id noPlace)
  | .declare v d, h => by
    have hd := d.declarator?_details h
    rw [Statement.tree, Statement.ungrouped, Statement.map, ← Option.map_some, ← hd]
    cases v <;> rfl
  | .declareAll v ds grouped, h => by
    have hds := Declarator.declarators?_map ds h
    have hread : (Statement.declareAll v ds grouped).tree.statement? =
        (declarators? (ds.map fun d => node d.name.name d.details)).map
          fun ds => .declareAll v ds false := by
      cases v <;> rfl
    rw [hread, hds]
    rfl
  | .function name params body, h => by
    have hbody := Statement.statements?_trees body h
    have hparams := Ident.names?_map params
    simp [Statement.tree, statement?, Head.ofWord?, block?, hbody, hparams, Statement.ungrouped,
      Statement.map, Ident.map, noPlace]
  | .expr e, h => by
    rw [Statement.tree, e.statement?_tree, e.expr?_tree h]
    rfl
  | .print args s, h => by
    have hargs := Expr.exprs?_map args h
    simp [Statement.tree, statement?, Head.ofWord?, hargs, Statement.ungrouped, Statement.map,
      noPlace]
  | .ifThen condition yes none, h => by
    rw [Statement.atoms, List.forall_mem_append] at h
    have hyes := Statement.statements?_trees yes h.2
    simp [Statement.tree, statement?, Head.ofWord?, block?, condition.expr?_tree h.1, hyes,
      Statement.ungrouped, Statement.map]
  | .ifThen condition yes (some no), h => by
    rw [Statement.atoms, List.forall_mem_append, List.forall_mem_append] at h
    have hyes := Statement.statements?_trees yes h.1.2
    have hno := Statement.statements?_trees no h.2
    simp [Statement.tree, statement?, Head.ofWord?, block?, condition.expr?_tree h.1.1, hyes, hno,
      Statement.ungrouped, Statement.map]
  | .doCase branches none, h => by
    have hbranches := Statement.cases?_trees branches h []
    rw [List.append_nil] at hbranches
    simp [Statement.tree, statement?, Head.ofWord?, cases?, hbranches, Statement.ungrouped,
      Statement.map]
  | .doCase branches (some body), h => by
    rw [Statement.atoms, List.forall_mem_append] at h
    have hbranches := Statement.cases?_trees branches h.1
    have hbody := Statement.statements?_trees body h.2
    simp [Statement.tree, statement?, Head.ofWord?, hbranches, cases?, block?, hbody,
      Statement.ungrouped, Statement.map]
  | .doWhile condition body, h => by
    rw [Statement.atoms, List.forall_mem_append] at h
    have hbody := Statement.statements?_trees body h.2
    simp [Statement.tree, statement?, Head.ofWord?, block?, condition.expr?_tree h.1, hbody,
      Statement.ungrouped, Statement.map]
  | .ret none s, h | .exit s, h | .loop s, h => rfl
  | .ret (some e) s, h => by
    have he := e.expr?_tree h
    simp [Statement.tree, statement?, Head.ofWord?, he, Statement.ungrouped, Statement.map, noPlace]

theorem Statement.statements?_trees : (ss : List Statement) →
    (∀ a ∈ Statement.atomsAll ss, a.Legible) →
    statements? (Statement.trees ss) =
      some (Statement.mapAll id noPlace (Statement.ungroupedAll ss))
  | [], _ => rfl
  | s :: rest, h => by
    rw [Statement.atomsAll, List.forall_mem_append] at h
    rw [Statement.trees, statements?, s.statement?_tree h.1, Statement.statements?_trees rest h.2]
    rfl

theorem Statement.cases?_trees : (branches : List (Expr × List Statement)) →
    (∀ a ∈ Statement.atomsCases branches, a.Legible) → (ts : List SExpr) →
    cases? (Statement.treesCases branches ++ ts) = (cases? ts).map fun (bs, otherwise) =>
      (Statement.mapCases id noPlace (Statement.ungroupedCases branches) ++ bs, otherwise)
  | [], _, ts => by simp [Statement.treesCases, Statement.ungroupedCases, Statement.mapCases]
  | (condition, body) :: rest, h, ts => by
    rw [Statement.atomsCases, List.forall_mem_append, List.forall_mem_append] at h
    have hbody := Statement.statements?_trees body h.1.2
    simp [Statement.treesCases, cases?, condition.expr?_tree h.1.1, block?, hbody,
      Statement.cases?_trees rest h.2 ts, Statement.ungroupedCases, Statement.mapCases,
      Function.comp_def]

end

end Xbase
