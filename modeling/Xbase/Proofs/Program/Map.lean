import Xbase.Expr.Arena
import Xbase.Program.SExpr
import Xbase.Program.Source

/-!
# Programs with other atoms and places

`map f g` changes every atom of a program by `f` and every span by `g`, and leaves its structure,
names, types and flags as they are.

* `Program.sexpr_map` and `Program.source_map`: the texts of a program do not depend on its places,
  and on its atoms only by their texts;
* `Arena.ofExpr_map`: the numbering of the nodes depends on neither.
-/

namespace Xbase

/-! ## Changing atoms and places -/

namespace Expr

mutual

/-- The expression with every atom changed by `f` and every span by `g`. -/
def map (f : Atom → Atom) (g : Span → Span) : Expr → Expr
  | atom a s => atom (f a) (g s)
  | unary op operand s => unary op (operand.map f g) (g s)
  | binary op left right => binary op (left.map f g) (right.map f g)
  | assign op target value => assign op (target.map f g) (value.map f g)
  | logic op left right => logic op (left.map f g) (right.map f g)
  | call callee args s => call (callee.map f g) (mapAll f g args) (g s)
  | iif condition yes no s => iif (condition.map f g) (yes.map f g) (no.map f g) (g s)

/-- Several expressions, each of them changed. -/
def mapAll (f : Atom → Atom) (g : Span → Span) : List Expr → List Expr
  | [] => []
  | e :: rest => e.map f g :: mapAll f g rest

end

theorem mapAll_eq (f : Atom → Atom) (g : Span → Span) (es : List Expr) :
    mapAll f g es = es.map (Expr.map f g) := by
  induction es with
  | nil => rfl
  | cons e es ih => rw [mapAll, ih, List.map_cons]

end Expr

def Ident.map (g : Span → Span) (x : Ident) : Ident := ⟨x.name, g x.span⟩

def Declarator.map (f : Atom → Atom) (g : Span → Span) (d : Declarator) : Declarator :=
  ⟨d.name.map g, d.type?, d.initial?.map (Expr.map f g)⟩

namespace Statement

mutual

/-- The statement with every atom changed by `f` and every span by `g`. -/
def map (f : Atom → Atom) (g : Span → Span) : Statement → Statement
  | declare visibility d => declare visibility (d.map f g)
  | declareAll visibility ds grouped => declareAll visibility (ds.map (Declarator.map f g)) grouped
  | function name params body => function (name.map g) (params.map (Ident.map g)) (mapAll f g body)
  | expr e => expr (e.map f g)
  | print args s => print (args.map (Expr.map f g)) (g s)
  | ifThen condition yes none => ifThen (condition.map f g) (mapAll f g yes) none
  | ifThen condition yes (some no) =>
    ifThen (condition.map f g) (mapAll f g yes) (some (mapAll f g no))
  | doCase branches none => doCase (mapCases f g branches) none
  | doCase branches (some body) => doCase (mapCases f g branches) (some (mapAll f g body))
  | doWhile condition body => doWhile (condition.map f g) (mapAll f g body)
  | ret value s => ret (value.map (Expr.map f g)) (g s)
  | exit s => exit (g s)
  | loop s => loop (g s)

/-- Several statements, each of them changed. -/
def mapAll (f : Atom → Atom) (g : Span → Span) : List Statement → List Statement
  | [] => []
  | s :: rest => s.map f g :: mapAll f g rest

/-- The branches of a case distinction, each of them changed. -/
def mapCases (f : Atom → Atom) (g : Span → Span) :
    List (Expr × List Statement) → List (Expr × List Statement)
  | [] => []
  | (condition, body) :: rest => (condition.map f g, mapAll f g body) :: mapCases f g rest

end

theorem mapAll_eq (f : Atom → Atom) (g : Span → Span) (ss : List Statement) :
    mapAll f g ss = ss.map (Statement.map f g) := by
  induction ss with
  | nil => rfl
  | cons s ss ih => rw [mapAll, ih, List.map_cons]

theorem mapCases_eq (f : Atom → Atom) (g : Span → Span)
    (branches : List (Expr × List Statement)) : mapCases f g branches =
      branches.map fun (condition, body) => (condition.map f g, body.map (Statement.map f g)) := by
  induction branches with
  | nil => rfl
  | cons branch branches ih =>
    obtain ⟨condition, body⟩ := branch
    rw [mapCases, ih, mapAll_eq, List.map_cons]

end Statement

/-- Forgets the place. -/
def noPlace : Span → Span := fun _ => ⟨0, 0⟩

/-- The program with every atom changed by `f` and every span by `g`. -/
def Program.map (f : Atom → Atom) (g : Span → Span) (p : Program) : Program :=
  Statement.mapAll f g p

/-! ## Changing nothing, and changing twice -/

mutual

theorem Expr.map_id : (e : Expr) → e.map id id = e
  | .atom a s => rfl
  | .unary op operand s => by rw [Expr.map, operand.map_id, id]
  | .binary op left right | .assign op left right | .logic op left right => by
    rw [Expr.map, left.map_id, right.map_id]
  | .call callee args s => by rw [Expr.map, callee.map_id, Expr.mapAll_id args, id]
  | .iif condition yes no s => by rw [Expr.map, condition.map_id, yes.map_id, no.map_id, id]

theorem Expr.mapAll_id : (es : List Expr) → Expr.mapAll id id es = es
  | [] => rfl
  | e :: rest => by rw [Expr.mapAll, e.map_id, Expr.mapAll_id rest]

end

theorem Ident.map_id (x : Ident) : x.map id = x := rfl

theorem Declarator.map_id (d : Declarator) : d.map id id = d := by
  have h : Expr.map id id = id := funext Expr.map_id
  rw [Declarator.map, h, Option.map_id]
  rfl

mutual

theorem Statement.map_id : (s : Statement) → s.map id id = s
  | .declare v d => by rw [Statement.map, d.map_id]
  | .declareAll v ds grouped => by
    rw [Statement.map, List.map_congr_left fun d _ => d.map_id, List.map_id']
  | .function name params body => by
    rw [Statement.map, List.map_congr_left fun x _ => x.map_id, List.map_id', name.map_id,
      Statement.mapAll_id body]
  | .expr e => by rw [Statement.map, e.map_id]
  | .print args s => by
    rw [Statement.map, List.map_congr_left fun e _ => e.map_id, List.map_id', id]
  | .ifThen condition yes none => by
    rw [Statement.map, condition.map_id, Statement.mapAll_id yes]
  | .ifThen condition yes (some no) => by
    rw [Statement.map, condition.map_id, Statement.mapAll_id yes, Statement.mapAll_id no]
  | .doCase branches none => by rw [Statement.map, Statement.mapCases_id branches]
  | .doCase branches (some body) => by
    rw [Statement.map, Statement.mapCases_id branches, Statement.mapAll_id body]
  | .doWhile condition body => by
    rw [Statement.map, condition.map_id, Statement.mapAll_id body]
  | .ret none s | .exit s | .loop s => rfl
  | .ret (some e) s => by rw [Statement.map, Option.map_some, e.map_id, id]

theorem Statement.mapAll_id : (ss : List Statement) → Statement.mapAll id id ss = ss
  | [] => rfl
  | s :: rest => by rw [Statement.mapAll, s.map_id, Statement.mapAll_id rest]

theorem Statement.mapCases_id : (branches : List (Expr × List Statement)) →
    Statement.mapCases id id branches = branches
  | [] => rfl
  | (condition, body) :: rest => by
    rw [Statement.mapCases, condition.map_id, Statement.mapAll_id body, Statement.mapCases_id rest]

end

mutual

theorem Expr.map_map (f f' : Atom → Atom) (g g' : Span → Span) :
    (e : Expr) → (e.map f g).map f' g' = e.map (f' ∘ f) (g' ∘ g)
  | .atom a s => rfl
  | .unary op operand s => by rw [Expr.map, Expr.map, Expr.map, operand.map_map]; rfl
  | .binary op left right | .assign op left right | .logic op left right => by
    rw [Expr.map, Expr.map, Expr.map, left.map_map, right.map_map]
  | .call callee args s => by
    rw [Expr.map, Expr.map, Expr.map, callee.map_map, Expr.mapAll_map _ _ _ _ args]; rfl
  | .iif condition yes no s => by
    rw [Expr.map, Expr.map, Expr.map, condition.map_map, yes.map_map, no.map_map]; rfl

theorem Expr.mapAll_map (f f' : Atom → Atom) (g g' : Span → Span) : (es : List Expr) →
    Expr.mapAll f' g' (Expr.mapAll f g es) = Expr.mapAll (f' ∘ f) (g' ∘ g) es
  | [] => rfl
  | e :: rest => by
    rw [Expr.mapAll, Expr.mapAll, Expr.mapAll, e.map_map, Expr.mapAll_map _ _ _ _ rest]

end

theorem Declarator.map_map (f f' : Atom → Atom) (g g' : Span → Span) (d : Declarator) :
    (d.map f g).map f' g' = d.map (f' ∘ f) (g' ∘ g) := by
  have h : Expr.map f' g' ∘ Expr.map f g = Expr.map (f' ∘ f) (g' ∘ g) :=
    funext (Expr.map_map f f' g g')
  rw [Declarator.map, Declarator.map, Declarator.map, Option.map_map, h]
  rfl

mutual

theorem Statement.map_map (f f' : Atom → Atom) (g g' : Span → Span) :
    (s : Statement) → (s.map f g).map f' g' = s.map (f' ∘ f) (g' ∘ g)
  | .declare v d => by rw [Statement.map, Statement.map, Statement.map, d.map_map]
  | .declareAll v ds grouped => by
    rw [Statement.map, Statement.map, Statement.map, List.map_map]
    exact congrArg (Statement.declareAll v · grouped)
      (List.map_congr_left fun d _ => d.map_map f f' g g')
  | .function name params body => by
    rw [Statement.map, Statement.map, Statement.map, List.map_map,
      Statement.mapAll_map _ _ _ _ body]
    rfl
  | .expr e => by rw [Statement.map, Statement.map, Statement.map, e.map_map]
  | .print args s => by
    rw [Statement.map, Statement.map, Statement.map, List.map_map]
    exact congrArg (Statement.print · _) (List.map_congr_left fun e _ => e.map_map f f' g g')
  | .ifThen condition yes none => by
    rw [Statement.map, Statement.map, Statement.map, condition.map_map,
      Statement.mapAll_map _ _ _ _ yes]
  | .ifThen condition yes (some no) => by
    rw [Statement.map, Statement.map, Statement.map, condition.map_map,
      Statement.mapAll_map _ _ _ _ yes, Statement.mapAll_map _ _ _ _ no]
  | .doCase branches none => by
    rw [Statement.map, Statement.map, Statement.map, Statement.mapCases_map _ _ _ _ branches]
  | .doCase branches (some body) => by
    rw [Statement.map, Statement.map, Statement.map, Statement.mapCases_map _ _ _ _ branches,
      Statement.mapAll_map _ _ _ _ body]
  | .doWhile condition body => by
    rw [Statement.map, Statement.map, Statement.map, condition.map_map,
      Statement.mapAll_map _ _ _ _ body]
  | .ret none s | .exit s | .loop s => rfl
  | .ret (some e) s => by
    rw [Statement.map, Statement.map, Statement.map, Option.map_some, Option.map_some, e.map_map]
    rfl

theorem Statement.mapAll_map (f f' : Atom → Atom) (g g' : Span → Span) : (ss : List Statement) →
    Statement.mapAll f' g' (Statement.mapAll f g ss) = Statement.mapAll (f' ∘ f) (g' ∘ g) ss
  | [] => rfl
  | s :: rest => by
    rw [Statement.mapAll, Statement.mapAll, Statement.mapAll, s.map_map,
      Statement.mapAll_map _ _ _ _ rest]

theorem Statement.mapCases_map (f f' : Atom → Atom) (g g' : Span → Span) :
    (branches : List (Expr × List Statement)) →
    Statement.mapCases f' g' (Statement.mapCases f g branches) =
      Statement.mapCases (f' ∘ f) (g' ∘ g) branches
  | [] => rfl
  | (condition, body) :: rest => by
    rw [Statement.mapCases, Statement.mapCases, Statement.mapCases, condition.map_map,
      Statement.mapAll_map _ _ _ _ body, Statement.mapCases_map _ _ _ _ rest]

end

/-! ## S-expressions -/

mutual

/-- A change of atoms that keeps their S-expressions keeps those of expressions, wherever the spans
go. -/
theorem Expr.sexpr_map {f : Atom → Atom} {g : Span → Span} (hf : ∀ a, (f a).sexpr = a.sexpr) :
    (e : Expr) → (e.map f g).sexpr = e.sexpr
  | .atom a s => hf a
  | .unary op operand s => by rw [Expr.map, Expr.sexpr, Expr.sexpr, operand.sexpr_map hf]
  | .binary op left right | .assign op left right | .logic op left right => by
    rw [Expr.map, Expr.sexpr, Expr.sexpr, left.sexpr_map hf, right.sexpr_map hf]
  | .call callee args s => by
    rw [Expr.map, Expr.sexpr, Expr.sexpr, callee.sexpr_map hf, Expr.sexprs_map hf args]
  | .iif condition yes no s => by
    rw [Expr.map, Expr.sexpr, Expr.sexpr, condition.sexpr_map hf, yes.sexpr_map hf,
      no.sexpr_map hf]

theorem Expr.sexprs_map {f : Atom → Atom} {g : Span → Span} (hf : ∀ a, (f a).sexpr = a.sexpr) :
    (es : List Expr) → Expr.sexprs (Expr.mapAll f g es) = Expr.sexprs es
  | [] => rfl
  | e :: rest => by
    rw [Expr.mapAll, Expr.sexprs, Expr.sexprs, e.sexpr_map hf, Expr.sexprs_map hf rest]

end

section

variable {f : Atom → Atom} {g : Span → Span} (hf : ∀ a, (f a).sexpr = a.sexpr)

include hf

theorem Declarator.sexpr_map (d : Declarator) : (d.map f g).sexpr = d.sexpr := by
  obtain ⟨name, type?, initial?⟩ := d
  cases initial? with
  | none => rfl
  | some e =>
    rw [Declarator.map, Declarator.sexpr, Option.map_some, Option.elim_some, e.sexpr_map hf]
    rfl

theorem Expr.map_sexpr_map (es : List Expr) :
    (es.map (Expr.map f g)).map Expr.sexpr = es.map Expr.sexpr := by
  rw [List.map_map]
  exact List.map_congr_left fun e _ => e.sexpr_map hf

end

/-- A change of places does not change the names. -/
theorem Ident.map_name_map (g : Span → Span) (xs : List Ident) :
    (xs.map (Ident.map g)).map (·.name) = xs.map (·.name) := by
  rw [List.map_map]
  rfl

mutual

/-- A change of atoms that keeps their S-expressions keeps those of statements. -/
theorem Statement.sexpr_map {f : Atom → Atom} {g : Span → Span} (hf : ∀ a, (f a).sexpr = a.sexpr) :
    (s : Statement) → (s.map f g).sexpr = s.sexpr
  | .declare v d => by rw [Statement.map, Statement.sexpr, Statement.sexpr, d.sexpr_map hf]
  | .declareAll v ds grouped => by
    rw [Statement.map, Statement.sexpr, Statement.sexpr, List.map_map]
    simp only [Function.comp_def, Declarator.sexpr_map hf]
  | .function name params body => by
    rw [Statement.map, Statement.sexpr, Statement.sexpr, Ident.map_name_map,
      Statement.sexprs_map hf body]
    rfl
  | .expr e => e.sexpr_map hf
  | .print args s => by
    rw [Statement.map, Statement.sexpr, Statement.sexpr, Expr.map_sexpr_map hf]
  | .ifThen condition yes none => by
    rw [Statement.map, Statement.sexpr, Statement.sexpr, condition.sexpr_map hf,
      Statement.sexprs_map hf yes]
  | .ifThen condition yes (some no) => by
    rw [Statement.map, Statement.sexpr, Statement.sexpr, condition.sexpr_map hf,
      Statement.sexprs_map hf yes, Statement.sexprs_map hf no]
  | .doCase branches none => by
    rw [Statement.map, Statement.sexpr, Statement.sexpr, Statement.sexprCases_map hf branches]
  | .doCase branches (some body) => by
    rw [Statement.map, Statement.sexpr, Statement.sexpr, Statement.sexprCases_map hf branches,
      Statement.sexprs_map hf body]
  | .doWhile condition body => by
    rw [Statement.map, Statement.sexpr, Statement.sexpr, condition.sexpr_map hf,
      Statement.sexprs_map hf body]
  | .ret none s | .exit s | .loop s => rfl
  | .ret (some e) s => by
    rw [Statement.map, Option.map_some, Statement.sexpr, Statement.sexpr, e.sexpr_map hf]

theorem Statement.sexprs_map {f : Atom → Atom} {g : Span → Span} (hf : ∀ a, (f a).sexpr = a.sexpr) :
    (ss : List Statement) → Statement.sexprs (Statement.mapAll f g ss) = Statement.sexprs ss
  | [] => rfl
  | s :: rest => by
    rw [Statement.mapAll, Statement.sexprs, Statement.sexprs, s.sexpr_map hf,
      Statement.sexprs_map hf rest]

theorem Statement.sexprCases_map {f : Atom → Atom} {g : Span → Span}
    (hf : ∀ a, (f a).sexpr = a.sexpr) : (branches : List (Expr × List Statement)) →
    Statement.sexprCases (Statement.mapCases f g branches) = Statement.sexprCases branches
  | [] => rfl
  | (condition, body) :: rest => by
    rw [Statement.mapCases, Statement.sexprCases, Statement.sexprCases, condition.sexpr_map hf,
      Statement.sexprs_map hf body, Statement.sexprCases_map hf rest]

end

/-- The S-expressions of a program depend on its atoms only by theirs, and not on its places. -/
theorem Program.sexpr_map {f : Atom → Atom} {g : Span → Span} (hf : ∀ a, (f a).sexpr = a.sexpr)
    (p : Program) : (p.map f g).sexpr = p.sexpr := by
  have sexprs_eq (ss : List Statement) : Statement.sexprs ss = ss.map Statement.sexpr := by
    induction ss with
    | nil => rfl
    | cons s ss ih => rw [Statement.sexprs, ih, List.map_cons]
  have hmap := Statement.sexprs_map (g := g) hf p
  rw [sexprs_eq, sexprs_eq] at hmap
  have hlines := congrArg (List.map (· ++ "\n")) hmap
  rw [List.map_map, List.map_map] at hlines
  exact congrArg String.join hlines

/-! ## Source texts -/

mutual

/-- A change of atoms that keeps their texts keeps the source text of expressions. -/
theorem Expr.sourceIn_map {f : Atom → Atom} {g : Span → Span} (hf : ∀ a, (f a).source = a.source)
    (nested : Bool) : (e : Expr) → (e.map f g).sourceIn nested = e.sourceIn nested
  | .atom a s => hf a
  | .unary op operand s => by
    rw [Expr.map, Expr.sourceIn, Expr.sourceIn, operand.sourceIn_map hf true]
  | .binary op left right | .assign op left right | .logic op left right => by
    rw [Expr.map, Expr.sourceIn, Expr.sourceIn, left.sourceIn_map hf true,
      right.sourceIn_map hf true]
  | .call callee args s => by
    rw [Expr.map, Expr.sourceIn, Expr.sourceIn, callee.sourceIn_map hf true,
      Expr.sources_map hf args]
  | .iif condition yes no s => by
    rw [Expr.map, Expr.sourceIn, Expr.sourceIn, condition.sourceIn_map hf false,
      yes.sourceIn_map hf false, no.sourceIn_map hf false]

theorem Expr.sources_map {f : Atom → Atom} {g : Span → Span} (hf : ∀ a, (f a).source = a.source) :
    (es : List Expr) → Expr.sources (Expr.mapAll f g es) = Expr.sources es
  | [] => rfl
  | e :: rest => by
    rw [Expr.mapAll, Expr.sources, Expr.sources, e.sourceIn_map hf false, Expr.sources_map hf rest]

end

section

variable {f : Atom → Atom} {g : Span → Span} (hf : ∀ a, (f a).source = a.source)

include hf

theorem Expr.source_map (e : Expr) : (e.map f g).source = e.source := e.sourceIn_map hf false

theorem Declarator.source_map (d : Declarator) : (d.map f g).source = d.source := by
  obtain ⟨name, type?, initial?⟩ := d
  cases initial? with
  | none => rfl
  | some e =>
    rw [Declarator.map, Declarator.source, Option.map_some, Option.elim_some, e.source_map hf]
    rfl

end

mutual

/-- A change of atoms that keeps their texts keeps the source text of statements, at any depth. -/
theorem Statement.source_map {f : Atom → Atom} {g : Span → Span}
    (hf : ∀ a, (f a).source = a.source) (depth : Nat) :
    (s : Statement) → (s.map f g).source depth = s.source depth
  | .declare v d => by rw [Statement.map, Statement.source, Statement.source, d.source_map hf]
  | .declareAll v ds grouped => by
    rw [Statement.map, Statement.source, Statement.source, List.map_map]
    simp only [Function.comp_def, Declarator.source_map hf]
  | .function name params body => by
    rw [Statement.map, Statement.source, Statement.source, Ident.map_name_map,
      Statement.sources_map hf (depth + 1) body]
    rfl
  | .expr e => by rw [Statement.map, Statement.source, Statement.source, e.source_map hf]
  | .print args s => by
    rw [Statement.map, Statement.source, Statement.source, List.map_map, List.isEmpty_map]
    simp only [Function.comp_def, Expr.source_map hf]
  | .ifThen condition yes none => by
    rw [Statement.map, Statement.source, Statement.source, condition.source_map hf,
      Statement.sources_map hf (depth + 1) yes]
  | .ifThen condition yes (some no) => by
    rw [Statement.map, Statement.source, Statement.source, condition.source_map hf,
      Statement.sources_map hf (depth + 1) yes, Statement.sources_map hf (depth + 1) no]
  | .doCase branches none => by
    rw [Statement.map, Statement.source, Statement.source,
      Statement.sourceCases_map hf (depth + 1) branches]
  | .doCase branches (some body) => by
    rw [Statement.map, Statement.source, Statement.source,
      Statement.sourceCases_map hf (depth + 1) branches, Statement.sources_map hf (depth + 2) body]
  | .doWhile condition body => by
    rw [Statement.map, Statement.source, Statement.source, condition.source_map hf,
      Statement.sources_map hf (depth + 1) body]
  | .ret none s | .exit s | .loop s => rfl
  | .ret (some e) s => by
    rw [Statement.map, Option.map_some, Statement.source, Statement.source, e.source_map hf]

theorem Statement.sources_map {f : Atom → Atom} {g : Span → Span}
    (hf : ∀ a, (f a).source = a.source) (depth : Nat) : (ss : List Statement) →
    Statement.sources depth (Statement.mapAll f g ss) = Statement.sources depth ss
  | [] => rfl
  | s :: rest => by
    rw [Statement.mapAll, Statement.sources, Statement.sources, s.source_map hf depth,
      Statement.sources_map hf depth rest]

theorem Statement.sourceCases_map {f : Atom → Atom} {g : Span → Span}
    (hf : ∀ a, (f a).source = a.source) (depth : Nat) : (branches : List (Expr × List Statement)) →
    Statement.sourceCases depth (Statement.mapCases f g branches) =
      Statement.sourceCases depth branches
  | [] => rfl
  | (condition, body) :: rest => by
    rw [Statement.mapCases, Statement.sourceCases, Statement.sourceCases, condition.source_map hf,
      Statement.sources_map hf (depth + 1) body, Statement.sourceCases_map hf depth rest]

end

/-- The source text of a program depends on its atoms only by theirs, and not on its places. -/
theorem Program.source_map {f : Atom → Atom} {g : Span → Span} (hf : ∀ a, (f a).source = a.source)
    (p : Program) : (p.map f g).source = p.source :=
  Statement.sources_map hf 0 p

/-! ## Numbered nodes -/

/-- The node with its atom changed by `f` and its span by `g`. -/
def Node.map (f : Atom → Atom) (g : Span → Span) : Node → Node
  | .atom a s => .atom (f a) (g s)
  | .unary op operand s => .unary op operand (g s)
  | .binary op left right => .binary op left right
  | .assign op target value => .assign op target value
  | .logic op left right => .logic op left right
  | .call callee args s => .call callee args (g s)
  | .iif condition yes no s => .iif condition yes no (g s)

/-- The arena with every atom changed by `f` and every span by `g`. -/
def Arena.map (f : Atom → Atom) (g : Span → Span) (a : Arena) : Arena :=
  ⟨a.nodes.map (Node.map f g), a.root⟩

mutual

/-- A changed expression is laid out at the same numbers, with changed nodes. -/
theorem Arena.push_map (f : Atom → Atom) (g : Span → Span) (nodes : Array Node) : (e : Expr) →
    Arena.push (nodes.map (Node.map f g)) (e.map f g) =
      ((Arena.push nodes e).1.map (Node.map f g), (Arena.push nodes e).2)
  | .atom a s => by simp [Expr.map, Arena.push, Arena.push.add, Node.map]
  | .unary op operand s => by
    simp [Expr.map, Arena.push, Arena.push.add, Node.map, Arena.push_map f g _ operand]
  | .binary op left right | .assign op left right | .logic op left right => by
    simp [Expr.map, Arena.push, Arena.push.add, Node.map, Arena.push_map f g _ left,
      Arena.push_map f g _ right]
  | .call callee args s => by
    simp [Expr.map, Arena.push, Arena.push.add, Node.map, Arena.push_map f g _ callee,
      Arena.pushAll_map f g _ args]
  | .iif condition yes no s => by
    simp [Expr.map, Arena.push, Arena.push.add, Node.map, Arena.push_map f g _ condition,
      Arena.push_map f g _ yes, Arena.push_map f g _ no]

theorem Arena.pushAll_map (f : Atom → Atom) (g : Span → Span) (nodes : Array Node) :
    (es : List Expr) → Arena.pushAll (nodes.map (Node.map f g)) (Expr.mapAll f g es) =
      ((Arena.pushAll nodes es).1.map (Node.map f g), (Arena.pushAll nodes es).2)
  | [] => by simp [Expr.mapAll, Arena.pushAll]
  | e :: rest => by
    simp [Expr.mapAll, Arena.pushAll, Arena.push_map f g _ e, Arena.pushAll_map f g _ rest]

end

/-- The nodes of an expression are numbered by its structure alone. -/
theorem Arena.ofExpr_map (f : Atom → Atom) (g : Span → Span) (e : Expr) :
    Arena.ofExpr (e.map f g) = (Arena.ofExpr e).map f g := by
  have h := Arena.push_map f g #[] e
  rw [Array.map_empty] at h
  rw [Arena.ofExpr, h]
  rfl

namespace Statement

mutual

/-- The expressions of a statement, in the order of the source. -/
def exprs : Statement → List Expr
  | declare _ d => d.initial?.toList
  | declareAll _ ds _ => ds.flatMap (·.initial?.toList)
  | function _ _ body => exprsAll body
  | expr e => [e]
  | print args _ => args
  | ifThen condition yes none => condition :: exprsAll yes
  | ifThen condition yes (some no) => condition :: exprsAll yes ++ exprsAll no
  | doCase branches none => exprsCases branches
  | doCase branches (some body) => exprsCases branches ++ exprsAll body
  | doWhile condition body => condition :: exprsAll body
  | ret value _ => value.toList
  | exit _ | loop _ => []

/-- The expressions of several statements. -/
def exprsAll : List Statement → List Expr
  | [] => []
  | s :: rest => exprs s ++ exprsAll rest

/-- The expressions of the branches of a case distinction. -/
def exprsCases : List (Expr × List Statement) → List Expr
  | [] => []
  | (condition, body) :: rest => condition :: exprsAll body ++ exprsCases rest

end

mutual

/-- The expressions of a changed statement are the changed expressions, in the same order. -/
theorem exprs_map (f : Atom → Atom) (g : Span → Span) :
    (s : Statement) → (s.map f g).exprs = s.exprs.map (Expr.map f g)
  | declare v d => by
    obtain ⟨name, type?, initial?⟩ := d
    cases initial? <;> rfl
  | declareAll v ds grouped => by
    rw [Statement.map, exprs, exprs, List.map_flatMap, List.flatMap_map]
    congr 1
    funext d
    obtain ⟨name, type?, initial?⟩ := d
    cases initial? <;> rfl
  | function name params body => by rw [Statement.map, exprs, exprs, exprsAll_map f g body]
  | expr e => rfl
  | print args s => rfl
  | ifThen condition yes none => by
    rw [Statement.map, exprs, exprs, exprsAll_map f g yes, List.map_cons]
  | ifThen condition yes (some no) => by
    rw [Statement.map, exprs, exprs, exprsAll_map f g yes, exprsAll_map f g no, List.map_append,
      List.map_cons]
  | doCase branches none => by rw [Statement.map, exprs, exprs, exprsCases_map f g branches]
  | doCase branches (some body) => by
    rw [Statement.map, exprs, exprs, exprsCases_map f g branches, exprsAll_map f g body,
      List.map_append]
  | doWhile condition body => by
    rw [Statement.map, exprs, exprs, exprsAll_map f g body, List.map_cons]
  | ret value s => by cases value <;> rfl
  | exit s | loop s => rfl

theorem exprsAll_map (f : Atom → Atom) (g : Span → Span) :
    (ss : List Statement) → exprsAll (mapAll f g ss) = (exprsAll ss).map (Expr.map f g)
  | [] => rfl
  | s :: rest => by
    rw [mapAll, exprsAll, exprsAll, exprs_map f g s, exprsAll_map f g rest, List.map_append]

theorem exprsCases_map (f : Atom → Atom) (g : Span → Span) :
    (branches : List (Expr × List Statement)) →
    exprsCases (mapCases f g branches) = (exprsCases branches).map (Expr.map f g)
  | [] => rfl
  | (condition, body) :: rest => by
    rw [mapCases, exprsCases, exprsCases, exprsAll_map f g body, exprsCases_map f g rest,
      List.map_append, List.map_cons]

end

end Statement

/-- The expressions of a program as numbered nodes, in the order of the source. -/
def Program.arenas (p : Program) : List Arena :=
  (Statement.exprsAll p).map Arena.ofExpr

/-- The arenas of a changed program are the changed arenas. -/
theorem Program.arenas_map (f : Atom → Atom) (g : Span → Span) (p : Program) :
    (p.map f g).arenas = p.arenas.map (Arena.map f g) := by
  rw [Program.arenas, Program.arenas, Program.map, Statement.exprsAll_map, List.map_map,
    List.map_map]
  exact List.map_congr_left fun e _ => Arena.ofExpr_map f g e

end Xbase
