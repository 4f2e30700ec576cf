import Xbase.Proofs.Program.Map

/-!
# The atoms of a program

`Program.atoms` lists the numbers, strings, truth values and names in the expressions of a program.
What becomes of a program when its atoms are changed depends on what becomes of these
(`Program.map_congr`).
-/

namespace Xbase

mutual

/-- The atoms of the expression. -/
def Expr.atoms : Expr → List Atom
  | .atom a _ => [a]
  | .unary _ operand _ => operand.atoms
  | .binary _ left right | .assign _ left right | .logic _ left right => left.atoms ++ right.atoms
  | .call callee args _ => callee.atoms ++ Expr.atomsAll args
  | .iif condition yes no _ => condition.atoms ++ yes.atoms ++ no.atoms

/-- The atoms of several expressions. -/
def Expr.atomsAll : List Expr → List Atom
  | [] => []
  | e :: rest => e.atoms ++ Expr.atomsAll rest

end

def Declarator.atoms (d : Declarator) : List Atom := d.initial?.elim [] Expr.atoms

mutual

/-- The atoms of the statement. -/
def Statement.atoms : Statement → List Atom
  | .declare _ d => d.atoms
  | .declareAll _ ds _ => ds.flatMap Declarator.atoms
  | .function _ _ body => Statement.atomsAll body
  | .expr e => e.atoms
  | .print args _ => args.flatMap Expr.atoms
  | .ifThen condition yes none => condition.atoms ++ Statement.atomsAll yes
  | .ifThen condition yes (some no) =>
    condition.atoms ++ Statement.atomsAll yes ++ Statement.atomsAll no
  | .doCase branches none => Statement.atomsCases branches
  | .doCase branches (some body) => Statement.atomsCases branches ++ Statement.atomsAll body
  | .doWhile condition body => condition.atoms ++ Statement.atomsAll body
  | .ret value _ => value.elim [] Expr.atoms
  | .exit _ | .loop _ => []

/-- The atoms of several statements. -/
def Statement.atomsAll : List Statement → List Atom
  | [] => []
  | s :: rest => s.atoms ++ Statement.atomsAll rest

/-- The atoms of the branches of a case distinction. -/
def Statement.atomsCases : List (Expr × List Statement) → List Atom
  | [] => []
  | (condition, body) :: rest =>
    condition.atoms ++ Statement.atomsAll body ++ Statement.atomsCases rest

end

/-- The atoms of the program. -/
def Program.atoms (p : Program) : List Atom := Statement.atomsAll p

/-! ## Changing them -/

section

variable {f f' : Atom → Atom} {g : Span → Span}

mutual

/-- Only the atoms in an expression matter to a change of it. -/
theorem Expr.map_congr : (e : Expr) → (∀ a ∈ e.atoms, f a = f' a) → e.map f g = e.map f' g
  | .atom a s, h => congrArg (Expr.atom · (g s)) (h a List.mem_cons_self)
  | .unary op operand s, h => by rw [Expr.map, Expr.map, operand.map_congr h]
  | .binary op left right, h | .assign op left right, h | .logic op left right, h => by
    rw [Expr.atoms, List.forall_mem_append] at h
    rw [Expr.map, Expr.map, left.map_congr h.1, right.map_congr h.2]
  | .call callee args s, h => by
    rw [Expr.atoms, List.forall_mem_append] at h
    rw [Expr.map, Expr.map, callee.map_congr h.1, Expr.mapAll_congr args h.2]
  | .iif condition yes no s, h => by
    rw [Expr.atoms, List.forall_mem_append, List.forall_mem_append] at h
    rw [Expr.map, Expr.map, condition.map_congr h.1.1, yes.map_congr h.1.2, no.map_congr h.2]

theorem Expr.mapAll_congr : (es : List Expr) → (∀ a ∈ Expr.atomsAll es, f a = f' a) →
    Expr.mapAll f g es = Expr.mapAll f' g es
  | [], _ => rfl
  | e :: rest, h => by
    rw [Expr.atomsAll, List.forall_mem_append] at h
    rw [Expr.mapAll, Expr.mapAll, e.map_congr h.1, Expr.mapAll_congr rest h.2]

end

theorem Expr.optionMap_congr : (e? : Option Expr) → (∀ a ∈ e?.elim [] Expr.atoms, f a = f' a) →
    e?.map (Expr.map f g) = e?.map (Expr.map f' g)
  | none, _ => rfl
  | some e, h => congrArg some (e.map_congr h)

theorem Declarator.map_congr (d : Declarator) (h : ∀ a ∈ d.atoms, f a = f' a) :
    d.map f g = d.map f' g := by
  rw [Declarator.map, Declarator.map, Expr.optionMap_congr d.initial? h]

mutual

/-- Only the atoms in a statement matter to a change of it. -/
theorem Statement.map_congr :
    (s : Statement) → (∀ a ∈ s.atoms, f a = f' a) → s.map f g = s.map f' g
  | .declare v d, h => by rw [Statement.map, Statement.map, d.map_congr h]
  | .declareAll v ds grouped, h => by
    rw [Statement.atoms, List.forall_mem_flatMap] at h
    rw [Statement.map, Statement.map, List.map_congr_left fun d hd => d.map_congr (h d hd)]
  | .function name params body, h => by
    rw [Statement.map, Statement.map, Statement.mapAll_congr body h]
  | .expr e, h => by rw [Statement.map, Statement.map, e.map_congr h]
  | .print args s, h => by
    rw [Statement.atoms, List.forall_mem_flatMap] at h
    rw [Statement.map, Statement.map, List.map_congr_left fun e he => e.map_congr (h e he)]
  | .ifThen condition yes none, h => by
    rw [Statement.atoms, List.forall_mem_append] at h
    rw [Statement.map, Statement.map, condition.map_congr h.1, Statement.mapAll_congr yes h.2]
  | .ifThen condition yes (some no), h => by
    rw [Statement.atoms, List.forall_mem_append, List.forall_mem_append] at h
    rw [Statement.map, Statement.map, condition.map_congr h.1.1, Statement.mapAll_congr yes h.1.2,
      Statement.mapAll_congr no h.2]
  | .doCase branches none, h => by
    rw [Statement.map, Statement.map, Statement.mapCases_congr branches h]
  | .doCase branches (some body), h => by
    rw [Statement.atoms, List.forall_mem_append] at h
    rw [Statement.map, Statement.map, Statement.mapCases_congr branches h.1,
      Statement.mapAll_congr body h.2]
  | .doWhile condition body, h => by
    rw [Statement.atoms, List.forall_mem_append] at h
    rw [Statement.map, Statement.map, condition.map_congr h.1, Statement.mapAll_congr body h.2]
  | .ret value s, h => by
    rw [Statement.map, Statement.map, Expr.optionMap_congr value h]
  | .exit s, _ | .loop s, _ => rfl

theorem Statement.mapAll_congr : (ss : List Statement) →
    (∀ a ∈ Statement.atomsAll ss, f a = f' a) → Statement.mapAll f g ss = Statement.mapAll f' g ss
  | [], _ => rfl
  | s :: rest, h => by
    rw [Statement.atomsAll, List.forall_mem_append] at h
    rw [Statement.mapAll, Statement.mapAll, s.map_congr h.1, Statement.mapAll_congr rest h.2]

theorem Statement.mapCases_congr : (branches : List (Expr × List Statement)) →
    (∀ a ∈ Statement.atomsCases branches, f a = f' a) →
    Statement.mapCases f g branches = Statement.mapCases f' g branches
  | [], _ => rfl
  | (condition, body) :: rest, h => by
    rw [Statement.atomsCases, List.forall_mem_append, List.forall_mem_append] at h
    rw [Statement.mapCases, Statement.mapCases, condition.map_congr h.1.1,
      Statement.mapAll_congr body h.1.2, Statement.mapCases_congr rest h.2]

end

end

/-- Only the atoms in a program matter to a change of it. -/
theorem Program.map_congr {f f' : Atom → Atom} {g : Span → Span} {p : Program}
    (h : ∀ a ∈ p.atoms, f a = f' a) : p.map f g = p.map f' g :=
  Statement.mapAll_congr p h

end Xbase
