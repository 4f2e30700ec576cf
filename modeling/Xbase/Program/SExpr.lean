import Xbase.Program.Basic

/-!
# Programs as S-expressions

One S-expression a statement. It shows the structure of a program and nothing of its layout.
-/

namespace Xbase

/-- Words with a blank before each. -/
def spaced (words : List String) : String :=
  String.join (words.map (" " ++ ·))

/-- The atom as a word. -/
def Atom.sexpr : Atom → String
  | number n => n.plain
  | logical b => if b then ".T." else ".F."
  | null => "null"
  | name s => s
  | string s => Text.quote s

namespace Expr

mutual

/-- The operator in front of its operands. -/
def sexpr : Expr → String
  | atom a _ => a.sexpr
  | unary op operand _ => "(" ++ op.sign ++ " " ++ operand.sexpr ++ ")"
  | binary op left right => "(" ++ op.sign ++ " " ++ left.sexpr ++ " " ++ right.sexpr ++ ")"
  | assign op target value => "(" ++ op.sign ++ " " ++ target.sexpr ++ " " ++ value.sexpr ++ ")"
  | logic op left right => "(" ++ op.sign ++ " " ++ left.sexpr ++ " " ++ right.sexpr ++ ")"
  | call callee args _ => "(call " ++ callee.sexpr ++ spaced (sexprs args) ++ ")"
  | iif condition yes no _ =>
    "(iif " ++ condition.sexpr ++ " " ++ yes.sexpr ++ " " ++ no.sexpr ++ ")"

/-- The S-expressions of several expressions. -/
def sexprs : List Expr → List String
  | [] => []
  | e :: rest => e.sexpr :: sexprs rest

end

end Expr

/-- The text in small letters, of which every word here has an ASCII form. -/
def smallLetters (s : String) : String :=
  String.ofList (s.toList.map Char.toLower)

/-- Name, type and first value. -/
def Declarator.sexpr (d : Declarator) : String :=
  d.name.name
    ++ (d.type?.elim "" fun t => " :" ++ smallLetters t.word)
    ++ (d.initial?.elim "" fun e => " " ++ e.sexpr)

namespace Statement

/-- A block of the given statements. -/
def blockText (statements : List String) : String :=
  "(block" ++ spaced statements ++ ")"

mutual

/-- The kind of the statement in front of its parts. -/
def sexpr : Statement → String
  | declare visibility d => "(" ++ smallLetters visibility.word ++ " " ++ d.sexpr ++ ")"
  | declareAll visibility ds _ =>
    "(" ++ smallLetters visibility.word ++ "-inline"
      ++ spaced (ds.map fun d => "(" ++ d.sexpr ++ ")") ++ ")"
  | function name params body =>
    "(function " ++ name.name ++ " (" ++ " ".intercalate (params.map (·.name)) ++ ") "
      ++ blockText (sexprs body) ++ ")"
  | expr e => e.sexpr
  | print args _ => "(print" ++ spaced (args.map Expr.sexpr) ++ ")"
  | ifThen condition yes none => "(if " ++ condition.sexpr ++ " " ++ blockText (sexprs yes) ++ ")"
  | ifThen condition yes (some no) =>
    "(if " ++ condition.sexpr ++ " " ++ blockText (sexprs yes) ++ " " ++ blockText (sexprs no) ++
      ")"
  | doCase branches none => "(do-case" ++ spaced (sexprCases branches) ++ ")"
  | doCase branches (some body) =>
    "(do-case" ++ spaced (sexprCases branches) ++ " (otherwise " ++ blockText (sexprs body) ++ "))"
  | doWhile condition body => "(while " ++ condition.sexpr ++ " " ++ blockText (sexprs body) ++ ")"
  | ret none _ => "(return)"
  | ret (some e) _ => "(return " ++ e.sexpr ++ ")"
  | exit _ => "(exit)"
  | loop _ => "(loop)"

/-- The S-expressions of several statements. -/
def sexprs : List Statement → List String
  | [] => []
  | s :: rest => s.sexpr :: sexprs rest

/-- The branches of a case distinction. -/
def sexprCases : List (Expr × List Statement) → List String
  | [] => []
  | (condition, body) :: rest =>
    ("(case " ++ condition.sexpr ++ " " ++ blockText (sexprs body) ++ ")") :: sexprCases rest

end

end Statement

/-- One line for each statement. -/
def Program.sexpr (p : Program) : String :=
  String.join (p.map fun s => s.sexpr ++ "\n")

end Xbase
