import Xbase.Expr.Arena
import Xbase.Program.Basic

/-!
# Dumps of programs

One line a statement with all its parts and places; expressions appear as their numbered nodes.
-/

namespace Xbase

open Text.Dump

/-- The name with its place. -/
def Ident.dump (i : Ident) : String :=
  record "Ident" [("name", Text.quote i.name), ("span", i.span.dump)]

/-- The record with its field names. -/
def Declarator.dump (d : Declarator) : String :=
  record "VariableDeclarator" [("name", d.name.dump),
    ("declared_type", optional (d.type?.map DeclaredType.dump)),
    ("initial", optional (d.initial?.map Expr.dump))]

namespace Statement

/-- A block of the given statements. -/
def dumpBlock (statements : List String) : String :=
  record "Block" [("statements", list statements)]

mutual

/-- The statement with its field names. -/
def dump : Statement → String
  | declare visibility d =>
    wrap "VariableDecl" (record "VariableDecl"
      [("scope", visibility.dump), ("declarator", d.dump)])
  | declareAll visibility ds grouped =>
    wrap "InlineVariableDecl" (record "InlineVariableDecl" [("scope", visibility.dump),
      ("declarators", list (ds.map Declarator.dump)), ("grouped", logical grouped)])
  | function name params body =>
    wrap "FunctionDecl" (record "FunctionDecl" [("name", name.dump),
      ("parameters", list (params.map Ident.dump)), ("body", dumpBlock (dumps body))])
  | expr e => wrap "Expression" (record "ExpressionStatement" [("expr", e.dump)])
  | print args s =>
    wrap "Print" (record "PrintStatement"
      [("arguments", list (args.map Expr.dump)), ("span", s.dump)])
  | ifThen condition yes none => dumpIf condition (dumps yes) none
  | ifThen condition yes (some no) => dumpIf condition (dumps yes) (some (dumps no))
  | doCase branches none => dumpDoCase (dumpCases branches) none
  | doCase branches (some body) => dumpDoCase (dumpCases branches) (some (dumps body))
  | doWhile condition body =>
    wrap "While" (record "WhileStatement"
      [("condition", condition.dump), ("body", dumpBlock (dumps body))])
  | ret value s =>
    wrap "Return" (record "ReturnStatement"
      [("value", optional (value.map Expr.dump)), ("span", s.dump)])
  | exit s => wrap "Exit" s.dump
  | loop s => wrap "Loop" s.dump
where
  /-- A condition with its branches written. -/
  dumpIf (condition : Expr) (yes : List String) (no : Option (List String)) : String :=
    wrap "If" (record "IfStatement" [("condition", condition.dump), ("success", dumpBlock yes),
      ("failure", optional (no.map dumpBlock))])
  /-- A case distinction with its branches written. -/
  dumpDoCase (branches : List String) (otherwise : Option (List String)) : String :=
    wrap "DoCase" (record "DoCaseStatement" [("branches", list branches),
      ("otherwise", optional (otherwise.map dumpBlock))])

/-- The dumps of several statements. -/
def dumps : List Statement → List String
  | [] => []
  | s :: rest => s.dump :: dumps rest

/-- The branches of a case distinction. -/
def dumpCases : List (Expr × List Statement) → List String
  | [] => []
  | (condition, body) :: rest =>
    record "CaseBranch" [("condition", condition.dump), ("body", dumpBlock (dumps body))]
      :: dumpCases rest

end

end Statement

/-- One line for each statement. -/
def Program.dump (p : Program) : String :=
  String.join (p.map fun s => s.dump ++ "\n")

end Xbase
