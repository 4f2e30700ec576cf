import Xbase.Program.Basic

/-!
# Programs as source text

The text of a program, which parses back into it: one statement a line, blocks indented, and every
operand that is an operator expression itself between parentheses.
-/

namespace Xbase

/-- The first quotation mark that does not occur in the text, or else the first of all. -/
def stringMark (s : String) : String :=
  if ¬ s.contains '\x27' then "\x27"
  else if ¬ s.contains '"' then "\""
  else if ¬ s.contains '\x60' then "\x60"
  else "\x27"

/-- The atom as it is written in a program. -/
def Atom.source : Atom → String
  | number n => n.plain
  | logical b => if b then ".T." else ".F."
  | null => "NULL"
  | name s => s
  | string s => stringMark s ++ s ++ stringMark s

/-- Parentheses around an operand. -/
def parenthesized (nested : Bool) (text : String) : String :=
  if nested then "(" ++ text ++ ")" else text

namespace Expr

mutual

/-- The expression as it is written in a program; `nested` if it is an operand. -/
def sourceIn (nested : Bool) : Expr → String
  | atom a _ => a.source
  | unary op operand _ => parenthesized nested (op.sign ++ sourceIn true operand)
  | binary op left right =>
    parenthesized nested (sourceIn true left ++ " " ++ op.sign ++ " " ++ sourceIn true right)
  | assign op target value =>
    parenthesized nested (sourceIn true target ++ " " ++ op.sign ++ " " ++ sourceIn true value)
  | logic op left right =>
    parenthesized nested (sourceIn true left ++ " " ++ op.sign ++ " " ++ sourceIn true right)
  | call callee args _ => sourceIn true callee ++ "(" ++ ", ".intercalate (sources args) ++ ")"
  | iif condition yes no _ =>
    "IIF(" ++ sourceIn false condition ++ ", " ++ sourceIn false yes ++ ", " ++ sourceIn false no
      ++ ")"

/-- The texts of several arguments. -/
def sources : List Expr → List String
  | [] => []
  | e :: rest => sourceIn false e :: sources rest

end

/-- The expression as it is written in a program. -/
def source (e : Expr) : String :=
  e.sourceIn false

end Expr

/-- Name, type and first value. -/
def Declarator.source (d : Declarator) : String :=
  d.name.name
    ++ (d.type?.elim "" fun t => " AS " ++ t.word)
    ++ (d.initial?.elim "" fun e => " = " ++ e.source)

/-- One line of a program, indented by `depth` steps of four blanks. -/
def sourceLine (depth : Nat) (text : String) : String :=
  String.ofList (List.replicate (4 * depth) ' ') ++ text ++ "\n"

namespace Statement

mutual

/-- The lines of a statement. -/
def source (depth : Nat) : Statement → String
  | declare visibility d => sourceLine depth (visibility.word ++ " " ++ d.source)
  | declareAll visibility ds grouped =>
    let names := ", ".intercalate (ds.map Declarator.source)
    sourceLine depth (visibility.word ++ " " ++ parenthesized grouped names)
  | function name params body =>
    sourceLine depth
        ("FUNCTION " ++ name.name ++ "(" ++ ", ".intercalate (params.map (·.name)) ++ ")")
      ++ sources (depth + 1) body ++ sourceLine depth "ENDFUNC"
  | expr e => sourceLine depth e.source
  | print args _ =>
    sourceLine depth
      (if args.isEmpty then "?" else "? " ++ ", ".intercalate (args.map Expr.source))
  | ifThen condition yes none =>
    sourceLine depth ("IF " ++ condition.source ++ " THEN")
      ++ sources (depth + 1) yes ++ sourceLine depth "ENDIF"
  | ifThen condition yes (some no) =>
    sourceLine depth ("IF " ++ condition.source ++ " THEN")
      ++ sources (depth + 1) yes
      ++ sourceLine depth "ELSE" ++ sources (depth + 1) no ++ sourceLine depth "ENDIF"
  | doCase branches none =>
    sourceLine depth "DO CASE" ++ sourceCases (depth + 1) branches ++ sourceLine depth "ENDCASE"
  | doCase branches (some body) =>
    sourceLine depth "DO CASE" ++ sourceCases (depth + 1) branches
      ++ sourceLine (depth + 1) "OTHERWISE" ++ sources (depth + 2) body
      ++ sourceLine depth "ENDCASE"
  | doWhile condition body =>
    sourceLine depth ("DO WHILE " ++ condition.source)
      ++ sources (depth + 1) body ++ sourceLine depth "ENDDO"
  | ret none _ => sourceLine depth "RETURN"
  | ret (some e) _ => sourceLine depth ("RETURN " ++ e.source)
  | exit _ => sourceLine depth "EXIT"
  | loop _ => sourceLine depth "LOOP"

/-- The lines of several statements. -/
def sources (depth : Nat) : List Statement → String
  | [] => ""
  | s :: rest => source depth s ++ sources depth rest

/-- The lines of the branches of a case distinction. -/
def sourceCases (depth : Nat) : List (Expr × List Statement) → String
  | [] => ""
  | (condition, body) :: rest =>
    sourceLine depth ("CASE " ++ condition.source) ++ sources (depth + 1) body
      ++ sourceCases depth rest

end

end Statement

/-- The text of a program. -/
def Program.source (p : Program) : String :=
  Statement.sources 0 p

end Xbase
