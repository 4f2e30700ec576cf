import Xbase.Lines
import Xbase.SyntaxError
import Xbase.Text.Blank
import Xbase.Token.Print
import Xbase.Value.Fault

/-!
# Reports

A report shows the line of the source at fault, marks the bytes at fault and explains them, all in
colours. The bytes are taken to lie on one line of single-byte characters.
-/

namespace Xbase

/-- What is wrong, and the bytes of the source to show with an explanation. -/
structure Report where
  code : Option String
  message : String
  label : String
  span : Span

namespace Report

/-! ## Colours -/

/-- A text in a colour of the terminal. -/
def paint (colour : String) (text : String) : String :=
  "\x1b[" ++ colour ++ "m" ++ text ++ "\x1b[0m"

/-- The colour of the frame. -/
def frame : String → String := paint "38;5;246"

/-- The colour of the frame beside the marks. -/
def margin : String → String := paint "38;5;240"

/-- The colour of source text that is not at fault. -/
def dim : String → String := paint "38;5;249"

/-- The colour of what is at fault. -/
def red : String → String := paint "91"

def cyan : String → String := paint "96"

def yellow : String → String := paint "93"

/-! ## The line at fault -/

/-- A line of the source: its number from 1, the offset of its first character, and its text. -/
structure Line where
  number : Nat
  offset : Nat
  text : List Char

/-- The lines of a text without their line breaks. A line break at the end starts no line. -/
def splitLines : List Char → List (List Char)
  | [] => []
  | c :: cs =>
    if c = '\n' then [] :: splitLines cs
    else
      match splitLines cs with
      | [] => [[c]]
      | line :: rest => (c :: line) :: rest

/-- The last line that starts at or before the offset `target`, of a line with the given number and
offset and the lines `rest` behind it. -/
def lineFrom (target number offset : Nat) (text : List Char) : (rest : List (List Char)) → Line
  | [] => ⟨number, offset, text⟩
  | following :: rest =>
    let next := offset + text.length + 1
    if next ≤ target then lineFrom target (number + 1) next following rest
    else ⟨number, offset, text⟩

/-- The line of the source in which an offset lies. An empty source has one empty line. -/
def lineAt (source : String) (target : Nat) : Line :=
  match splitLines source.toList with
  | [] => ⟨1, 0, []⟩
  | first :: rest => lineFrom target 1 0 first rest

/-! ## Layout -/

/-- The count of cells of the character in column `k`: a tab reaches to the next multiple of four.
-/
def width (text : List Char) (k : Nat) : Nat :=
  if text[k]? = some '\t' then 4 - k % 4 else 1

/-- The cell `first` followed by cells `more` up to the width of column `k`. -/
def stretch (text : List Char) (k : Nat) (first more : String) : String :=
  first ++ String.join (List.replicate (width text k - 1) more)

/-- The characters of the line, each in its colour. -/
def sourceCells (text : List Char) (inSpan : Nat → Bool) : List String :=
  text.mapIdx fun k c =>
    let colour := if inSpan k then red else dim
    if c = '\t' then stretch text k (colour " ") (colour " ") else colour (String.singleton c)

/-- The marks below the bytes at fault, with a stem in the column `mid`. -/
def markCells (text : List Char) (inSpan : Nat → Bool) (mid columns : Nat) : List String :=
  (List.range columns).map fun k =>
    if k = mid then
      if inSpan k then stretch text k (red "┬") (red "─") else stretch text k (red "│") (red " ")
    else if inSpan k then stretch text k (red "─") (red "─")
    else stretch text k " " " "

/-- The arm from the stem to the label. -/
def armCells (text : List Char) (mid columns : Nat) : List String :=
  (List.range columns).map fun k =>
    if k < mid then stretch text k " " " "
    else if k = mid then stretch text k (red "╰") (red "─")
    else stretch text k (red "─") (red "─")

/-- `n` times the same text. -/
def times (n : Nat) (text : String) : String :=
  String.join (List.replicate n text)

/-- The coloured headline: the code, if there is one, and the message. -/
def headline (r : Report) : String :=
  paint "31" (r.code.elim "Error:" fun c => "[" ++ c ++ "] Error:") ++ " " ++ r.message

/-- The margin beside marks, for line numbers of `digits` digits. -/
def side (digits : Nat) : String :=
  " " ++ margin (times (digits + 1) " " ++ "│") ++ " "

/-- The line at fault with its number, the marks below it and the label. -/
def excerpt (r : Report) (line : Line) : List String :=
  let start := r.span.start.toNat
  let stop := r.span.stop.toNat
  let number := toString line.number
  let text := Text.trimBlankRight line.text
  let inSpan := fun k => decide (start ≤ line.offset + k ∧ line.offset + k < stop)
  let mid := (start + stop) / 2 - line.offset
  let columns := stop - line.offset + 2
  [ " " ++ frame (number ++ " │") ++ " " ++ String.join (sourceCells text inSpan),
    side number.length ++ String.join (markCells text inSpan mid columns),
    side number.length ++ String.join (armCells text mid columns) ++ " " ++ r.label ]

/-- A frame around the excerpt, with the place at fault above it. -/
def framed (r : Report) (path : String) (line : Line) (excerpt : List String) : List String :=
  let number := toString line.number
  let indent := times (number.length + 2) " "
  [ indent ++ frame "╭" ++ frame "─" ++ frame "[" ++
      s!" {path}:{number}:{r.span.start.toNat - line.offset + 1} " ++ frame "]",
    indent ++ frame "│" ] ++ excerpt ++
  [ frame (times (number.length + 2) "─" ++ "╯") ]

/-- The lines of the report. The bytes at fault may be those of another source, as when a function
is called that was declared in one: if they do not lie in this source there is only the headline,
except that bytes which end one behind it leave an empty frame. -/
def lines (r : Report) (path source : String) : List String :=
  let start := r.span.start.toNat
  let stop := r.span.stop.toNat
  let line := lineAt source start
  r.headline ::
    if source.length < start ∨ source.length + 1 < stop then []
    else if source.length < stop then r.framed path line [side (toString line.number).length]
    else r.framed path line (r.excerpt line)

/-- The report as text. -/
def render (r : Report) (path source : String) : String :=
  String.join ((r.lines path source).map (· ++ "\n"))

end Report

/-! ## Reports of errors -/

open Report

/-- The report of a fault of the text. -/
def LexError.report (e : LexError) : Report where
  code := none
  message := e.message
  label := match e.fault with
    | .unrecognized c => Text.quoteChar c ++ " is not part of the language"
    | .unclosedString => "This string is never closed"
    | .unclosedComment => "This comment is never closed"
  span := e.span

/-- The headline of a syntax error and the explanation of the token at fault. -/
def SyntaxFault.explain : SyntaxFault → String × String
  | unexpectedToken actual expected =>
    ("Expected a different token", s!"Expected {expected.label} but got {actual.label}")
  | nonExpression actual =>
    ("Expected a valid expression operator or atom token",
      s!"Not an expression token {actual.label}")
  | nonIdentifier actual => ("Expected a name", s!"{actual.label} is not a name")
  | nonCaseBranch actual =>
    ("Expected CASE, OTHERWISE or ENDCASE",
      s!"{actual.label} can not appear directly inside DO CASE")
  | unknownType name =>
    ("Unknown declared type", s!"{name} is not one of STRING, NUMBER or BOOLEAN")
  | invalidNumber lexeme => ("Invalid numeric literal", s!"{lexeme} is not a number")

/-- The report of a syntax error. -/
def SyntaxError.report (e : SyntaxError) : Report where
  code := some e.fault.code
  message := e.fault.explain.1
  label := e.fault.explain.2
  span := e.span

/-- The headline of a fault of evaluation and the explanation of the bytes at fault. -/
def EvalFault.explain : EvalFault → String × String
  | undefinedVariable name =>
    ("Attempted to read a variable that is not visible here",
      red name ++ " is not declared or is LOCAL to a caller")
  | invalidArgument => ("Invalid operand or argument", "This value has the wrong type or count")
  | typeMismatch left sign right =>
    ("Expected both operands to have the same type",
      cyan left.word ++ " and " ++ red right.word ++ " can not be combined with " ++ sign)
  | unsupportedOperator sign type =>
    ("Operator is not defined for this type", sign ++ " does not apply to " ++ red type.word)
  | divisionByZero => ("Division by zero", "The divisor evaluates to zero")
  | tooManyArguments name expected actual =>
    ("Attempted to call a function with too many arguments",
      name ++ " has " ++ cyan (toString expected) ++ " parameters but got "
        ++ red (toString actual) ++ " arguments instead.")
  | unexpectedArguments name =>
    ("Attempted to pass arguments to a function without parameters",
      name ++ " takes no arguments")
  | nameInUse name =>
    ("Attempted to redeclare a function", yellow name ++ " is already declared here")
  | invalidAssignmentTarget =>
    ("Invalid assignment target", "Only variables can be assigned to")
  | nonLogicalCondition type =>
    ("Condition must be logical", "This condition is " ++ red type.word)
  | nonLogicalOperand sign type =>
    ("Operands of logical operators must be logical",
      "Operand of " ++ sign ++ " is " ++ red type.word)
  | notCallable type =>
    ("Attempted to call a value that is not callable", red type.word ++ " is not callable.")
  | strayLoopControl word =>
    ("Loop control outside of a loop", word ++ " must appear inside DO WHILE")

/-- The report of a fault of evaluation. -/
def EvalError.report (e : EvalError) : Report where
  code := some e.fault.code
  message := e.fault.explain.1
  label := e.fault.explain.2
  span := e.span

end Xbase
