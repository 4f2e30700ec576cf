import Xbase.Parser.Expr
import Xbase.Parser.Window
import Xbase.Program.Basic

/-!
# Parsing statements and programs

A statement that cannot be read is recorded as a syntax error and the rest of its line is skipped.
`parse` reads a whole text: a fault of the text itself outweighs every syntax error.
-/

namespace Xbase

namespace Parser

/-- The keywords that close a block. They also end a `RETURN` without a value and a `?` without
arguments. -/
def closers : List Keyword :=
  [.ELSE, .ENDIF, .ENDFUNC, .ENDDO, .CASE, .OTHERWISE, .ENDCASE]

/-- Whether a token of this kind is one of the keywords. -/
def isOneOf (ends : List Keyword) (kind : Kind) : Bool :=
  ends.any (.keyword · = kind)

/-- Whether a token of this kind cannot belong to the statement before it. -/
def endsStatement (kind : Kind) : Bool :=
  kind = .newline || kind = .endOfFile || isOneOf closers kind

/-- A name with its place. -/
def ident : Parser Ident := do
  let token ← expectName
  return ⟨token.lexeme, token.span⟩

/-- `AS` and the name of a type, if they are there. -/
def typeClause : Parser (Option DeclaredType) := do
  if ← eat (.keyword .AS) then
    let type ← ident
    match DeclaredType.ofName? type.name with
    | some t => return some t
    | none => failWith (.unknownType type.name)
  else return none

/-- A declared name with its type and first value. -/
def declarator : Parser Declarator := do
  let name ← ident
  let type? ← typeClause
  if ← eat (.symbol .equal) then
    return ⟨name, type?, some (← expression)⟩
  else return ⟨name, type?, none⟩

/-- A declared name with line breaks around it. -/
def looseDeclarator : Parser Declarator := do
  skipNewlines
  let d ← declarator
  skipNewlines
  return d

/-- The names behind the word that declares their visibility. -/
def declaration (visibility : Visibility) : Parser Statement := do
  let _ ← advance
  if ← eat (.symbol .leftParen) then
    let ds ← commaSeparated looseDeclarator
    let _ ← expect (.symbol .rightParen)
    return .declareAll visibility ds true
  else
    match ← commaSeparated declarator with
    | [d] => return .declare visibility d
    | ds => return .declareAll visibility ds false

/-- The parameters of a function, if there are parentheses behind its name. -/
def parameters : Parser (List Ident) := do
  if ← eat (.symbol .leftParen) then
    let noParams := (← current).kind = .symbol .rightParen
    let params ← if noParams then pure [] else commaSeparated ident
    demand (.symbol .rightParen)
    return params
  else return []

/-- `RETURN` and perhaps a value. -/
def returnStatement : Parser Statement := do
  let keyword ← advance
  if endsStatement (← current).kind then return .ret none keyword.span
  else return .ret (some (← expression)) keyword.span

/-- A question mark and what is to be printed. -/
def printStatement : Parser Statement := do
  let mark ← advance
  if endsStatement (← current).kind then return .print [] mark.span
  else return .print (← commaSeparated expression) mark.span

/-- `ENDCASE`; its absence is recorded. -/
def endCase : Parser Unit := do
  let kind := (← current).kind
  if kind = .keyword .ENDCASE then
    let _ ← advance
  else report (.nonCaseBranch kind)

/-- `WHILE`, a condition and a body. -/
def whileLoop (body : Parser Block) : Parser Statement := do
  let _ ← advance
  let condition ← expression
  demand .newline
  let body ← body
  demand (.keyword .ENDDO)
  return .doWhile condition body

mutual

/-- One statement. -/
def statement : (depth : Nat) → Parser Statement
  | 0 => fail
  | depth + 1 => do
    match (← current).kind with
    | .keyword .LOCAL => declaration .loc
    | .keyword .PRIVATE => declaration .priv
    | .keyword .PUBLIC => declaration .pub
    | .keyword .FUNCTION =>
      let _ ← advance
      let name ← ident
      let params ← parameters
      demand .newline
      let body ← statements depth [.ENDFUNC]
      demand (.keyword .ENDFUNC)
      return .function name params body
    | .keyword .RETURN => returnStatement
    | .keyword .IF =>
      let _ ← advance
      let condition ← expression
      let _ ← eat (.keyword .THEN)
      demand .newline
      let yes ← statements depth [.ELSE, .ENDIF]
      let no ← if ← eat (.keyword .ELSE) then
        demand .newline
        pure (some (← statements depth [.ENDIF]))
      else pure none
      demand (.keyword .ENDIF)
      return .ifThen condition yes no
    | .keyword .DO =>
      match (← following).kind with
      | .keyword .CASE =>
        let _ ← advance
        let _ ← advance
        demand .newline
        let branches ← cases depth
        let otherwise ← if ← eat (.keyword .OTHERWISE) then
          demand .newline
          pure (some (← statements depth [.ENDCASE]))
        else pure none
        endCase
        return .doCase branches otherwise
      | .keyword .WHILE =>
        let _ ← advance
        whileLoop (statements depth [.ENDDO])
      | _ => return .expr (← expression)
    | .keyword .WHILE => whileLoop (statements depth [.ENDDO])
    | .keyword .EXIT => return .exit (← advance).span
    | .keyword .LOOP => return .loop (← advance).span
    | .symbol .question => printStatement
    | _ => return .expr (← expression)

/-- Statements up to one of the keywords `ends` or the end of the source. -/
def statements : (depth : Nat) → (ends : List Keyword) → Parser Block
  | 0, _ => fail
  | depth + 1, ends => do
    let kind := (← current).kind
    if kind = .endOfFile || isOneOf ends kind then return []
    else
      match ← attempt (statement depth) with
      | some first =>
        let _ ← eat .newline
        let more ← statements depth ends
        return first :: more
      | none =>
        skipLine
        let _ ← eat .newline
        statements depth ends

/-- The branches of a case distinction. -/
def cases : (depth : Nat) → Parser (List (Expr × Block))
  | 0 => fail
  | depth + 1 => do
    if ← eat (.keyword .CASE) then
      let condition ← expression
      demand .newline
      let body ← statements depth [.CASE, .OTHERWISE, .ENDCASE]
      let more ← cases depth
      return (condition, body) :: more
    else return []

end

/-- The statements up to the end of the source. -/
def program : Parser Program :=
  fun s => statements s.budget [] s

end Parser

/-- What parsing gives: the statements that could be read, and the errors in between. -/
structure Parsed where
  program : Program
  errors : List SyntaxError

/-- Reads the rest of the tokens of a text; a fault of the text that has been met by then outweighs
what was read. -/
def Lexer.parseFrom (lx : Lexer) (s : ParseState) : Except LexError Parsed :=
  let (program?, s') := Parser.program s
  match (lx.windowAt s').fatal with
  | some e => .error e
  | none => .ok ⟨program?.getD [], s'.errors⟩

/-- Reads a program. -/
def parse (text : String) : Except LexError Parsed :=
  let lx := Lexer.ofText text
  lx.parseFrom (.ofStream lx.stream)

end Xbase
