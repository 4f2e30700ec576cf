import Xbase.Span
import Xbase.Text.Quoted

/-!
# Tokens

A token has a kind, the text it stands for, and its place. The kinds fall into symbols, keywords,
literals, names, line breaks and the end of the source.

* `label` names a kind in messages;
* `dump` names it in structural dumps.
-/

namespace Xbase

/-- Punctuation and operators. -/
inductive Symbol where
  | leftParen | rightParen | leftBracket | rightBracket | leftBrace | rightBrace | comma | dot
  | colon | question | minus | plus | star | slash | bang | equal | colonEqual | plusEqual
  | minusEqual | starEqual | slashEqual | equalEqual | bangEqual | less | lessEqual | greater
  | greaterEqual
deriving DecidableEq, Inhabited

/-- The reserved words other than the two truth values. -/
inductive Keyword where
  | AND | AS | CASE | DO | ELSE | ENDCASE | ENDDO | ENDFUNC | ENDIF | EXIT | FUNCTION | IF
  | IIF | LOCAL | LOOP | NULL | OR | OTHERWISE | PRIVATE | PUBLIC | RETURN | THEN | WHILE
deriving DecidableEq, Inhabited

/-- The kinds of tokens. -/
inductive Kind where
  | symbol (s : Symbol)
  | keyword (k : Keyword)
  | logical (b : Bool)
  | number
  | string
  | name
  | newline
  | endOfFile
deriving DecidableEq, Inhabited

namespace Symbol

/-- The symbol in messages. -/
def label : Symbol → String
  | .leftParen => "LEFT_PAREN"
  | .rightParen => "RIGHT_PAREN"
  | .leftBracket => "LEFT_BRACKET"
  | .rightBracket => "RIGHT_BRACKET"
  | .leftBrace => "LEFT_BRACE"
  | .rightBrace => "RIGHT_BRACE"
  | .comma => "COMMA"
  | .dot => "DOT"
  | .colon => "COLON"
  | .question => "QUESTION"
  | .minus => "MINUS"
  | .plus => "PLUS"
  | .star => "STAR"
  | .slash => "SLASH"
  | .bang => "BANG"
  | .equal => "EQUAL"
  | .colonEqual => "COLON_EQUAL"
  | .plusEqual => "PLUS_EQUAL"
  | .minusEqual => "MINUS_EQUAL"
  | .starEqual => "STAR_EQUAL"
  | .slashEqual => "SLASH_EQUAL"
  | .equalEqual => "EQUAL_EQUAL"
  | .bangEqual => "BANG_EQUAL"
  | .less => "LESS"
  | .lessEqual => "LESS_EQUAL"
  | .greater => "GREATER"
  | .greaterEqual => "GREATER_EQUAL"

/-- The symbol in dumps. -/
def dump : Symbol → String
  | .leftParen => "LeftParenthesis"
  | .rightParen => "RightParenthesis"
  | .leftBracket => "LeftBracket"
  | .rightBracket => "RightBracket"
  | .leftBrace => "LeftBrace"
  | .rightBrace => "RightBrace"
  | .comma => "Comma"
  | .dot => "Dot"
  | .colon => "Colon"
  | .question => "Question"
  | .minus => "Minus"
  | .plus => "Plus"
  | .star => "Star"
  | .slash => "Slash"
  | .bang => "Bang"
  | .equal => "Equal"
  | .colonEqual => "ColonEqual"
  | .plusEqual => "PlusEqual"
  | .minusEqual => "MinusEqual"
  | .starEqual => "StarEqual"
  | .slashEqual => "SlashEqual"
  | .equalEqual => "EqualEqual"
  | .bangEqual => "BangEqual"
  | .less => "LessThan"
  | .lessEqual => "LessThanEqual"
  | .greater => "GreaterThan"
  | .greaterEqual => "GreaterThanEqual"

end Symbol

namespace Keyword

/-- The keyword in messages, which is the word in capitals. -/
def label : Keyword → String
  | .AND => "AND"
  | .AS => "AS"
  | .CASE => "CASE"
  | .DO => "DO"
  | .ELSE => "ELSE"
  | .ENDCASE => "ENDCASE"
  | .ENDDO => "ENDDO"
  | .ENDFUNC => "ENDFUNC"
  | .ENDIF => "ENDIF"
  | .EXIT => "EXIT"
  | .FUNCTION => "FUNCTION"
  | .IF => "IF"
  | .IIF => "IIF"
  | .LOCAL => "LOCAL"
  | .LOOP => "LOOP"
  | .NULL => "NULL"
  | .OR => "OR"
  | .OTHERWISE => "OTHERWISE"
  | .PRIVATE => "PRIVATE"
  | .PUBLIC => "PUBLIC"
  | .RETURN => "RETURN"
  | .THEN => "THEN"
  | .WHILE => "WHILE"

/-- The keyword in dumps. -/
def dump : Keyword → String
  | .AND => "KeywordAnd"
  | .AS => "KeywordAs"
  | .CASE => "KeywordCase"
  | .DO => "KeywordDo"
  | .ELSE => "KeywordElse"
  | .ENDCASE => "KeywordEndCase"
  | .ENDDO => "KeywordEndDo"
  | .ENDFUNC => "KeywordEndFunc"
  | .ENDIF => "KeywordEndIf"
  | .EXIT => "KeywordExit"
  | .FUNCTION => "KeywordFunction"
  | .IF => "KeywordIf"
  | .IIF => "KeywordIif"
  | .LOCAL => "KeywordLocal"
  | .LOOP => "KeywordLoop"
  | .NULL => "KeywordNull"
  | .OR => "KeywordOr"
  | .OTHERWISE => "KeywordOtherwise"
  | .PRIVATE => "KeywordPrivate"
  | .PUBLIC => "KeywordPublic"
  | .RETURN => "KeywordReturn"
  | .THEN => "KeywordThen"
  | .WHILE => "KeywordWhile"

/-- The keyword that a word in small letters stands for. -/
def ofWord? : String → Option Keyword
  | "and" => some .AND
  | "as" => some .AS
  | "case" => some .CASE
  | "do" => some .DO
  | "else" => some .ELSE
  | "endcase" => some .ENDCASE
  | "enddo" => some .ENDDO
  | "endfunc" => some .ENDFUNC
  | "endif" => some .ENDIF
  | "exit" => some .EXIT
  | "function" => some .FUNCTION
  | "if" => some .IF
  | "iif" => some .IIF
  | "local" => some .LOCAL
  | "loop" => some .LOOP
  | "null" => some .NULL
  | "or" => some .OR
  | "otherwise" => some .OTHERWISE
  | "private" => some .PRIVATE
  | "public" => some .PUBLIC
  | "return" => some .RETURN
  | "then" => some .THEN
  | "while" => some .WHILE
  | _ => none

end Keyword

namespace Kind

/-- The kind in messages. -/
def label : Kind → String
  | symbol s => s.label
  | keyword k => k.label
  | logical b => if b then "TRUE" else "FALSE"
  | number => "NUMBER"
  | string => "STRING"
  | name => "IDENTIFIER"
  | newline => "NEWLINE"
  | endOfFile => "EOF"

/-- The kind in dumps. -/
def dump : Kind → String
  | symbol s => s.dump
  | keyword k => k.dump
  | logical b => if b then "True" else "False"
  | number => "NumericLiteral"
  | string => "StringLiteral"
  | name => "Ident"
  | newline => "Newline"
  | endOfFile => "Eof"

/-- The kind of a word in small letters: a truth value, a keyword or else a name. -/
def ofWord (word : String) : Kind :=
  if word = "true" then .logical true
  else if word = "false" then .logical false
  else (Keyword.ofWord? word).elim .name .keyword

end Kind

/-- A token with its place: the bytes it spans, and its line and column, both from 1 and in 32 bits.
Columns count characters. -/
structure Token where
  kind : Kind
  lexeme : String
  span : Span
  line : UInt32
  col : UInt32
deriving DecidableEq, Inhabited

/-- The text between the marks of a string literal. -/
def Token.stringValue (t : Token) : String :=
  String.ofList (t.lexeme.toList.drop 1).dropLast

/-- What is wrong with a text that holds no token. -/
inductive LexFault where
  | unrecognized (c : Char)
  | unclosedString
  | unclosedComment
deriving DecidableEq

/-- A fault of the text with its place. -/
structure LexError where
  fault : LexFault
  span : Span
  line : UInt32
  col : UInt32
deriving DecidableEq

namespace LexFault

/-- What is wrong, in words. -/
def message : LexFault → String
  | unrecognized c => "Unknown character " ++ Text.quoteChar c
  | unclosedString => "Unterminated string literal"
  | unclosedComment => "Unterminated block comment"

/-- The name of the fault. -/
def label : LexFault → String
  | unrecognized _ => "Unrecognized"
  | unclosedString => "UnclosedString"
  | unclosedComment => "UnclosedComment"

/-- The fault in dumps. -/
def dump : LexFault → String
  | unrecognized c => Text.Dump.wrap "Unrecognized" (Text.quoteChar c)
  | fault => fault.label

end LexFault

/-- What is wrong, and where. -/
def LexError.message (e : LexError) : String :=
  s!"{e.fault.message} at [{e.line}:{e.col}]"

end Xbase
