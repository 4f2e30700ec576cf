import Xbase.Parser.Statement
import Xbase.Program.Dump
import Xbase.Program.SExpr
import Xbase.Program.Source
import Xbase.Report
import Xbase.Value.Basic

/-!
# Styles of output

Tokens, programs and errors can each be written in several styles. What is written may depend on
the script that it came from, for its line numbers and for the lines that a report shows.
-/

namespace Xbase

/-- How a report on a source is written. -/
abbrev Layout : Type := Report → (path source : String) → String

/-- A program text, where it comes from, and how reports on it are written. -/
structure Script where
  path : String
  text : String
  layout : Layout := Report.render

/-- The report of an error of this script. -/
def Script.render (s : Script) (r : Report) : String :=
  s.layout r s.path s.text

/-- The line in which a span of this script starts. -/
def Script.lineOf (s : Script) (span : Span) : UInt32 :=
  (Lines.ofText s.text).lineOf span

/-- How tokens are listed. -/
inductive TokenStyle where
  | basic | listing | dump | report
deriving DecidableEq

namespace TokenStyle

/-- A token of a script. -/
def token (style : TokenStyle) (script : Script) (t : Token) : String :=
  match style with
  | basic => t.describe
  | listing => t.listing
  | dump => t.dump
  | report => s!"({script.lineOf t.span}) {t.describe}"

/-- A fault of the text of a script. -/
def fault (style : TokenStyle) (script : Script) (e : LexError) : String :=
  match style with
  | basic => e.brief
  | listing => e.listing
  | dump => e.dump
  | report => script.render e.report

/-- A token or a fault. -/
def item (style : TokenStyle) (script : Script) : Except LexError Token → String
  | .ok t => style.token script t
  | .error e => style.fault script e

end TokenStyle

/-- How programs are written. -/
inductive ProgramStyle where
  | sexpr | source | dump
deriving DecidableEq

def ProgramStyle.program : ProgramStyle → Program → String
  | sexpr => Program.sexpr
  | source => Program.source
  | dump => Program.dump

def ProgramStyle.expr : ProgramStyle → Expr → String
  | sexpr => Expr.sexpr
  | source => Expr.source
  | dump => Expr.dump

/-- How errors and results are written. -/
inductive ErrorStyle where
  | basic | dump | report
deriving DecidableEq

namespace ErrorStyle

/-- The style of tokens in which a fault of the text is written. -/
def tokenStyle : ErrorStyle → TokenStyle
  | basic => .basic
  | dump => .dump
  | report => .report

/-- A fault of the text of a script. -/
def lexError (style : ErrorStyle) (script : Script) (e : LexError) : String :=
  style.tokenStyle.fault script e

/-- A syntax error of a script. -/
def syntaxError (style : ErrorStyle) (script : Script) (e : SyntaxError) : String :=
  match style with
  | basic => e.message
  | dump => e.dump
  | report => script.render e.report

/-- A fault of the evaluation of a script. -/
def evalError (style : ErrorStyle) (script : Script) (e : EvalError) : String :=
  match style with
  | basic => s!"({script.lineOf e.span}) {e.fault.message}"
  | dump => e.dump
  | report => script.render e.report

/-- The result of a script. -/
def value (style : ErrorStyle) (v : Value) : String :=
  match style with
  | basic | report => v.text
  | dump => v.dump

end ErrorStyle

end Xbase
