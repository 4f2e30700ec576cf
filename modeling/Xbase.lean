import Xbase.Eval.Program
import Xbase.Expr.Arena
import Xbase.Lines
import Xbase.Main
import Xbase.Number.Text
import Xbase.Parser.Statement
import Xbase.Program.Dump
import Xbase.Program.SExpr
import Xbase.Program.Source
import Xbase.Proofs.Command.Case
import Xbase.Proofs.Eval.Blame
import Xbase.Proofs.Eval.Cases
import Xbase.Proofs.Eval.Expansion
import Xbase.Proofs.Eval.Failure
import Xbase.Proofs.Eval.Frame
import Xbase.Proofs.Eval.Fuel
import Xbase.Proofs.Eval.Locals
import Xbase.Proofs.Eval.LoopControl
import Xbase.Proofs.Eval.Nodes
import Xbase.Proofs.Eval.Places
import Xbase.Proofs.Eval.Session
import Xbase.Proofs.Eval.Stepwise
import Xbase.Proofs.Expr.Layout
import Xbase.Proofs.Expr.Nodes
import Xbase.Proofs.Expr.RoundTrip
import Xbase.Proofs.Grammar.Accepts
import Xbase.Proofs.Grammar.Expr
import Xbase.Proofs.Grammar.Statement
import Xbase.Proofs.Grammar.Strata
import Xbase.Proofs.Number.Nearest
import Xbase.Proofs.Number.Text
import Xbase.Proofs.Parser.Agree.Basic
import Xbase.Proofs.Parser.Agree.Expr
import Xbase.Proofs.Parser.Agree.Program
import Xbase.Proofs.Parser.Agree.Statement
import Xbase.Proofs.Parser.Append
import Xbase.Proofs.Parser.Begins
import Xbase.Proofs.Parser.Breaks
import Xbase.Proofs.Parser.Errors
import Xbase.Proofs.Parser.Essence
import Xbase.Proofs.Parser.Expr
import Xbase.Proofs.Parser.Nodes
import Xbase.Proofs.Parser.Origins
import Xbase.Proofs.Parser.Progress
import Xbase.Proofs.Parser.Returns
import Xbase.Proofs.Parser.Run
import Xbase.Proofs.Parser.Statement
import Xbase.Proofs.Parser.Total
import Xbase.Proofs.Parser.Viable.Basic
import Xbase.Proofs.Parser.Viable.Expr
import Xbase.Proofs.Parser.Viable.Statement
import Xbase.Proofs.Parser.Window
import Xbase.Proofs.Parser.Yields
import Xbase.Proofs.Program.Arenas
import Xbase.Proofs.Program.Atoms
import Xbase.Proofs.Program.Determined
import Xbase.Proofs.Program.Legible
import Xbase.Proofs.Program.Map
import Xbase.Proofs.Program.Meaning
import Xbase.Proofs.Program.RoundTrip
import Xbase.Proofs.Program.SExpr
import Xbase.Proofs.Program.Spans
import Xbase.Proofs.Program.Writable
import Xbase.Proofs.Repl.Unfinished
import Xbase.Proofs.Store.Binding
import Xbase.Proofs.Store.Chain
import Xbase.Proofs.Store.Places
import Xbase.Proofs.Store.Reachable
import Xbase.Proofs.Store.Sight
import Xbase.Proofs.Store.Tables
import Xbase.Proofs.Token.Append
import Xbase.Proofs.Token.Folding
import Xbase.Proofs.Token.Lexical
import Xbase.Proofs.Token.Line
import Xbase.Proofs.Token.LineNumbers
import Xbase.Proofs.Token.Next
import Xbase.Proofs.Token.Reader
import Xbase.Proofs.Token.Returns
import Xbase.Proofs.Token.Scan
import Xbase.Proofs.Token.Scanner
import Xbase.Proofs.Token.Spaced
import Xbase.Proofs.Token.Spans
import Xbase.Proofs.Token.Tiling
import Xbase.Text.Blank
import Xbase.Text.Dump
import Xbase.Text.Quoted
import Xbase.Token.Lexer
import Xbase.Token.Print
