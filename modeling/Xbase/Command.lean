import Xbase.Eval.Program
import Xbase.Style

/-!
# Commands

What the program does with a script: list its tokens, print its syntax, or run it. A command prints
on two channels and ends with an exit code.
-/

namespace Xbase

/-- What is printed: results on one channel, complaints on the other. -/
structure Screen where
  out : String
  err : String
deriving DecidableEq

namespace Screen

def empty : Screen := ⟨"", ""⟩

/-- What is printed first, and then the rest. -/
def append (a b : Screen) : Screen :=
  ⟨a.out ++ b.out, a.err ++ b.err⟩

/-- A line of results. -/
def result (line : String) : Screen := ⟨line ++ "\n", ""⟩

/-- A line of complaints. -/
def complaint (line : String) : Screen := ⟨"", line ++ "\n"⟩

/-- Lines of complaints. -/
def complaints (lines : List String) : Screen := ⟨"", String.join (lines.map (· ++ "\n"))⟩

end Screen

/-- How a command ends. -/
structure Ended where
  code : Nat
  screen : Screen
deriving DecidableEq

namespace Command

/-- The exit code of a script that cannot be read. -/
def unreadable : Nat := 65

/-- The exit code of a script that fails. -/
def failed : Nat := 70

/-- Lists the tokens of a script up to its end or its first fault. -/
def tokenize (style : TokenStyle) (script : Script) : Ended :=
  let ts := TokenStream.ofText script.text
  let listing := fun tokens : List Token =>
    String.join (tokens.map fun t => style.token script t ++ "\n")
  match ts.fault with
  | none => ⟨0, listing (ts.tokens ++ [ts.stop]), ""⟩
  | some e => ⟨unreadable, listing ts.tokens, script.render e.report ++ "\n"⟩

/-- Prints the statements of a script that can be read, and its syntax errors. -/
def parse (style : ProgramStyle) (script : Script) : Ended :=
  match Xbase.parse script.text with
  | .error e => ⟨unreadable, .complaint (script.render e.report)⟩
  | .ok parsed =>
    let errors := Screen.complaints (parsed.errors.map fun e => script.render e.report)
    ⟨if parsed.errors.isEmpty then 0 else unreadable,
      ⟨style.program parsed.program, errors.err⟩⟩

/-- The end of an evaluation, behind what it printed. A result that is no value is not shown. -/
def conclude (style : ErrorStyle) (script : Script) (printed : String) : Outcome Value → Ended
  | .ok v => ⟨0, if v.isNone then ⟨printed, ""⟩ else ⟨printed ++ style.value v ++ "\n", ""⟩⟩
  | .error e => ⟨failed, printed, style.evalError script e ++ "\n"⟩
  | .outOfFuel => ⟨failed, printed, ""⟩

/-- Runs a script in a global scope of its own, if there is nothing wrong with it. -/
def run (fuel : Nat) (style : ErrorStyle) (script : Script) : Ended :=
  match Xbase.parse script.text with
  | .error e => ⟨unreadable, .complaint (script.render e.report)⟩
  | .ok parsed =>
    if parsed.errors.isEmpty then
      let (scope, store) := Store.empty.newGlobal
      let (outcome, machine) := Eval.program fuel scope parsed.program ⟨store, ""⟩
      conclude style script machine.output outcome
    else ⟨unreadable, .complaints (parsed.errors.map (style.syntaxError script))⟩

end Command

end Xbase
