import Xbase.Repl

/-!
# The command line

`tokenize`, `parse` and `run` take the path of a script and perhaps `--format` with the name of a
style; `repl` starts an interactive session.
-/

namespace Xbase.Main

/-- The depth that evaluations of the command line may use. -/
def fuel : Nat := 1000000000000

/-- Prints on both channels. -/
def display (screen : Screen) : IO Unit := do
  let out ← IO.getStdout
  out.putStr screen.out
  out.flush
  (← IO.getStderr).putStr screen.err

/-- Shows how a command ends. -/
def finish (ended : Ended) : IO UInt32 := do
  Main.display ended.screen
  return UInt32.ofNat ended.code

/-- Reads lines until the session or the input ends. -/
partial def interact (r : Repl) : IO Unit := do
  Main.display ⟨r.prompt, ""⟩
  let line ← (← IO.getStdin).getLine
  if line.isEmpty then return
  match r.feed fuel line with
  | none => return
  | some (r', screen) =>
    Main.display screen
    interact r'

/-- The script at a path. -/
def load (path : String) : IO Script := do
  return { path, text := ← IO.FS.readFile path }

def tokenStyle? : String → Option TokenStyle
  | "basic" => some .basic
  | "line" => some .listing
  | "debug" => some .dump
  | _ => none

def programStyle? : String → Option ProgramStyle
  | "sexpr" => some .sexpr
  | "source" => some .source
  | "debug" => some .dump
  | _ => none

def errorStyle? : String → Option ErrorStyle
  | "basic" => some .basic
  | "debug" => some .dump
  | "pretty" => some .report
  | _ => none

/-- Complains about the way the program was called. -/
def usage : IO UInt32 := do
  (← IO.getStderr).putStr
    "Usage: tokenize|parse|run PATH [--format FORMAT], or repl\n"
  return 2

/-- Runs a command on a script in the named style. -/
def command (name path format : String) : IO UInt32 := do
  match name, tokenStyle? format, programStyle? format, errorStyle? format with
  | "tokenize", some style, _, _ => finish (Command.tokenize style (← load path))
  | "parse", _, some style, _ => finish (Command.parse style (← load path))
  | "run", _, _, some style => finish (Command.run fuel style (← load path))
  | _, _, _, _ => usage

/-- The style that a command uses if none is named. -/
def defaultFormat : String → String
  | "tokenize" => "basic"
  | "parse" => "sexpr"
  | _ => "pretty"

end Xbase.Main

open Xbase.Main in
def main (args : List String) : IO UInt32 := do
  match args with
  | ["repl"] =>
    Xbase.Main.display ⟨Xbase.Repl.greeting, ""⟩
    interact Xbase.Repl.start
    return 0
  | [name, path] => command name path (defaultFormat name)
  | [name, path, "--format", format] => command name path format
  | [name, "--format", format, path] => command name path format
  | _ => usage
