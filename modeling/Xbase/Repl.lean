import Xbase.Command

/-!
# Interactive sessions

A session reads lines and runs each program as soon as it is complete, in one global scope. Lines
are collected as long as the program they make up stops too early; a blank line puts an end to that.
-/

namespace Xbase

/-- The state between two lines. -/
structure Repl where
  store : Store
  scope : ScopeId
  /-- The lines of a program that is not complete yet. -/
  pending : String

namespace Repl

/-- A session in a fresh global scope. -/
def start : Repl :=
  let (scope, store) := Store.empty.newGlobal
  ⟨store, scope, ""⟩

/-- What a session says first. -/
def greeting : String := "FoxLite 1.0.0\n"

/-- What asks for the next line. -/
def prompt (r : Repl) : String :=
  if r.pending.isEmpty then ">>> " else "... "

/-- Whether a syntax error is due to the end of the text. -/
def isEarlyEnd : SyntaxFault → Bool
  | .unexpectedToken actual _ => actual = .endOfFile
  | .nonExpression actual => actual = .endOfFile
  | .nonCaseBranch actual => actual = .endOfFile
  | _ => false

/-- Whether more lines may mend the errors of a program. -/
def isIncomplete (errors : List SyntaxError) : Bool :=
  errors.any (isEarlyEnd ·.fault)

/-- Whether a line has nothing but blanks. -/
def isBlankLine (line : String) : Bool :=
  line.toList.all Text.isBlank

/-- Whether a line says to end the session. -/
def isQuit (line : String) : Bool :=
  (Text.trimBlank line.toList).map Char.toLower = "quit".toList

/-- Runs a program of the session. -/
def run (fuel : Nat) (r : Repl) (text : String) (p : Program) : Repl × Screen :=
  let (outcome, machine) := Eval.program fuel r.scope p ⟨r.store, ""⟩
  ({ r with store := machine.store, pending := "" },
    (Command.conclude .basic { path := "", text } machine.output outcome).screen)

/-- Takes a line. Nothing comes back if the line ends the session. -/
def feed (fuel : Nat) (r : Repl) (line : String) : Option (Repl × Screen) :=
  if r.pending.isEmpty ∧ isBlankLine line then some (r, .empty)
  else if r.pending.isEmpty ∧ isQuit line then none
  else
    let text := r.pending ++ line
    match parse text with
    | .error e => some ({ r with pending := "" }, .complaint e.brief)
    | .ok parsed =>
      if parsed.errors.isEmpty then some (r.run fuel text parsed.program)
      else if isIncomplete parsed.errors ∧ ¬ isBlankLine line then
        some ({ r with pending := text }, .empty)
      else
        some ({ r with pending := "" }, .complaints (parsed.errors.map SyntaxError.message))

/-- What a session prints when it reads the given lines and then the end of the input. -/
def transcript (fuel : Nat) (r : Repl) : List String → Screen
  | [] => ⟨r.prompt, ""⟩
  | line :: rest =>
    match r.feed fuel line with
    | none => ⟨r.prompt, ""⟩
    | some (r', screen) =>
      ((⟨r.prompt, ""⟩ : Screen).append screen).append (transcript fuel r' rest)

/-- The lines of an input with their line breaks. -/
def splitInput : List Char → List (List Char)
  | [] => []
  | c :: cs =>
    if c = '\n' then [c] :: splitInput cs
    else
      match splitInput cs with
      | [] => [[c]]
      | line :: rest => (c :: line) :: rest

/-- A whole session. -/
def session (fuel : Nat) (input : String) : Ended :=
  let lines := (splitInput input.toList).map String.ofList
  ⟨0, (⟨greeting, ""⟩ : Screen).append (transcript fuel start lines)⟩

end Repl

end Xbase
