import Xbase.Store

/-!
# Evaluations

An evaluation changes the store and prints, and ends with a result or a fault, or it runs out of the
fuel it was given: a program may run for ever, so every evaluation is one of bounded depth, and a
program terminates if some amount of fuel is enough.
-/

namespace Xbase

/-- What an evaluation works on: the scopes, and the text printed so far. -/
structure Machine where
  store : Store
  output : String

/-- How an evaluation ends. -/
inductive Outcome (α : Type) where
  | ok (a : α)
  | error (e : EvalError)
  | outOfFuel

/-- An evaluation. What it has stored and printed stays also if it ends in a fault. -/
def Eval (α : Type) : Type :=
  Machine → Outcome α × Machine

/-- How a statement ends: the next one follows, or the function, the loop or the turn of the loop
is over. -/
inductive Flow where
  | next (v : Value)
  | ret (v : Value)
  | exit (span : Span)
  | loop (span : Span)

namespace Eval

/-! ## Steps -/

@[always_inline]
instance : Monad Eval where
  pure a := fun m => (.ok a, m)
  bind x f := fun m =>
    match x m with
    | (.ok a, m') => f a m'
    | (.error e, m') => (.error e, m')
    | (.outOfFuel, m') => (.outOfFuel, m')

/-- Ends without a result because the depth is used up. -/
def outOfFuel {α : Type} : Eval α :=
  fun m => (.outOfFuel, m)

/-- Ends in a fault. -/
def fault {α : Type} (f : EvalFault) (span : Span) : Eval α :=
  fun m => (.error ⟨f, span⟩, m)

/-- The result of an operation that may fail at the given place. -/
def located {α : Type} (span : Span) : Except EvalFault α → Eval α
  | .ok a => pure a
  | .error f => fault f span

/-- Reads the store. -/
def read {α : Type} (f : Store → α) : Eval α :=
  fun m => (.ok (f m.store), m)

/-- Changes the store. -/
def write (f : Store → Store) : Eval Unit :=
  fun m => (.ok (), { m with store := f m.store })

/-- Adds a scope to the store. -/
def enter (f : Store → ScopeId × Store) : Eval ScopeId :=
  fun m =>
    let (id, store) := f m.store
    (.ok id, { m with store := store })

/-- Prints a line. -/
def printLine (line : String) : Eval Unit :=
  fun m => (.ok (), { m with output := m.output ++ line ++ "\n" })

end Eval

end Xbase
