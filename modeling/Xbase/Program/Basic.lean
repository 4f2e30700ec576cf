import Xbase.Expr.Basic

/-!
# Programs

A program is a list of statements, and so is every block inside one.
-/

namespace Xbase

/-- A name with its place in the source. -/
structure Ident where
  name : String
  span : Span
deriving DecidableEq

/-- Who sees a binding: `local` only the scope that declares it, `private` also the calls made from
there, `public` everyone. -/
inductive Visibility where
  | loc | priv | pub
deriving DecidableEq

/-- The word that declares the visibility. -/
def Visibility.word : Visibility → String
  | loc => "LOCAL"
  | priv => "PRIVATE"
  | pub => "PUBLIC"

/-- The visibility in dumps. -/
def Visibility.dump : Visibility → String
  | loc => "Local"
  | priv => "Private"
  | pub => "Public"

/-- The types that a declaration can name. -/
inductive DeclaredType where
  | string | number | boolean
deriving DecidableEq

namespace DeclaredType

/-- The type with the given name in small letters. -/
def ofName? : String → Option DeclaredType
  | "string" | "character" => some .string
  | "number" | "numeric" => some .number
  | "boolean" | "logical" => some .boolean
  | _ => none

/-- The word for the type. -/
def word : DeclaredType → String
  | string => "STRING"
  | number => "NUMBER"
  | boolean => "BOOLEAN"

/-- The type in dumps. -/
def dump : DeclaredType → String
  | string => "String"
  | number => "Number"
  | boolean => "Boolean"

end DeclaredType

/-- A declared name with its type and first value, if they are given. -/
structure Declarator where
  name : Ident
  type? : Option DeclaredType
  initial? : Option Expr

/-- Statements. -/
inductive Statement where
  /-- One declared name. -/
  | declare (visibility : Visibility) (declarator : Declarator)
  /-- Several declared names, or names between parentheses. -/
  | declareAll (visibility : Visibility) (declarators : List Declarator) (grouped : Bool)
  | function (name : Ident) (params : List Ident) (body : List Statement)
  | expr (e : Expr)
  /-- The span is that of the question mark. -/
  | print (args : List Expr) (span : Span)
  | ifThen (condition : Expr) (yes : List Statement) (no : Option (List Statement))
  | doCase (branches : List (Expr × List Statement)) (otherwise : Option (List Statement))
  | doWhile (condition : Expr) (body : List Statement)
  /-- The span is that of the keyword. -/
  | ret (value : Option Expr) (span : Span)
  | exit (span : Span)
  | loop (span : Span)

/-- Statements that are run in order in one scope. -/
abbrev Block := List Statement

/-- A whole program. -/
abbrev Program := List Statement

end Xbase
