/-!
# Structural dumps

A dump shows a piece of data on one line with the names of its parts: records as
`Name { field: value }`, alternatives with contents as `Name(value)`, lists in brackets and
optional parts as `Some(value)` or `None`. The pieces are given already written.
-/

namespace Xbase.Text.Dump

/-- A named record with its fields in order. -/
def record (name : String) (fields : List (String × String)) : String :=
  name ++ " \x7b " ++ ", ".intercalate (fields.map fun (field, value) => field ++ ": " ++ value)
    ++ " \x7d"

/-- A record of which only the first fields are shown. -/
def openRecord (name : String) (fields : List (String × String)) : String :=
  name ++ " \x7b " ++ String.join (fields.map fun (field, value) => field ++ ": " ++ value ++ ", ")
    ++ ".. \x7d"

/-- An alternative that holds one value. -/
def wrap (name value : String) : String :=
  name ++ "(" ++ value ++ ")"

/-- A list of values. -/
def list (items : List String) : String :=
  "[" ++ ", ".intercalate items ++ "]"

/-- An optional value. -/
def optional : Option String → String
  | none => "None"
  | some value => wrap "Some" value

/-- A truth value. -/
def logical (b : Bool) : String :=
  if b then "true" else "false"

end Xbase.Text.Dump
