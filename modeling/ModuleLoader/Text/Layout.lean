import ModuleLoader.Text.Quoted
/-!
The shapes of inspection texts: records with named fields, tagged items, lists and tables, all on
one line.
-/

namespace ModuleLoader.Text
set_option autoImplicit false

/-- `Name` followed by its fields in braces. -/
def fieldsOf (name : String) (fields : List (String × String)) : String :=
  let shown := fields.map fun field => field.1 ++ ": " ++ field.2
  name ++ " \x7b " ++ String.intercalate ", " shown ++ " \x7d"

/-- `Name(item)`. -/
def tagged (name item : String) : String :=
  name ++ "(" ++ item ++ ")"

/-- `[a, b]`. -/
def listed (items : List String) : String :=
  "[" ++ String.intercalate ", " items ++ "]"

/-- A table: `"k": v` pairs in braces. -/
def tabled (entries : List (String × String)) : String :=
  let shown := entries.map fun entry => inspectString entry.1 ++ ": " ++ entry.2
  "\x7b" ++ String.intercalate ", " shown ++ "\x7d"

/-- `Some(item)` or `None`. -/
def optional : Option String → String
  | none => "None"
  | some item => tagged "Some" item

/-- `true` or `false`. -/
def boolean (b : Bool) : String :=
  if b then "true" else "false"

end ModuleLoader.Text
