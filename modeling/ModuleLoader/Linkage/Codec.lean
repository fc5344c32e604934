import ModuleLoader.Json.Reader
import ModuleLoader.Linkage.Binding
/-!
The document form of bindings: an object with the kind first and then the fields of that kind.

Reading also takes the members in any order, members with other names, and an array of the kind and
the fields in order. A kind or field that is missing, repeated or not a string is refused.
-/

namespace ModuleLoader.Binding
set_option autoImplicit false

/-- The kinds of bindings, each with its fields in order. -/
def shapes : List (String × List String) :=
  [("import", ["name", "from"]),
   ("importAs", ["name", "alias", "from"]),
   ("export", ["name"]),
   ("exportAs", ["name", "alias"]),
   ("exportAsFrom", ["name", "alias", "from"]),
   ("importAll", ["alias", "from"]),
   ("exportAll", ["from"]),
   ("exportAllAs", ["alias", "from"])]

/-- The kind of a binding and the values of its fields, in order. -/
def toFields : Binding → String × List String
  | importName name source => ("import", [name, source])
  | importAs name newName source => ("importAs", [name, newName, source])
  | exportName name => ("export", [name])
  | exportAs name newName => ("exportAs", [name, newName])
  | exportFrom name newName source => ("exportAsFrom", [name, newName, source])
  | importAll newName source => ("importAll", [newName, source])
  | exportAll source => ("exportAll", [source])
  | exportAllAs newName source => ("exportAllAs", [newName, source])

/-- The binding of a kind and its fields, in order. -/
def ofFields : String → List String → Option Binding
  | "import", [name, source] => some (importName name source)
  | "importAs", [name, newName, source] => some (importAs name newName source)
  | "export", [name] => some (exportName name)
  | "exportAs", [name, newName] => some (exportAs name newName)
  | "exportAsFrom", [name, newName, source] => some (exportFrom name newName source)
  | "importAll", [newName, source] => some (importAll newName source)
  | "exportAll", [source] => some (exportAll source)
  | "exportAllAs", [newName, source] => some (exportAllAs newName source)
  | _, _ => none

/-- The value of the only member called `name`, which must be a string. -/
def onlyString (members : List (String × Json)) (name : String) : Option String :=
  match members.filter fun member => member.1 = name with
  | [(_, .string value)] => some value
  | _ => none

/-- The binding a document stands for. -/
def ofJson : Json → Option Binding
  | .object members => do
    let kind ← onlyString members "kind"
    let (_, fields) ← shapes.find? fun shape => shape.1 = kind
    let values ← fields.mapM (onlyString members)
    ofFields kind values
  | .array items => do
    match ← items.mapM Json.asString? with
    | kind :: values => ofFields kind values
    | [] => none
  | _ => none

/-- The binding a text stands for. -/
def parse (text : String) : Option Binding :=
  match Json.parse text with
  | none => none
  | some document => ofJson document

/-- The members of the written form. -/
def members (binding : Binding) : List (String × String) :=
  let (kind, values) := binding.toFields
  let fields := ((shapes.find? fun shape => shape.1 = kind).map Prod.snd).getD []
  ("kind", kind) :: fields.zip values

/-- The written form of a binding. -/
def write (binding : Binding) : String :=
  String.ofList (Json.stringMembers binding.members)

end ModuleLoader.Binding
