import ModuleLoader.Text.Layout
/-!
Bindings: the import and export declarations of one module, in the order of its source.

The order counts: of two `exportAll` bindings that forward the same name the later one wins. A
`source` is a raw specifier, meant from the module that declares the binding.
-/

namespace ModuleLoader
set_option autoImplicit false

/-- One import or export declaration. -/
inductive Binding where
  /-- `import { name } from source` -/
  | importName (name source : String)
  /-- `import { name as newName } from source` -/
  | importAs (name newName source : String)
  /-- `export { name }` -/
  | exportName (name : String)
  /-- `export { name as newName }` -/
  | exportAs (name newName : String)
  /-- `export { name as newName } from source` -/
  | exportFrom (name newName source : String)
  /-- `import * as newName from source` -/
  | importAll (newName source : String)
  /-- `export * from source` -/
  | exportAll (source : String)
  /-- `export * as newName from source` -/
  | exportAllAs (newName source : String)
deriving DecidableEq, Repr

namespace Binding

/-- The specifier of the other module, if the binding mentions one. -/
def specifier? : Binding → Option String
  | importName _ source => some source
  | importAs _ _ source => some source
  | exportName _ => none
  | exportAs _ _ => none
  | exportFrom _ _ source => some source
  | importAll _ source => some source
  | exportAll source => some source
  | exportAllAs _ source => some source

/-- The name in the module's own scope that the binding introduces or reads. -/
def localName? : Binding → Option String
  | importName name _ => some name
  | importAs _ newName _ => some newName
  | exportName name => some name
  | exportAs name _ => some name
  | exportFrom _ _ _ => none
  | importAll newName _ => some newName
  | exportAll _ => none
  | exportAllAs _ _ => none

/-- The name the binding puts on the module's namespace. -/
def exportedName? : Binding → Option String
  | exportName name => some name
  | exportAs _ newName => some newName
  | exportFrom _ newName _ => some newName
  | exportAllAs newName _ => some newName
  | _ => none

/-- Whether the binding introduces a name imported from elsewhere. -/
def isImport : Binding → Bool
  | importName _ _ => true
  | importAs _ _ _ => true
  | importAll _ _ => true
  | _ => false

/-- The specifiers a module mentions, in order of first mention, each once. -/
def specifiers (bindings : List Binding) : List String :=
  bindings.foldl (fun found binding =>
    match binding.specifier? with
    | none => found
    | some specifier => if found.contains specifier then found else found ++ [specifier]) []

/-- The inspection text of a binding. -/
def inspect (binding : Binding) : String :=
  let shown (name : String) (fields : List (String × String)) : String :=
    Text.fieldsOf name (fields.map fun field => (field.1, Text.inspectString field.2))
  match binding with
  | importName name source => shown "Import" [("name", name), ("from", source)]
  | importAs name newName source =>
    shown "ImportAs" [("name", name), ("alias", newName), ("from", source)]
  | exportName name => shown "Export" [("name", name)]
  | exportAs name newName => shown "ExportAs" [("name", name), ("alias", newName)]
  | exportFrom name newName source =>
    shown "ExportAsFrom" [("name", name), ("alias", newName), ("from", source)]
  | importAll newName source => shown "ImportAll" [("alias", newName), ("from", source)]
  | exportAll source => shown "ExportAll" [("from", source)]
  | exportAllAs newName source => shown "ExportAllAs" [("alias", newName), ("from", source)]

end Binding

end ModuleLoader
