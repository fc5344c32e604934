import ModuleLoader.Linkage.Codec
import ModuleLoader.Module.Script
import ModuleLoader.Value.Inspect
/-!
Descriptors tell a compartment how to obtain the module behind a key: its source, or another module
that it stands for.
-/

namespace ModuleLoader
set_option autoImplicit false

/-- What a body does. -/
inductive Body where
  /-- Carries out instructions; `home` names the compartment in whose terms they log. -/
  | script (home : String) (instructions : List Instruction)
  /-- Exports a parsed document as the standard export. -/
  | document (content : Json)
  /-- Exports a text as the standard export. -/
  | text (content : String)

/-- How a body is run. -/
inductive Initializer where
  | nothing
  | synchronous (body : Body)
  | asynchronous (body : Body)

/-- Whether running the body may suspend. -/
def Initializer.isAsync : Initializer → Bool
  | asynchronous _ => true
  | _ => false

/-- The inspection text of an initializer. -/
def Initializer.inspect : Initializer → String
  | nothing => "Initializer::Noop"
  | synchronous _ => "Initializer::Synchronous"
  | asynchronous _ => "Initializer::Asynchronous"

/-- A module of its own: bindings and a body. -/
structure Source where
  bindings : List Binding
  initializer : Initializer
  /-- The body gets a handle for dynamic imports. -/
  needsImport : Bool
  /-- The body gets an object that describes the module. -/
  needsMeta : Bool
  /-- Properties of that object. -/
  metaProperties : Table Value

/-- How a compartment obtains a module. -/
inductive Descriptor where
  | compiled (source : Source)
  | virtual (source : Source)
  /-- The module of this key in the nearest ancestor that has it. -/
  | recordAlias (key : String)
  /-- The instance of this key, in another compartment if one is given. -/
  | instanceAlias (key : String) (compartment : Option (Ref .compartment))
  /-- A namespace, or an object copied into one. -/
  | exportsAlias (value : Value)

namespace Descriptor

/-- The kind of a descriptor. -/
def kind : Descriptor → String
  | compiled _ => "compiled"
  | virtual _ => "virtual"
  | recordAlias _ => "record-alias"
  | instanceAlias _ _ => "instance-alias"
  | exportsAlias _ => "namespace-alias"

/-- The inspection text of a descriptor, given the names of compartments. -/
def inspect (store : Store) (nameOf : Ref .compartment → String) : Descriptor → String
  | compiled source =>
    Text.fieldsOf "Compiled"
      [("bindings", Text.listed (source.bindings.map Binding.inspect)),
       ("import_meta", metaText source)]
  | virtual source =>
    Text.tagged "Virtual" (Text.fieldsOf "VirtualSource"
      [("bindings", Text.listed (source.bindings.map Binding.inspect)),
       ("execute", source.initializer.inspect),
       ("needs_import", Text.boolean source.needsImport),
       ("needs_import_meta", Text.boolean source.needsMeta),
       ("import_meta", metaText source)])
  | recordAlias key => Text.fieldsOf "RecordAlias" [("key", Text.inspectString key)]
  | instanceAlias key compartment =>
    let name := compartment.map fun ref => Text.inspectString (nameOf ref)
    Text.fieldsOf "InstanceAlias"
      [("key", Text.inspectString key), ("compartment", Text.optional name)]
  | exportsAlias value => Text.tagged "NamespaceAlias" (store.inspect value)
where
  metaText (source : Source) : String :=
    Text.tabled (source.metaProperties.map store.inspect).entries

end Descriptor

/-- A module that exports one value as the standard export. -/
def Source.ofContent (body : Body) : Source :=
  { bindings := [.exportName standardExport]
    initializer := .synchronous body
    needsImport := false
    needsMeta := false
    metaProperties := .empty }

/-- A descriptor still to be built: its values are not made and its texts not read yet. -/
inductive Blueprint where
  | module (compiled : Bool) (bindings : List Json) (body : Option (List Instruction))
      (async needsImport needsMeta : Bool) (metaProperties : List (String × Literal))
  | document (text : String)
  | text (text : String)
  | redirect (key : String) (compartment : Option String)
  | record (key : String)
  | exports (value : Literal)

/-- What a load hook says about a key. -/
inductive Reply where
  | absent
  | fail (reason : String)
  | describe (blueprint : Blueprint)

/-- One call of a load hook: it waits for a gate, gives way some times, and replies. -/
structure HookAnswer where
  gate : Option String
  yields : Nat
  reply : Reply

instance : Inhabited HookAnswer := ⟨⟨none, 0, .absent⟩⟩

end ModuleLoader
