import ModuleLoader.Registry.Memo
/-!
Building what scripts describe: values from literals, descriptors from blueprints, values from
parsed documents.
-/

namespace ModuleLoader
set_option autoImplicit false

namespace Store

mutual

/-- The value of a parsed document; every object of it is new. -/
def ofJson : Json → StateM Store Value
  | .null => return .null
  | .boolean value => return .boolean value
  | .number value => return .number value.toFloat
  | .string value => return .string value
  | .array items => do return .array (← ofItems items)
  | .object members => do return .object (← newObject (.ofList (← ofMembers members)))

/-- The values of the items of an array. -/
def ofItems : List Json → StateM Store (List Value)
  | [] => return []
  | item :: rest => do
    let value ← ofJson item
    return value :: (← ofItems rest)

/-- The values of the members of an object. -/
def ofMembers : List (String × Json) → StateM Store (List (String × Value))
  | [] => return []
  | (name, item) :: rest => do
    let value ← ofJson item
    return (name, value) :: (← ofMembers rest)

end

end Store

namespace Act

/-- The object that scripts share under a name. -/
def namedObject (name : String) : Act (Ref .object) := do
  match (← get).named.get? name with
  | some ref => return ref
  | none =>
    let ref ← onStore (Store.newObject .empty)
    modify fun host => { host with named := host.named.insert name ref }
    return ref

/-- The namespace memoized under a key of the compartment with this label, or undefined. -/
def exportsNamed (label key : String) : Act Value := do
  let host ← get
  match host.labels.get? label with
  | none => return .undefined
  | some compartment =>
    match host.lookup? ⟨compartment, key⟩ with
    | none => return .undefined
    | some record => return .exports (host.record record).space

mutual

/-- Makes the value of a literal. -/
def evaluate : Literal → Act Value
  | .undefined => return .undefined
  | .null => return .null
  | .boolean value => return .boolean value
  | .number value => return .number value
  | .string value => return .string value
  | .array items => do return .array (← evaluateItems items)
  | .object members => do
    let properties ← evaluateMembers members
    return .object (← onStore (Store.newObject (.ofList properties)))
  | .named name => do return .object (← namedObject name)
  | .exportsOf compartment key => exportsNamed compartment key

/-- Makes the values of a list of literals. -/
def evaluateItems : List Literal → Act (List Value)
  | [] => return []
  | item :: rest => do
    let value ← evaluate item
    return value :: (← evaluateItems rest)

/-- Makes the values of named literals. -/
def evaluateMembers : List (String × Literal) → Act (List (String × Value))
  | [] => return []
  | (name, item) :: rest => do
    let value ← evaluate item
    return (name, value) :: (← evaluateMembers rest)

end

/-- Builds a descriptor in terms of the compartment labelled `home`. -/
def build (home : String) : Blueprint → Act (Except Failure Descriptor)
  | .module compiled bindings body async needsImport needsMeta metaProperties => do
    match bindings.mapM Binding.ofJson with
    | none => return .error (.document "malformed binding")
    | some bindings =>
      let initializer : Initializer := match body with
        | none => .nothing
        | some instructions =>
          if async then .asynchronous (.script home instructions)
          else .synchronous (.script home instructions)
      let properties ← evaluateMembers metaProperties
      let source : Source :=
        { bindings, initializer, needsImport, needsMeta, metaProperties := .ofList properties }
      return .ok (if compiled then .compiled source else .virtual source)
  | .document text =>
    match Json.parse text with
    | none => return .error (.document "malformed document")
    | some content => return .ok (.virtual (.ofContent (.document content)))
  | .text content => return .ok (.virtual (.ofContent (.text content)))
  | .redirect key compartment => do
    return .ok (.instanceAlias key (compartment.bind (← get).labels.get?))
  | .record key => return .ok (.recordAlias key)
  | .exports value => do return .ok (.exportsAlias (← evaluate value))

/-- What the synchronous hook of a compartment says about a key. -/
def askNow (node : Node) : Act (Option Descriptor) := do
  let compartment := (← get).compartment node.compartment
  match compartment.nowHook with
  | none => return none
  | some answers =>
    note (.nowHookCalled compartment.label node.key)
    match answers.get? node.key with
    | none => return none
    | some blueprint =>
      match ← build compartment.label blueprint with
      | .ok descriptor => return some descriptor
      | .error _ => return none

end Act

end ModuleLoader
