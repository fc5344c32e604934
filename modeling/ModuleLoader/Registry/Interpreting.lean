import ModuleLoader.Registry.Building
/-!
From a descriptor to a record of its own, or to the node that an alias stands for.
-/

namespace ModuleLoader
set_option autoImplicit false

/-- What a descriptor stands for. -/
inductive Interpreted where
  | entry (entry : Entry)
  | elsewhere (target : Node)

namespace Act

/-- Creates a record. -/
def newRecord (record : Record) : Act (Ref .record) := fun host =>
  (host.records.next, { host with records := host.records.push record })

/-- A record of a module with a source. All its specifiers must resolve. -/
def newModule (node : Node) (source : Source) : Act (Except Failure Interpreted) := do
  let compartment := (← get).compartment node.compartment
  match compartment.resolveAll node.key (Binding.specifiers source.bindings) with
  | .error failure => return .error failure
  | .ok requests =>
    let space ← onStore (Store.newSpace ⟨node.key, .empty, false⟩)
    let record ← newRecord
      { key := node.key, home := node.compartment, homeName := compartment.name
        source := some source, requests, environment := default, space
        phase := .loaded, error := none, ready := none }
    return .ok (.entry (.own record))

/-- A record that exposes an existing namespace. It is born ready. -/
def newExposure (node : Node) (space : Ref .exports) : Act Interpreted := do
  let compartment := (← get).compartment node.compartment
  let record ← newRecord
    { key := node.key, home := node.compartment, homeName := compartment.name
      source := none, requests := [], environment := default, space
      phase := .ready, error := none, ready := none }
  return .entry (.own record)

/-- Interprets a descriptor of `node`. -/
def interpret (node : Node) : Descriptor → Act (Except Failure Interpreted)
  | .compiled source => newModule node source
  | .virtual source => newModule node source
  | .exportsAlias (.exports space) => do return .ok (← newExposure node space)
  | .exportsAlias (.object object) => do
    return .ok (← newExposure node (← onStore (Store.snapshot node.key object)))
  | .exportsAlias value =>
    return .error (.invalidDescriptor node.key (.notExports value.typeName))
  | .instanceAlias key (some owner) => return .ok (.elsewhere ⟨owner, key⟩)
  | .instanceAlias key none =>
    if key = node.key then return .error (.aliasCycle key)
    else return .ok (.elsewhere ⟨node.compartment, key⟩)
  | .recordAlias key => do
    match (← get).aliasOwner node key with
    | .ok owner => return .ok (.elsewhere ⟨owner, key⟩)
    | .error failure => return .error failure

end Act

end ModuleLoader
