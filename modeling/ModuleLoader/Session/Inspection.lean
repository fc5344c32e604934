import ModuleLoader.Session.Tasks
/-!
Looking at compartments, records, scopes and namespaces from outside, and changing the slots that
outsiders may change.
-/

namespace ModuleLoader
set_option autoImplicit false

/-- Something with an identity that can be pointed at. -/
inductive Thing where
  | compartment (ref : Ref .compartment)
  | parentOf (ref : Ref .compartment)
  | record (node : Node)
  | exports (node : Node)
  | scopeSlot (node : Node) (name : String)
  | exportSlot (node : Node) (name : String)

/-- What a thing is. -/
inductive Identity where
  | compartment (ref : Ref .compartment)
  | record (ref : Ref .record)
  | exports (ref : Ref .exports)
  | slot (ref : Ref .slot)
deriving DecidableEq

/-- Whether two identities of one kind are equal. -/
def Identity.same? : Identity → Identity → Option Bool
  | .compartment a, .compartment b => some (decide (a = b))
  | .record a, .record b => some (decide (a = b))
  | .exports a, .exports b => some (decide (a = b))
  | .slot a, .slot b => some (decide (a = b))
  | _, _ => none

namespace Host

/-- The record memoized under a node. -/
def recordAt? (host : Host) (node : Node) : Option Record :=
  (host.lookup? node).map host.record

/-- The namespace of the record memoized under a node. -/
def exportsAt? (host : Host) (node : Node) : Option (Ref .exports) :=
  (host.recordAt? node).map Record.space

/-- The identity of a thing, if it is there. -/
def identity? (host : Host) : Thing → Option Identity
  | .compartment ref => some (.compartment ref)
  | .parentOf ref => (host.compartment ref).parent.map .compartment
  | .record node => (host.lookup? node).map .record
  | .exports node => (host.exportsAt? node).map .exports
  | .scopeSlot node name =>
    ((host.recordAt? node).bind fun record => record.environment.slot? name).map .slot
  | .exportSlot node name =>
    ((host.exportsAt? node).bind fun space => host.store.exportSlot? space name).map .slot

/-- Whether two things are the same one, if both are there and of one kind. -/
def same? (host : Host) (a b : Thing) : Option Bool :=
  match host.identity? a, host.identity? b with
  | some a, some b => a.same? b
  | _, _ => none

/-- The memoized keys of a compartment, in order. -/
def keys (host : Host) (ref : Ref .compartment) : List String :=
  (host.compartment ref).memo.names

/-- The phases of the memoized records of a compartment, by key. -/
def phases (host : Host) (ref : Ref .compartment) : List (String × Phase) :=
  (host.compartment ref).memo.entries.map fun entry =>
    (entry.1, (host.record entry.2.record).phase)

/-- The inspection text of a compartment. -/
def inspectCompartment (host : Host) (ref : Ref .compartment) : String :=
  let compartment := host.compartment ref
  let parent := compartment.parent.map fun parent =>
    Text.inspectString (host.compartment parent).name
  Text.fieldsOf "Compartment"
    [("name", Text.inspectString compartment.name),
     ("parent", Text.optional parent),
     ("records", toString compartment.memo.size)]

/-- The inspection text of a descriptor. -/
def inspectDescriptor (host : Host) (descriptor : Descriptor) : String :=
  descriptor.inspect host.store fun ref => (host.compartment ref).name

end Host

namespace Act

/-- Assigns the slot behind an export. Says whether there is one. -/
def setExport (node : Node) (name : String) (value : Value) : Act Bool := do
  let host ← get
  match (host.exportsAt? node).bind fun space => host.store.exportSlot? space name with
  | none => return false
  | some slot =>
    onStore (Store.setSlot slot value)
    return true

end Act

end ModuleLoader
