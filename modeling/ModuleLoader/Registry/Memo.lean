import ModuleLoader.Host
/-!
The memo of a compartment, and how compartments refer to each other: where specifiers lead, what an
entry depends on, how an entry looks to a borrower, and which ancestor answers for a key.
-/

namespace ModuleLoader
set_option autoImplicit false

/-- The key of a specifier mentioned by the module keyed `referrer`, or the reason there is none. -/
def Resolver.resolve (resolver : Resolver) (specifier referrer : String) : Except String String :=
  match resolver with
  | path =>
    match Specifier.resolve specifier referrer with
    | .ok key => .ok key
    | .error fault => .error fault.message
  | prepend text => .ok (text ++ specifier)
  | nested => .ok (referrer ++ ">" ++ specifier)
  | mapped keys =>
    match keys.get? specifier with
    | some key => .ok key
    | none => .error "unmapped"

/-- The name of a compartment in messages. -/
def Compartment.name (compartment : Compartment) : String :=
  compartment.settings.name

/-- The key of a specifier mentioned by the module keyed `referrer`. -/
def Compartment.resolve (compartment : Compartment) (specifier referrer : String) :
    Except Failure String :=
  match compartment.resolver.resolve specifier referrer with
  | .ok key => .ok key
  | .error reason => .error (.unresolved specifier referrer reason)

/-- The keys of several specifiers, in order, up to the first that has none. -/
def Compartment.resolveAll (compartment : Compartment) (referrer : String) :
    List String → Except Failure (List (String × String))
  | [] => .ok []
  | specifier :: rest =>
    match compartment.resolve specifier referrer with
    | .error failure => .error failure
    | .ok key =>
      match compartment.resolveAll referrer rest with
      | .error failure => .error failure
      | .ok requests => .ok ((specifier, key) :: requests)

namespace Host

/-- The memo entry of a node, which must be there. -/
def entryOf (host : Host) (node : Node) : Except Failure Entry :=
  match host.entryAt? node with
  | some entry => .ok entry
  | none => .error (.notFound node.key (host.compartment node.compartment).name)

/-- The namespace of a memoized record. -/
def exportsOf (host : Host) (node : Node) : Except Failure (Ref .exports) :=
  match host.entryOf node with
  | .ok entry => .ok (host.record entry.record).space
  | .error failure => .error failure

/-- Where the closure of an entry continues. A borrowed entry continues in its owner. -/
def continuations (host : Host) (compartment : Ref .compartment) : Entry → List Node
  | .own record => (host.record record).requestKeys.map fun key => ⟨compartment, key⟩
  | .borrowed owner key _ => [⟨owner, key⟩]

/-- An entry of `owner` as another compartment sees it. -/
def abroad (host : Host) (owner : Ref .compartment) : Entry → Entry
  | .own record => .borrowed owner (host.record record).key record
  | borrowed => borrowed

/-- The records that a record depends on directly, as far as they are memoized. -/
def dependencies (host : Host) (record : Record) : List (Ref .record) :=
  record.requestKeys.filterMap fun key => host.lookup? ⟨record.home, key⟩

/-- The record that a specifier of a record leads to. -/
def target? (host : Host) (ref : Ref .record) (specifier : String) : Option (Ref .record) :=
  ((host.record ref).keyOf? specifier).bind fun key => host.lookup? ⟨(host.record ref).home, key⟩

/-- The specifiers in the bindings of records that lead to no record. -/
def unmet (host : Host) (refs : List (Ref .record)) : List (Ref .record × String) :=
  refs.flatMap fun ref =>
    ((host.record ref).bindings.filterMap Binding.specifier?).filterMap fun specifier =>
      if (host.target? ref specifier).isNone then some (ref, specifier) else none

/-- The memo entry of a node as the result of a shallow load. -/
def delivered? (host : Host) (node : Node) : Option Delivery :=
  (host.entryAt? node).map fun entry =>
    { entry, continuations := host.continuations node.compartment entry, fromMemo := true }

/-- The ancestors of a compartment, nearest first. Parents are older than their children. -/
def ancestorsUpTo (host : Host) : Nat → Option (Ref .compartment) → List (Ref .compartment)
  | 0, _ => []
  | _ + 1, none => []
  | count + 1, some ref => ref :: host.ancestorsUpTo count (host.compartment ref).parent

/-- The ancestors of a compartment, nearest first. -/
def ancestors (host : Host) (ref : Ref .compartment) : List (Ref .compartment) :=
  host.ancestorsUpTo host.compartments.size (host.compartment ref).parent

/-- Whether a compartment knows a key without asking a hook. -/
def knows (host : Host) (key : String) (ref : Ref .compartment) : Bool :=
  (host.compartment ref).memo.contains key || (host.compartment ref).table.contains key

/-- Whether a compartment can ask a hook. -/
def hasHook (host : Host) (ref : Ref .compartment) : Bool :=
  (host.compartment ref).loadHook.isSome || (host.compartment ref).nowHook.isSome

/-- The ancestor that answers for a key: the nearest that knows it, else the nearest with a hook,
else the parent. -/
def ancestorAnswering (host : Host) (ref : Ref .compartment) (key : String) :
    Option (Ref .compartment) :=
  let ancestors := host.ancestors ref
  match ancestors.find? (host.knows key) with
  | some ancestor => some ancestor
  | none =>
    match ancestors.find? host.hasHook with
    | some ancestor => some ancestor
    | none => ancestors.head?

/-- The ancestor that answers for the target of a record alias. -/
def aliasOwner (host : Host) (node : Node) (target : String) :
    Except Failure (Ref .compartment) :=
  match host.ancestorAnswering node.compartment target with
  | some owner => .ok owner
  | none => .error (.invalidDescriptor node.key .noParent)

/-- Where an alias descriptor of `node` points; `none` for other descriptors. -/
def pointsTo (host : Host) (node : Node) : Descriptor → Except Failure (Option Node)
  | .instanceAlias key compartment => .ok (some ⟨compartment.getD node.compartment, key⟩)
  | .recordAlias key =>
    match host.aliasOwner node key with
    | .ok owner => .ok (some ⟨owner, key⟩)
    | .error failure => .error failure
  | _ => .ok none

end Host

namespace Act

/-- Enters an entry into the memo unless the key is taken, and ends the shallow load of the key. -/
def enter (node : Node) (entry : Entry) : Act Unit :=
  changeCompartment node.compartment fun compartment =>
    { compartment with
      memo := compartment.memo.insertNew node.key entry
      loading := compartment.loading.erase node.key }

/-- Enters entries in order. -/
def enterAll : List (Node × Entry) → Act Unit
  | [] => return ()
  | (node, entry) :: rest => do
    enter node entry
    enterAll rest

end Act

end ModuleLoader
