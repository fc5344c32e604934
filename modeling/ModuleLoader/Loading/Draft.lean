import ModuleLoader.Loading.Closure
/-!
Loading without waiting: the closure of a key is built outside the memo and entered only when it is
complete. What would have to wait for the load hook, or for a load in flight, refuses the whole.
-/

namespace ModuleLoader
set_option autoImplicit false

/-- Entries that are not in the memo yet, in the order in which they were made. -/
abbrev Draft := List (Node × Entry)

/-- A whole closure: its entries in the order in which they are to be entered, and its aliases with
the nodes they lead to. -/
structure Drafted where
  entries : Draft
  aliases : List (Node × Node)

/-- The drafted entry of a node. -/
def Draft.get? (draft : Draft) (node : Node) : Option Entry :=
  match draft with
  | [] => none
  | (first, entry) :: rest => if first = node then some entry else Draft.get? rest node

namespace Host

/-- The descriptor that a finished call of the load hook gave about a node. -/
def describedByHook? (host : Host) (node : Node) : Option Descriptor :=
  match (host.compartment node.compartment).calls.get? node.key with
  | none => none
  | some call =>
    match (host.calls.get? call).bind Shared.output? with
    | some (.ok (some descriptor)) => some descriptor
    | _ => none

/-- The result of the shallow load in flight for a node, if it is one and has succeeded. -/
def loadedInFlight? (host : Host) (load : Ref .load) : Option Delivery :=
  match (host.loads.get? load).bind Shared.output? with
  | some (.ok delivery) => some delivery
  | _ => none

end Host

namespace Act

/-- The descriptor of a node, without waiting. -/
def describeAtOnce (node : Node) : Act (Except Failure Descriptor) := do
  let host ← get
  let compartment := host.compartment node.compartment
  match compartment.table.get? node.key with
  | some descriptor => return .ok descriptor
  | none =>
    match host.describedByHook? node with
    | some descriptor => return .ok descriptor
    | none =>
      match ← askNow node with
      | some descriptor => return .ok descriptor
      | none =>
        if compartment.loadHook.isSome then return .error (.unavailable node.key .needsHook)
        else return .error (.notFound node.key compartment.name)

/-- The node that a chain of aliases leads to, without waiting. The nodes passed before are
`visited`. -/
def followAtOnce : Nat → List Node → Node → Act (Except Failure Node)
  | 0, _, node => return .error (.aliasCycle node.key)
  | fuel + 1, visited, node => do
    if visited.contains node then return .error (.aliasCycle node.key)
    else if ((← get).entryAt? node).isSome then return .ok node
    else
      match ← describeAtOnce node with
      | .error failure => return .error failure
      | .ok descriptor =>
        match (← get).pointsTo node descriptor with
        | .error failure => return .error failure
        | .ok (some next) => followAtOnce fuel (node :: visited) next
        | .ok none => return .ok node

end Act

/-- A closure being drafted. What was found last comes first. -/
structure Drafting where
  draft : Draft
  /-- Aliases, each with the node it leads to. -/
  aliases : List (Node × Node)

namespace Drafting

/-- Drafts the entry of one node. Gives the nodes where the closure continues. -/
def visit (drafting : Drafting) (node : Node) : Act (Except Failure (Drafting × List Node)) := do
  let host ← get
  match host.delivered? node with
  | some delivery => return .ok (drafting, delivery.continuations)
  | none =>
    match (host.compartment node.compartment).loading.get? node.key with
    | some load =>
      match host.loadedInFlight? load with
      | some delivery =>
        return .ok ({ drafting with draft := (node, delivery.entry) :: drafting.draft },
          delivery.continuations)
      | none => return .error (.unavailable node.key .loading)
    | none =>
      match ← Act.describeAtOnce node with
      | .error failure => return .error failure
      | .ok descriptor =>
        match ← Act.interpret node descriptor with
        | .error failure => return .error failure
        | .ok (.entry entry) =>
          return .ok ({ drafting with draft := (node, entry) :: drafting.draft },
            (← get).continuations node.compartment entry)
        | .ok (.elsewhere target) =>
          match ← Act.followAtOnce ((← get).nodesAtHand.length + 2) [node] target with
          | .error failure => return .error failure
          | .ok target =>
            return .ok ({ drafting with aliases := (node, target) :: drafting.aliases }, [target])

/-- Drafts the nodes of the queue and all that can be reached from them, breadth first. -/
def collect : Nat → List Node → List Node → Drafting → Act (Except Failure Drafting)
  | 0, _, _, drafting => return .ok drafting
  | _ + 1, _, [], drafting => return .ok drafting
  | fuel + 1, seen, node :: queue, drafting => do
    match ← drafting.visit node with
    | .error failure => return .error failure
    | .ok (drafting, dependencies) =>
      let (fresh, seen) := ClosureLoad.unseen seen dependencies
      collect fuel seen (queue ++ fresh) drafting

/-- Adds the entries of the aliases, from first to last. -/
def resolveAliases (host : Host) (draft : Draft) :
    List (Node × Node) → Except Failure Draft
  | [] => .ok draft
  | (node, target) :: rest =>
    let found : Except Failure Entry := match draft.get? target with
      | some entry => .ok entry
      | none => host.entryOf target
    match found with
    | .error failure => .error failure
    | .ok entry =>
      let entry :=
        if target.compartment = node.compartment then entry
        else host.abroad target.compartment entry
      resolveAliases host ((node, entry) :: draft) rest

end Drafting

namespace Act

/-- Drafts the closure of a key without changing any memo. Each node that it passes is at hand. -/
def draft (root : Node) : Act (Except Failure Drafted) := do
  match ← Drafting.collect ((← get).nodesAtHand.length + 1) [root] [root] ⟨[], []⟩ with
  | .error failure => return .error failure
  | .ok drafting =>
    match Drafting.resolveAliases (← get) drafting.draft drafting.aliases.reverse with
    | .error failure => return .error failure
    | .ok draft => return .ok ⟨draft.reverse, drafting.aliases⟩

/-- Enters a drafted closure into the memo. -/
def enterDraft (drafted : Drafted) : Act Unit := do
  enterAll drafted.entries
  mark (drafted.aliases.map fun pair => .stands pair.1 pair.2)

/-- Loads the closure of a key without waiting. -/
def loadNow (root : Node) : Act (Except Failure Unit) := do
  match ← draft root with
  | .error failure => return .error failure
  | .ok drafted =>
    enterDraft drafted
    return .ok ()

end Act

namespace Host

/-- The entry of a node, drafted or memoized. -/
def entryWith? (host : Host) (draft : Draft) (node : Node) : Option Entry :=
  match draft.get? node with
  | some entry => some entry
  | none => host.entryAt? node

/-- The entries that the nodes have, with the nodes. -/
def entriesOf (host : Host) (draft : Draft) (nodes : List Node) : List (Node × Entry) :=
  nodes.filterMap fun node => (host.entryWith? draft node).map (node, ·)

/-- Records reached breadth first from the queue, in order, each once. `found` lists what was
reached so far, the last first. -/
def closureFrom (host : Host) (draft : Draft) :
    Nat → List Node → List (Node × Entry) → List (Ref .record) → List (Ref .record)
  | 0, _, _, found => found.reverse
  | _ + 1, _, [], found => found.reverse
  | fuel + 1, seen, (node, entry) :: queue, found =>
    let (fresh, seen) := ClosureLoad.unseen seen (host.continuations node.compartment entry)
    let found := match entry with
      | .own record => if found.contains record then found else record :: found
      | .borrowed _ _ _ => found
    host.closureFrom draft fuel seen (queue ++ host.entriesOf draft fresh) found

/-- The records of the closure of a key, breadth first. Borrowed entries are followed into the
compartments that own them. -/
def closure (host : Host) (draft : Draft) (root : Node) : List (Ref .record) :=
  host.closureFrom draft (host.knownKeys + draft.length + 2) [root]
    (host.entriesOf draft [root]) []

/-- What would make running a record wait. -/
def obstacle? (record : Record) : Option Obstacle :=
  match record.phase with
  | .executing => some .executing
  | .loaded => if record.isAsync then some .asynchronousBody else none
  | .linking => if record.isAsync then some .asynchronousBody else none
  | .linked => if record.isAsync then some .asynchronousBody else none
  | .ready => none
  | .failed => none

/-- Refuses a closure that could not be run without waiting. -/
def admitAtOnce (host : Host) (draft : Draft) (root : Node) : Except Failure Unit :=
  let blocked := (host.closure draft root).filterMap fun ref =>
    (obstacle? (host.record ref)).map fun obstacle =>
      Failure.unavailable (host.record ref).key obstacle
  match blocked with
  | failure :: _ => .error failure
  | [] => .ok ()

end Host

end ModuleLoader
