import ModuleLoader.Loading.Describing
/-!
Shallow loads: making the entry of one key without its dependencies.

A shallow load obtains the descriptor of its key. If that is an alias it follows the chain of aliases
by descriptors alone, up to a node that is memoized or described otherwise, and then waits for the
shallow load of that node. Shallow loads of one key are shared.
-/

namespace ModuleLoader
set_option autoImplicit false

/-- What a party gets that asks for the shallow load of a node. -/
inductive Loaded where
  | already (delivery : Delivery)
  | shared (load : Ref .load)

namespace Act

/-- The shallow load of a node: its memo entry, the load in flight, or a new load. -/
def loadOf (node : Node) : Act Loaded := do
  let host ← get
  match host.delivered? node with
  | some delivery => return .already delivery
  | none =>
    match (host.compartment node.compartment).loading.get? node.key with
    | some load => return .shared load
    | none =>
      let bell ← newBell
      let load := (← get).loads.next
      modify fun host => { host with loads := host.loads.push ⟨bell, .idle ⟨node, .fresh⟩⟩ }
      changeCompartment node.compartment fun compartment =>
        { compartment with loading := compartment.loading.insert node.key load }
      return .shared load

end Act

namespace LoadWork

/-- The entry of an alias, from the shallow load of the node it leads to. -/
def adopt (work : LoadWork) (target : Node) (loaded : Except Failure Delivery) :
    Act (Except Failure Delivery) := do
  match loaded with
  | .error failure => return .error failure
  | .ok delivery =>
    let host ← get
    let entry :=
      if target.compartment = work.node.compartment then delivery.entry
      else host.abroad target.compartment delivery.entry
    Act.mark [.stands work.node target]
    return .ok { entry, continuations := [target], fromMemo := false }

/-- How one looks at the shallow load of another key. -/
abbrev Look := Watch .load → Waker → Act (Poll (Watch .load) (Except Failure Delivery))

/-- Waits for the shallow load of the node that the aliases lead to. -/
def awaitLoad (look : Look) (work : LoadWork) (target : Node) (watch : Watch .load)
    (waker : Waker) : Act (Poll LoadWork (Except Failure Delivery)) := do
  match ← look watch waker with
  | .pending watch => return .pending { work with stage := .borrowing target watch }
  | .ready loaded => return .ready (← work.adopt target loaded)

/-- Begins to wait for the shallow load of the node that the aliases lead to. -/
def borrow (look : Look) (work : LoadWork) (target : Node) (waker : Waker) :
    Act (Poll LoadWork (Except Failure Delivery)) := do
  match ← Act.loadOf target with
  | .already delivery => return .ready (← work.adopt target (.ok delivery))
  | .shared load => work.awaitLoad look target ⟨load, none⟩ waker

mutual

/-- Follows aliases from `node` on. The nodes passed before are `visited`. -/
def follow (look : Look) (work : LoadWork) (waker : Waker) :
    Nat → List Node → Node → Act (Poll LoadWork (Except Failure Delivery))
  | 0, _, node => return .ready (.error (.aliasCycle node.key))
  | fuel + 1, visited, node => do
    if visited.contains node then return .ready (.error (.aliasCycle node.key))
    else if ((← get).entryAt? node).isSome then work.borrow look node waker
    else
      let visited := node :: visited
      match ← Act.describe node waker with
      | .pending call => return .pending { work with stage := .following visited node call }
      | .ready described => work.arrive look waker fuel visited node described

/-- Goes on from the descriptor of `node`. -/
def arrive (look : Look) (work : LoadWork) (waker : Waker) :
    Nat → List Node → Node → Except Failure Descriptor →
      Act (Poll LoadWork (Except Failure Delivery))
  | 0, _, node, _ => return .ready (.error (.aliasCycle node.key))
  | fuel + 1, visited, node, described => do
    match described with
    | .error failure => return .ready (.error failure)
    | .ok descriptor =>
      match (← get).pointsTo node descriptor with
      | .error failure => return .ready (.error failure)
      | .ok (some next) => work.follow look waker fuel visited next
      | .ok none => work.borrow look node waker

end

/-- Twice as many steps as there are keys to be described, and a few: an alias chain passes no key
twice. -/
@[irreducible] def patience (host : Host) : Nat :=
  2 * (host.knownKeys + host.nodesAtHand.length) + 4

/-- Goes on from the descriptor of the key itself. -/
def interpret (look : Look) (work : LoadWork) (waker : Waker)
    (described : Except Failure Descriptor) : Act (Poll LoadWork (Except Failure Delivery)) := do
  match described with
  | .error failure => return .ready (.error failure)
  | .ok descriptor =>
    match ← Act.interpret work.node descriptor with
    | .error failure => return .ready (.error failure)
    | .ok (.entry entry) =>
      let continuations := (← get).continuations work.node.compartment entry
      return .ready (.ok { entry, continuations, fromMemo := false })
    | .ok (.elsewhere target) => work.follow look waker (patience (← get)) [work.node] target

/-- Goes on from where the shallow load stands. -/
def proceed (look : Look) (work : LoadWork) (waker : Waker) :
    Act (Poll LoadWork (Except Failure Delivery)) := do
  match work.stage with
  | .fresh =>
    match (← get).delivered? work.node with
    | some delivery => return .ready (.ok delivery)
    | none =>
      match ← Act.describe work.node waker with
      | .pending call => return .pending { work with stage := .describing call }
      | .ready described => work.interpret look waker described
  | .describing call =>
    match ← Act.awaitCall work.node call waker with
    | .pending call => return .pending { work with stage := .describing call }
    | .ready described => work.interpret look waker described
  | .following visited node call =>
    match ← Act.awaitCall node call waker with
    | .pending call => return .pending { work with stage := .following visited node call }
    | .ready described => work.arrive look waker (patience (← get)) visited node described
  | .borrowing target load => work.awaitLoad look target load waker

/-- Drives a shallow load one step. One that fails is not kept, so that a later load may try again. -/
def drive (look : Look) (work : LoadWork) (waker : Waker) :
    Act (Poll LoadWork (Except Failure Delivery)) := do
  match ← work.proceed look waker with
  | .pending work => return .pending work
  | .ready (.ok delivery) => return .ready (.ok delivery)
  | .ready (.error failure) =>
    Act.changeCompartment work.node.compartment fun compartment =>
      { compartment with loading := compartment.loading.erase work.node.key }
    return .ready (.error failure)

/-- Looks at a shallow load. Loads wait for each other at most `depth` deep. -/
def look : Nat → Look
  | 0, watch, _ => return .pending watch
  | depth + 1, watch, waker => Shelf.loads.poll (drive (look depth)) watch waker

end LoadWork

/-- Looks at a shallow load. -/
def Act.awaitDelivery (watch : Watch .load) (waker : Waker) :
    Act (Poll (Watch .load) (Except Failure Delivery)) := do
  LoadWork.look ((← get).knownKeys + 1) watch waker

end ModuleLoader
