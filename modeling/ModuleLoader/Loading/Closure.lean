import ModuleLoader.Loading.Shallow
/-!
Loading the closure of a key: shallow loads of everything that can be reached from it, breadth first
in order of first mention, with a limit on how many are in flight.
-/

namespace ModuleLoader
set_option autoImplicit false

namespace KeyLoad

/-- Waits for the shallow load of one key. -/
def await (member : KeyLoad) (watch : Watch .load) (waker : Waker) :
    Act (Poll KeyLoad (Node × Except Failure Delivery)) := do
  match ← Act.awaitDelivery watch waker with
  | .pending watch => return .pending { member with load := some watch }
  | .ready outcome => return .ready (member.node, outcome)

/-- Looks at the load of one key of a closure. It starts when it is looked at for the first time. -/
def poll (member : KeyLoad) (waker : Waker) :
    Act (Poll KeyLoad (Node × Except Failure Delivery)) := do
  match member.load with
  | some watch => member.await watch waker
  | none =>
    match ← Act.loadOf member.node with
    | .already delivery => return .ready (member.node, .ok delivery)
    | .shared load => member.await ⟨load, none⟩ waker

/-- Gives up waiting for one key. -/
def forget (member : KeyLoad) : Act Unit := do
  match member.load with
  | some watch => Shelf.loads.forget watch
  | none => return ()

end KeyLoad

namespace ClosureLoad

/-- Begins the load of a closure. -/
def start (root : Node) : Act ClosureLoad := do
  let pool ← Act.newPool
  let limit := ((← get).compartment root.compartment).settings.maxConcurrentLoads
  return { root, limit, holdback := default, seen := [root], backlog := [root], pool
           members := [], nextIndex := 0 }

/-- Moves keys from the backlog into flight while the limit allows. -/
def fill (load : ClosureLoad) : List Node → Act ClosureLoad
  | [] => return { load with backlog := [] }
  | node :: rest => do
    if load.limit = 0 || load.members.length < load.limit then
      Act.changePool load.pool fun pool => pool.add load.nextIndex
      let member : KeyLoad := ⟨node, none⟩
      { load with
        members := (load.nextIndex, member) :: load.members
        nextIndex := load.nextIndex + 1 }.fill rest
    else return { load with backlog := node :: rest }

/-- Stops waiting for every key in flight, the one that waited last first. -/
def forgetAll : List (Nat × KeyLoad) → Act Unit
  | [] => return ()
  | (_, member) :: rest => do
    member.forget
    forgetAll rest

/-- Gives up a load. The shallow loads stay as they are. -/
def forget (load : ClosureLoad) : Act Unit := do
  Pool.close load.pool
  forgetAll load.members

/-- The nodes that were not seen before, each once, with all nodes seen. The one seen last comes
first there. -/
def unseen (seen : List Node) : List Node → List Node × List Node
  | [] => ([], seen)
  | node :: rest =>
    if seen.contains node then unseen seen rest
    else
      let (fresh, seen) := unseen (node :: seen) rest
      (node :: fresh, seen)

/-- Takes in the result of one shallow load. -/
def take (load : ClosureLoad) (node : Node) (delivery : Delivery) : Act ClosureLoad := do
  let (fresh, seen) := unseen load.seen delivery.continuations
  let (holdback, entered) := load.holdback.deliver node delivery
  Act.enterAll entered
  return { load with seen, backlog := load.backlog ++ fresh, holdback }

/-- Goes on until nothing in flight can finish now, everything has, or a shallow load fails. What
did load is memoized even if another key fails. -/
def proceed (waker : Waker) : Nat → ClosureLoad → Act (Poll ClosureLoad (Except Failure Unit))
  | 0, load => return .pending load
  | fuel + 1, load => do
    let load ← load.fill load.backlog
    match ← Pool.next KeyLoad.poll load.pool waker load.members with
    | .pending members => return .pending { load with members }
    | .exhausted =>
      Pool.close load.pool
      return .ready (.ok ())
    | .finished (_, .error failure) members =>
      Act.enterAll load.holdback.giveUp
      { load with members }.forget
      return .ready (.error failure)
    | .finished (node, .ok delivery) members =>
      proceed waker fuel (← { load with members }.take node delivery)

end ClosureLoad

namespace ClosureStage

/-- The key whose closure is loaded. -/
def root : ClosureStage → Node
  | fresh root => root
  | running load => load.root

/-- The load that a stage is at. -/
def load : ClosureStage → Act ClosureLoad
  | fresh root => ClosureLoad.start root
  | running load => return load

/-- Drives the load of a closure as far as it goes. Each key of a closure is known to a compartment,
and the first that is not ends the load. -/
def poll (stage : ClosureStage) (waker : Waker) :
    Act (Poll ClosureStage (Except Failure Unit)) := do
  let load ← stage.load
  match ← load.proceed waker (2 * (← get).knownKeys + load.seen.length + 4) with
  | .pending load => return .pending (.running load)
  | .ready result => return .ready result

/-- Gives up a load. -/
def forget : ClosureStage → Act Unit
  | fresh _ => return ()
  | running load => load.forget

end ClosureStage

end ModuleLoader
