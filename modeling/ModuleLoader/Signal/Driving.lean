import ModuleLoader.Host
/-!
Driving work. Shared work is driven by whoever looks at it first while it is idle, and everybody
seated at its bell is told when it can go on and when it is done. A pool gives its members their
turns in the order in which they were told, until one of them finishes.
-/

namespace ModuleLoader
set_option autoImplicit false

/-- Where shared work of one kind is kept. -/
structure Shelf (k : Noun) (work output : Type) where
  get? : Host → Ref k → Option (Shared work output)
  put : Host → Ref k → Shared work output → Host

namespace Shelf

/-- Calls of load hooks. -/
def calls : Shelf .call HookCall HookResult where
  get? host ref := host.calls.get? ref
  put host ref shared := { host with calls := host.calls.set ref shared }

/-- Shallow loads. -/
def loads : Shelf .load LoadWork (Except Failure Delivery) where
  get? host ref := host.loads.get? ref
  put host ref shared := { host with loads := host.loads.set ref shared }

/-- Completions of records. -/
def readies : Shelf .ready ReadyWork (Except Failure Unit) where
  get? host ref := host.readies.get? ref
  put host ref shared := { host with readies := host.readies.set ref shared }

/-- Drivers. -/
def drivers : Shelf .driver DriverWork Unit where
  get? host ref := (host.drivers.get? ref).map Driver.shared
  put host ref shared :=
    { host with drivers := host.drivers.modify ref fun driver => { driver with shared } }

variable {k : Noun} {work output : Type}

/-- Stores how far shared work has come. -/
def record (shelf : Shelf k work output) (ref : Ref k) (bell : Ref .bell)
    (progress : Progress work output) : Act Unit :=
  modify fun host => shelf.put host ref ⟨bell, progress⟩

/-- Takes a seat for the one who looks. -/
def sit (bell : Ref .bell) (watch : Watch k) (waker : Waker) : Act (Watch k) := do
  let (seats, seat) := ((← get).board.seats bell).sit watch.seat waker
  Act.changeSeats bell fun _ => seats
  return { watch with seat }

/-- Ends shared work: the result is stored and everybody is told. -/
def finish (shelf : Shelf k work output) (ref : Ref k) (bell : Ref .bell) (output : output) :
    Act Unit := do
  shelf.record ref bell (.done output)
  let wakers := ((← get).board.seats bell).wakers
  Act.changeSeats bell fun _ => Seats.done
  Act.tell wakers

/-- Looks at shared work, and drives it one step if nobody else does. -/
def poll (shelf : Shelf k work output) (drive : work → Waker → Act (Poll work output))
    (watch : Watch k) (waker : Waker) : Act (Poll (Watch k) output) := do
  match shelf.get? (← get) watch.job with
  | none => return .pending watch
  | some shared =>
    match shared.progress with
    | .done output => return .ready output
    | .driven _ => return .pending (← sit shared.bell watch waker)
    | .idle work =>
      let watch ← sit shared.bell watch waker
      shelf.record watch.job shared.bell (.driven work)
      match ← drive work (.bell shared.bell) with
      | .pending work =>
        shelf.record watch.job shared.bell (.idle work)
        return .pending watch
      | .ready output =>
        shelf.finish watch.job shared.bell output
        return .ready output

/-- Stops waiting. The work itself stays as it is. -/
def forget (shelf : Shelf k work output) (watch : Watch k) : Act Unit := do
  match watch.seat, shelf.get? (← get) watch.job with
  | some seat, some shared => Act.changeSeats shared.bell fun seats => seats.leave seat
  | _, _ => return ()

end Shelf

/-- What a pool has for its owner. -/
inductive Next (member output : Type) where
  | pending (members : List (Nat × member))
  | finished (output : output) (members : List (Nat × member))
  | exhausted

namespace Pool

variable {member output : Type}

/-- Gives up to `turns` turns. After two members that went on by themselves, or when the turns are
used up, the owner is told at once and gives way. -/
def turns (poll : member → Waker → Act (Poll member output)) (ref : Ref .pool) (waker : Waker) :
    Nat → Nat → List (Nat × member) → Act (Next member output)
  | 0, _, members => return if members.isEmpty then .exhausted else .pending members
  | left + 1, stirred, members => do
    match ((← get).board.pool ref).turn with
    | none => return if members.isEmpty then .exhausted else .pending members
    | some (index, pool) =>
      Act.changePool ref fun _ => pool
      match members.find? fun member => member.1 = index with
      | none => turns poll ref waker left stirred members
      | some (_, work) =>
        let others := members.filter fun member => member.1 ≠ index
        match ← poll work (.member ref index) with
        | .ready output =>
          Act.changePool ref fun pool => pool.finish index
          return .finished output others
        | .pending work =>
          let members := (index, work) :: others
          let stirred :=
            if ((← get).board.pool ref).stirred.contains index then stirred + 1 else stirred
          if stirred ≥ 2 || left = 0 then
            Act.tell [waker]
            return .pending members
          else turns poll ref waker left stirred members

/-- Looks for a member that finishes. -/
def next (poll : member → Waker → Act (Poll member output)) (ref : Ref .pool) (waker : Waker)
    (members : List (Nat × member)) : Act (Next member output) := do
  Act.changePool ref fun pool => { pool with owner := some waker }
  turns poll ref waker members.length 0 members

/-- Closes a pool: its members are told no more. -/
def close (ref : Ref .pool) : Act Unit :=
  Act.changePool ref fun pool => { pool with closed := true }

end Pool

end ModuleLoader
