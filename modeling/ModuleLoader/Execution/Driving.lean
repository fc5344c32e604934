import ModuleLoader.Execution.Running
/-!
Drivers and completions. A driver runs each component when everything it depends on has settled, and
announces its verdict; when one fails, everything that depends on it fails with it. A completion
drives its driver and listens for the verdict of its component.
-/

namespace ModuleLoader
set_option autoImplicit false

namespace Act

/-- Announces the verdict of a component and tells its listener. -/
def announce (verdict : Ref .verdict) (result : Except Failure Unit) : Act Unit := do
  let listener := ((← get).verdicts.get? verdict).bind Verdict.listener
  modify fun host =>
    { host with verdicts := host.verdicts.set verdict ⟨some result, none⟩ }
  tell listener.toList

end Act

namespace DriverWait

/-- Looks at what a driver waits for. -/
def poll (look : LookReady) (member : DriverWait) (waker : Waker) :
    Act (Poll DriverWait DriverEvent) := do
  match member with
  | .outside component completion =>
    match ← completion.poll look waker with
    | .pending completion => return .pending (.outside component completion)
    | .ready result => return .ready (.outside component result)
  | .run component work =>
    match ← work.poll look waker with
    | .pending work => return .pending (.run component work)
    | .ready result => return .ready (.finished component result)

/-- Stops waiting. -/
def forget : DriverWait → Act Unit
  | .outside _ completion => completion.forget
  | .run _ work =>
    match work.current with
    | some (_, body) => body.forget
    | none => return ()

end DriverWait

namespace DriverWork

/-- Adds something to wait for. -/
def add (driver : DriverWork) (member : DriverWait) : Act DriverWork := do
  Act.changePool driver.pool fun pool => pool.add driver.nextIndex
  return { driver with
    members := (driver.nextIndex, member) :: driver.members
    nextIndex := driver.nextIndex + 1 }

/-- Adds several things to wait for, in order. -/
def addAll (driver : DriverWork) : List DriverWait → Act DriverWork
  | [] => return driver
  | member :: rest => do (← driver.add member).addAll rest

/-- What a driver waits for at first: the outside dependencies of every component, and the run of
every component that has no dependency. -/
def firstWaits (components : List Component) : List DriverWait :=
  components.zipIdx.flatMap fun (component, index) =>
    component.outside.map (.outside index) ++
      (if component.waiting = 0 then [.run index ⟨none, component.members⟩] else [])

/-- One dependency of a component settled. The component runs when none is left. -/
def release (driver : DriverWork) (index : Nat) : Act DriverWork := do
  match driver.components[index]? with
  | none => return driver
  | some component =>
    if component.settled then return driver
    else
      let components := driver.components.modify index fun component =>
        { component with waiting := component.waiting - 1 }
      let driver := { driver with components }
      if component.waiting = 1 then driver.add (.run index ⟨none, component.members⟩)
      else return driver

/-- One dependency of each component settled. -/
def releaseAll (driver : DriverWork) : List Nat → Act DriverWork
  | [] => return driver
  | index :: rest => do (← driver.release index).releaseAll rest

/-- Settles a component. -/
def markSettled (components : List Component) (index : Nat) : List Component :=
  components.modify index fun component => { component with settled := true }

/-- Fails components and everything that depends on them. -/
def failFrom (failure : Failure) : Nat → List Nat → List Component → Act (List Component)
  | 0, _, components => return components
  | _ + 1, [], components => return components
  | fuel + 1, index :: rest, components => do
    match components[index]? with
    | none => failFrom failure fuel rest components
    | some component =>
      if component.settled then failFrom failure fuel rest components
      else
        Act.failAll failure component.members
        Act.announce component.verdict (.error failure)
        failFrom failure fuel (component.dependents.reverse ++ rest) (markSettled components index)

/-- How many steps a failure can take: one per component and one per dependency between them. -/
def failureSteps (components : List Component) : Nat :=
  components.foldl (fun total component => total + component.dependents.length + 1) 1

/-- Fails a component and everything that depends on it. -/
def fail (driver : DriverWork) (index : Nat) (failure : Failure) : Act DriverWork := do
  let components ←
    failFrom failure (failureSteps driver.components) [index] driver.components
  return { driver with components }

/-- Takes in the success of a component: its dependents are released in order. -/
def succeed (driver : DriverWork) (index : Nat) : Act DriverWork := do
  match driver.components[index]? with
  | none => return driver
  | some component =>
    let driver := { driver with components := markSettled driver.components index }
    Act.announce component.verdict (.ok ())
    driver.releaseAll component.dependents

/-- Takes in an event. -/
def take (driver : DriverWork) : DriverEvent → Act DriverWork
  | .outside index (.ok ()) => driver.release index
  | .outside index (.error failure) => driver.fail index failure
  | .finished index (.error failure) => driver.fail index failure
  | .finished index (.ok ()) => driver.succeed index

/-- Goes on until nothing can happen now, or nothing is left to wait for. -/
def proceed (look : LookReady) (waker : Waker) : Nat → DriverWork → Act (Poll DriverWork Unit)
  | 0, driver => return .pending driver
  | fuel + 1, driver => do
    match ← Pool.next (DriverWait.poll look) driver.pool waker driver.members with
    | .pending members => return .pending { driver with members }
    | .exhausted =>
      Pool.close driver.pool
      return .ready ()
    | .finished event members =>
      proceed look waker fuel (← take { driver with members } event)

/-- Drives a driver. Each event ends a wait, and each component runs once. -/
def poll (look : LookReady) (driver : DriverWork) (waker : Waker) :
    Act (Poll DriverWork Unit) := do
  let waits := if driver.started then [] else firstWaits driver.components
  let driver ← addAll { driver with started := true } waits
  proceed look waker (driver.members.length + driver.components.length + 1) driver

/-- Stops waiting for everything, what waited last first. -/
def forgetAll : List (Nat × DriverWait) → Act Unit
  | [] => return ()
  | (_, member) :: rest => do
    member.forget
    forgetAll rest

end DriverWork

namespace Act

/-- One completion drives a driver no more. A driver that nothing drives any more is given up. -/
def leaveDriver (watch : Watch .driver) : Act Unit := do
  Shelf.drivers.forget watch
  modify fun host => { host with drivers := host.drivers.modify watch.job fun driver =>
    { driver with holders := driver.holders - 1 } }
  match (← get).drivers.get? watch.job with
  | some ⟨⟨_, .idle work⟩, 0⟩ =>
    Pool.close work.pool
    DriverWork.forgetAll work.members
  | _ => return ()

end Act

namespace ReadyWork

/-- Listens for the verdict after the driver has ended. -/
def listen (work : ReadyWork) : Act (Poll ReadyWork (Except Failure Unit)) := do
  let host ← get
  match (host.verdicts.get? work.verdict).bind Verdict.result with
  | some result => return .ready result
  | none => return .ready (.error (host.record work.first).failure)

/-- Drives the driver, and looks whether the verdict was announced. -/
def poll (look : LookReady) (work : ReadyWork) (waker : Waker) :
    Act (Poll ReadyWork (Except Failure Unit)) := do
  match work.driver with
  | none => work.listen
  | some watch =>
    match ← Shelf.drivers.poll (DriverWork.poll look) watch waker with
    | .ready () => work.listen
    | .pending watch =>
      match ((← get).verdicts.get? work.verdict).bind Verdict.result with
      | some result =>
        Act.leaveDriver watch
        return .ready result
      | none =>
        modify fun host =>
          { host with verdicts := host.verdicts.modify work.verdict fun verdict =>
              { verdict with listener := some waker } }
        return .pending { work with driver := some watch }

end ReadyWork

/-- Looks at the shared completion of a record. Looks are nested at most `depth` deep: each one inside
another is at a completion that nobody drives yet. -/
def lookReady : Nat → LookReady
  | 0, watch, _ => return .pending watch
  | depth + 1, watch, waker => Shelf.readies.poll (ReadyWork.poll (lookReady depth)) watch waker

/-- How deep looks at completions can be nested. -/
def Host.nesting (host : Host) : Nat :=
  2 * host.knownKeys + 8

end ModuleLoader
