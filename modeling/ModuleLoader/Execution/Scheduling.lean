import ModuleLoader.Execution.Graph
import ModuleLoader.Linkage.Linking
import ModuleLoader.Loading.Draft
/-!
Scheduling: linked records are grouped into components, and one driver is installed that will run
each component when the components it depends on have settled. Every record of a component gets the
same shared completion.
-/

namespace ModuleLoader
set_option autoImplicit false

namespace Host

/-- The graph of pending records: the pending dependencies of each pending record, in order. -/
def pendingGraph (host : Host) : Graph :=
  let isUnscheduled (ref : Ref .record) : Bool := (host.record ref).isUnscheduled
  ⟨host.records.cells.map fun record =>
    if record.isUnscheduled then
      ((host.dependencies record).filter isUnscheduled).map Ref.index
    else []⟩

/-- The components of the pending records that a record depends on. -/
def components (host : Host) (root : Ref .record) : List (List (Ref .record)) :=
  (host.pendingGraph.components root.index).map fun members => members.map Ref.mk

/-- How to wait until a record has run. -/
def completion (host : Host) (ref : Ref .record) : Completion :=
  let record := host.record ref
  match record.ready with
  | some ready => .shared ⟨ready, none⟩
  | none => if record.phase = .failed then .known (.error record.failure) else .known (.ok ())

end Host

/-- The dependencies of a component: other components of the same driver, and records scheduled
earlier, each once and in order of first mention. -/
structure Dependencies where
  seen : List (Ref .record)
  inside : List Nat
  outside : List (Ref .record)

namespace Dependencies

/-- Takes in one dependency of component `index`. -/
def add (owner : Ref .record → Option Nat) (index : Nat) (found : Dependencies)
    (record : Ref .record) : Dependencies :=
  match owner record with
  | some other =>
    if other = index || found.seen.contains record then found
    else if found.inside.contains other then { found with seen := record :: found.seen }
    else { found with seen := record :: found.seen, inside := found.inside ++ [other] }
  | none =>
    if found.seen.contains record then found
    else { found with seen := record :: found.seen, outside := found.outside ++ [record] }

/-- The dependencies of the members of component `index`. -/
def ofMembers (owner : Ref .record → Option Nat) (index : Nat)
    (dependencies : Ref .record → List (Ref .record)) (members : List (Ref .record)) :
    Dependencies :=
  members.foldl (fun found member => (dependencies member).foldl (add owner index) found)
    ⟨[], [], []⟩

end Dependencies

namespace Component

/-- Registers a component with the earlier components it depends on. -/
def addDependent (components : List Component) (index : Nat) : List Nat → List Component
  | [] => components
  | other :: rest =>
    addDependent (components.modify other fun component =>
      { component with dependents := component.dependents ++ [index] }) index rest

end Component

namespace Host

/-- Which component of a driver a record belongs to. -/
def ownerIn (host : Host) (groups : List (List (Ref .record))) : Ref .record → Option Nat :=
  let places : Array (Option Nat) := groups.zipIdx.foldl (fun places (members, index) =>
    members.foldl (fun places (member : Ref .record) =>
      places.setIfInBounds member.index (some index)) places)
    (Array.replicate host.records.size none)
  fun ref => (places[ref.index]?).getD none

/-- The components of a driver, from the groups of their members and the places of their verdicts. -/
def componentsOf (host : Host) (owner : Ref .record → Option Nat) :
    Nat → List Component → List (List (Ref .record) × Ref .verdict) → List Component
  | _, components, [] => components
  | index, components, (members, verdict) :: rest =>
    let found := Dependencies.ofMembers owner index
      (fun member => host.dependencies (host.record member)) members
    let component : Component :=
      { members, waiting := found.inside.length + found.outside.length, dependents := []
        outside := found.outside.map host.completion, verdict, settled := false }
    host.componentsOf owner (index + 1)
      (Component.addDependent components index found.inside ++ [component]) rest

end Host

namespace Act

/-- A new verdict, not announced yet, for each group. -/
def newVerdicts : List (List (Ref .record)) → Act (List (List (Ref .record) × Ref .verdict))
  | [] => return []
  | members :: rest => do
    let verdict := (← get).verdicts.next
    modify fun host => { host with verdicts := host.verdicts.push ⟨none, none⟩ }
    return (members, verdict) :: (← newVerdicts rest)

/-- Gives the members of a component their shared completion. -/
def newCompletion (driver : Ref .driver) (members : List (Ref .record)) (verdict : Ref .verdict) :
    Act Unit := do
  match members with
  | [] => return ()
  | first :: _ =>
    let bell ← newBell
    let ready := (← get).readies.next
    let work : ReadyWork := { driver := some ⟨driver, none⟩, verdict, first }
    modify fun host => { host with readies := host.readies.push ⟨bell, .idle work⟩ }
    members.forM fun member => changeRecord member fun record => { record with ready := some ready }

/-- Gives every component its shared completion. -/
def newCompletions (driver : Ref .driver) :
    List (List (Ref .record) × Ref .verdict) → Act Unit
  | [] => return ()
  | (members, verdict) :: rest => do
    newCompletion driver members verdict
    newCompletions driver rest

/-- Installs a driver for components that come after all they depend on. -/
def startDriver (groups : List (List (Ref .record))) : Act Unit := do
  let verdicts ← newVerdicts groups
  let host ← get
  let components := host.componentsOf (host.ownerIn groups) 0 [] verdicts
  let pool ← newPool
  let bell ← newBell
  let driver := (← get).drivers.next
  let work : DriverWork := { started := false, components, pool, members := [], nextIndex := 0 }
  modify fun host =>
    { host with drivers := host.drivers.push ⟨⟨bell, .idle work⟩, components.length⟩ }
  newCompletions driver verdicts

/-- Schedules a record and all it depends on, as far as they are pending. -/
def schedule (root : Ref .record) : Act Completion := do
  let host ← get
  if (host.record root).isUnscheduled then
    let groups := host.components root
    mark [.scheduled root groups]
    startDriver groups
  else mark [.scheduled root []]
  return (← get).completion root

/-- Links those records of the closure of a key that are loaded and not linked yet. -/
def linkClosure (root : Node) : Act Unit := do
  let host ← get
  let batch := (host.closure [] root).filter fun ref => (host.record ref).phase = .loaded
  mark [.linking batch (host.unmet batch)]
  link batch

/-- Links the closure of a key and schedules it. -/
def linkAndSchedule (node : Node) : Act (Except Failure Completion) := do
  let host ← get
  match host.entryOf node with
  | .error failure => return .error failure
  | .ok entry =>
    match (host.record entry.record).ready with
    | some ready => return .ok (.shared ⟨ready, none⟩)
    | none =>
      linkClosure node
      return .ok (← schedule entry.record)

end Act

end ModuleLoader
