import ModuleLoader.Execution.Driving
/-!
Tasks and the run queue. Tasks are run in the order in which they were started or told, one at a time
and as far as each can go, until none can go on.
-/

namespace ModuleLoader
set_option autoImplicit false

namespace Task

/-- Whether the task can still finish. -/
def isLive (task : Task) : Bool :=
  match task.work with
  | .finished => false
  | .dropped => false
  | _ => true

end Task

/-- The tasks of this name, in the order of their start. -/
def Host.tasksNamed (host : Host) (name : String) : List (Ref .task) :=
  host.tasks.refs.filter fun ref =>
    match host.tasks.get? ref with
    | some task => task.name = name
    | none => false

namespace Act

/-- Sets what a task does from now on. -/
def changeTask (ref : Ref .task) (work : TaskWork) : Act Unit :=
  modify fun host => { host with tasks := host.tasks.modify ref fun task => { task with work } }

/-- Starts a task: it enters the run queue. -/
def startTask (name : String) (work : TaskWork) : Act Unit := do
  let ref := (← get).tasks.next
  modify fun host =>
    { host with tasks := host.tasks.push ⟨name, work⟩, board := host.board.enqueue ref }

/-- Starts the load of the closure of a key. -/
def startLoad (name : String) (node : Node) : Act Unit :=
  startTask name (.loading (.fresh node))

/-- Starts the import of a key. -/
def startImport (name : String) (node : Node) : Act Unit :=
  startTask name (.importing (.start node))

/-- Ends a task with its result. -/
def endTask (ref : Ref .task) (name : String) (result : Except Failure Value) : Act Unit := do
  changeTask ref .finished
  note (.finished name ((← get).store.viewResult result))

/-- Looks once at the completion of a record, from outside of any run. -/
def lookOutside : LookReady := fun watch waker => do
  lookReady (← get).nesting watch waker

/-- Runs a task as far as it goes. -/
def pollTask (ref : Ref .task) : Act Unit := do
  match (← get).tasks.get? ref with
  | none => return ()
  | some task =>
    match task.work with
    | .finished => return ()
    | .dropped => return ()
    | .loading stage =>
      match ← stage.poll (.task ref) with
      | .pending stage => changeTask ref (.loading stage)
      | .ready (.ok ()) => endTask ref task.name (.ok (.boolean true))
      | .ready (.error failure) => endTask ref task.name (.error failure)
    | .importing work =>
      match ← work.poll lookOutside (.task ref) with
      | .pending work => changeTask ref (.importing work)
      | .ready (.ok space) => endTask ref task.name (.ok (.exports space))
      | .ready (.error failure) => endTask ref task.name (.error failure)

/-- Runs the first task of the run queue. Says whether there was one. -/
def runNext : Act Bool := do
  match (← get).board.tasks with
  | [] => return false
  | ref :: rest =>
    modify fun host => { host with board := { host.board with tasks := rest } }
    pollTask ref
    return true

/-- Runs tasks until none can go on, at most `turns` times. -/
def runTasks : Nat → Act Unit
  | 0 => return ()
  | turns + 1 => do
    if ← runNext then runTasks turns

/-- Gives up what a task was doing. -/
def forgetWork : TaskWork → Act Unit
  | .loading stage => stage.forget
  | .importing work => work.forget
  | .finished => return ()
  | .dropped => return ()

/-- Drops a task that can still finish: what it was doing is given up, and it never finishes. -/
def dropTask (ref : Ref .task) : Act Unit := do
  match (← get).tasks.get? ref with
  | none => return ()
  | some task =>
    if task.isLive then
      forgetWork task.work
      changeTask ref .dropped

/-- Drops tasks, first to last. -/
def dropAll : List (Ref .task) → Act Unit
  | [] => return ()
  | ref :: rest => do
    dropTask ref
    dropAll rest

/-- Drops every task of this name that can still finish. -/
def dropNamed (name : String) : Act Unit := do
  dropAll ((← get).tasksNamed name)

/-- Opens a gate for good and tells whoever waits there, first come first. -/
def openGate (name : String) : Act Unit := do
  let waiters := (((← get).gates.get? name).map Gate.waiters).getD []
  modify fun host => { host with gates := host.gates.insert name ⟨true, []⟩ }
  tell waiters

end Act

/-- The names of the tasks that can still finish, in the order of their start. -/
def Host.pendingTasks (host : Host) : List String :=
  (host.tasks.cells.toList.filter Task.isLive).map Task.name

end ModuleLoader
