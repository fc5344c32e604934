import ModuleLoader.Execution.Scheduling
/-!
Imports: load the closure of a key, link and schedule it, and wait until it has run. All functions
here are told how one looks at the shared completion of a record, because running a module may import
others.
-/

namespace ModuleLoader
set_option autoImplicit false

/-- How one looks at the shared completion of a record. -/
abbrev LookReady := Watch .ready → Waker → Act (Poll (Watch .ready) (Except Failure Unit))

namespace Completion

/-- Looks whether a record has run. -/
def poll (look : LookReady) (completion : Completion) (waker : Waker) :
    Act (Poll Completion (Except Failure Unit)) := do
  match completion with
  | .known result => return .ready result
  | .shared watch =>
    match ← look watch waker with
    | .pending watch => return .pending (.shared watch)
    | .ready result => return .ready result

/-- Stops waiting. -/
def forget : Completion → Act Unit
  | known _ => return ()
  | shared watch => Shelf.readies.forget watch

end Completion

/-- Ends the import of a key whose record has run: gives the namespace. -/
def Act.concludeImport (node : Node) : Act (Except Failure (Ref .exports)) := do
  match (← get).exportsOf node with
  | .error failure => return .error failure
  | .ok space =>
    mark [.imported node space]
    return .ok space

namespace ImportWork

/-- Begins the import of a key. -/
def start (node : Node) : ImportWork := ⟨node, .loading (.fresh node)⟩

/-- Waits until the record has run, and gives its namespace. -/
def awaitRun (look : LookReady) (node : Node) (completion : Completion) (waker : Waker) :
    Act (Poll ImportWork (Except Failure (Ref .exports))) := do
  match ← completion.poll look waker with
  | .pending completion => return .pending ⟨node, .running completion⟩
  | .ready (.error failure) => return .ready (.error failure)
  | .ready (.ok ()) => return .ready (← Act.concludeImport node)

/-- Drives an import as far as it goes. -/
def poll (look : LookReady) (work : ImportWork) (waker : Waker) :
    Act (Poll ImportWork (Except Failure (Ref .exports))) := do
  match work.stage with
  | .running completion => awaitRun look work.node completion waker
  | .loading stage =>
    match ← stage.poll waker with
    | .pending stage => return .pending { work with stage := .loading stage }
    | .ready (.error failure) => return .ready (.error failure)
    | .ready (.ok ()) =>
      match ← Act.linkAndSchedule work.node with
      | .error failure => return .ready (.error failure)
      | .ok completion => awaitRun look work.node completion waker

/-- Gives up an import. -/
def forget (work : ImportWork) : Act Unit :=
  match work.stage with
  | .loading stage => stage.forget
  | .running completion => completion.forget

end ImportWork

namespace Act

/-- Looks once whether a record has run, and gives its namespace. -/
def runNow (look : LookReady) (node : Node) (completion : Completion) :
    Act (Except Failure (Ref .exports)) := do
  match ← completion.poll look .nobody with
  | .ready (.error failure) => return .error failure
  | .ready (.ok ()) => concludeImport node
  | .pending completion =>
    completion.forget
    return .error (.unavailable node.key .unsettled)

/-- Imports a key without waiting. What would have to wait before anything has run refuses the
whole. -/
def importNow (look : LookReady) (node : Node) : Act (Except Failure (Ref .exports)) := do
  match ← draft node with
  | .error failure => return .error failure
  | .ok drafted =>
    match (← get).admitAtOnce drafted.entries node with
    | .error failure => return .error failure
    | .ok () =>
      enterDraft drafted
      match ← linkAndSchedule node with
      | .error failure => return .error failure
      | .ok completion => runNow look node completion

end Act

end ModuleLoader
