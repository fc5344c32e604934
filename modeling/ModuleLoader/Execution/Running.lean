import ModuleLoader.Execution.Bodies
/-!
Running records: one body at most per record, and the members of a component one after another, each
only after the one before it completed.
-/

namespace ModuleLoader
set_option autoImplicit false

namespace Act

/-- Ends a record after its body. -/
def conclude (ref : Ref .record) (result : Except Value Unit) : Act (Except Failure Unit) := do
  match result with
  | .ok () =>
    changeRecord ref fun record => record.advance .ready
    return .ok ()
  | .error thrown =>
    let failure := Failure.initialization ((← get).record ref).key thrown
    changeRecord ref fun record => record.fail failure
    return .error failure

/-- Sets properties in order. -/
def setProperties (object : Ref .object) : List (String × Value) → StateM Store Unit
  | [] => return ()
  | (name, value) :: rest => do
    let _ ← Store.setProperty object name value
    setProperties object rest

/-- Lets the hook of a compartment add to the object that describes a module. -/
def decorate (compartment : Compartment) (key : String) (object : Ref .object) : Act Unit := do
  match compartment.metaHook with
  | none => return ()
  | some hook =>
    let present := ((← get).store.object object).properties.names
    note (.metaHookCalled compartment.label key present)
    let properties ← evaluateMembers hook.properties
    let named := hook.keyProperty.toList.map fun name => (name, Value.string key)
    onStore (setProperties object (properties ++ named))
    if hook.freeze then onStore (Store.freeze object)

/-- What the body of a record gets to see. -/
def scopeOf (ref : Ref .record) (source : Source) : Act Scope := do
  let record := (← get).record ref
  let metaObject ←
    if source.needsMeta then do
      let object ← onStore (Store.newObject source.metaProperties)
      decorate ((← get).compartment record.home) record.key object
      pure (some object)
    else pure none
  return { record := ref, key := record.key, home := record.home
           hasImporter := source.needsImport, metaObject }

/-- Runs an asynchronous body as far as it goes. -/
def startAsync (look : LookReady) (scope : Scope) (body : Body) (waker : Waker) :
    Act (Poll BodyWork (Except Value Unit)) := do
  match ← body.start look scope waker with
  | .pending work => return .pending work
  | .ready result =>
    Body.noteEnd scope body
    return .ready result

/-- Starts a record that is not terminal. -/
def startBody (look : LookReady) (ref : Ref .record) (waker : Waker) :
    Act (Poll BodyWork (Except Failure Unit)) := do
  match ((← get).record ref).source with
  | none => return .ready (← conclude ref (.ok ()))
  | some source =>
    let scope ← scopeOf ref source
    match source.initializer with
    | .nothing => return .ready (← conclude ref (.ok ()))
    | .synchronous body => return .ready (← conclude ref (← body.runSynchronously look scope))
    | .asynchronous body =>
      match ← startAsync look scope body waker with
      | .pending work => return .pending work
      | .ready result => return .ready (← conclude ref result)

/-- Starts a record. One that failed already fails its component; one that ran already is done. -/
def startRecord (look : LookReady) (ref : Ref .record) (waker : Waker) :
    Act (Poll BodyWork (Except Failure Unit)) := do
  let record := (← get).record ref
  if record.phase.allows .executing then
    changeRecord ref fun record => record.advance .executing
    startBody look ref waker
  else if record.phase = .failed then return .ready (.error record.failure)
  else return .ready (.ok ())

/-- Ends records with a failure. -/
def failAll (failure : Failure) : List (Ref .record) → Act Unit
  | [] => return ()
  | ref :: rest => do
    changeRecord ref fun record => record.fail failure
    failAll failure rest

end Act

namespace ComponentRun

/-- Runs the members that are left. If one fails, all after it fail. -/
def runRest (look : LookReady) (waker : Waker) :
    List (Ref .record) → Act (Poll ComponentRun (Except Failure Unit))
  | [] => return .ready (.ok ())
  | ref :: rest => do
    match ← Act.startRecord look ref waker with
    | .pending work => return .pending ⟨some (ref, work), rest⟩
    | .ready (.ok ()) => runRest look waker rest
    | .ready (.error failure) =>
      Act.failAll failure rest
      return .ready (.error failure)

/-- Drives the run of a component. -/
def poll (look : LookReady) (run : ComponentRun) (waker : Waker) :
    Act (Poll ComponentRun (Except Failure Unit)) := do
  match run.current with
  | none => runRest look waker run.rest
  | some (ref, work) =>
    match ← work.resume look waker with
    | .pending work => return .pending { run with current := some (ref, work) }
    | .ready result =>
      Act.note (.ended work.home work.scope.key)
      match ← Act.conclude ref result with
      | .ok () => runRest look waker run.rest
      | .error failure =>
        Act.failAll failure run.rest
        return .ready (.error failure)

end ComponentRun

end ModuleLoader
