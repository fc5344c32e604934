import ModuleLoader.Execution.Importing
/-!
Carrying out the bodies of modules. What goes wrong inside a body is thrown as a value; what is
thrown is caught at the end of the innermost attempt around it, or else ends the body.
-/

namespace ModuleLoader
set_option autoImplicit false

/-- Assigns a name in the scope of a record. -/
def Act.assignIn (ref : Ref .record) (name : String) (value : Value) :
    Act (Except Failure Unit) := do
  match ← Act.onStore (((← get).record ref).environment.assign name value) with
  | .error failure => return .error failure
  | .ok environment =>
    Act.changeRecord ref fun record => { record with environment }
    return .ok ()

namespace Scope

/-- The inspection text of what a body gets to see. -/
def inspect (scope : Scope) (host : Host) : String :=
  Text.fieldsOf "ModuleScope"
    [("key", Text.inspectString scope.key),
     ("environment", (host.record scope.record).environment.inspect),
     ("importer", Text.boolean scope.hasImporter),
     ("import_meta", Text.optional (scope.metaObject.map host.store.inspectObject))]

/-- Reads a name. -/
def read (scope : Scope) (name : String) : Act (Except Failure Value) := do
  let host ← get
  return (host.record scope.record).environment.read host.store name

/-- Assigns a name. -/
def assign (scope : Scope) (name : String) (value : Value) : Act (Except Failure Unit) :=
  Act.assignIn scope.record name value

/-- The key of a specifier mentioned by the body. -/
def resolve (scope : Scope) (specifier : String) : Act (Except Failure String) := do
  return ((← get).compartment scope.home).resolve specifier scope.key

end Scope

/-- What one instruction comes to. -/
inductive Effect where
  | next
  | thrown (value : Value)
  | wait (awaiting : Awaiting)

namespace Effect

/-- Goes on, or throws the failure. -/
def ofResult : Except Failure Unit → Effect
  | .ok () => next
  | .error failure => thrown failure.thrown

/-- Throws a text. -/
def throwText (text : String) : Effect := thrown (.string text)

end Effect

namespace Body

/-- Assigns the result of an import, if it has a name to go to. -/
def assignTarget (scope : Scope) (target : Option String) (value : Value) : Act Effect := do
  match target with
  | none => return .next
  | some name => return .ofResult (← scope.assign name value)

/-- Takes in the result of an asynchronous import. -/
def takeImport (scope : Scope) (specifier : String) (target : Option String)
    (result : Except Failure (Ref .exports)) : Act Effect := do
  match result with
  | .error failure => return .thrown failure.thrown
  | .ok space =>
    Act.note (.imported specifier (← Act.view (.exports space)))
    assignTarget scope target (.exports space)

/-- Takes in the result of a synchronous import. -/
def takeImportNow (scope : Scope) (specifier : String) (target : Option String)
    (result : Except Failure (Ref .exports)) : Act Effect := do
  match result with
  | .error failure => return .thrown failure.thrown
  | .ok space =>
    Act.note (.importedNow specifier (← Act.view (.exports space)))
    assignTarget scope target (.exports space)

/-- Reads a name and goes on with its value. -/
def withValue (scope : Scope) (name : String) (go : Value → Act Effect) : Act Effect := do
  match ← scope.read name with
  | .error failure => return .thrown failure.thrown
  | .ok value => go value

/-- Reads a name that must be bound to a namespace. -/
def withExports (scope : Scope) (name : String) (go : Ref .exports → Act Effect) : Act Effect :=
  withValue scope name fun value =>
    match value with
    | .exports space => go space
    | _ => return .throwText "not a namespace"

/-- Reads a name that must be bound to an object. -/
def withObject (scope : Scope) (name : String) (go : Ref .object → Act Effect) : Act Effect :=
  withValue scope name fun value =>
    match value with
    | .object object => go object
    | _ => return .throwText "not an object"

/-- Goes on with the object that describes the module. -/
def withMeta (scope : Scope) (go : Ref .object → Act Effect) : Act Effect :=
  match scope.metaObject with
  | some object => go object
  | none => return .throwText "no import.meta"

/-- Goes on if the body may import. -/
def withImporter (scope : Scope) (go : Act Effect) : Act Effect :=
  if scope.hasImporter then go else return .throwText "no importer"

/-- Carries out one instruction. -/
def perform (look : LookReady) (scope : Scope) (waker : Waker) : Instruction → Act Effect
  | .log literal => do
    let value ← Act.evaluate literal
    Act.note (.logged (← Act.view value))
    return .next
  | .assign name literal => do
    let value ← Act.evaluate literal
    return .ofResult (← scope.assign name value)
  | .read name => withValue scope name fun value => do
    Act.note (.read name (← Act.view value))
    return .next
  | .copy source target => withValue scope source fun value => do
    return .ofResult (← scope.assign target value)
  | .raise literal => do return .thrown (← Act.evaluate literal)
  | .raiseName name => withValue scope name fun value => return .thrown value
  | .attempt => return .next
  | .attemptEnd => return .next
  | .gate name => do
    if ← Act.passGate name waker then return .next else return .wait (.gate name)
  | .giveWay 0 => return .next
  | .giveWay (count + 1) => do
    Act.tell [waker]
    return .wait (.turns count)
  | .importLater specifier target => withImporter scope do
    match ← scope.resolve specifier with
    | .error failure => return .thrown failure.thrown
    | .ok key =>
      match ← (ImportWork.start ⟨scope.home, key⟩).poll look waker with
      | .pending work => return .wait (.importing specifier target work)
      | .ready result => takeImport scope specifier target result
  | .importNow specifier target => withImporter scope do
    match ← scope.resolve specifier with
    | .error failure => return .thrown failure.thrown
    | .ok key => takeImportNow scope specifier target (← Act.importNow look ⟨scope.home, key⟩)
  | .resolve specifier => withImporter scope do
    match ← scope.resolve specifier with
    | .error failure => return .thrown failure.thrown
    | .ok key =>
      Act.note (.resolved specifier key)
      return .next
  | .importer => withImporter scope do
    Act.note (.importer scope.key ((← get).compartment scope.home).name)
    return .next
  | .readExport name property => withExports scope name fun space => do
    match (← get).store.readExport space property with
    | .error failure => return .thrown failure.thrown
    | .ok value =>
      Act.note (.readExport name property (← Act.view value))
      return .next
  | .exportNames name => withExports scope name fun space => do
    Act.note (.exportNames name ((← get).store.space space).exports.names)
    return .next
  | .setProperty name property literal => withObject scope name fun object => do
    let value ← Act.evaluate literal
    Act.note (.setProperty name property (← Act.onStore (Store.setProperty object property value)))
    return .next
  | .freeze name => withObject scope name fun object => do
    Act.onStore (Store.freeze object)
    return .next
  | .readMeta property => withMeta scope fun object => do
    let value := (((← get).store.object object).properties.get? property).getD .undefined
    Act.note (.readMeta property (← Act.view value))
    return .next
  | .setMeta property literal => withMeta scope fun object => do
    let value ← Act.evaluate literal
    Act.note (.setMeta property (← Act.onStore (Store.setProperty object property value)))
    return .next
  | .metaNames => withMeta scope fun object => do
    Act.note (.metaNames ((← get).store.object object).properties.names)
    return .next
  | .scopeNames => do
    let environment := ((← get).record scope.record).environment
    Act.note (.scopeNames (environment.names.map fun name => (name, environment.isImport name)))
    return .next
  | .showScope => do
    Act.note (.scope scope.key (scope.inspect (← get)))
    return .next
  | .unknown => return .throwText "bad instruction"

/-- Carries out instructions until the body ends or has to wait. After a throw, `falling` holds the
thrown value and how many attempts begun since then have still to end before it can be caught. -/
def run (look : LookReady) (scope : Scope) (home : String) (waker : Waker) :
    List Instruction → Option (Nat × Value) → Act (Poll BodyWork (Except Value Unit))
  | [], none => return .ready (.ok ())
  | [], some (_, value) => return .ready (.error value)
  | .attempt :: rest, some (depth, value) => run look scope home waker rest (some (depth + 1, value))
  | .attemptEnd :: rest, some (0, value) => do
    Act.note (.caught (← Act.view value))
    run look scope home waker rest none
  | .attemptEnd :: rest, some (depth + 1, value) =>
    run look scope home waker rest (some (depth, value))
  | _ :: rest, some (depth, value) => run look scope home waker rest (some (depth, value))
  | instruction :: rest, none => do
    match ← perform look scope waker instruction with
    | .next => run look scope home waker rest none
    | .thrown value => run look scope home waker rest (some (0, value))
    | .wait awaiting => return .pending { scope, home, awaiting, rest }

end Body

namespace BodyWork

/-- Goes on with a suspended body after what it waited for. -/
def goOn (look : LookReady) (work : BodyWork) (waker : Waker) (effect : Effect) :
    Act (Poll BodyWork (Except Value Unit)) :=
  match effect with
  | .next => Body.run look work.scope work.home waker work.rest none
  | .thrown value => Body.run look work.scope work.home waker work.rest (some (0, value))
  | .wait awaiting => return .pending { work with awaiting }

/-- Drives a suspended body. -/
def resume (look : LookReady) (work : BodyWork) (waker : Waker) :
    Act (Poll BodyWork (Except Value Unit)) := do
  match work.awaiting with
  | .gate name =>
    if ← Act.isOpen name then work.goOn look waker .next else return .pending work
  | .turns 0 => work.goOn look waker .next
  | .turns (left + 1) =>
    Act.tell [waker]
    return .pending { work with awaiting := .turns left }
  | .importing specifier target importWork =>
    match ← importWork.poll look waker with
    | .pending importWork =>
      return .pending { work with awaiting := .importing specifier target importWork }
    | .ready result =>
      work.goOn look waker (← Body.takeImport work.scope specifier target result)

/-- Gives up a suspended body. -/
def forget (work : BodyWork) : Act Unit :=
  match work.awaiting with
  | .importing _ _ importWork => importWork.forget
  | _ => return ()

end BodyWork

namespace Body

/-- Starts a body. -/
def start (look : LookReady) (scope : Scope) (body : Body) (waker : Waker) :
    Act (Poll BodyWork (Except Value Unit)) := do
  match body with
  | .script home instructions =>
    Act.note (.ran home scope.key)
    run look scope home waker instructions none
  | .document content =>
    let value ← Act.onStore (Store.ofJson content)
    match ← scope.assign standardExport value with
    | .ok () => return .ready (.ok ())
    | .error failure => return .ready (.error failure.thrown)
  | .text content =>
    match ← scope.assign standardExport (.string content) with
    | .ok () => return .ready (.ok ())
    | .error failure => return .ready (.error failure.thrown)

/-- Runs a body that must not wait. -/
def runSynchronously (look : LookReady) (scope : Scope) (body : Body) :
    Act (Except Value Unit) := do
  match ← body.start look scope .nobody with
  | .ready result => return result
  | .pending work =>
    work.forget
    return .error (.string "suspended")

/-- Notes the end of an asynchronous body. -/
def noteEnd (scope : Scope) (body : Body) : Act Unit :=
  match body with
  | .script home _ => Act.note (.ended home scope.key)
  | _ => return ()

end Body

end ModuleLoader
