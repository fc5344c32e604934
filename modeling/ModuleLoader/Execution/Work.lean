import ModuleLoader.Loading.Work
/-!
Execution in progress: imports, running bodies, components of modules that are run together, and
the drivers that run components as their dependencies settle.
-/

namespace ModuleLoader
set_option autoImplicit false

/-- Waiting until a record has run: known already, or shared. -/
inductive Completion where
  | known (result : Except Failure Unit)
  | shared (ready : Watch .ready)

/-- Where an import stands. -/
inductive ImportStage where
  | loading (stage : ClosureStage)
  | running (completion : Completion)

/-- The import of a key. -/
structure ImportWork where
  node : Node
  stage : ImportStage

/-- What a body gets to see. -/
structure Scope where
  record : Ref .record
  key : String
  home : Ref .compartment
  hasImporter : Bool
  metaObject : Option (Ref .object)

/-- What a body waits for. -/
inductive Awaiting where
  | gate (name : String)
  | turns (left : Nat)
  | importing (specifier : String) (target : Option String) (work : ImportWork)

/-- A suspended body. -/
structure BodyWork where
  scope : Scope
  home : String
  awaiting : Awaiting
  rest : List Instruction

/-- A component being run: the record whose body is suspended, and the records after it. -/
structure ComponentRun where
  current : Option (Ref .record × BodyWork)
  rest : List (Ref .record)

/-- A component: records that are run together, in this order. -/
structure Component where
  members : List (Ref .record)
  /-- How many dependencies have not settled. -/
  waiting : Nat
  /-- The components to release when this one has run. -/
  dependents : List Nat
  /-- Records scheduled earlier that it waits for. -/
  outside : List Completion
  /-- Where its result is announced. -/
  verdict : Ref .verdict
  settled : Bool

/-- What a driver waits for. -/
inductive DriverWait where
  /-- A dependency scheduled earlier. -/
  | outside (component : Nat) (completion : Completion)
  /-- A component that runs. -/
  | run (component : Nat) (run : ComponentRun)

/-- What a driver learns. -/
inductive DriverEvent where
  | outside (component : Nat) (result : Except Failure Unit)
  | finished (component : Nat) (result : Except Failure Unit)

/-- A driver: components in an order in which dependencies come first. -/
structure DriverWork where
  started : Bool
  components : List Component
  pool : Ref .pool
  /-- What it waits for; what waited last comes first. -/
  members : List (Nat × DriverWait)
  /-- The index of the next member. -/
  nextIndex : Nat

/-- Waiting for the result of one component: it drives the driver and listens for the verdict. -/
structure ReadyWork where
  driver : Option (Watch .driver)
  verdict : Ref .verdict
  first : Ref .record

/-- The announced result of a component, and who listens for it. -/
structure Verdict where
  result : Option (Except Failure Unit)
  listener : Option Waker

/-- A driver, and how many completions still drive it. -/
structure Driver where
  shared : Shared DriverWork Unit
  holders : Nat

end ModuleLoader
