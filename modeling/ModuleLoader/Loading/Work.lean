import ModuleLoader.Loading.Holdback
import ModuleLoader.Signal.Shared
/-!
Loading in progress: calls of load hooks, shallow loads, and loads of whole closures. Each type says
where the work stands and what it still needs to go on.
-/

namespace ModuleLoader
set_option autoImplicit false

/-- Where a call of a load hook stands. -/
inductive CallStage where
  | fresh
  | atGate (gate : String) (answer : HookAnswer)
  | yielding (left : Nat) (reply : Reply)

/-- A call of a load hook. -/
structure HookCall where
  home : Ref .compartment
  key : String
  stage : CallStage

/-- What a call of a load hook ends with; `none` if the hook knows no such key. -/
abbrev HookResult := Except Failure (Option Descriptor)

/-- Where a shallow load stands. -/
inductive LoadStage where
  | fresh
  /-- Waits for the hook about its own key. -/
  | describing (call : Watch .call)
  /-- Follows aliases; waits for the hook about `node`. `visited` are the nodes passed. -/
  | following (visited : List Node) (node : Node) (call : Watch .call)
  /-- Waits for the shallow load of the node its aliases lead to. -/
  | borrowing (node : Node) (load : Watch .load)

/-- The shallow load of one key. -/
structure LoadWork where
  node : Node
  stage : LoadStage

/-- A member of a load: one key of the closure, once it has started with its shallow load. -/
structure KeyLoad where
  node : Node
  load : Option (Watch .load)

/-- The load of the closure of a key. -/
structure ClosureLoad where
  root : Node
  limit : Nat
  holdback : Holdback
  seen : List Node
  /-- Keys to be loaded, first come first. -/
  backlog : List Node
  pool : Ref .pool
  /-- Loads in flight; the one that waited last comes first. -/
  members : List (Nat × KeyLoad)
  /-- The index of the next member. -/
  nextIndex : Nat

/-- Where the load of a closure stands. -/
inductive ClosureStage where
  | fresh (root : Node)
  | running (load : ClosureLoad)

end ModuleLoader
