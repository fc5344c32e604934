/-!
The life of a module record. It only moves forward, and ends ready or failed.
-/

namespace ModuleLoader
set_option autoImplicit false

/-- The phases, in order. -/
inductive Phase where
  /-- Requests are resolved, nothing is bound. -/
  | loaded
  /-- Bindings are being resolved. -/
  | linking
  /-- Bindings are live, the body has not run. -/
  | linked
  /-- The body is running. -/
  | executing
  /-- The body completed. -/
  | ready
  /-- Linking or the body failed. -/
  | failed
deriving DecidableEq, Repr

namespace Phase

/-- All phases, in order. -/
def all : List Phase := [loaded, linking, linked, executing, ready, failed]

/-- The place of a phase in the order. -/
def rank : Phase → Nat
  | loaded => 0
  | linking => 1
  | linked => 2
  | executing => 3
  | ready => 4
  | failed => 5

/-- Whether a record stays in this phase for ever. -/
def isTerminal : Phase → Bool
  | ready => true
  | failed => true
  | _ => false

/-- The name of a phase. -/
def name : Phase → String
  | loaded => "loaded"
  | linking => "linking"
  | linked => "linked"
  | executing => "executing"
  | ready => "ready"
  | failed => "failed"

/-- The inspection text of a phase. -/
def inspect : Phase → String
  | loaded => "Loaded"
  | linking => "Linking"
  | linked => "Linked"
  | executing => "Executing"
  | ready => "Ready"
  | failed => "Failed"

/-- Whether a record may move from one phase to another. -/
def allows (current next : Phase) : Bool :=
  !current.isTerminal && current.rank < next.rank

end Phase

end ModuleLoader
