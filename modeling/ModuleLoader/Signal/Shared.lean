import ModuleLoader.Signal.Board
/-!
Work in progress. A step of work ends with a result or leaves the work to be continued; shared work
has one result for all who wait for it.
-/

namespace ModuleLoader
set_option autoImplicit false

/-- One step of work: continued later, or done. -/
inductive Poll (rest output : Type) where
  | pending (rest : rest)
  | ready (output : output)

/-- How far shared work has come. While somebody drives it, nobody else can; what is kept then is the
work as it was when the driving began. -/
inductive Progress (work output : Type) where
  | idle (work : work)
  | driven (work : work)
  | done (output : output)

/-- Shared work, with the bell of those who wait for it. -/
structure Shared (work output : Type) where
  bell : Ref .bell
  progress : Progress work output

/-- The result, if there is one. -/
def Shared.output? {work output : Type} (shared : Shared work output) : Option output :=
  match shared.progress with
  | .done output => some output
  | _ => none

/-- One party that waits for shared work, with its seat at the bell. -/
structure Watch (k : Noun) where
  job : Ref k
  seat : Option Nat
deriving DecidableEq

end ModuleLoader
