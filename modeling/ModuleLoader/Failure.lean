import ModuleLoader.Specifier
import ModuleLoader.Settings
import ModuleLoader.Value
/-!
What can go wrong while modules are loaded, linked and run. A failure is its cause; `message` is the
one place where causes are put into words.
-/

namespace ModuleLoader
set_option autoImplicit false

/-- Why the bindings of a module cannot be linked. -/
inductive LinkFault where
  /-- The module `source` does not export `name`. -/
  | missingExport (source name : String)
  | duplicateImport (name : String)
  | duplicateExport (name : String)
  | neverResolved (specifier : String)
  | notLoaded (key : String)
  | failedSilently
  | stated (reason : String)
deriving DecidableEq, Repr

/-- Why a synchronous operation would have to wait. -/
inductive Obstacle where
  | loading
  | needsHook
  | executing
  | asynchronousBody
  | unsettled
  | stated (reason : String)
deriving DecidableEq, Repr

/-- Why a descriptor cannot become a record. -/
inductive DescriptorFault where
  | noParent
  | notExports (typeName : String)
  | stated (reason : String)
deriving DecidableEq, Repr

/-- What went wrong. -/
inductive Failure where
  | unresolved (specifier referrer reason : String)
  | notFound (key compartment : String)
  | loadHook (key reason : String)
  | invalidDescriptor (key : String) (fault : DescriptorFault)
  | aliasCycle (key : String)
  | link (key : String) (fault : LinkFault)
  | initialization (key : String) (thrown : Value)
  | unavailable (key : String) (obstacle : Obstacle)
  | uninitialized (name : String)
  | unknownBinding (name : String)
  | readOnlyBinding (name : String)
  | noEvaluator (compartment : String)
  | evaluation (thrown : Value)
  | settings (reason : String)
  | document (reason : String)

instance : Inhabited Failure := ⟨.document ""⟩

/-- The wording of a link fault. -/
def LinkFault.message : LinkFault → String
  | missingExport source name =>
    "the requested module '" ++ source ++ "' does not provide an export named '" ++ name ++ "'"
  | duplicateImport name => "duplicate import binding '" ++ name ++ "'"
  | duplicateExport name => "duplicate export '" ++ name ++ "'"
  | neverResolved specifier => "specifier '" ++ specifier ++ "' was never resolved"
  | notLoaded key => "module '" ++ key ++ "' is not loaded"
  | failedSilently => "module failed without an error"
  | stated reason => reason

/-- The wording of an obstacle. -/
def Obstacle.message : Obstacle → String
  | loading => "module is being loaded asynchronously"
  | needsHook => "descriptor requires the asynchronous load hook"
  | executing => "module is still executing"
  | asynchronousBody => "module has an asynchronous initializer"
  | unsettled => "module graph did not settle synchronously"
  | stated reason => reason

/-- The wording of a descriptor fault. -/
def DescriptorFault.message : DescriptorFault → String
  | noParent => "a record alias needs a parent compartment"
  | notExports typeName => "cannot use a " ++ typeName ++ " value as a module namespace"
  | stated reason => reason

/-- The wording of a settings fault. -/
def Settings.Fault.message : Settings.Fault → String
  | malformed => "malformed document"
  | emptyDefaultExport => "default-export must not be empty"
  | badLimit text => "max-concurrent-loads must be a non-negative integer, got '" ++ text ++ "'"

namespace Failure

/-- The failure that refused settings stand for. -/
def ofSettings : Settings.Fault → Failure
  | .malformed => .document (Settings.Fault.message .malformed)
  | fault => .settings fault.message

/-- The message of a failure. -/
def message : Failure → String
  | unresolved specifier referrer reason =>
    "Cannot resolve '" ++ specifier ++ "' from '" ++ referrer ++ "': " ++ reason
  | notFound key compartment =>
    "Cannot find module '" ++ key ++ "' in compartment '" ++ compartment ++ "'"
  | loadHook key reason => "Load hook failed for '" ++ key ++ "': " ++ reason
  | invalidDescriptor key fault => "Invalid descriptor for '" ++ key ++ "': " ++ fault.message
  | aliasCycle key => "Alias cycle detected at '" ++ key ++ "'"
  | link key fault => "SyntaxError in module '" ++ key ++ "': " ++ fault.message
  | initialization key thrown =>
    "Module '" ++ key ++ "' failed to initialize: " ++ thrown.toText
  | unavailable key obstacle =>
    "Cannot complete '" ++ key ++ "' synchronously: " ++ obstacle.message
  | uninitialized name => "ReferenceError: cannot access '" ++ name ++ "' before initialization"
  | unknownBinding name => "ReferenceError: '" ++ name ++ "' is not defined"
  | readOnlyBinding name => "TypeError: assignment to read-only binding '" ++ name ++ "'"
  | noEvaluator compartment => "No evaluator configured for compartment '" ++ compartment ++ "'"
  | evaluation thrown => "Evaluation failed: " ++ thrown.toText
  | settings reason => "Configuration error: " ++ reason
  | document reason => "JSON parse error: " ++ reason

/-- Whether an operation was refused because it would have to wait. -/
def isUnavailable : Failure → Bool
  | unavailable _ _ => true
  | _ => false

/-- The value a script catches for a failure: what was thrown, or else the message. -/
def thrown : Failure → Value
  | initialization _ thrown => thrown
  | evaluation thrown => thrown
  | failure => .string failure.message

/-- The value a failure carries. -/
def carried? : Failure → Option Value
  | initialization _ thrown => some thrown
  | evaluation thrown => some thrown
  | _ => none

/-- Equality of failures: the same cause with the same particulars, and equal values. -/
def same : Failure → Failure → Bool
  | unresolved specifier referrer reason, unresolved specifier' referrer' reason' =>
    specifier == specifier' && referrer == referrer' && reason == reason'
  | notFound key compartment, notFound key' compartment' =>
    key == key' && compartment == compartment'
  | loadHook key reason, loadHook key' reason' => key == key' && reason == reason'
  | invalidDescriptor key fault, invalidDescriptor key' fault' =>
    key == key' && fault.message == fault'.message
  | aliasCycle key, aliasCycle key' => key == key'
  | link key fault, link key' fault' => key == key' && fault.message == fault'.message
  | initialization key thrown, initialization key' thrown' => key == key' && thrown.same thrown'
  | unavailable key obstacle, unavailable key' obstacle' =>
    key == key' && obstacle.message == obstacle'.message
  | uninitialized name, uninitialized name' => name == name'
  | unknownBinding name, unknownBinding name' => name == name'
  | readOnlyBinding name, readOnlyBinding name' => name == name'
  | noEvaluator compartment, noEvaluator compartment' => compartment == compartment'
  | evaluation thrown, evaluation thrown' => thrown.same thrown'
  | settings reason, settings reason' => reason == reason'
  | document reason, document reason' => reason == reason'
  | _, _ => false

end Failure

end ModuleLoader
