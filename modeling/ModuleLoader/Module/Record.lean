import ModuleLoader.Module.Descriptor
import ModuleLoader.Module.Environment
import ModuleLoader.Module.Phase
/-!
Module records: one module instance inside one compartment.
-/

namespace ModuleLoader
set_option autoImplicit false

/-- A key of a particular compartment. -/
structure Node where
  compartment : Ref .compartment
  key : String
deriving DecidableEq, Repr

/-- A module instance. -/
structure Record where
  key : String
  home : Ref .compartment
  /-- The name the home compartment has in messages. -/
  homeName : String
  /-- `none` for a record that only exposes an existing namespace. -/
  source : Option Source
  /-- The key each requested specifier was resolved to, in order of first mention. -/
  requests : List (String × String)
  environment : Environment
  space : Ref .exports
  phase : Phase
  error : Option Failure
  /-- The shared completion of the body, once scheduled. -/
  ready : Option (Ref .ready)

namespace Record

instance : Inhabited Record :=
  ⟨{ key := "", home := ⟨0⟩, homeName := "", source := none, requests := [],
     environment := default, space := ⟨0⟩, phase := .loaded, error := none, ready := none }⟩

/-- The declared bindings. -/
def bindings (record : Record) : List Binding :=
  match record.source with
  | some source => source.bindings
  | none => []

/-- Keys of the direct dependencies. -/
def requestKeys (record : Record) : List String :=
  record.requests.map Prod.snd

/-- The key a specifier was resolved to. -/
def keyOf? (record : Record) (specifier : String) : Option String :=
  (record.requests.find? fun request => request.1 = specifier).map Prod.snd

/-- Whether running the body may suspend. -/
def isAsync (record : Record) : Bool :=
  match record.source with
  | some source => source.initializer.isAsync
  | none => false

/-- Moves forward to `next`, if that is a step forward. -/
def advance (record : Record) (next : Phase) : Record :=
  if record.phase.allows next then { record with phase := next } else record

/-- Ends the record with a failure; the first failure stays. -/
def fail (record : Record) (failure : Failure) : Record :=
  if record.phase.isTerminal then record
  else { record with phase := .failed, error := some failure }

/-- The failure of a failed record. -/
def failure (record : Record) : Failure :=
  record.error.getD (.link record.key .failedSilently)

/-- Whether the record waits to be scheduled. -/
def isUnscheduled (record : Record) : Bool :=
  record.phase = .linked && record.ready.isNone

/-- The inspection text of a record. -/
def inspect (record : Record) : String :=
  Text.fieldsOf "ModuleRecord"
    [("key", Text.inspectString record.key),
     ("compartment", Text.inspectString record.homeName),
     ("phase", record.phase.inspect)]

end Record

/-- A memo entry: a record of the compartment itself, or one it borrows from its owner. -/
inductive Entry where
  | own (record : Ref .record)
  | borrowed (owner : Ref .compartment) (key : String) (record : Ref .record)
deriving DecidableEq

/-- The record an entry stands for. -/
def Entry.record : Entry → Ref .record
  | own record => record
  | borrowed _ _ record => record

end ModuleLoader
