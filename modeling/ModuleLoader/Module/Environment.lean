import ModuleLoader.Value.Store
/-!
The scope of one module: names bound to live slots.

Imported names are read-only. Assigning a name that is not bound declares it.
-/

namespace ModuleLoader
set_option autoImplicit false

/-- What a name is bound to. -/
structure Bound where
  slot : Ref .slot
  writable : Bool
deriving DecidableEq

/-- The names of one scope. -/
structure Environment where
  bounds : Table Bound

namespace Environment

instance : Inhabited Environment := ⟨⟨.empty⟩⟩

/-- The slot behind a name. -/
def slot? (environment : Environment) (name : String) : Option (Ref .slot) :=
  (environment.bounds.get? name).map Bound.slot

/-- Reads a name. -/
def read (environment : Environment) (store : Store) (name : String) : Except Failure Value :=
  match environment.slot? name with
  | some slot => store.read slot name
  | none => .error (.unknownBinding name)

/-- Assigns a local name, declaring it if needed. -/
def assign (environment : Environment) (name : String) (value : Value) :
    StateM Store (Except Failure Environment) := do
  match environment.bounds.get? name with
  | some bound =>
    if bound.writable then
      Store.setSlot bound.slot value
      return .ok environment
    else return .error (.readOnlyBinding name)
  | none =>
    let slot ← Store.newSlot (some value)
    return .ok ⟨environment.bounds.insert name ⟨slot, true⟩⟩

/-- Whether a name is bound. -/
def has (environment : Environment) (name : String) : Bool :=
  environment.bounds.contains name

/-- Whether a name is imported. -/
def isImport (environment : Environment) (name : String) : Bool :=
  match environment.bounds.get? name with
  | some bound => !bound.writable
  | none => false

/-- The bound names in order. -/
def names (environment : Environment) : List String :=
  environment.bounds.names

/-- Binds a local name to a slot, unless it is bound already. -/
def declareLocal (environment : Environment) (name : String) (slot : Ref .slot) : Environment :=
  ⟨environment.bounds.insertNew name ⟨slot, true⟩⟩

/-- Binds a name to a slot of another module. -/
def declareImport (environment : Environment) (name : String) (slot : Ref .slot) : Environment :=
  ⟨environment.bounds.insert name ⟨slot, false⟩⟩

/-- The inspection text of a scope. -/
def inspect (environment : Environment) : String :=
  Text.fieldsOf "Environment" [("names", Text.listed (environment.names.map Text.inspectString))]

end Environment

end ModuleLoader
