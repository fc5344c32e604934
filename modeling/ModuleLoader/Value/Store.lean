import ModuleLoader.Failure
import ModuleLoader.Table
/-!
The things that values refer to: objects, live slots and module namespaces.

A slot is one level of indirection around a value. An import, an export and a forwarded export of
the same binding hold the same slot, so a later assignment is seen through all of them.
-/

namespace ModuleLoader
set_option autoImplicit false

/-- A property bag. -/
structure ObjectState where
  properties : Table Value
  frozen : Bool

/-- The exports of one module, by name. A snapshot holds slots of its own. -/
structure Namespace where
  key : String
  exports : Table (Ref .slot)
  snapshot : Bool

/-- Everything values can refer to. -/
structure Store where
  objects : Arena .object ObjectState
  slots : Arena .slot (Option Value)
  spaces : Arena .exports Namespace

namespace Store

instance : Inhabited Store := ⟨⟨.empty, .empty, .empty⟩⟩

/-- A new object with the given properties. -/
def newObject (properties : Table Value) : StateM Store (Ref .object) := fun store =>
  (store.objects.next, { store with objects := store.objects.push ⟨properties, false⟩ })

/-- The object behind a reference. -/
def object (store : Store) (ref : Ref .object) : ObjectState :=
  (store.objects.get? ref).getD ⟨.empty, false⟩

/-- Writes a property, unless the object is frozen. Says whether it was written. -/
def setProperty (ref : Ref .object) (name : String) (value : Value) : StateM Store Bool :=
  fun store =>
    if (store.object ref).frozen then (false, store)
    else
      let objects := store.objects.modify ref fun object =>
        { object with properties := object.properties.insert name value }
      (true, { store with objects })

/-- Refuses further writes to an object. -/
def freeze (ref : Ref .object) : StateM Store Unit := fun store =>
  ((), { store with objects := store.objects.modify ref fun object =>
    { object with frozen := true } })

/-- A new slot, with or without a value. -/
def newSlot (value : Option Value) : StateM Store (Ref .slot) := fun store =>
  (store.slots.next, { store with slots := store.slots.push value })

/-- What a slot holds, if it was ever assigned. -/
def slot? (store : Store) (ref : Ref .slot) : Option Value :=
  (store.slots.get? ref).getD none

/-- Assigns a slot. -/
def setSlot (ref : Ref .slot) (value : Value) : StateM Store Unit := fun store =>
  ((), { store with slots := store.slots.modify ref fun _ => some value })

/-- The value of the binding `name` held by a slot. -/
def read (store : Store) (ref : Ref .slot) (name : String) : Except Failure Value :=
  match store.slot? ref with
  | some value => .ok value
  | none => .error (.uninitialized name)

/-- A new namespace. -/
def newSpace (space : Namespace) : StateM Store (Ref .exports) := fun store =>
  (store.spaces.next, { store with spaces := store.spaces.push space })

/-- The namespace behind a reference. -/
def space (store : Store) (ref : Ref .exports) : Namespace :=
  (store.spaces.get? ref).getD ⟨"", .empty, false⟩

/-- Puts a slot on a namespace under `name`. -/
def define (ref : Ref .exports) (name : String) (slot : Ref .slot) : StateM Store Unit :=
  fun store => ((), { store with spaces := store.spaces.modify ref fun space =>
    { space with exports := space.exports.insert name slot } })

/-- The slot behind an export. -/
def exportSlot? (store : Store) (ref : Ref .exports) (name : String) : Option (Ref .slot) :=
  (store.space ref).exports.get? name

/-- The value of an export; an absent name reads as undefined. -/
def readExport (store : Store) (ref : Ref .exports) (name : String) : Except Failure Value :=
  match store.exportSlot? ref name with
  | some slot => store.read slot name
  | none => .ok .undefined

/-- New slots for the given values. -/
def newSlots : List (String × Value) → StateM Store (List (String × Ref .slot))
  | [] => pure []
  | (name, value) :: rest => do
    let slot ← newSlot (some value)
    return (name, slot) :: (← newSlots rest)

/-- A namespace that holds copies of the properties an object has now. -/
def snapshot (key : String) (ref : Ref .object) : StateM Store (Ref .exports) := do
  let slots ← newSlots ((← get).object ref).properties.entries
  newSpace ⟨key, ⟨slots⟩, true⟩

end Store

end ModuleLoader
