import ModuleLoader.Text.Layout
import ModuleLoader.Value.Store
/-!
Inspection texts of values and of the things they refer to. Objects and namespaces show names only,
so the texts are finite even where things refer to themselves.
-/

namespace ModuleLoader.Store
set_option autoImplicit false

/-- The inspection text of an object. -/
def inspectObject (store : Store) (ref : Ref .object) : String :=
  let object := store.object ref
  Text.fieldsOf "Object"
    [("keys", Text.listed (object.properties.names.map Text.inspectString)),
     ("frozen", Text.boolean object.frozen)]

/-- The inspection text of a namespace. -/
def inspectSpace (store : Store) (ref : Ref .exports) : String :=
  let space := store.space ref
  Text.fieldsOf "ModuleNamespace"
    [("key", Text.inspectString space.key),
     ("exports", Text.listed (space.exports.names.map Text.inspectString))]

mutual

/-- The inspection text of a value. -/
def inspect (store : Store) : Value → String
  | .undefined => "Undefined"
  | .null => "Null"
  | .boolean value => Text.tagged "Boolean" (Text.boolean value)
  | .number value => Text.tagged "Number" (Decimal.write Decimal.inspect value)
  | .string value => Text.tagged "String" (Text.inspectString value)
  | .array items => Text.tagged "Array" (Text.listed (inspectItems store items))
  | .object ref => Text.tagged "Object" (store.inspectObject ref)
  | .exports ref => Text.tagged "Namespace" (store.inspectSpace ref)

/-- The inspection texts of the items of an array. -/
def inspectItems (store : Store) : List Value → List String
  | [] => []
  | item :: rest => inspect store item :: inspectItems store rest

end

/-- The inspection text of a slot. -/
def inspectSlot (store : Store) (ref : Ref .slot) : String :=
  match store.slot? ref with
  | some value => Text.tagged "Slot" (store.inspect value)
  | none => Text.tagged "Slot" "<uninitialized>"

end ModuleLoader.Store
