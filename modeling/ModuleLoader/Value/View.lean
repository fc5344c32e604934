import ModuleLoader.Value.Store
/-!
What a value looked like at one moment: a finite tree that keeps the identities of objects and
namespaces. An object met again inside itself is not opened a second time.
-/

namespace ModuleLoader
set_option autoImplicit false

/-- A value as seen at one moment. -/
inductive View where
  | undefined
  | null
  | boolean (value : Bool)
  | number (value : Float)
  | string (value : String)
  | array (items : List View)
  | object (ref : Ref .object) (properties : List (String × View)) (frozen : Bool)
  | again (ref : Ref .object)
  | exports (ref : Ref .exports) (key : String)

namespace View

instance : Inhabited View := ⟨.undefined⟩

mutual

/-- The view of a value, given how objects are seen. -/
def ofValue (store : Store) (seeObject : Ref .object → View) : Value → View
  | .undefined => .undefined
  | .null => .null
  | .boolean value => .boolean value
  | .number value => .number value
  | .string value => .string value
  | .array items => .array (ofItems store seeObject items)
  | .object ref => seeObject ref
  | .exports ref => .exports ref (store.space ref).key

/-- The views of the items of an array. -/
def ofItems (store : Store) (seeObject : Ref .object → View) : List Value → List View
  | [] => []
  | item :: rest => ofValue store seeObject item :: ofItems store seeObject rest

end

/-- The view of an object below the objects of `path`. No path is longer than there are objects. -/
def ofObject (store : Store) : Nat → List (Ref .object) → Ref .object → View
  | 0, _, ref => .again ref
  | fuel + 1, path, ref =>
    if path.contains ref then .again ref
    else
      let object := store.object ref
      let see := ofObject store fuel (ref :: path)
      .object ref (object.properties.entries.map fun entry => (entry.1, ofValue store see entry.2))
        object.frozen

end View

/-- The view of a value now. -/
def Store.view (store : Store) (value : Value) : View :=
  View.ofValue store (View.ofObject store (store.objects.size + 1) []) value

/-- A failure as seen at one moment: the failure and the view of the value it carries. -/
structure FailureView where
  failure : Failure
  carried : Option View

/-- The view of a failure now. -/
def Store.viewFailure (store : Store) (failure : Failure) : FailureView :=
  ⟨failure, failure.carried?.map store.view⟩

/-- The view of a result now. -/
def Store.viewResult (store : Store) : Except Failure Value → Except FailureView View
  | .ok value => .ok (store.view value)
  | .error failure => .error (store.viewFailure failure)

end ModuleLoader
