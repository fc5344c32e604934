import ModuleLoader.Arena
import ModuleLoader.Decimal.Notation
/-!
Script values, the currency exchanged through bindings.

Objects and module namespaces are known by reference: two of them are equal when they are the same
thing. All other values are equal when their contents are.
-/

namespace ModuleLoader
set_option autoImplicit false

/-- A script value. -/
inductive Value where
  | undefined
  | null
  | boolean (value : Bool)
  | number (value : Float)
  | string (value : String)
  | array (items : List Value)
  | object (ref : Ref .object)
  | exports (ref : Ref .exports)

namespace Value

instance : Inhabited Value := ⟨.undefined⟩

/-- The name of the type of a value. -/
def typeName : Value → String
  | undefined => "undefined"
  | boolean _ => "boolean"
  | number _ => "number"
  | string _ => "string"
  | null => "object"
  | array _ => "object"
  | object _ => "object"
  | exports _ => "object"

/-- Whether nothing was given. -/
def isUndefined : Value → Bool
  | undefined => true
  | _ => false

/-- Whether the value is undefined or null. -/
def isNullish : Value → Bool
  | undefined => true
  | null => true
  | _ => false

/-- The number in a number value. -/
def asNumber? : Value → Option Float
  | number value => some value
  | _ => none

/-- The text in a string value. -/
def asString? : Value → Option String
  | string value => some value
  | _ => none

/-- The object a value refers to. -/
def asObject? : Value → Option (Ref .object)
  | object ref => some ref
  | _ => none

/-- The namespace a value refers to. -/
def asExports? : Value → Option (Ref .exports)
  | exports ref => some ref
  | _ => none

mutual

/-- Equality of values; not-a-number differs from itself. -/
def same : Value → Value → Bool
  | undefined, undefined => true
  | null, null => true
  | boolean a, boolean b => a == b
  | number a, number b => a == b
  | string a, string b => a == b
  | array a, array b => sameItems a b
  | object a, object b => a == b
  | exports a, exports b => a == b
  | _, _ => false

/-- Equality of lists, item by item. -/
def sameItems : List Value → List Value → Bool
  | [], [] => true
  | a :: as, b :: bs => same a b && sameItems as bs
  | _, _ => false

end

mutual

/-- The text of a value: an array is its items with commas between them. -/
def toText : Value → String
  | undefined => "undefined"
  | null => "null"
  | boolean value => if value then "true" else "false"
  | number value => Decimal.write Decimal.plain value
  | string value => value
  | array items => itemsText items
  | object _ => "[object Object]"
  | exports _ => "[object Module]"

/-- The texts of the items, with commas between them. -/
def itemsText : List Value → String
  | [] => ""
  | item :: rest => toText item ++ laterText rest

/-- The texts of the items, each with a comma before it. -/
def laterText : List Value → String
  | [] => ""
  | item :: rest => "," ++ toText item ++ laterText rest

end

end Value

end ModuleLoader
