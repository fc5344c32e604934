import ModuleLoader.Decimal.Notation
import ModuleLoader.Json.Number
import ModuleLoader.Text.Quoted
/-!
Documents in the notation of objects and arrays, and their compact text. Members keep the order and
the repetitions of the text they come from.
-/

namespace ModuleLoader
set_option autoImplicit false

/-- A parsed document. -/
inductive Json where
  | null
  | boolean (value : Bool)
  | number (value : Json.Number)
  | string (value : String)
  | array (items : List Json)
  | object (members : List (String × Json))

namespace Json

instance : Inhabited Json := ⟨.null⟩

/-- A list of texts with commas between them. -/
def separated : List (List Char) → List Char
  | [] => []
  | [text] => text
  | text :: rest => text ++ ',' :: separated rest

/-- An object whose members are all strings, as compact text. -/
def stringMembers (members : List (String × String)) : List Char :=
  let written := members.map fun member =>
    Text.documentString member.1.toList ++ ':' :: Text.documentString member.2.toList
  '\x7b' :: separated written ++ ['\x7d']

/-- The text of a number. -/
def numberText : Number → List Char
  | .natural value => Nat.toDigits 10 value
  | .negative value => '-' :: Nat.toDigits 10 value
  | .real value => (Decimal.write Decimal.inspect value).toList

mutual

/-- The compact text of a document. -/
def toText : Json → List Char
  | .null => ['n', 'u', 'l', 'l']
  | .boolean value => if value then ['t', 'r', 'u', 'e'] else ['f', 'a', 'l', 's', 'e']
  | .number value => numberText value
  | .string value => Text.documentString value.toList
  | .array items => '[' :: separated (itemTexts items) ++ [']']
  | .object members => '\x7b' :: separated (memberTexts members) ++ ['\x7d']

/-- The compact texts of the items of an array. -/
def itemTexts : List Json → List (List Char)
  | [] => []
  | item :: rest => toText item :: itemTexts rest

/-- The compact texts of the members of an object. -/
def memberTexts : List (String × Json) → List (List Char)
  | [] => []
  | (name, value) :: rest =>
    (Text.documentString name.toList ++ ':' :: toText value) :: memberTexts rest

end

/-- The last member called `name`. -/
def member? (name : String) (members : List (String × Json)) : Option Json :=
  (members.reverse.find? fun member => member.1 = name).map Prod.snd

/-- The text of a string document. -/
def asString? : Json → Option String
  | .string value => some value
  | _ => none

end Json

end ModuleLoader
