import ModuleLoader.Json.Reader
import ModuleLoader.Text.Layout
/-!
Settings of a compartment, and the three ways to change them: a document, single keys, and
variables of the surroundings. A key is stored before the whole is checked, so a refused change may
have been made.
-/

namespace ModuleLoader
set_option autoImplicit false

/-- The export name that `export *` never forwards, unless settings say otherwise. -/
def standardExport : String := "default"

/-- Settings of one compartment. -/
structure Settings where
  /-- Name used in messages. -/
  name : String
  /-- Export name that `export *` never forwards. -/
  defaultExport : String
  /-- How many shallow loads one load keeps in flight; zero for no limit. -/
  maxConcurrentLoads : Nat
deriving DecidableEq, Repr

namespace Settings

instance : Inhabited Settings := ⟨⟨"compartment", standardExport, 0⟩⟩

/-- Why settings were refused. -/
inductive Fault where
  | malformed
  | emptyDefaultExport
  | badLimit (text : String)
deriving DecidableEq, Repr

/-- Standard settings under a name of their own. -/
def named (name : String) : Settings :=
  { (default : Settings) with name }

/-- Whether settings may be used. -/
def validate (settings : Settings) : Except Fault Unit :=
  if settings.defaultExport = "" then .error .emptyDefaultExport else .ok ()

/-- Reads a number of at most 64 bits: digits, with an optional plus sign. -/
def readLimit (text : List Char) : Option Nat :=
  let digits := match text with
    | '+' :: rest => rest
    | _ => text
  if digits.isEmpty || !digits.all Char.isDigit then none
  else
    let value := digits.foldl (fun value digit => value * 10 + Json.digitValue digit) 0
    if value < Json.wordLimit then some value else none

/-- Stores the value of a dashed key, if the key is known. -/
def store (settings : Settings) (key value : String) : Except Fault (Option Settings) :=
  if key = "name" then .ok (some { settings with name := value })
  else if key = "default-export" then .ok (some { settings with defaultExport := value })
  else if key = "max-concurrent-loads" then
    match readLimit value.toList with
    | some limit => .ok (some { settings with maxConcurrentLoads := limit })
    | none => .error (.badLimit value)
  else .ok none

/-- Sets the value of a dashed key; unknown keys are ignored. Gives the settings afterwards and the
fault, if any. -/
def set (settings : Settings) (key value : String) : Settings × Except Fault Unit :=
  match settings.store key value with
  | .error fault => (settings, .error fault)
  | .ok none => (settings, .ok ())
  | .ok (some changed) => (changed, changed.validate)

/-- The text after `word`, if `text` starts with it. -/
def afterWord (word text : List Char) : Option (List Char) :=
  Json.dropWord word text

/-- The dashed key that a variable of the surroundings sets. Only the letters A to Z are lowered:
no known key has another letter. -/
def keyOfVariable (variableName : String) : Option String :=
  (afterWord "COMPARTMENT_".toList variableName.toList).map fun key =>
    String.ofList (key.map fun c => if c = '_' then '-' else c.toLower)

/-- Gives a variable a value. One that is there already keeps its place. -/
def placeVariable (variableName value : String) :
    List (String × String) → List (String × String)
  | [] => [(variableName, value)]
  | (other, old) :: rest =>
    if other = variableName then (other, value) :: rest
    else (other, old) :: placeVariable variableName value rest

/-- The surroundings in which pairs were set one after another: each variable is there once, with the
value it got last. -/
def surroundings (pairs : List (String × String)) : List (String × String) :=
  pairs.foldl (fun variableList pair => placeVariable pair.1 pair.2 variableList) []

/-- Applies variables in order, up to the first fault. -/
def setAll (settings : Settings) : List (String × String) → Settings × Except Fault Unit
  | [] => (settings, .ok ())
  | (variableName, value) :: rest =>
    match keyOfVariable variableName with
    | none => settings.setAll rest
    | some key =>
      match settings.set key value with
      | (changed, .ok ()) => changed.setAll rest
      | (changed, .error fault) => (changed, .error fault)

/-- Standard settings changed by variables. -/
def ofVariables (pairs : List (String × String)) : Except Fault Settings :=
  match (default : Settings).setAll pairs with
  | (settings, .ok ()) => .ok settings
  | (_, .error fault) => .error fault

/-- The fields in order. -/
def fieldNames : List String := ["name", "default_export", "max_concurrent_loads"]

/-- A field read from a document, as a change of settings. -/
def applyField (settings : Settings) (name : String) (value : Json) : Option Settings :=
  match value with
  | .string text =>
    if name = "name" then some { settings with name := text }
    else if name = "default_export" then some { settings with defaultExport := text }
    else none
  | .number (.natural limit) =>
    if name = "max_concurrent_loads" then some { settings with maxConcurrentLoads := limit } else none
  | _ => none

/-- Members from the first one on, up to the closing brace. `seen` holds the known fields met so
far; values of unknown fields are passed over. -/
def readMembers (seen : List String) (settings : Settings) :
    Nat → List Char → Option (Settings × List Char)
  | 0, _ => none
  | fuel + 1, text =>
    match text with
    | '"' :: rest =>
      match Json.readString rest with
      | none => none
      | some (name, rest) =>
        let name := String.ofList name
        match Json.skipBlanks rest with
        | ':' :: rest =>
          let value : Option (Settings × List Char) :=
            if fieldNames.contains name then
              if seen.contains name then none
              else
                match Json.readValue (2 * rest.length + 2) (Json.depthLimit - 1)
                    (Json.skipBlanks rest) with
                | none => none
                | some (value, rest) => (settings.applyField name value).map (·, rest)
            else (Json.skipValue (2 * rest.length + 2) (Json.skipBlanks rest)).map (settings, ·)
          match value with
          | none => none
          | some (settings, rest) =>
            match Json.skipBlanks rest with
            | '\x7d' :: rest => some (settings, rest)
            | ',' :: rest => readMembers (name :: seen) settings fuel (Json.skipBlanks rest)
            | _ => none
        | _ => none
    | _ => none

/-- Values in the order of the fields; fields beyond the last value keep what they have. -/
def applyFields (settings : Settings) : List String → List Json → Option Settings
  | _, [] => some settings
  | [], _ :: _ => none
  | name :: names, value :: values => do
    (← settings.applyField name value).applyFields names values

/-- The settings of a document text, not yet checked. -/
def read (text : List Char) : Option Settings :=
  match Json.skipBlanks text with
  | '\x7b' :: rest =>
    let result := match Json.skipBlanks rest with
      | '\x7d' :: rest => some (default, rest)
      | rest => readMembers [] default (rest.length + 1) rest
    match result with
    | some (settings, rest) => if (Json.skipBlanks rest).isEmpty then some settings else none
    | none => none
  | rest =>
    match Json.parseChars rest with
    | some (.array items) => (default : Settings).applyFields fieldNames items
    | _ => none

/-- The settings of a document. Missing fields are standard. -/
def ofJson (text : String) : Except Fault Settings :=
  match read text.toList with
  | none => .error .malformed
  | some settings => settings.validate.map fun _ => settings

/-- The settings as a compact document. -/
def write (settings : Settings) : String :=
  let quoted (text : String) := String.ofList (Text.documentString text.toList)
  "\x7b\"name\":" ++ quoted settings.name ++ ",\"default_export\":" ++
    quoted settings.defaultExport ++ ",\"max_concurrent_loads\":" ++
    toString settings.maxConcurrentLoads ++ "\x7d"

/-- The inspection text of settings. -/
def inspect (settings : Settings) : String :=
  Text.fieldsOf "CompartmentConfig"
    [("name", Text.inspectString settings.name),
     ("default_export", Text.inspectString settings.defaultExport),
     ("max_concurrent_loads", toString settings.maxConcurrentLoads)]

end Settings

end ModuleLoader
