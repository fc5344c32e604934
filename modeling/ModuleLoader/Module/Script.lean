import ModuleLoader.Value
/-!
Module bodies as data: a body is a list of instructions, and the values it mentions are literals
that are evaluated each time the instruction is carried out.
-/

namespace ModuleLoader
set_option autoImplicit false

/-- A value to be made. -/
inductive Literal where
  | undefined
  | null
  | boolean (value : Bool)
  | number (value : Float)
  | string (value : String)
  | array (items : List Literal)
  /-- A new object with these properties. -/
  | object (members : List (String × Literal))
  /-- The shared object of this name, created empty on first mention. -/
  | named (name : String)
  /-- The namespace of the module memoized under a key, or undefined. -/
  | exportsOf (compartment key : String)

instance : Inhabited Literal := ⟨.undefined⟩

/-- One step of a body. -/
inductive Instruction where
  | log (value : Literal)
  | assign (name : String) (value : Literal)
  | read (name : String)
  | copy (source target : String)
  | raise (value : Literal)
  | raiseName (name : String)
  /-- Opens a stretch of instructions; what is thrown in it is caught at its `attemptEnd`. -/
  | attempt
  | attemptEnd
  /-- Waits until the gate is open. -/
  | gate (name : String)
  /-- Gives way this many times. -/
  | giveWay (count : Nat)
  | importLater (specifier : String) (target : Option String)
  | importNow (specifier : String) (target : Option String)
  | resolve (specifier : String)
  | importer
  | readExport (name property : String)
  | exportNames (name : String)
  | setProperty (name property : String) (value : Literal)
  | freeze (name : String)
  | readMeta (property : String)
  | setMeta (property : String) (value : Literal)
  | metaNames
  | scopeNames
  | showScope
  /-- An instruction that is not understood. -/
  | unknown

end ModuleLoader
