import ModuleLoader.Session.Tasks
/-!
Setting up compartments from descriptions, and long chains of modules.
-/

namespace ModuleLoader
set_option autoImplicit false

/-- How the modules of a chain refer to the next one. -/
inductive ChainKind where
  /-- Each imports the next one, and its body sets its own export. -/
  | imports
  /-- The same, and the last imports the first. -/
  | ring
  /-- Each imports a name from the next one and exports it. -/
  | reexport
  /-- Each forwards a name from the next one. -/
  | forward
  /-- Each forwards everything from the next one. -/
  | star
  /-- Each stands for the next one. -/
  | redirect
deriving DecidableEq, Repr

namespace ChainKind

/-- The key of a module of a chain. -/
def key (index : Nat) : String :=
  "m" ++ toString index ++ ".js"

/-- A module with a body, or without one. -/
def moduleOf (bindings : List Binding) (body : Option (List Instruction)) : Blueprint :=
  .module false (bindings.map document) body false false false []
where
  document (binding : Binding) : Json :=
    .object (binding.members.map fun member => (member.1, .string member.2))

/-- The module at the end of a chain that only passes a value on. -/
def bottom : Blueprint :=
  moduleOf [.exportName "value"] (some [.assign "value" (.string "bottom")])

/-- A module of a chain of `count` modules. -/
def link (kind : ChainKind) (count index : Nat) : Blueprint :=
  let isLast := index + 1 = count
  let next := key (index + 1)
  let numbered (bindings : List Binding) : Blueprint :=
    moduleOf (.exportName "x" :: bindings)
      (some [.assign "x" (.number (Float.ofNat index))])
  match kind with
  | imports => numbered (if isLast then [] else [.importAs "x" "y" ("./" ++ next)])
  | ring => numbered [.importAs "x" "y" ("./" ++ if isLast then key 0 else next)]
  | reexport =>
    if isLast then bottom
    else moduleOf [.importName "value" ("./" ++ next), .exportName "value"] none
  | forward => if isLast then bottom else moduleOf [.exportFrom "value" "value" ("./" ++ next)] none
  | star => if isLast then bottom else moduleOf [.exportAll ("./" ++ next)] none
  | redirect => if isLast then bottom else .redirect next none

/-- The modules of a chain. -/
def modules (kind : ChainKind) (count : Nat) : List (String × Blueprint) :=
  (List.range count).map fun index => (key index, kind.link count index)

end ChainKind

/-- What a compartment is built from. -/
structure CompartmentPlan where
  label : String
  /-- A settings document. -/
  settings : Option String
  /-- Overrides the name in the settings. -/
  name : Option String
  /-- The label of the parent. -/
  parent : Option String
  resolver : Resolver
  /-- Static descriptors; of two for one key the later counts. -/
  modules : List (String × Blueprint)
  loadHook : Option (Table (List HookAnswer))
  nowHook : Option (Table Blueprint)
  metaHook : Option MetaHook
  hasEvaluator : Bool

namespace Act

/-- Builds the descriptors of a table. -/
def buildAll (home : String) :
    List (String × Blueprint) → Act (Except Failure (List (String × Descriptor)))
  | [] => return .ok []
  | (key, blueprint) :: rest => do
    match ← build home blueprint with
    | .error failure => return .error failure
    | .ok descriptor =>
      match ← buildAll home rest with
      | .error failure => return .error failure
      | .ok others => return .ok ((key, descriptor) :: others)

/-- The settings that a plan asks for. -/
def settingsOf (plan : CompartmentPlan) : Except Failure Settings :=
  let settings : Except Failure Settings := match plan.settings with
    | none => .ok default
    | some text =>
      match Settings.ofJson text with
      | .ok settings => .ok settings
      | .error fault => .error (.ofSettings fault)
  settings.map fun settings =>
    match plan.name with
    | some name => { settings with name }
    | none => settings

/-- Builds a compartment and puts it under its label. Gives its name. -/
def newCompartment (plan : CompartmentPlan) : Act (Except Failure String) := do
  match settingsOf plan with
  | .error failure => return .error failure
  | .ok settings =>
    match ← buildAll plan.label plan.modules with
    | .error failure => return .error failure
    | .ok descriptors =>
      let host ← get
      let compartment : Compartment :=
        { (default : Compartment) with
          label := plan.label
          settings
          parent := plan.parent.bind host.labels.get?
          resolver := plan.resolver
          table := .ofList descriptors
          loadHook := plan.loadHook
          nowHook := plan.nowHook
          metaHook := plan.metaHook
          hasEvaluator := plan.hasEvaluator }
      set { host with
        compartments := host.compartments.push compartment
        labels := host.labels.insert plan.label host.compartments.next }
      return .ok settings.name

end Act

end ModuleLoader
