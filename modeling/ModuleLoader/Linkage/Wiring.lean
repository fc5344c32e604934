import ModuleLoader.Linkage.Exports
/-!
The wiring of one record: where each name it imports and each name it exports has its value. Making a
wiring changes nothing, so one that fails leaves no trace.
-/

namespace ModuleLoader
set_option autoImplicit false

/-- Where the names of a record lead. -/
structure Wiring where
  imports : List (String × Origin)
  exports : List (String × Origin)
deriving DecidableEq, Repr

/-- The first import or export name that is declared twice. -/
def LinkUnit.duplicate? (imported exported : List String) : List Binding → Option LinkFault
  | [] => none
  | binding :: rest =>
    match if binding.isImport then binding.localName? else none with
    | some name =>
      if imported.contains name then some (.duplicateImport name)
      else duplicate? (name :: imported) exported rest
    | none =>
      match binding.exportedName? with
      | some name =>
        if exported.contains name then some (.duplicateExport name)
        else duplicate? imported (name :: exported) rest
      | none => duplicate? imported exported rest

namespace Batch

/-- Refuses a record whose requests are not loaded, or failed outside the batch. -/
def checkRequests (batch : Batch) (unit : LinkUnit) : List Request → Except Failure Unit
  | [] => .ok ()
  | request :: rest =>
    match request.target with
    | none => .error (.link unit.key (.notLoaded request.key))
    | some record =>
      match batch.unitOf record with
      | some _ => batch.checkRequests unit rest
      | none =>
        match batch.outside record with
        | .error failure => .error failure
        | .ok _ => batch.checkRequests unit rest

/-- The origin of an imported name, which must exist. -/
def importOrigin (batch : Batch) (unit : LinkUnit) (name source : String) :
    Except Failure Origin :=
  match unit.target source with
  | .error failure => .error failure
  | .ok target =>
    match batch.originOf target name with
    | .error failure => .error failure
    | .ok (some origin) => .ok origin
    | .ok none => .error (.link unit.key (.missingExport source name))

/-- The origins of the imported names, in order. -/
def wireImports (batch : Batch) (unit : LinkUnit) :
    List Binding → Except Failure (List (String × Origin))
  | [] => .ok []
  | binding :: rest =>
    let found : Except Failure (Option (String × Origin)) := match binding with
      | .importName name source =>
        (batch.importOrigin unit name source).map fun origin => some (name, origin)
      | .importAs name newName source =>
        (batch.importOrigin unit name source).map fun origin => some (newName, origin)
      | .importAll newName source =>
        (unit.target source).map fun target => some (newName, .exports target)
      | _ => .ok none
    match found with
    | .error failure => .error failure
    | .ok wired =>
      match batch.wireImports unit rest with
      | .error failure => .error failure
      | .ok others => .ok (wired.toList ++ others)

/-- The fault of an exported name that leads nowhere: a forwarded name must, a name of a star need
not exist. -/
def emptyExport? (unit : LinkUnit) (name : String) : Option Failure :=
  match unit.bindings.find? fun binding => binding.exportedName? = some name with
  | some (.exportFrom remote _ source) => some (.link unit.key (.missingExport source remote))
  | _ => none

/-- The origins of the exported names, in order. -/
def wireExports (batch : Batch) (unit : LinkUnit) :
    List String → Except Failure (List (String × Origin))
  | [] => .ok []
  | name :: rest =>
    match batch.originOf unit.record name with
    | .error failure => .error failure
    | .ok found =>
      match found, emptyExport? unit name with
      | none, some failure => .error failure
      | _, _ =>
        match batch.wireExports unit rest with
        | .error failure => .error failure
        | .ok others => .ok ((found.map (name, ·)).toList ++ others)

/-- The wiring of a record of the batch. -/
def wire (batch : Batch) (unit : LinkUnit) : Except Failure Wiring :=
  match LinkUnit.duplicate? [] [] unit.bindings with
  | some fault => .error (.link unit.key fault)
  | none =>
    match batch.checkRequests unit unit.requests with
    | .error failure => .error failure
    | .ok () =>
      match batch.wireImports unit unit.bindings with
      | .error failure => .error failure
      | .ok imports =>
        match batch.exportableNames unit with
        | .error failure => .error failure
        | .ok names =>
          match batch.wireExports unit names with
          | .error failure => .error failure
          | .ok exports => .ok { imports, exports }

end Batch

end ModuleLoader
