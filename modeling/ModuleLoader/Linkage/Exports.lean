import ModuleLoader.Linkage.Batch
/-!
Resolving exports. An explicit export leads to one place; other names are searched through the stars
of the record, the last declared first, except the name that stars do not forward.

A search does not look at a pair of a record and a name twice. An exported import must lead somewhere;
a forwarded name and a star may come up empty.
-/

namespace ModuleLoader
set_option autoImplicit false

/-- Where an explicit export leads. -/
inductive ExportStep where
  /-- Here. -/
  | found (origin : Origin)
  /-- To a name of another record, which may not exist. -/
  | forward (target : Ref .record) (name : String)
  /-- To a name of another record, which must exist. -/
  | require (target : Ref .record) (name source : String)
deriving DecidableEq, Repr

namespace LinkUnit

/-- Where the exported local name leads: through the first import that introduces it, else to a slot
of its own. -/
def localStep (unit : LinkUnit) (name : String) : List Binding → Except Failure ExportStep
  | [] => .ok (.found (.localName unit.record name))
  | .importName imported source :: rest =>
    if imported = name then (unit.target source).map (.require · imported source)
    else unit.localStep name rest
  | .importAs imported newName source :: rest =>
    if newName = name then (unit.target source).map (.require · imported source)
    else unit.localStep name rest
  | .importAll newName source :: rest =>
    if newName = name then (unit.target source).map fun target => .found (.exports target)
    else unit.localStep name rest
  | _ :: rest => unit.localStep name rest

/-- Where the first explicit export of `name` among `bindings` leads. -/
def explicitStep (unit : LinkUnit) (name : String) :
    List Binding → Except Failure (Option ExportStep)
  | [] => .ok none
  | .exportName exported :: rest =>
    if exported = name then (unit.localStep exported unit.bindings).map some
    else unit.explicitStep name rest
  | .exportAs exported newName :: rest =>
    if newName = name then (unit.localStep exported unit.bindings).map some
    else unit.explicitStep name rest
  | .exportFrom remote newName source :: rest =>
    if newName = name then (unit.target source).map fun target => some (.forward target remote)
    else unit.explicitStep name rest
  | .exportAllAs newName source :: rest =>
    if newName = name then (unit.target source).map fun target => some (.found (.exports target))
    else unit.explicitStep name rest
  | _ :: rest => unit.explicitStep name rest

/-- Where the explicit export of `name` leads, if there is one. -/
def exportStep (unit : LinkUnit) (name : String) : Except Failure (Option ExportStep) :=
  unit.explicitStep name unit.bindings

end LinkUnit

namespace Batch

/-- The pairs a search has looked at. -/
abbrev Visited := List (Ref .record × String)

/-- What a search has found, with the pairs it has looked at. -/
abbrev Found := Visited × Except Failure (Option Origin)

/-- The first success or failure among several records. -/
def firstFound (search : Visited → Ref .record → Found) :
    Visited → List (Ref .record) → Found
  | visited, [] => (visited, .ok none)
  | visited, record :: rest =>
    match search visited record with
    | (visited, .ok none) => firstFound search visited rest
    | found => found

/-- Searches the origin of `name` on `record`. -/
def search (batch : Batch) : Nat → Visited → Ref .record → String → Found
  | 0, visited, _, _ => (visited, .ok none)
  | fuel + 1, visited, record, name =>
    match batch.unitOf record with
    | none =>
      match batch.outside record with
      | .error failure => (visited, .error failure)
      | .ok exports => (visited, .ok ((exports.get? name).map .slot))
    | some unit =>
      if visited.contains (record, name) then (visited, .ok none)
      else
        let visited := (record, name) :: visited
        match unit.exportStep name with
        | .error failure => (visited, .error failure)
        | .ok (some (.found origin)) => (visited, .ok (some origin))
        | .ok (some (.forward target remote)) => batch.search fuel visited target remote
        | .ok (some (.require target remote source)) =>
          match batch.search fuel visited target remote with
          | (visited, .ok none) =>
            (visited, .error (.link unit.key (.missingExport source remote)))
          | found => found
        | .ok none =>
          if name = unit.defaultExport then (visited, .ok none)
          else
            match unit.starRecords with
            | .error failure => (visited, .error failure)
            | .ok targets =>
              firstFound (fun visited target => batch.search fuel visited target name) visited
                targets.reverse

/-- The origin of `name` on `record`; `none` if the record does not export it. -/
def originOf (batch : Batch) (record : Ref .record) (name : String) :
    Except Failure (Option Origin) :=
  (batch.search (batch.bound + 1) [] record name).2

/-- Adds a name to an ordered list of names, unless it is there. -/
def insertName (name : String) : List String → List String
  | [] => [name]
  | first :: rest =>
    if name = first then first :: rest
    else if name < first then name :: first :: rest
    else first :: insertName name rest

/-- Adds the names that stars forward. -/
def addNames (reserved : String) (names : List String) (more : List String) : List String :=
  more.foldl (fun names name => if name = reserved then names else insertName name names) names

/-- Collects names through the stars of `pending` records, the first one first. `reserved` is the
name that is not forwarded. -/
def starNames (batch : Batch) (reserved : String) :
    Nat → List (Ref .record) → List (Ref .record) → List String → Except Failure (List String)
  | 0, _, _, names => .ok names
  | _ + 1, _, [], names => .ok names
  | fuel + 1, visited, record :: pending, names =>
    match batch.unitOf record with
    | none =>
      match batch.outside record with
      | .error failure => .error failure
      | .ok exports =>
        batch.starNames reserved fuel visited pending (addNames reserved names exports.names)
    | some unit =>
      if visited.contains record then batch.starNames reserved fuel visited pending names
      else
        let names := addNames reserved names unit.explicitNames
        match unit.starRecords with
        | .error failure => .error failure
        | .ok targets =>
          batch.starNames reserved fuel (record :: visited) (targets.reverse ++ pending) names

/-- Every name that a record may export, in order. -/
def exportableNames (batch : Batch) (unit : LinkUnit) : Except Failure (List String) :=
  match unit.starRecords with
  | .error failure => .error failure
  | .ok targets =>
    batch.starNames unit.defaultExport (2 * batch.bound + 2) [unit.record] targets.reverse
      (unit.explicitNames.foldl (fun names name => insertName name names) [])

end Batch

end ModuleLoader
