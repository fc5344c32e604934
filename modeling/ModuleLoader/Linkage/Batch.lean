import ModuleLoader.Registry.Memo
/-!
What linking looks at: the records of one batch with their bindings and the records their specifiers
lead to, and what records outside the batch export already.
-/

namespace ModuleLoader
set_option autoImplicit false

/-- Where the value of a name lives. -/
inductive Origin where
  /-- A local name that a record of the batch exports. -/
  | localName (record : Ref .record) (name : String)
  /-- A slot of a record linked before. -/
  | slot (slot : Ref .slot)
  /-- The namespace of a record. -/
  | exports (record : Ref .record)
deriving DecidableEq, Repr

/-- A requested specifier with its key, and the record memoized under the key. -/
structure Request where
  specifier : String
  key : String
  target : Option (Ref .record)

/-- A record of a batch. -/
structure LinkUnit where
  record : Ref .record
  key : String
  bindings : List Binding
  requests : List Request
  /-- The name that stars of this record do not forward. -/
  defaultExport : String

/-- The records that are linked together. -/
structure Batch where
  units : List LinkUnit
  /-- The unit of each record of the batch. -/
  unitOf : Ref .record → Option LinkUnit
  /-- The slots a record outside the batch exports, or its failure. -/
  outside : Ref .record → Except Failure (Table (Ref .slot))

namespace LinkUnit

/-- The record that a specifier leads to. -/
def target (unit : LinkUnit) (specifier : String) : Except Failure (Ref .record) :=
  match unit.requests.find? fun request => request.specifier = specifier with
  | none => .error (.link unit.key (.neverResolved specifier))
  | some request =>
    match request.target with
    | some record => .ok record
    | none => .error (.link unit.key (.notLoaded request.key))

/-- The records that a list of specifiers leads to. -/
def targets (unit : LinkUnit) : List String → Except Failure (List (Ref .record))
  | [] => .ok []
  | specifier :: rest =>
    match unit.target specifier with
    | .error failure => .error failure
    | .ok record =>
      match unit.targets rest with
      | .error failure => .error failure
      | .ok records => .ok (record :: records)

/-- The specifiers whose exports are forwarded as a whole, in order. -/
def stars (unit : LinkUnit) : List String :=
  unit.bindings.filterMap fun
    | .exportAll source => some source
    | _ => none

/-- The records whose exports are forwarded as a whole, in order. -/
def starRecords (unit : LinkUnit) : Except Failure (List (Ref .record)) :=
  unit.targets unit.stars

/-- The names exported one by one, in order. -/
def explicitNames (unit : LinkUnit) : List String :=
  unit.bindings.filterMap Binding.exportedName?

/-- The local names that are exported and not imported, each once. A slot is made for each. -/
def localNames (unit : LinkUnit) : List String :=
  unit.bindings.foldl (fun names binding =>
    match binding with
    | .exportName name => addLocal names name
    | .exportAs name _ => addLocal names name
    | _ => names) []
where
  addLocal (names : List String) (name : String) : List String :=
    if names.contains name then names
    else if unit.bindings.any fun binding => binding.isImport && binding.localName? = some name then
      names
    else names ++ [name]

end LinkUnit

namespace Batch

/-- The unit of a record as linking sees it. -/
def describe (host : Host) (ref : Ref .record) : LinkUnit :=
  let record := host.record ref
  { record := ref
    key := record.key
    bindings := record.bindings
    requests := record.requests.map fun request =>
      ⟨request.1, request.2, host.lookup? ⟨record.home, request.2⟩⟩
    defaultExport := (host.compartment record.home).settings.defaultExport }

/-- What a record that is not of the batch exports. -/
def exported (host : Host) (ref : Ref .record) : Except Failure (Table (Ref .slot)) :=
  let record := host.record ref
  if record.phase = .failed then .error record.failure
  else .ok (host.store.space record.space).exports

/-- The batch of the given records. -/
def ofRecords (host : Host) (refs : List (Ref .record)) : Batch :=
  let units := refs.map (describe host)
  let places : Array (Option LinkUnit) :=
    units.foldl (fun places unit => places.setIfInBounds unit.record.index (some unit))
      (Array.replicate host.records.size none)
  { units
    unitOf := fun ref => (places[ref.index]?).getD none
    outside := exported host }

/-- How many distinct pairs of a record and a name a search can meet, at most. -/
def bound (batch : Batch) : Nat :=
  let total := batch.units.foldl (fun total unit => total + unit.bindings.length) 0
  (batch.units.length + 1) * (total + 2)

end Batch

end ModuleLoader
