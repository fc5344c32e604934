import ModuleLoader.Linkage.Wiring
/-!
Linking a batch: wire every record, let failures spread to the records that depend on failed ones, and
commit the wirings of the others. A record that fails keeps its scope and its namespace as they were.
-/

namespace ModuleLoader
set_option autoImplicit false

namespace Batch

/-- The wirings that failed, in the order of the batch. -/
def failures (wirings : List (LinkUnit × Except Failure Wiring)) : List (Ref .record × Failure) :=
  wirings.filterMap fun (unit, wiring) =>
    match wiring with
    | .error failure => some (unit.record, failure)
    | .ok _ => none

/-- The failure found for a record. -/
def failureAmong (failed : List (Ref .record × Failure)) (record : Ref .record) : Option Failure :=
  (failed.find? fun pair => pair.1 = record).map Prod.snd

/-- The records of the batch that depend directly on a record. -/
def dependentsOf (batch : Batch) (record : Ref .record) : List (Ref .record) :=
  (batch.units.filter fun unit =>
    unit.requests.any fun request => request.target = some record).map LinkUnit.record

/-- Lets failures spread: a record that depends on a failed one, and has no failure of its own, gets
the failure of that one. The records of the first list have still to be looked at. -/
def spread (batch : Batch) :
    Nat → List (Ref .record) → List (Ref .record × Failure) → List (Ref .record × Failure)
  | 0, _, failed => failed
  | _ + 1, [], failed => failed
  | fuel + 1, record :: rest, failed =>
    match failureAmong failed record with
    | none => batch.spread fuel rest failed
    | some failure =>
      let fresh := (batch.dependentsOf record).filter fun dependent =>
        (failureAmong failed dependent).isNone
      batch.spread fuel (fresh ++ rest) (fresh.map (·, failure) ++ failed)

/-- All failures of the batch, once they have spread. -/
def allFailures (batch : Batch) (wirings : List (LinkUnit × Except Failure Wiring)) :
    List (Ref .record × Failure) :=
  let own := failures wirings
  batch.spread (batch.units.length + 1) (own.map Prod.fst) own

end Batch

namespace Act

/-- New empty slots for names. -/
def newSlots : List String → StateM Store (List (String × Ref .slot))
  | [] => return []
  | name :: rest => do
    let slot ← Store.newSlot none
    return (name, slot) :: (← newSlots rest)

/-- Slots for the local names that the records of a batch export. -/
def localSlots : List LinkUnit → Act (List (Ref .record × List (String × Ref .slot)))
  | [] => return []
  | unit :: rest => do
    let slots ← onStore (newSlots unit.localNames)
    return (unit.record, slots) :: (← localSlots rest)

/-- The slot made for a local name. -/
def slotOf (slots : List (Ref .record × List (String × Ref .slot))) (record : Ref .record)
    (name : String) : Option (Ref .slot) :=
  match slots.find? fun pair => pair.1 = record with
  | none => none
  | some (_, named) => (named.find? fun pair => pair.1 = name).map Prod.snd

/-- The slot of an origin. A namespace gets a new slot each time. -/
def slotFor (slots : List (Ref .record × List (String × Ref .slot))) (origin : Origin) :
    Act (Ref .slot) := do
  match origin with
  | .slot slot => return slot
  | .localName record name =>
    match slotOf slots record name with
    | some slot => return slot
    | none => onStore (Store.newSlot none)
  | .exports record =>
    let space := ((← get).record record).space
    onStore (Store.newSlot (some (.exports space)))

/-- The slots of wired names. -/
def slotsFor (slots : List (Ref .record × List (String × Ref .slot))) :
    List (String × Origin) → Act (List (String × Ref .slot))
  | [] => return []
  | (name, origin) :: rest => do
    let slot ← slotFor slots origin
    return (name, slot) :: (← slotsFor slots rest)

/-- Puts slots on a namespace. -/
def defineAll (space : Ref .exports) : List (String × Ref .slot) → StateM Store Unit
  | [] => return ()
  | (name, slot) :: rest => do
    Store.define space name slot
    defineAll space rest

/-- Commits a wiring: local names are declared, then imports bound, then exports defined. -/
def commit (slots : List (Ref .record × List (String × Ref .slot))) (ref : Ref .record)
    (wiring : Wiring) : Act Unit := do
  let declared := match slots.find? fun pair => pair.1 = ref with
    | some (_, named) => named
    | none => []
  let imports ← slotsFor slots wiring.imports
  let exports ← slotsFor slots wiring.exports
  changeRecord ref fun record =>
    let environment := declared.foldl (fun environment pair =>
      environment.declareLocal pair.1 pair.2) record.environment
    let environment := imports.foldl (fun environment pair =>
      environment.declareImport pair.1 pair.2) environment
    { record with environment }
  onStore (defineAll ((← get).record ref).space exports)
  changeRecord ref fun record => record.advance .linked

/-- Ends or commits a record of a batch. A failure that reached it goes before its wiring. -/
def settle (slots : List (Ref .record × List (String × Ref .slot)))
    (failed : List (Ref .record × Failure)) (unit : LinkUnit)
    (wiring : Except Failure Wiring) : Act Unit :=
  match Batch.failureAmong failed unit.record, wiring with
  | some failure, _ => changeRecord unit.record fun record => record.fail failure
  | none, .ok wiring => commit slots unit.record wiring
  | none, .error failure => changeRecord unit.record fun record => record.fail failure

/-- Ends or commits every record of a batch, in order. -/
def commitAll (slots : List (Ref .record × List (String × Ref .slot)))
    (failed : List (Ref .record × Failure)) :
    List (LinkUnit × Except Failure Wiring) → Act Unit
  | [] => return ()
  | (unit, wiring) :: rest => do
    settle slots failed unit wiring
    commitAll slots failed rest

/-- Links records that are loaded. -/
def link (refs : List (Ref .record)) : Act Unit := do
  match refs with
  | [] => return ()
  | _ =>
    refs.forM fun ref => changeRecord ref fun record => record.advance .linking
    let batch := Batch.ofRecords (← get) refs
    let slots ← localSlots batch.units
    let wirings := batch.units.map fun unit => (unit, batch.wire unit)
    commitAll slots (batch.allFailures wirings) wirings

end Act

end ModuleLoader
