import ModuleLoader.Execution.Work
import ModuleLoader.Value.View
/-!
The host of a set of modules: their compartments, records and values, the work in progress, and the
journal of what hooks and bodies did. Each action of the library is a change of a host.
-/

namespace ModuleLoader
set_option autoImplicit false

/-- How a compartment maps a specifier and the key that mentions it to a key. -/
inductive Resolver where
  | path
  /-- Puts a text in front of the specifier. -/
  | prepend (text : String)
  /-- The mentioning key, `>` and the specifier. -/
  | nested
  | mapped (keys : Table String)

/-- What a compartment adds to each object that describes a module. -/
structure MetaHook where
  properties : List (String × Literal)
  /-- The property that gets the key. -/
  keyProperty : Option String
  freeze : Bool

/-- A module registry. -/
structure Compartment where
  /-- The name scripts and journals know it by. -/
  label : String
  settings : Settings
  parent : Option (Ref .compartment)
  resolver : Resolver
  /-- Static descriptors. -/
  table : Table Descriptor
  /-- What the load hook answers, by key: one answer per call, the last one repeating. -/
  loadHook : Option (Table (List HookAnswer))
  /-- What the synchronous hook answers, by key. -/
  nowHook : Option (Table Blueprint)
  metaHook : Option MetaHook
  hasEvaluator : Bool
  /-- Calls of the load hook that are pending or gave a descriptor. -/
  calls : Table (Ref .call)
  /-- Shallow loads in flight, kept until the key is memoized. -/
  loading : Table (Ref .load)
  /-- The memo. It never shrinks. -/
  memo : Table Entry

/-- A gate that scripts wait at. -/
structure Gate where
  isOpen : Bool
  /-- Who waits, first come first. -/
  waiters : List Waker

/-- What a task does. -/
inductive TaskWork where
  | loading (stage : ClosureStage)
  | importing (work : ImportWork)
  | finished
  | dropped

/-- A task of the run queue. -/
structure Task where
  name : String
  work : TaskWork

/-- What hooks and bodies did, and which tasks finished. -/
inductive Event where
  | ran (compartment key : String)
  | ended (compartment key : String)
  | hookCalled (compartment key : String)
  | hookAnswered (compartment key : String)
  | nowHookCalled (compartment key : String)
  | metaHookCalled (compartment key : String) (present : List String)
  | logged (value : View)
  | read (name : String) (value : View)
  | caught (value : View)
  | imported (specifier : String) (space : View)
  | importedNow (specifier : String) (space : View)
  | resolved (specifier key : String)
  | importer (referrer compartment : String)
  | readExport (name property : String) (value : View)
  | exportNames (name : String) (names : List String)
  | setProperty (name property : String) (written : Bool)
  | readMeta (property : String) (value : View)
  | setMeta (property : String) (written : Bool)
  | metaNames (names : List String)
  | scopeNames (names : List (String × Bool))
  | scope (key text : String)
  | finished (task : String) (result : Except FailureView View)

/-- A moment that laws about the order of things speak of. -/
inductive Milestone where
  /-- A record entered a phase. -/
  | moved (record : Ref .record) (phase : Phase)
  /-- A record was about to be scheduled, with all it depends on. `groups` are the records that are run
  together from now on, dependencies first, each group in the order in which it is run. -/
  | scheduled (root : Ref .record) (groups : List (List (Ref .record)))
  /-- A batch of records was about to be linked. `unmet` are the specifiers of its bindings that lead to
  no record, each with the record that mentions it. -/
  | linking (batch : List (Ref .record)) (unmet : List (Ref .record × String))
  /-- The aliases of `node` were followed to `target`, and `node` got the entry of `target`. -/
  | stands (node target : Node)
  /-- An import of `node` ended with a namespace. -/
  | imported (node : Node) (space : Ref .exports)
deriving DecidableEq

/-- What a call of a load hook found when it was made. -/
structure Inquiry where
  /-- What the hook was asked about. -/
  node : Node
  /-- Whether the key had a static descriptor or was memoized. -/
  needless : Bool
  /-- The earlier calls about the node that were pending, or had given a descriptor. -/
  unsettled : List (Ref .call)

/-- What holds the modules and runs them. -/
structure Host where
  store : Store
  records : Arena .record Record
  compartments : Arena .compartment Compartment
  board : Board
  calls : Arena .call (Shared HookCall HookResult)
  /-- What each call found, by call. Inquiries are written and never read. -/
  inquiries : Arena .call Inquiry
  loads : Arena .load (Shared LoadWork (Except Failure Delivery))
  readies : Arena .ready (Shared ReadyWork (Except Failure Unit))
  drivers : Arena .driver Driver
  verdicts : Arena .verdict Verdict
  tasks : Arena .task Task
  gates : Table Gate
  /-- Objects that scripts share by name. -/
  named : Table (Ref .object)
  /-- The compartments in use, by label. -/
  labels : Table (Ref .compartment)
  /-- How often load hooks were called, by the label of their compartment and by key. A compartment
  that takes over a label goes on counting. -/
  callCounts : Table (Table Nat)
  /-- What happened, oldest first. -/
  journal : Array Event
  /-- The milestones passed, the last one first. They are written and never read. -/
  chronicle : List Milestone

instance : Inhabited Compartment :=
  ⟨{ label := "", settings := default, parent := none, resolver := .path, table := .empty,
     loadHook := none, nowHook := none, metaHook := none, hasEvaluator := false,
     calls := .empty, loading := .empty, memo := .empty }⟩

instance : Inhabited Host :=
  ⟨{ store := default, records := .empty, compartments := .empty, board := default,
     calls := .empty, inquiries := .empty, loads := .empty, readies := .empty, drivers := .empty, verdicts := .empty,
     tasks := .empty, gates := .empty, named := .empty, labels := .empty, callCounts := .empty,
     journal := #[], chronicle := [] }⟩

/-- Computations that change the host. -/
abbrev Act := StateM Host

namespace Host

/-- The record behind a reference. -/
def record (host : Host) (ref : Ref .record) : Record :=
  (host.records.get? ref).getD default

/-- The compartment behind a reference. -/
def compartment (host : Host) (ref : Ref .compartment) : Compartment :=
  (host.compartments.get? ref).getD default

/-- How often a load hook was called about a key. -/
def callCount (host : Host) (label key : String) : Nat :=
  ((host.callCounts.get? label).bind (Table.get? · key)).getD 0

/-- The memo entry of a node. -/
def entryAt? (host : Host) (node : Node) : Option Entry :=
  (host.compartment node.compartment).memo.get? node.key

/-- The record memoized under a node. -/
def lookup? (host : Host) (node : Node) : Option (Ref .record) :=
  (host.entryAt? node).map Entry.record

/-- The milestone of a change of a record, if it is one. -/
def phaseChange (host : Host) (ref : Ref .record) (f : Record → Record) : List Milestone :=
  match host.records.get? ref with
  | none => []
  | some record => if (f record).phase = record.phase then [] else [.moved ref (f record).phase]

/-- How many keys any compartment knows, from descriptors, hooks or its memo, and how many records
there are. No load and no nesting of imports meets more distinct keys than this. -/
def knownKeys (host : Host) : Nat :=
  host.records.size + host.compartments.cells.foldl (fun total compartment =>
    total + compartment.table.size + compartment.memo.size +
      ((compartment.loadHook.map Table.size).getD 0) +
      ((compartment.nowHook.map Table.size).getD 0)) 2

end Host

namespace Act

/-- Changes a compartment. -/
def changeCompartment (ref : Ref .compartment) (f : Compartment → Compartment) : Act Unit :=
  modify fun host => { host with compartments := host.compartments.modify ref f }

/-- Writes milestones into the chronicle; the first one is the last. -/
def mark (milestones : List Milestone) : Act Unit :=
  modify fun host => { host with chronicle := milestones ++ host.chronicle }

/-- Changes a record. The chronicle says if it enters another phase. -/
def changeRecord (ref : Ref .record) (f : Record → Record) : Act Unit := do
  mark ((← get).phaseChange ref f)
  modify fun host => { host with records := host.records.modify ref f }

/-- Counts one more call of a load hook about a key. Gives how many came before. -/
def countCall (label key : String) : Act Nat := fun host =>
  let count := host.callCount label key
  let counts := ((host.callCounts.get? label).getD .empty).insert key (count + 1)
  (count, { host with callCounts := host.callCounts.insert label counts })

/-- Carries out a change of the store. -/
def onStore {α : Type} (change : StateM Store α) : Act α := fun host =>
  let (result, store) := change host.store
  (result, { host with store })

/-- Tells wakers, first to last. -/
def tell (wakers : List Waker) : Act Unit :=
  modify fun host => { host with board := host.board.tell wakers }

/-- Writes into the journal. -/
def note (event : Event) : Act Unit :=
  modify fun host => { host with journal := host.journal.push event }

/-- The view of a value now. -/
def view (value : Value) : Act View := do
  return (← get).store.view value

/-- A new bell, with no one seated. -/
def newBell : Act (Ref .bell) := fun host =>
  (host.board.bells.next,
    { host with board := { host.board with bells := host.board.bells.push default } })

/-- A new pool, with no member. -/
def newPool : Act (Ref .pool) := fun host =>
  (host.board.pools.next,
    { host with board := { host.board with pools := host.board.pools.push default } })

/-- Changes the seats of a bell. -/
def changeSeats (bell : Ref .bell) (f : Seats → Seats) : Act Unit :=
  modify fun host =>
    { host with board := { host.board with bells := host.board.bells.modify bell f } }

/-- Changes the queue of a pool. -/
def changePool (pool : Ref .pool) (f : Pool → Pool) : Act Unit :=
  modify fun host =>
    { host with board := { host.board with pools := host.board.pools.modify pool f } }

/-- Passes a gate that is open; else `waker` waits there. -/
def passGate (name : String) (waker : Waker) : Act Bool := do
  let gate := ((← get).gates.get? name).getD ⟨false, []⟩
  if gate.isOpen then return true
  else
    modify fun host =>
      { host with gates := host.gates.insert name ⟨false, gate.waiters ++ [waker]⟩ }
    return false

/-- Whether a gate is open. -/
def isOpen (name : String) : Act Bool := do
  return (((← get).gates.get? name).map Gate.isOpen).getD false

end Act

end ModuleLoader
