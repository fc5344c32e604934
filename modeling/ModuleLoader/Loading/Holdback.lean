import ModuleLoader.Module.Record
/-!
When the results of shallow loads enter the memo.

An entry is held back until the shallow loads of all nodes it depends on directly have finished.
Entries that came out of the memo are neither held back nor entered again.
-/

namespace ModuleLoader
set_option autoImplicit false

/-- The result of a shallow load: the entry of one key, and where its closure continues. -/
structure Delivery where
  entry : Entry
  /-- The nodes that the entry depends on directly. -/
  continuations : List Node
  /-- The entry came out of the memo. -/
  fromMemo : Bool

/-- An entry held back. -/
structure Held where
  node : Node
  entry : Entry
  /-- How many of its dependencies are still to be delivered. -/
  missing : Nat

/-- The bookkeeping of one load. -/
structure Holdback where
  delivered : List Node
  held : List Held
  /-- Which nodes each node blocks, in the order they began to wait for it. -/
  blocked : List (Node × List Node)

namespace Holdback

instance : Inhabited Holdback := ⟨⟨[], [], []⟩⟩

/-- The nodes that `node` blocks. -/
def blockedBy (holdback : Holdback) (node : Node) : List Node :=
  match holdback.blocked.find? fun pair => pair.1 = node with
  | some (_, nodes) => nodes
  | none => []

/-- Lets `blocker` block `node`. -/
def block (blocked : List (Node × List Node)) (blocker node : Node) :
    List (Node × List Node) :=
  match blocked with
  | [] => [(blocker, [node])]
  | (first, nodes) :: rest =>
    if first = blocker then (first, nodes ++ [node]) :: rest
    else (first, nodes) :: block rest blocker node

/-- The distinct nodes of a list that were not delivered, in order. -/
def blockers (delivered nodes : List Node) : List Node :=
  nodes.foldl (fun found node =>
    if delivered.contains node || found.contains node then found else found ++ [node]) []

/-- One dependency of `node` was delivered. Gives the entry if nothing else holds it back. -/
def countDown (held : List Held) (node : Node) : List Held × Option (Node × Entry) :=
  match held with
  | [] => ([], none)
  | first :: rest =>
    if first.node = node then
      if first.missing ≤ 1 then (rest, some (first.node, first.entry))
      else ({ first with missing := first.missing - 1 } :: rest, none)
    else
      let (rest, found) := countDown rest node
      (first :: rest, found)

/-- One dependency of each node was delivered. Gives the entries that nothing holds back any more. -/
def countDownAll (held : List Held) : List Node → List Held × List (Node × Entry)
  | [] => (held, [])
  | node :: nodes =>
    let (held, found) := countDown held node
    let (held, others) := countDownAll held nodes
    (held, found.toList ++ others)

/-- The shallow load of `node` finished. Gives the entries that may enter the memo now: that of the
node itself unless something blocks it, then those that only waited for the node. -/
def deliver (holdback : Holdback) (node : Node) (delivery : Delivery) :
    Holdback × List (Node × Entry) :=
  let delivered := node :: holdback.delivered
  let blocking := if delivery.fromMemo then [] else blockers delivered delivery.continuations
  let blocked := blocking.foldl (fun blocked blocker => block blocked blocker node) holdback.blocked
  let (held, entered) :=
    if delivery.fromMemo then (holdback.held, [])
    else if blocking.isEmpty then (holdback.held, [(node, delivery.entry)])
    else (holdback.held ++ [⟨node, delivery.entry, blocking.length⟩], [])
  let registered : Holdback := { delivered, held, blocked }
  let (held, freed) := countDownAll held (registered.blockedBy node)
  let blocked := blocked.filter fun pair => pair.1 ≠ node
  ({ delivered, held, blocked }, entered ++ freed)

/-- The load failed: what was held back enters the memo anyway. -/
def giveUp (holdback : Holdback) : List (Node × Entry) :=
  holdback.held.map fun held => (held.node, held.entry)

end Holdback

end ModuleLoader
