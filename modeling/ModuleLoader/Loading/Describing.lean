import ModuleLoader.Registry.Interpreting
import ModuleLoader.Signal.Driving
/-!
Obtaining the descriptor of a node: from the static table, else from the load hook, else from the
synchronous hook. Calls of the load hook are shared; one that gave a descriptor is kept for ever, one
that did not is forgotten, so that a later load may ask again.
-/

namespace ModuleLoader
set_option autoImplicit false

namespace HookCall

/-- The answer to one more call about a key, after `count` earlier ones. -/
def answerTo (answers : Table (List HookAnswer)) (key : String) (count : Nat) : HookAnswer :=
  match answers.get? key with
  | none => default
  | some list => (list[count]?).getD (list.getLast?.getD default)

/-- The reply of the hook, once it is due. -/
def conclude (call : HookCall) (reply : Reply) : Act HookResult := do
  let label := ((← get).compartment call.home).label
  Act.note (.hookAnswered label call.key)
  match reply with
  | .absent => return .ok none
  | .fail reason => return .error (.loadHook call.key reason)
  | .describe blueprint =>
    match ← Act.build label blueprint with
    | .ok descriptor => return .ok (some descriptor)
    | .error _ => return .error (.loadHook call.key "bad descriptor")

/-- Gives way as often as the hook wants, then concludes. -/
def giveWay (call : HookCall) (left : Nat) (reply : Reply) (waker : Waker) :
    Act (Poll HookCall HookResult) := do
  match left with
  | 0 => return .ready (← call.conclude reply)
  | left + 1 =>
    Act.tell [waker]
    return .pending { call with stage := .yielding left reply }

/-- Drives a call one step. -/
def drive (call : HookCall) (waker : Waker) : Act (Poll HookCall HookResult) := do
  match call.stage with
  | .fresh =>
    let compartment := (← get).compartment call.home
    Act.note (.hookCalled compartment.label call.key)
    let count ← Act.countCall compartment.label call.key
    let answer := answerTo (compartment.loadHook.getD .empty) call.key count
    match answer.gate with
    | none => call.giveWay answer.yields answer.reply waker
    | some gate =>
      if ← Act.passGate gate waker then call.giveWay answer.yields answer.reply waker
      else return .pending { call with stage := .atGate gate answer }
  | .atGate gate answer =>
    if ← Act.isOpen gate then call.giveWay answer.yields answer.reply waker
    else return .pending call
  | .yielding left reply => call.giveWay left reply waker

/-- Whether a call that has come so far is pending or gave a descriptor. -/
def isOpen (progress : Progress HookCall HookResult) : Bool :=
  match progress with
  | .done (.ok none) | .done (.error _) => false
  | _ => true

end HookCall

namespace Host

/-- The keys that a compartment has something about: a memo entry, a load in flight, a descriptor, a call
of its load hook, or an answer of its synchronous hook. -/
def keysAtHand (host : Host) (ref : Ref .compartment) : List String :=
  let compartment := host.compartment ref
  compartment.memo.names ++ compartment.loading.names ++ compartment.table.names ++
    compartment.calls.names ++ (compartment.nowHook.map Table.names).getD []

/-- All nodes that a compartment has something about. No other node can be described without waiting. -/
def nodesAtHand (host : Host) : List Node :=
  host.compartments.refs.flatMap fun ref => (host.keysAtHand ref).map (Node.mk ref)

/-- The call of the load hook that is kept for a node. -/
def callAt? (host : Host) (node : Node) : Option (Ref .call) :=
  (host.compartment node.compartment).calls.get? node.key

/-- Whether a call is pending or gave a descriptor. -/
def isOpen (host : Host) (call : Ref .call) : Bool :=
  (host.calls.get? call).any fun shared => HookCall.isOpen shared.progress

/-- Whether a call is about a node. -/
def asksAbout (host : Host) (node : Node) (call : Ref .call) : Bool :=
  (host.inquiries.get? call).map Inquiry.node = some node

/-- What a call about a node finds that is made now. -/
def inquiry (host : Host) (node : Node) : Inquiry where
  node
  needless := host.knows node.key node.compartment
  unsettled := host.inquiries.refs.filter fun call => host.asksAbout node call && host.isOpen call

end Host

namespace Act

/-- The shared call of the load hook about a node. A new call is looked at as soon as it is made, and
then calls the hook. -/
def callOf (node : Node) : Act (Ref .call) := do
  match ((← get).compartment node.compartment).calls.get? node.key with
  | some call => return call
  | none =>
    let bell ← newBell
    let call := (← get).calls.next
    modify fun host =>
      { host with
        calls := host.calls.push ⟨bell, .idle ⟨node.compartment, node.key, .fresh⟩⟩
        inquiries := host.inquiries.push (host.inquiry node) }
    changeCompartment node.compartment fun compartment =>
      { compartment with calls := compartment.calls.insert node.key call }
    return call

/-- Forgets a call that gave no descriptor, if it is still the one of its key. -/
def forgetCall (node : Node) (call : Ref .call) : Act Unit :=
  changeCompartment node.compartment fun compartment =>
    if compartment.calls.get? node.key = some call then
      { compartment with calls := compartment.calls.erase node.key }
    else compartment

/-- The last resort for a descriptor: the synchronous hook. -/
def describeNow (node : Node) : Act (Except Failure Descriptor) := do
  match ← askNow node with
  | some descriptor => return .ok descriptor
  | none => return .error (.notFound node.key ((← get).compartment node.compartment).name)

/-- Looks at a call of the load hook about a node. -/
def awaitCall (node : Node) (watch : Watch .call) (waker : Waker) :
    Act (Poll (Watch .call) (Except Failure Descriptor)) := do
  match ← Shelf.calls.poll HookCall.drive watch waker with
  | .pending watch => return .pending watch
  | .ready (.ok (some descriptor)) => return .ready (.ok descriptor)
  | .ready (.ok none) =>
    forgetCall node watch.job
    return .ready (← describeNow node)
  | .ready (.error failure) =>
    forgetCall node watch.job
    return .ready (.error failure)

/-- Begins to obtain the descriptor of a node. -/
def describe (node : Node) (waker : Waker) :
    Act (Poll (Watch .call) (Except Failure Descriptor)) := do
  let compartment := (← get).compartment node.compartment
  match compartment.table.get? node.key with
  | some descriptor => return .ready (.ok descriptor)
  | none =>
    if compartment.loadHook.isSome then awaitCall node ⟨← callOf node, none⟩ waker
    else return .ready (← describeNow node)

end Act

end ModuleLoader
