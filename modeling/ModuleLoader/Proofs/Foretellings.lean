import ModuleLoader.Proofs.Prospects
/-!
While closures are loaded, everything that is memoized, in flight or asked of a hook stays what the
descriptors foretold when the loading began. This speaks of the nodes of one region, a set of nodes that
is closed under requests and aliases; what goes on outside of it may be anything.
-/

namespace ModuleLoader
set_option autoImplicit false

namespace Host

/-- The call is not answered yet. -/
def Asks (host : Host) (call : Ref .call) (work : HookCall) : Prop :=
  ∃ bell, host.calls.get? call = some ⟨bell, .idle work⟩ ∨
    host.calls.get? call = some ⟨bell, .driven work⟩

/-- A region of nodes about which descriptors say everything. -/
structure Settled (start : Host) (region : Node → Prop) : Prop where
  closed : ∀ node next, region node → start.Continues node next → region next
  settled : ∀ node, region node → start.prospect node ≠ .unsettled
  replies : ∀ node, region node → start.RepliesAlike node

/-- The call is about a node that only hooks know, and has the foretold reply, if it has one. -/
def CallFits (start : Host) (work : HookCall) : Prop :=
  ∃ answers, (start.compartment work.home).table.get? work.key = none ∧
    (start.compartment work.home).loadHook = some answers ∧
      match work.stage with
      | .fresh => True
      | .atGate _ answer => answer.reply = (HookCall.answerTo answers work.key 0).reply
      | .yielding _ reply => reply = (HookCall.answerTo answers work.key 0).reply

/-- What the load hook said about the node is what was foretold. -/
def AnswerFits (start : Host) (node : Node) : HookResult → Prop
  | .ok (some descriptor) => start.prospectOf node descriptor = start.prospect node
  | .ok none => start.prospect node = start.prospectNow node
  | .error _ => start.prospect node = .missing

/-- What the descriptor of the node turned out to be is what was foretold. -/
def DescriptorFits (start : Host) (node : Node) : Except Failure Descriptor → Prop
  | .ok descriptor => start.prospectOf node descriptor = start.prospect node
  | .error _ => start.prospect node = .missing

/-- The call is about the node, and answers what was foretold. -/
def Answers (start host : Host) (node : Node) (call : Ref .call) : Prop :=
  match (host.calls.get? call).map Shared.progress with
  | none => False
  | some (.idle work) => work.home = node.compartment ∧ work.key = node.key
  | some (.driven work) => work.home = node.compartment ∧ work.key = node.key
  | some (.done result) => start.AnswerFits node result

/-- The entry stands for the module that the node was foretold to lead to. -/
def EntryFits (start host : Host) (node : Node) (entry : Entry) : Prop :=
  ∃ record, host.records.get? entry.record = some record ∧
    start.AliasesTo node ⟨record.home, record.key⟩ ∧
      start.prospect ⟨record.home, record.key⟩ =
        .module (record.requestKeys.map (Node.mk record.home)) ∧
      match entry with
      | .own _ => record.home = node.compartment
      | .borrowed owner key _ => owner = record.home ∧ key = record.key ∧
          start.Passes node ⟨record.home, record.key⟩

/-- The closure of the node continues at these nodes, or what it passes before is aliases. -/
def ContinuesAt (start : Host) (node : Node) (continuations : List Node) : Prop :=
  ¬ start.Circles node ∧ ∃ last, (start.AliasesTo node last ∧ start.prospect last = .module continuations) ∨
    (start.Passes node last ∧ continuations = [last])

/-- What the load of the node delivers is what was foretold. -/
structure DeliveryFits (start host : Host) (node : Node) (delivery : Delivery) : Prop where
  entry : start.EntryFits host node delivery.entry
  covers : start.ContinuesAt node delivery.continuations

/-- A load of the node ends as was foretold. -/
def OutcomeFits (start host : Host) (node : Node) : Except Failure Delivery → Prop
  | .ok delivery => start.DeliveryFits host node delivery
  | .error _ => start.Doomed node

/-- The load is about the node, and ends as was foretold. -/
def LoadFits (start host : Host) (node : Node) (load : Ref .load) : Prop :=
  match (host.loads.get? load).map Shared.progress with
  | none => False
  | some (.idle work) => work.node = node
  | some (.driven work) => work.node = node
  | some (.done outcome) => start.OutcomeFits host node outcome

/-- The aliases that were passed from `node` on, each once, before `next`. -/
structure Trail (start : Host) (node : Node) (passed : List Node) (next : Node) : Prop where
  nodup : passed.Nodup
  first : node ∈ passed
  each : ∀ other ∈ passed, start.AliasesTo node other ∧ start.Passes other next

/-- What a load of the node waits for is about the right node. -/
def StageFits (start : Host) (region : Node → Prop) (host : Host) (node : Node) : LoadStage → Prop
  | .fresh => True
  | .describing call => region node → start.Answers host node call.job
  | .following visited other call => (region other → start.Answers host other call.job) ∧
      (region node → ∃ passed, visited = other :: passed ∧ other ∉ passed ∧
        start.Trail node passed other)
  | .borrowing target watch => (region target → start.LoadFits host target watch.job) ∧
      (region node → start.Passes node target)

/-- All that is known in `host` about the nodes of a region was foretold in `start`. -/
structure Foretold (start : Host) (region : Node → Prop) (host : Host) : Prop where
  same : ∀ ref, { host.compartment ref with calls := .empty, loading := .empty, memo := .empty } =
    { start.compartment ref with calls := .empty, loading := .empty, memo := .empty }
  size : host.compartments.size = start.compartments.size
  labels : host.labels = start.labels
  known : ∀ node, (start.entryAt? node).isSome → (host.entryAt? node).isSome
  memo : ∀ node entry, region node → host.entryAt? node = some entry →
    start.EntryFits host node entry
  kept : ∀ node load, region node → host.loadAt? node = some load → start.LoadFits host node load
  called : ∀ node call, region node → host.callAt? node = some call → start.Answers host node call
  asks : ∀ call work, host.Asks call work → region ⟨work.home, work.key⟩ → start.CallFits work
  flight : ∀ load work, host.InFlight load work →
    start.StageFits region host work.node work.stage

/-- What is foretold of records, calls and loads stays so, and loads that somebody drives are left to
them. -/
structure Upholds (start : Host) (region : Node → Prop) (host host' : Host) : Prop where
  tasks : host'.tasks = host.tasks
  records : host.records.Extends host'.records
  answers : ∀ node call, region node → start.Answers host node call → start.Answers host' node call
  loadFits : ∀ node load, region node → start.LoadFits host node load → start.LoadFits host' node load
  driven : ∀ load bell work, host.loads.get? load = some ⟨bell, .driven work⟩ →
    host'.loads.get? load = some ⟨bell, .driven work⟩

variable {start : Host} {region : Node → Prop} {host host' : Host}

theorem Upholds.refl (host : Host) : Upholds start region host host :=
  ⟨rfl, .refl _, fun _ _ _ h => h, fun _ _ _ h => h, fun _ _ _ h => h⟩

theorem Upholds.trans {a b c : Host} (hab : Upholds start region a b)
    (hbc : Upholds start region b c) : Upholds start region a c where
  tasks := hbc.tasks.trans hab.tasks
  records := hab.records.trans hbc.records
  answers node call hnode h := hbc.answers node call hnode (hab.answers node call hnode h)
  loadFits node load hnode h := hbc.loadFits node load hnode (hab.loadFits node load hnode h)
  driven load bell work h := hbc.driven load bell work (hab.driven load bell work h)

theorem EntryFits.mono (hrecords : host.records.Extends host'.records) {node : Node} {entry : Entry}
    (h : start.EntryFits host node entry) : start.EntryFits host' node entry := by
  obtain ⟨record, hrecord, hrest⟩ := h
  exact ⟨record, hrecords _ _ hrecord, hrest⟩

theorem DeliveryFits.mono (hrecords : host.records.Extends host'.records) {node : Node}
    {delivery : Delivery} (h : start.DeliveryFits host node delivery) :
    start.DeliveryFits host' node delivery :=
  ⟨h.entry.mono hrecords, h.covers⟩

theorem OutcomeFits.mono (hrecords : host.records.Extends host'.records) {node : Node} :
    ∀ {outcome : Except Failure Delivery}, start.OutcomeFits host node outcome →
      start.OutcomeFits host' node outcome
  | .ok _, h => DeliveryFits.mono hrecords h
  | .error _, h => h

theorem Answers.mono {node : Node} {call : Ref .call}
    (hcall : ∀ shared, host.calls.get? call = some shared → host'.calls.get? call = some shared)
    (h : start.Answers host node call) : start.Answers host' node call := by
  unfold Answers at h ⊢
  cases hshared : host.calls.get? call with
  | none =>
    rw [hshared] at h
    exact h.elim
  | some shared =>
    rw [hshared] at h
    rw [hcall shared hshared]
    exact h

theorem LoadFits.mono (hrecords : host.records.Extends host'.records) {node : Node} {load : Ref .load}
    (hload : ∀ shared, host.loads.get? load = some shared → host'.loads.get? load = some shared)
    (h : start.LoadFits host node load) : start.LoadFits host' node load := by
  unfold LoadFits at h ⊢
  cases hshared : host.loads.get? load with
  | none =>
    rw [hshared] at h
    exact h.elim
  | some shared =>
    rw [hshared] at h
    rw [hload shared hshared]
    obtain ⟨bell, idle | driven | outcome⟩ := shared
    · exact h
    · exact h
    · exact OutcomeFits.mono hrecords h

theorem LoadFits.of_eq (hrecords : host'.records = host.records) (hloads : host'.loads = host.loads)
    {node : Node} {load : Ref .load} (h : start.LoadFits host node load) :
    start.LoadFits host' node load :=
  h.mono (.of_eq hrecords) fun _ hload => hloads ▸ hload

theorem Reaches.inside (hsettled : start.Settled region) {node other : Node}
    (h : start.Reaches node other) (hnode : region node) : region other := by
  induction h with
  | refl => exact hnode
  | tail _ hnext ih => exact hsettled.closed _ _ ih hnext

theorem AliasesTo.inside (hsettled : start.Settled region) {node other : Node} (hnode : region node)
    (h : start.AliasesTo node other) : region other :=
  h.reaches.inside hsettled hnode

theorem Passes.inside (hsettled : start.Settled region) {node other : Node} (hnode : region node)
    (h : start.Passes node other) : region other :=
  AliasesTo.inside hsettled hnode h.to_reflTransGen

/-- Nothing of what is foretold changed but that there are more records. -/
theorem Upholds.alike (host' : Host) (tasks : host'.tasks = host.tasks)
    (calls : host'.calls = host.calls) (loads : host'.loads = host.loads)
    (records : host.records.Extends host'.records) : Upholds start region host host' :=
  ⟨tasks, records, fun _ _ _ => .mono fun _ hcall => calls ▸ hcall,
    fun _ _ _ => .mono records fun _ hload => loads ▸ hload, fun _ _ _ hload => loads ▸ hload⟩

theorem StageFits.mono
    (hanswers : ∀ node call, region node → start.Answers host node call →
      start.Answers host' node call)
    (hloads : ∀ node load, region node → start.LoadFits host node load →
      start.LoadFits host' node load) {node : Node} :
    ∀ {stage : LoadStage}, start.StageFits region host node stage →
      start.StageFits region host' node stage
  | .fresh, _ => trivial
  | .describing call, hcall => fun hnode => hanswers node call.job hnode (hcall hnode)
  | .following _ other call, ⟨hcall, htrail⟩ =>
    ⟨fun hother => hanswers other call.job hother (hcall hother), htrail⟩
  | .borrowing target watch, ⟨hload, hpasses⟩ =>
    ⟨fun htarget => hloads target watch.job htarget (hload htarget), hpasses⟩

theorem Upholds.stageFits (h : Upholds start region host host') {node : Node} {stage : LoadStage} :
    start.StageFits region host node stage → start.StageFits region host' node stage :=
  StageFits.mono h.answers h.loadFits

namespace Foretold

/-- A part of a compartment that no loading changes. -/
theorem part {α : Type} (h : Foretold start region host) (ref : Ref .compartment)
    (f : Compartment → α)
    (hf : ∀ compartment,
      f { compartment with calls := .empty, loading := .empty, memo := .empty } = f compartment) :
    f (host.compartment ref) = f (start.compartment ref) := by
  rw [← hf (host.compartment ref), h.same ref, hf]

/-- Nothing of the loading changed but that there are more records. -/
theorem alike (h : Foretold start region host) (host' : Host)
    (compartments : host'.compartments = host.compartments) (labels : host'.labels = host.labels)
    (calls : host'.calls = host.calls) (loads : host'.loads = host.loads)
    (records : host.records.Extends host'.records) : Foretold start region host' := by
  have hcompartment (ref : Ref .compartment) : host'.compartment ref = host.compartment ref := by
    unfold compartment
    rw [compartments]
  have hentry (node : Node) : host'.entryAt? node = host.entryAt? node := by
    unfold entryAt?
    rw [hcompartment]
  have hanswers (node : Node) (call : Ref .call) (h : start.Answers host node call) :
      start.Answers host' node call :=
    h.mono fun _ hcall => calls ▸ hcall
  have hloads (node : Node) (load : Ref .load) (h : start.LoadFits host node load) :
      start.LoadFits host' node load :=
    h.mono records fun _ hload => loads ▸ hload
  refine ⟨fun ref => ?_, ?_, labels.trans h.labels, fun node hnode => ?_, fun node entry hnode he => ?_,
    fun node load hnode hkept => ?_, fun node call hnode hkept => ?_, fun call work hasks => ?_,
    fun load work hflight => ?_⟩
  · rw [hcompartment]
    exact h.same ref
  · rw [compartments]
    exact h.size
  · rw [hentry]
    exact h.known node hnode
  · rw [hentry] at he
    exact (h.memo node entry hnode he).mono records
  · unfold loadAt? at hkept
    rw [hcompartment] at hkept
    exact hloads node load (h.kept node load hnode hkept)
  · unfold callAt? at hkept
    rw [hcompartment] at hkept
    exact hanswers node call (h.called node call hnode hkept)
  · unfold Asks at hasks
    rw [calls] at hasks
    exact h.asks call work hasks
  · unfold InFlight at hflight
    rw [loads] at hflight
    exact StageFits.mono (fun node call _ => hanswers node call) (fun node load _ => hloads node load)
      (h.flight load work hflight)

theorem aside (h : Foretold start region host) (haside : Aside host host') :
    Foretold start region host' ∧ Upholds start region host host' := by
  obtain ⟨_, _, _, _, _, _, rfl⟩ := haside
  exact ⟨h.alike _ rfl rfl rfl rfl (.refl _), .alike _ rfl rfl rfl (.refl _)⟩

/-- The memo, the loads or the calls of a compartment changed, and all of them still fit. -/
theorem modify (h : Foretold start region host) (ref : Ref .compartment)
    {f : Compartment → Compartment}
    (hsame : ∀ compartment,
      { f compartment with calls := .empty, loading := .empty, memo := .empty } =
        { compartment with calls := .empty, loading := .empty, memo := .empty })
    (hknown : ∀ key, ((host.compartment ref).memo.get? key).isSome →
      ((f (host.compartment ref)).memo.get? key).isSome)
    (hmemo : ∀ key entry, region ⟨ref, key⟩ → (f (host.compartment ref)).memo.get? key = some entry →
      start.EntryFits host ⟨ref, key⟩ entry)
    (hkept : ∀ key load, region ⟨ref, key⟩ →
      (f (host.compartment ref)).loading.get? key = some load → start.LoadFits host ⟨ref, key⟩ load)
    (hcalled : ∀ key call, region ⟨ref, key⟩ →
      (f (host.compartment ref)).calls.get? key = some call → start.Answers host ⟨ref, key⟩ call) :
    Foretold start region { host with compartments := host.compartments.modify ref f } ∧
      Upholds start region host { host with compartments := host.compartments.modify ref f } := by
  have hloads (node : Node) (load : Ref .load) (h : start.LoadFits host node load) :
      start.LoadFits { host with compartments := host.compartments.modify ref f } node load :=
    h.of_eq (by rfl) (by rfl)
  have hupholds : Upholds start region host
      { host with compartments := host.compartments.modify ref f } :=
    ⟨rfl, .refl _, fun _ _ _ h => h, fun node load _ => hloads node load, fun _ _ _ h => h⟩
  refine ⟨⟨fun other => ?_, (Arena.size_modify _ _ _).trans h.size, h.labels, fun node hnode => ?_,
    fun node entry hnode hentry => ?_, fun node load hnode hload => ?_,
    fun node call hnode hcall => ?_, h.asks, fun load work hflight =>
      hupholds.stageFits (h.flight load work hflight)⟩, hupholds⟩
  · rw [compartment_modify]
    split
    · exact (hsame _).trans (h.same other)
    · exact h.same other
  · have hbefore := h.known node hnode
    unfold entryAt? at hbefore ⊢
    rw [compartment_modify]
    split
    · rename_i hhere
      obtain ⟨rfl, -⟩ := hhere
      exact hknown node.key hbefore
    · exact hbefore
  · unfold entryAt? at hentry
    rw [compartment_modify] at hentry
    split at hentry
    · rename_i hhere
      obtain ⟨rfl, -⟩ := hhere
      exact hmemo node.key entry hnode hentry
    · exact h.memo node entry hnode hentry
  · unfold loadAt? at hload
    rw [compartment_modify] at hload
    split at hload
    · rename_i hhere
      obtain ⟨rfl, -⟩ := hhere
      exact hloads _ _ (hkept node.key load hnode hload)
    · exact hloads _ _ (h.kept node load hnode hload)
  · unfold callAt? at hcall
    rw [compartment_modify] at hcall
    split at hcall
    · rename_i hhere
      obtain ⟨rfl, -⟩ := hhere
      exact hcalled node.key call hnode hcall
    · exact h.called node call hnode hcall

/-- Only the calls of a compartment changed, and they still fit. -/
theorem modifyCalls (h : Foretold start region host) (ref : Ref .compartment) {f : Compartment → Compartment}
    (hsame : ∀ compartment, { f compartment with calls := .empty } =
      { compartment with calls := .empty })
    (hcalled : ∀ key call, region ⟨ref, key⟩ →
      (f (host.compartment ref)).calls.get? key = some call → start.Answers host ⟨ref, key⟩ call) :
    Foretold start region { host with compartments := host.compartments.modify ref f } ∧
      Upholds start region host { host with compartments := host.compartments.modify ref f } := by
  have hmemo : (f (host.compartment ref)).memo = (host.compartment ref).memo := by
    have hsame := congrArg Compartment.memo (hsame (host.compartment ref))
    exact hsame
  have hloading : (f (host.compartment ref)).loading = (host.compartment ref).loading := by
    have hsame := congrArg Compartment.loading (hsame (host.compartment ref))
    exact hsame
  refine h.modify ref (fun compartment => ?_) (fun key => ?_) (fun key entry hnode => ?_)
    (fun key load hnode => ?_) hcalled
  · have hsame := congrArg (fun compartment : Compartment =>
      { compartment with loading := .empty, memo := .empty }) (hsame compartment)
    exact hsame
  · rw [hmemo]
    exact id
  · rw [hmemo]
    exact h.memo ⟨ref, key⟩ entry hnode
  · rw [hloading]
    exact h.kept ⟨ref, key⟩ load hnode

/-- Only the loads kept for a compartment changed, and they still fit. -/
theorem modifyLoads (h : Foretold start region host) (ref : Ref .compartment)
    (change : Table (Ref .load) → Table (Ref .load))
    (hkept : ∀ key load, region ⟨ref, key⟩ →
      (change (host.compartment ref).loading).get? key = some load →
        start.LoadFits host ⟨ref, key⟩ load) :
    let host' := { host with compartments := host.compartments.modify ref fun compartment =>
      { compartment with loading := change compartment.loading } }
    Foretold start region host' ∧ Upholds start region host host' :=
  h.modify ref (fun _ => rfl) (fun _ => id) (fun key entry => h.memo ⟨ref, key⟩ entry) hkept
    fun key call => h.called ⟨ref, key⟩ call

end Foretold

end Host

end ModuleLoader
