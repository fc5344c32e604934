import ModuleLoader.Proofs.Drafts
import ModuleLoader.Proofs.Later
/-!
Where entries come from: every node stands for a record that was made for it, or is an alias of a node
that stands for the same record. The chain of aliases is written in the chronicle, each alias once, so
whatever leads on from a node leads to the record and to what it requests.
-/

namespace ModuleLoader
set_option autoImplicit false

/-- Every specifier in the bindings of the record was resolved to a key. -/
def Record.Resolved (record : Record) : Prop :=
  ∀ binding ∈ record.bindings, ∀ specifier, binding.specifier? = some specifier →
    (record.keyOf? specifier).isSome

theorem Record.Onward.resolved {record later : Record} (h : record.Onward later)
    (hresolved : record.Resolved) : later.Resolved := by
  intro binding hmem specifier hspecifier
  rw [h.keyOf?]
  rw [h.bindings] at hmem
  exact hresolved binding hmem specifier hspecifier

namespace Host

/-- The node that a record was made for. -/
def ownNode (host : Host) (ref : Ref .record) : Node :=
  ⟨(host.record ref).home, (host.record ref).key⟩

/-- The nodes that a record requests. -/
def requestNodes (host : Host) (ref : Ref .record) : List Node :=
  (host.record ref).requestKeys.map (Node.mk (host.record ref).home)

/-- The entry is in its place: a record of the compartment itself, or one with the node it was made
for. -/
def Sits (host : Host) (node : Node) : Entry → Prop
  | .own ref => (host.record ref).home = node.compartment
  | .borrowed owner key ref => (⟨owner, key⟩ : Node) = host.ownNode ref

/-- The node has the entry because its record was made for it, or because its aliases were followed to
a node that stands for the record. -/
structure Stems (host : Host) (node : Node) (entry : Entry) : Prop where
  exist : (host.records.get? entry.record).isSome
  sits : host.Sits node entry
  source : entry = .own entry.record ∧ host.ownNode entry.record = node ∨
    ∃ target, .stands node target ∈ host.chronicle ∧ host.promise? target = some entry.record

/-- The entry of `target` as an alias of it has it. -/
def seenFrom (host : Host) (node target : Node) (entry : Entry) : Entry :=
  if target.compartment = node.compartment then entry else host.abroad target.compartment entry

/-- The closure of a node with this entry continues at these nodes. -/
def LeadsOn (host : Host) (node : Node) (entry : Entry) (nodes : List Node) : Prop :=
  nodes = host.continuations node.compartment entry ∨
    ∃ target, .stands node target ∈ host.chronicle ∧ nodes = [target]

/-- What the load of a node delivers stems from the node. -/
structure Delivers (host : Host) (node : Node) (delivery : Delivery) : Prop where
  stems : host.Stems node delivery.entry
  on : host.LeadsOn node delivery.entry delivery.continuations
  memoized : delivery.fromMemo = true → (host.entryAt? node).isSome

/-- The load is about the node, and what it delivers stems from the node. -/
def Lends (host : Host) (node : Node) (load : Ref .load) : Prop :=
  match (host.loads.get? load).map Shared.progress with
  | none => False
  | some (.idle work) => work.node = node
  | some (.driven work) => work.node = node
  | some (.done (.ok delivery)) => host.Delivers node delivery
  | some (.done (.error _)) => True

/-- The aliases from the node on lead to the record. -/
inductive ComesTo (host : Host) : Node → Ref .record → Prop where
  | own {ref : Ref .record} : (host.records.get? ref).isSome →
      host.promise? (host.ownNode ref) = some ref → ComesTo host (host.ownNode ref) ref
  | along {node target : Node} {ref : Ref .record} : .stands node target ∈ host.chronicle →
      ComesTo host target ref → ComesTo host node ref

/-- No record stands for its own node and for an alias at once: the node is none that the record was
made for, if it stands for the record. -/
def Away (host : Host) (node : Node) : Prop :=
  ∀ ref, host.promise? node = some ref → host.ownNode ref ≠ node

end Host

/-- The load that another one waits for is about the right node. -/
def LoadStage.Traced (host : Host) : LoadStage → Prop
  | .borrowing target watch => host.Lends target watch.job
  | _ => True

/-- All that is memoized, in flight or written in the chronicle can be traced back to the records made
for nodes. -/
structure Host.Traced (host : Host) : Prop where
  resolved : ∀ ref record, host.records.get? ref = some record → record.Resolved
  unique : ∀ node target other, .stands node target ∈ host.chronicle →
    .stands node other ∈ host.chronicle → target = other
  away : ∀ node target, .stands node target ∈ host.chronicle → host.Away node
  comesTo : ∀ node ref, host.promise? node = some ref → host.ComesTo node ref
  memo : ∀ node entry, host.entryAt? node = some entry → host.Stems node entry
  kept : ∀ node load, host.loadAt? node = some load → host.Lends node load
  flight : ∀ load work, host.InFlight load work → work.stage.Traced host

/-- What loads are about, and what they delivered, stays so. -/
def Traces (host host' : Host) : Prop :=
  ∀ node load, host.Lends node load → host'.Lends node load

namespace Later

variable {host host' : Host} {ref : Ref .record} {node : Node} {entry : Entry}

theorem ownNode (h : Later host host') (href : (host.records.get? ref).isSome) :
    host'.ownNode ref = host.ownNode ref := by
  unfold Host.ownNode
  rw [(h.record href).home, (h.record href).key]

theorem requestNodes (h : Later host host') (href : (host.records.get? ref).isSome) :
    host'.requestNodes ref = host.requestNodes ref := by
  unfold Host.requestNodes Record.requestKeys
  rw [(h.record href).home, (h.record href).requests]

theorem stands (h : Later host host') {target : Node}
    (hmem : .stands node target ∈ host.chronicle) : .stands node target ∈ host'.chronicle :=
  h.chronicle.subset hmem

theorem sits (h : Later host host') (hrecord : (host.records.get? entry.record).isSome)
    (hsits : host.Sits node entry) : host'.Sits node entry := by
  cases entry with
  | own ref => exact (h.record hrecord).home.trans hsits
  | borrowed owner key ref => exact hsits.trans (h.ownNode hrecord).symm

theorem stems (h : Later host host') (hstems : host.Stems node entry) : host'.Stems node entry where
  exist := h.keeps.records _ hstems.exist
  sits := h.sits hstems.exist hstems.sits
  source := by
    rcases hstems.source with ⟨hown, hnode⟩ | ⟨target, hstands, hpromise⟩
    · exact .inl ⟨hown, (h.ownNode hstems.exist).trans hnode⟩
    · exact .inr ⟨target, h.stands hstands, h.keeps.promise? _ _ hpromise⟩

theorem continuations (h : Later host host') (hrecord : (host.records.get? entry.record).isSome)
    (compartment : Ref .compartment) :
    host'.continuations compartment entry = host.continuations compartment entry := by
  cases entry with
  | own ref =>
    have hrecord : (host.records.get? ref).isSome := hrecord
    unfold Host.continuations Record.requestKeys
    dsimp only
    rw [(h.record hrecord).requests]
  | borrowed owner key ref => rfl

theorem leadsOn (h : Later host host') (hrecord : (host.records.get? entry.record).isSome)
    {nodes : List Node} (hon : host.LeadsOn node entry nodes) : host'.LeadsOn node entry nodes := by
  rcases hon with rfl | ⟨target, hstands, rfl⟩
  · exact .inl (h.continuations hrecord _).symm
  · exact .inr ⟨target, h.stands hstands, rfl⟩

theorem delivers (h : Later host host') {delivery : Delivery} (hdelivers : host.Delivers node delivery) :
    host'.Delivers node delivery where
  stems := h.stems hdelivers.stems
  on := h.leadsOn hdelivers.stems.exist hdelivers.on
  memoized hmemo := by
    obtain ⟨entry, hentry⟩ := Option.isSome_iff_exists.1 (hdelivers.memoized hmemo)
    exact Option.isSome_iff_exists.2 ⟨entry, h.keeps.entryAt? node entry hentry⟩

theorem comesTo (h : Later host host') (hcomes : host.ComesTo node ref) : host'.ComesTo node ref := by
  induction hcomes with
  | own href hpromise =>
    rw [← h.ownNode href] at hpromise ⊢
    exact .own (h.keeps.records _ href) (h.ownNode href ▸ h.keeps.promise? _ _ (h.ownNode href ▸ hpromise))
  | along hstands _ ih => exact .along (h.stands hstands) ih

/-- A load that nobody touched is about what it was about. -/
theorem lends (h : Later host host') {load : Ref .load}
    (hload : host'.loads.get? load = host.loads.get? load) (hlends : host.Lends node load) :
    host'.Lends node load := by
  unfold Host.Lends at hlends ⊢
  rw [hload]
  split at hlends
  · exact hlends
  · exact hlends
  · exact hlends
  · exact h.delivers hlends
  · trivial

end Later

theorem Traces.refl (host : Host) : Traces host host := fun _ _ => id

theorem Traces.trans {a b c : Host} (hab : Traces a b) (hbc : Traces b c) : Traces a c :=
  fun node load h => hbc node load (hab node load h)

theorem Traces.of_loads {host host' : Host} (hlater : Later host host')
    (hloads : host'.loads = host.loads) : Traces host host' :=
  fun _ _ => hlater.lends (by rw [hloads])

namespace Host

variable {host host' : Host}

theorem seenFrom_record (node target : Node) (entry : Entry) :
    (host.seenFrom node target entry).record = entry.record := by
  unfold seenFrom
  split
  · rfl
  · exact abroad_record _ _

theorem seenFrom_valid {node target : Node} (htarget : host.Built target.compartment) {entry : Entry}
    (h : entry.Valid host) : (host.seenFrom node target entry).Valid host := by
  unfold seenFrom
  split
  · exact h
  · exact abroad_valid htarget h

/-- What is in its place for a node is in its place for its aliases. -/
theorem sits_seenFrom {node target : Node} {entry : Entry} (h : host.Sits target entry) :
    host.Sits node (host.seenFrom node target entry) := by
  unfold seenFrom
  split
  · rename_i hsame
    cases entry with
    | own ref => exact Eq.trans h hsame
    | borrowed owner key ref => exact h
  · cases entry with
    | own ref => exact congrArg (Node.mk · _) (Eq.symm h)
    | borrowed owner key ref => exact h

/-- The record that an alias chain leads to stands for its own node. -/
theorem ComesTo.own_promise {node : Node} {ref : Ref .record} (h : host.ComesTo node ref) :
    (host.records.get? ref).isSome ∧ host.promise? (host.ownNode ref) = some ref := by
  induction h with
  | own href hpromise => exact ⟨href, hpromise⟩
  | along _ _ ih => exact ih

theorem traced_later {stage : LoadStage} (htraces : Traces host host') (h : stage.Traced host) :
    stage.Traced host' := by
  cases stage with
  | fresh => trivial
  | describing watch => trivial
  | following visited other watch => trivial
  | borrowing target watch => exact htraces _ _ h

/-- What is new can be traced as well. -/
theorem Traced.onward (h : host.Traced) (hlater : Later host host') (htraces : Traces host host')
    (resolved : ∀ ref record, host.records.get? ref = none → host'.records.get? ref = some record →
      record.Resolved)
    (stands : ∀ node target, .stands node target ∈ host'.chronicle →
      .stands node target ∈ host.chronicle ∨
        (∀ other, .stands node other ∈ host'.chronicle → other = target) ∧ host'.Away node)
    (promise : ∀ node ref, host'.promise? node = some ref → host.promise? node = some ref ∨
      host'.ComesTo node ref ∧ ((∃ target, .stands node target ∈ host'.chronicle) → host'.Away node))
    (memo : ∀ node entry, host'.entryAt? node = some entry → host.entryAt? node = some entry ∨
      host'.Stems node entry)
    (kept : ∀ node load, host'.loadAt? node = some load → host.loadAt? node = some load ∨
      host'.Lends node load)
    (flight : ∀ load work, host'.InFlight load work → host.InFlight load work ∨
      work.stage.Traced host') : host'.Traced := by
  refine ⟨fun ref record hrecord => ?_, fun node target other htarget hother => ?_,
    fun node target hstands => ?_, fun node ref hpromise => ?_, fun node entry hentry => ?_,
    fun node load hload => ?_, fun load work hflight => ?_⟩
  · cases hold : host.records.get? ref with
    | none => exact resolved ref record hold hrecord
    | some before =>
      obtain ⟨record', hrecord', honward⟩ := hlater.records ref before hold
      obtain rfl := Option.some.inj (hrecord.symm.trans hrecord')
      exact honward.resolved (h.resolved ref before hold)
  · rcases stands node target htarget with hold | ⟨hnew, -⟩
    · rcases stands node other hother with hold' | ⟨hnew, -⟩
      · exact h.unique node target other hold hold'
      · exact hnew target htarget
    · exact (hnew other hother).symm
  · rcases stands node target hstands with hold | ⟨-, hapart⟩
    · intro ref hpromise
      rcases promise node ref hpromise with hpromise' | ⟨-, hapart⟩
      · rw [hlater.ownNode (h.comesTo node ref hpromise').own_promise.1]
        exact h.away node target hold ref hpromise'
      · exact hapart ⟨target, hstands⟩ ref hpromise
    · exact hapart
  · rcases promise node ref hpromise with hold | ⟨hcomes, -⟩
    · exact hlater.comesTo (h.comesTo node ref hold)
    · exact hcomes
  · rcases memo node entry hentry with hold | hstems
    · exact hlater.stems (h.memo node entry hold)
    · exact hstems
  · rcases kept node load hload with hold | hlends
    · exact htraces _ _ (h.kept node load hold)
    · exact hlends
  · rcases flight load work hflight with hold | htraced
    · exact traced_later htraces (h.flight load work hold)
    · exact htraced

/-- Nothing of the loading is new. -/
theorem Traced.still (h : host.Traced) (hlater : Later host host')
    (hloads : host'.loads = host.loads)
    (resolved : ∀ ref record, host.records.get? ref = none → host'.records.get? ref = some record →
      record.Resolved)
    (stands : ∀ node target, .stands node target ∈ host'.chronicle →
      .stands node target ∈ host.chronicle)
    (hstill : Still host host') : host'.Traced ∧ Traces host host' := by
  have htraces := Traces.of_loads hlater hloads
  refine ⟨h.onward hlater htraces resolved (fun node target hmem => .inl (stands node target hmem))
    (fun node ref hpromise => .inl ((hstill.promise? node).symm.trans hpromise))
    (fun node entry hentry => .inl ((hstill.entryAt? node).symm.trans hentry))
    (fun node load hload => .inl ((hstill.loadAt? node).symm.trans hload))
    fun load work hflight => .inl ?_, htraces⟩
  unfold InFlight at hflight ⊢
  rwa [hloads] at hflight

theorem Traced.quiet (h : host.Traced) (hquiet : Quiet host host') :
    host'.Traced ∧ Traces host host' := by
  refine h.still hquiet.grows.later hquiet.loads (fun ref record hnone hsome => ?_)
    (fun node target hmem => ?_) (.of_quiet hquiet)
  · rw [hquiet.records, hnone] at hsome
    cases hsome
  · rwa [hquiet.chronicle] at hmem

end Host

end ModuleLoader
