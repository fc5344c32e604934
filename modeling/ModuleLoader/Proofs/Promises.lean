import ModuleLoader.Proofs.Describing
/-!
The record that a node stands for is settled before it is memoized: the shallow load that made it is
kept until then. What loading does to promises, and what has to hold of the loads in flight.
-/

namespace ModuleLoader
set_option autoImplicit false

/-- Whatever an arena holds another one holds as well, in the same place. -/
def Arena.Extends {k : Noun} {α : Type} (arena other : Arena k α) : Prop :=
  ∀ ref value, arena.get? ref = some value → other.get? ref = some value

namespace Arena.Extends

variable {k : Noun} {α : Type} {a b c : Arena k α}

theorem refl (arena : Arena k α) : arena.Extends arena := fun _ _ h => h

theorem of_eq (h : b = a) : a.Extends b := h ▸ refl a

theorem trans (hab : a.Extends b) (hbc : b.Extends c) : a.Extends c :=
  fun ref value h => hbc ref value (hab ref value h)

theorem push (arena : Arena k α) (value : α) : arena.Extends (arena.push value) := by
  intro ref old h
  rw [Arena.get?_push, if_neg]
  · exact h
  · rintro rfl
    simp [Arena.get?, Arena.next] at h

theorem isSome (h : a.Extends b) {ref : Ref k} (ha : (a.get? ref).isSome) :
    (b.get? ref).isSome := by
  obtain ⟨value, hvalue⟩ := Option.isSome_iff_exists.1 ha
  rw [h ref value hvalue]
  rfl

end Arena.Extends

/-- What was pushed is all that is new. -/
theorem Arena.get?_push_new {k : Noun} {α : Type} {arena : Arena k α} {value found : α}
    {ref : Ref k} (hnone : arena.get? ref = none)
    (hsome : (arena.push value).get? ref = some found) : ref = arena.next ∧ found = value := by
  rw [Arena.get?_push] at hsome
  split at hsome
  · rename_i href
    exact ⟨href, (Option.some.inj hsome).symm⟩
  · rw [hnone] at hsome
    cases hsome

theorem Arena.get?_next {k : Noun} {α : Type} (arena : Arena k α) :
    arena.get? arena.next = none := by
  simp [Arena.get?, Arena.next]

theorem Table.mem_of_find : ∀ {α : Type} {entries : List (String × α)} {name : String} {value : α},
    Table.find name entries = some value → (name, value) ∈ entries
  | _, [], _, _, h => nomatch h
  | _, (key, first) :: rest, name, value, h => by
    unfold Table.find at h
    split at h
    · rename_i hkey
      cases h
      exact hkey ▸ List.mem_cons_self
    · exact List.mem_cons_of_mem _ (Table.mem_of_find h)

theorem Table.mem_names {α : Type} {table : Table α} {name : String} {value : α}
    (h : table.get? name = some value) : name ∈ table.names :=
  List.mem_map_of_mem (f := Prod.fst) (Table.mem_of_find h)

/-- The entry stands for a record that exists, and an owner that was built. -/
def Entry.Valid (host : Host) : Entry → Prop
  | .own record => (host.records.get? record).isSome
  | .borrowed owner _ record => (host.records.get? record).isSome ∧ host.Built owner

/-- The entry is valid, and so are the places where its closure continues. -/
structure Delivery.Valid (host : Host) (delivery : Delivery) : Prop where
  entry : delivery.entry.Valid host
  built : ∀ node ∈ delivery.continuations, host.Built node.compartment

namespace Host

/-- The shallow load kept for a node. -/
def loadAt? (host : Host) (node : Node) : Option (Ref .load) :=
  (host.compartment node.compartment).loading.get? node.key

/-- The record that a node stands for: the one memoized, or else the one made by the load kept. -/
def promise? (host : Host) (node : Node) : Option (Ref .record) :=
  match host.entryAt? node with
  | some entry => some entry.record
  | none => ((host.loadAt? node).bind host.loadedInFlight?).map fun delivery => delivery.entry.record

/-- The load is about this node, and what it delivered is what the node stands for. -/
def Serves (host : Host) (node : Node) (load : Ref .load) : Prop :=
  match (host.loads.get? load).map Shared.progress with
  | none => False
  | some (.idle work) => work.node = node
  | some (.driven work) => work.node = node
  | some (.done (.ok delivery)) => host.promise? node = some delivery.entry.record
  | some (.done (.error _)) => True

/-- Somebody is just driving the load of this node. -/
def Driven (host : Host) (node : Node) : Prop :=
  ∃ load bell work, host.loads.get? load = some ⟨bell, .driven work⟩ ∧ work.node = node

/-- The load is in flight with this work. -/
def InFlight (host : Host) (load : Ref .load) (work : LoadWork) : Prop :=
  ∃ bell, host.loads.get? load = some ⟨bell, .idle work⟩ ∨
    host.loads.get? load = some ⟨bell, .driven work⟩

end Host

/-- What a shallow load waits for is about the right node. -/
def LoadStage.Valid (host : Host) : LoadStage → Prop
  | .fresh => True
  | .describing _ => True
  | .following _ node _ => host.Built node.compartment
  | .borrowing target watch => host.Built target.compartment ∧ host.Serves target watch.job

/-- What loading keeps in order. -/
structure Host.LoadsInOrder (host : Host) : Prop where
  grounded : host.Grounded
  memo : ∀ node entry, host.entryAt? node = some entry → entry.Valid host
  /-- A load is kept for its own node, and only while the node is not memoized. -/
  kept : ∀ node load, host.loadAt? node = some load →
    host.entryAt? node = none ∧ host.Serves node load
  flight : ∀ load work, host.InFlight load work →
    host.Built work.node.compartment ∧ host.loadAt? work.node = some load ∧
      work.stage.Valid host
  delivered : ∀ load bell delivery,
    host.loads.get? load = some ⟨bell, .done (.ok delivery)⟩ → delivery.Valid host
  /-- An alias stands for the record of its target, at the latest when its load ends. -/
  stands : ∀ node target, Milestone.stands node target ∈ host.chronicle →
    ∃ record, host.promise? target = some record ∧
      (host.promise? node = some record ∨ host.Driven node)

/-- A record as it is made. -/
structure Record.Newborn (host host' : Host) (record : Record) : Prop where
  home : host'.Built record.home
  ready : record.ready = none
  error : record.error = none
  environment : record.environment = default
  sourced : record.source.isSome → record.phase = .loaded ∧
    host.store.spaces.get? record.space = none ∧
      ∃ key, host'.store.spaces.get? record.space = some ⟨key, .empty, false⟩
  exposed : record.source = none → record.phase = .ready ∧ record.requests = []

/-- What loading does to a host: records come into being, memos grow, promises are kept, and the loads
that somebody drives are left to them. -/
structure Grows (host host' : Host) : Prop where
  readies : host'.readies = host.readies
  drivers : host'.drivers = host.drivers
  verdicts : host'.verdicts = host.verdicts
  tasks : host'.tasks = host.tasks
  labels : host'.labels = host.labels
  size : host'.compartments.size = host.compartments.size
  records : host.records.Extends host'.records
  slots : host.store.slots.Extends host'.store.slots
  spaces : host.store.spaces.Extends host'.store.spaces
  newborn : ∀ ref record, host.records.get? ref = none → host'.records.get? ref = some record →
    record.Newborn host host'
  /-- New namespaces hold new slots. -/
  placed : ∀ ref space, host.store.spaces.get? ref = none →
    host'.store.spaces.get? ref = some space → ∀ name slot, space.exports.get? name = some slot →
      host.store.slots.get? slot = none ∧ (host'.store.slots.get? slot).isSome
  settings : ∀ ref, (host'.compartment ref).settings = (host.compartment ref).settings
  distinct : ∀ ref other record record', host.records.get? ref = none →
    host.records.get? other = none → host'.records.get? ref = some record →
      host'.records.get? other = some record' → record.source.isSome → record'.source.isSome →
        record.space = record'.space → ref = other
  entryAt? : ∀ node entry, host.entryAt? node = some entry → host'.entryAt? node = some entry
  promise? : ∀ node record, host.promise? node = some record → host'.promise? node = some record
  serves : ∀ node load, host.Serves node load → host'.Serves node load
  driven : ∀ load bell work, host.loads.get? load = some ⟨bell, .driven work⟩ →
    host'.loads.get? load = some ⟨bell, .driven work⟩ ∧
      host'.loadAt? work.node = host.loadAt? work.node
  calm : ∀ load bell work, host'.loads.get? load = some ⟨bell, .driven work⟩ →
    host.loads.get? load = some ⟨bell, .driven work⟩
  chronicle : ∃ marks, host'.chronicle = marks ++ host.chronicle ∧
    ∀ mark ∈ marks, ∃ node target, mark = .stands node target ∧ ¬ host.Driven node

namespace Grows

variable {a b c host host' : Host}

theorem refl (host : Host) : Grows host host where
  readies := rfl
  drivers := rfl
  verdicts := rfl
  tasks := rfl
  labels := rfl
  size := rfl
  records := .refl _
  slots := .refl _
  spaces := .refl _
  newborn _ _ hnone hsome := nomatch hnone.symm.trans hsome
  placed _ _ hnone hsome := nomatch hnone.symm.trans hsome
  settings _ := rfl
  distinct _ _ _ _ hnone _ hsome := nomatch hnone.symm.trans hsome
  entryAt? _ _ h := h
  promise? _ _ h := h
  serves _ _ h := h
  driven _ _ _ h := ⟨h, rfl⟩
  calm _ _ _ h := h
  chronicle := ⟨[], rfl, fun _ h => nomatch h⟩

theorem isDriven (h : Grows host host') {node : Node} (hnode : host.Driven node) :
    host'.Driven node := by
  obtain ⟨load, bell, work, hload, hwork⟩ := hnode
  exact ⟨load, bell, work, (h.driven load bell work hload).1, hwork⟩

/-- A record that is there in the end was there in the middle or came after it. -/
theorem trans_newborn (hab : Grows a b) (hbc : Grows b c) (ref : Ref .record) (record : Record)
    (hnone : a.records.get? ref = none) (hsome : c.records.get? ref = some record) :
    record.Newborn a c := by
  cases hmiddle : b.records.get? ref with
  | none =>
    have hnew := hbc.newborn ref record hmiddle hsome
    refine ⟨hnew.home, hnew.ready, hnew.error, hnew.environment, fun hsource => ?_, hnew.exposed⟩
    obtain ⟨hphase, hfresh, hkey⟩ := hnew.sourced hsource
    refine ⟨hphase, ?_, hkey⟩
    cases hspace : a.store.spaces.get? record.space with
    | none => rfl
    | some space => exact absurd (hab.spaces _ _ hspace) (by simp [hfresh])
  | some found =>
    have hfound := hbc.records ref found hmiddle
    obtain rfl : record = found := Option.some.inj (hsome.symm.trans hfound)
    have hnew := hab.newborn ref record hnone hmiddle
    refine ⟨?_, hnew.ready, hnew.error, hnew.environment, fun hsource => ?_, hnew.exposed⟩
    · unfold Host.Built
      rw [hbc.size]
      exact hnew.home
    obtain ⟨hphase, hfresh, key, hkey⟩ := hnew.sourced hsource
    exact ⟨hphase, hfresh, key, hbc.spaces _ _ hkey⟩

theorem trans_distinct (hab : Grows a b) (hbc : Grows b c) (ref other : Ref .record)
    (record record' : Record) (hnone : a.records.get? ref = none)
    (hnone' : a.records.get? other = none) (hsome : c.records.get? ref = some record)
    (hsome' : c.records.get? other = some record') (hsource : record.source.isSome)
    (hsource' : record'.source.isSome) (hspace : record.space = record'.space) : ref = other := by
  have hearlier (x y : Ref .record) (rx ry : Record) (hx : a.records.get? x = none)
      (hcx : c.records.get? x = some rx) (hcy : c.records.get? y = some ry)
      (hrx : rx.source.isSome) (hry : ry.source.isSome) (heq : rx.space = ry.space)
      (hbx : (b.records.get? x).isSome) (hby : b.records.get? y = none) : False := by
    obtain ⟨found, hfound⟩ := Option.isSome_iff_exists.1 hbx
    obtain rfl : rx = found := Option.some.inj (hcx.symm.trans (hbc.records x found hfound))
    obtain ⟨-, -, key, hkey⟩ := (hab.newborn x rx hx hfound).sourced hrx
    obtain ⟨-, hfresh, -⟩ := (hbc.newborn y ry hby hcy).sourced hry
    rw [heq, hfresh] at hkey
    cases hkey
  cases href : b.records.get? ref with
  | none =>
    cases hother : b.records.get? other with
    | none =>
      exact hbc.distinct ref other record record' href hother hsome hsome' hsource hsource' hspace
    | some found =>
      exact (hearlier other ref record' record hnone' hsome' hsome hsource' hsource hspace.symm
        (hother ▸ rfl) href).elim
  | some found =>
    cases hother : b.records.get? other with
    | none =>
      exact (hearlier ref other record record' hnone hsome hsome' hsource hsource' hspace
        (href ▸ rfl) hother).elim
    | some found' =>
      obtain rfl : record = found :=
        Option.some.inj (hsome.symm.trans (hbc.records ref found href))
      obtain rfl : record' = found' :=
        Option.some.inj (hsome'.symm.trans (hbc.records other found' hother))
      exact hab.distinct ref other record record' hnone hnone' href hother hsource hsource' hspace

theorem trans_placed (hab : Grows a b) (hbc : Grows b c) (ref : Ref .exports) (space : Namespace)
    (hnone : a.store.spaces.get? ref = none) (hsome : c.store.spaces.get? ref = some space)
    (name : String) (slot : Ref .slot) (hslot : space.exports.get? name = some slot) :
    a.store.slots.get? slot = none ∧ (c.store.slots.get? slot).isSome := by
  cases hmiddle : b.store.spaces.get? ref with
  | none =>
    obtain ⟨hnew, hthere⟩ := hbc.placed ref space hmiddle hsome name slot hslot
    refine ⟨?_, hthere⟩
    cases hold : a.store.slots.get? slot with
    | none => rfl
    | some value =>
      rw [hab.slots slot value hold] at hnew
      cases hnew
  | some found =>
    obtain rfl : space = found := Option.some.inj (hsome.symm.trans (hbc.spaces ref found hmiddle))
    obtain ⟨hnew, hthere⟩ := hab.placed ref space hnone hmiddle name slot hslot
    exact ⟨hnew, hbc.slots.isSome hthere⟩

theorem trans (hab : Grows a b) (hbc : Grows b c) : Grows a c where
  readies := hbc.readies.trans hab.readies
  drivers := hbc.drivers.trans hab.drivers
  verdicts := hbc.verdicts.trans hab.verdicts
  tasks := hbc.tasks.trans hab.tasks
  labels := hbc.labels.trans hab.labels
  size := hbc.size.trans hab.size
  records := hab.records.trans hbc.records
  slots := hab.slots.trans hbc.slots
  spaces := hab.spaces.trans hbc.spaces
  newborn := hab.trans_newborn hbc
  placed := hab.trans_placed hbc
  settings ref := (hbc.settings ref).trans (hab.settings ref)
  distinct := hab.trans_distinct hbc
  entryAt? node entry h := hbc.entryAt? node entry (hab.entryAt? node entry h)
  promise? node record h := hbc.promise? node record (hab.promise? node record h)
  serves node load h := hbc.serves node load (hab.serves node load h)
  driven load bell work h :=
    let ⟨hb, hloadAt⟩ := hab.driven load bell work h
    let ⟨hc, hloadAt'⟩ := hbc.driven load bell work hb
    ⟨hc, hloadAt'.trans hloadAt⟩
  calm load bell work h := hab.calm load bell work (hbc.calm load bell work h)
  chronicle := by
    obtain ⟨marks, hmarks, hall⟩ := hab.chronicle
    obtain ⟨marks', hmarks', hall'⟩ := hbc.chronicle
    refine ⟨marks' ++ marks, by rw [hmarks', hmarks, List.append_assoc], fun mark hmem => ?_⟩
    rcases List.mem_append.1 hmem with hmem | hmem
    · obtain ⟨node, target, rfl, hdriven⟩ := hall' mark hmem
      exact ⟨node, target, rfl, fun h => hdriven (hab.isDriven h)⟩
    · exact hall mark hmem

theorem built (h : Grows host host') (ref : Ref .compartment) :
    host'.Built ref ↔ host.Built ref := by
  unfold Host.Built
  rw [h.size]

theorem entry_valid (h : Grows host host') {entry : Entry} (hentry : entry.Valid host) :
    entry.Valid host' := by
  cases entry with
  | own record => exact h.records.isSome hentry
  | borrowed owner key record => exact ⟨h.records.isSome hentry.1, (h.built owner).2 hentry.2⟩

theorem delivery_valid (h : Grows host host') {delivery : Delivery}
    (hdelivery : delivery.Valid host) : delivery.Valid host' :=
  ⟨h.entry_valid hdelivery.entry, fun node hmem => (h.built _).2 (hdelivery.built node hmem)⟩

theorem stage_valid (h : Grows host host') {stage : LoadStage} (hstage : stage.Valid host) :
    stage.Valid host' := by
  cases stage with
  | fresh => trivial
  | describing call => trivial
  | following visited node call => exact (h.built _).2 hstage
  | borrowing target watch => exact ⟨(h.built _).2 hstage.1, h.serves _ _ hstage.2⟩

/-- A milestone that is new and not the meeting of an alias with its target was there before. -/
theorem mem_chronicle (h : Grows host host') {mark : Milestone} (hmark : mark ∈ host'.chronicle)
    (hstands : ∀ node target, mark ≠ .stands node target) : mark ∈ host.chronicle := by
  obtain ⟨marks, hmarks, hall⟩ := h.chronicle
  rw [hmarks] at hmark
  rcases List.mem_append.1 hmark with hmem | hmem
  · obtain ⟨node, target, rfl, -⟩ := hall mark hmem
    exact absurd rfl (hstands node target)
  · exact hmem

theorem stands (h : Grows host host') (hhost : host.LoadsInOrder)
    (hchronicle : host'.chronicle = host.chronicle) (node target : Node)
    (hmem : .stands node target ∈ host'.chronicle) : ∃ record, host'.promise? target = some record ∧
      (host'.promise? node = some record ∨ host'.Driven node) := by
  obtain ⟨record, htarget, hnode⟩ := hhost.stands node target (hchronicle ▸ hmem)
  exact ⟨record, h.promise? _ _ htarget, hnode.imp (h.promise? _ _) h.isDriven⟩

end Grows

namespace Quiet

variable {host host' : Host}

theorem loadAt? (h : Quiet host host') (node : Node) : host'.loadAt? node = host.loadAt? node := by
  unfold Host.loadAt?
  rw [h.part node.compartment Compartment.loading fun _ => rfl]

theorem promise? (h : Quiet host host') (node : Node) :
    host'.promise? node = host.promise? node := by
  unfold Host.promise? Host.loadedInFlight?
  rw [h.entryAt? node, h.loadAt? node, h.loads]

theorem serves (h : Quiet host host') (node : Node) (load : Ref .load) :
    host'.Serves node load ↔ host.Serves node load := by
  unfold Host.Serves
  rw [h.loads, h.promise? node]

theorem grows (h : Quiet host host') : Grows host host' where
  readies := h.readies
  drivers := h.drivers
  verdicts := h.verdicts
  tasks := h.tasks
  labels := h.labels
  size := h.size
  records := .of_eq h.records
  slots := .of_eq h.slots
  spaces := .of_eq h.spaces
  newborn _ _ hnone hsome := by
    rw [h.records, hnone] at hsome
    cases hsome
  placed _ _ hnone hsome := by
    rw [h.spaces, hnone] at hsome
    cases hsome
  settings ref := h.part ref Compartment.settings fun _ => rfl
  distinct _ _ _ _ hnone _ hsome := by
    rw [h.records, hnone] at hsome
    cases hsome
  entryAt? node _ hentry := (h.entryAt? node).trans hentry
  promise? node _ hrecord := (h.promise? node).trans hrecord
  serves node load := (h.serves node load).2
  driven load bell work hload := by
    rw [h.loads]
    exact ⟨hload, h.loadAt? work.node⟩
  calm load bell work hload := by rwa [h.loads] at hload
  chronicle := ⟨[], h.chronicle, fun _ h => nomatch h⟩

theorem inFlight (h : Quiet host host') (load : Ref .load) (work : LoadWork) :
    host'.InFlight load work ↔ host.InFlight load work := by
  unfold Host.InFlight
  rw [h.loads]

theorem isDriven (h : Quiet host host') (node : Node) :
    host'.Driven node ↔ host.Driven node := by
  unfold Host.Driven
  rw [h.loads]

theorem loadsInOrder (h : Quiet host host') (hhost : host.LoadsInOrder) : host'.LoadsInOrder where
  grounded := h.grounded hhost.grounded
  memo node entry hentry :=
    h.grows.entry_valid (hhost.memo node entry ((h.entryAt? node).symm.trans hentry))
  kept node load hload := by
    rw [h.loadAt? node] at hload
    rw [h.entryAt? node, h.serves node load]
    exact hhost.kept node load hload
  flight load work hwork := by
    obtain ⟨hbuilt, hload, hstage⟩ := hhost.flight load work ((h.inFlight load work).1 hwork)
    exact ⟨(h.built _).2 hbuilt, (h.loadAt? _).trans hload, h.grows.stage_valid hstage⟩
  delivered load bell delivery hload := by
    rw [h.loads] at hload
    exact h.grows.delivery_valid (hhost.delivered load bell delivery hload)
  stands node target hmem := by
    rw [h.chronicle] at hmem
    rw [h.promise? node, h.promise? target, h.isDriven node]
    exact hhost.stands node target hmem

end Quiet

/-- Nothing that concerns loading changed. -/
structure LoadsAlike (host host' : Host) : Prop where
  compartments : host'.compartments = host.compartments
  loads : host'.loads = host.loads
  calls : host'.calls = host.calls
  labels : host'.labels = host.labels
  records : ∀ ref, (host.records.get? ref).isSome → (host'.records.get? ref).isSome
  stands : ∀ node target, Milestone.stands node target ∈ host'.chronicle →
    Milestone.stands node target ∈ host.chronicle

namespace LoadsAlike

variable {a b c host host' : Host}

theorem trans (hab : LoadsAlike a b) (hbc : LoadsAlike b c) : LoadsAlike a c where
  compartments := hbc.compartments.trans hab.compartments
  loads := hbc.loads.trans hab.loads
  calls := hbc.calls.trans hab.calls
  labels := hbc.labels.trans hab.labels
  records ref href := hbc.records ref (hab.records ref href)
  stands node target hmem := hab.stands node target (hbc.stands node target hmem)

theorem compartment (h : LoadsAlike host host') (ref : Ref .compartment) :
    host'.compartment ref = host.compartment ref := by
  unfold Host.compartment
  rw [h.compartments]

theorem built (h : LoadsAlike host host') (ref : Ref .compartment) :
    host'.Built ref ↔ host.Built ref := by
  unfold Host.Built
  rw [h.compartments]

theorem entryAt? (h : LoadsAlike host host') (node : Node) :
    host'.entryAt? node = host.entryAt? node := by
  unfold Host.entryAt?
  rw [h.compartment]

theorem loadAt? (h : LoadsAlike host host') (node : Node) :
    host'.loadAt? node = host.loadAt? node := by
  unfold Host.loadAt?
  rw [h.compartment]

theorem promise? (h : LoadsAlike host host') (node : Node) :
    host'.promise? node = host.promise? node := by
  unfold Host.promise? Host.loadedInFlight?
  rw [h.entryAt? node, h.loadAt? node, h.loads]

theorem serves (h : LoadsAlike host host') (node : Node) (load : Ref .load) :
    host'.Serves node load ↔ host.Serves node load := by
  unfold Host.Serves
  rw [h.loads, h.promise? node]

theorem entry_valid (h : LoadsAlike host host') {entry : Entry} (hentry : entry.Valid host) :
    entry.Valid host' := by
  cases entry with
  | own record => exact h.records record hentry
  | borrowed owner key record =>
    exact ⟨h.records record hentry.1, (h.built owner).2 hentry.2⟩

theorem grounded (h : LoadsAlike host host') (hhost : host.Grounded) : host'.Grounded := by
  have hdescriptor (descriptor : Descriptor) (hd : descriptor.Grounded host) :
      descriptor.Grounded host' := by
    unfold Descriptor.Grounded at hd ⊢
    split
    · exact (h.built _).2 hd
    · trivial
  constructor
  · rw [h.labels]
    exact fun label ref hlabel => (h.built ref).2 (hhost.labels label ref hlabel)
  · intro ref parent hparent
    rw [h.compartment] at hparent
    exact (h.built parent).2 (hhost.parents ref parent hparent)
  · intro ref key descriptor htable
    rw [h.compartment] at htable
    exact hdescriptor descriptor (hhost.tables ref key descriptor htable)
  · rw [h.calls]
    exact fun call shared descriptor hcall houtput =>
      hdescriptor descriptor (hhost.calls call shared descriptor hcall houtput)

theorem stage_valid (h : LoadsAlike host host') {stage : LoadStage} (hstage : stage.Valid host) :
    stage.Valid host' := by
  cases stage with
  | fresh => trivial
  | describing call => trivial
  | following visited node call => exact (h.built _).2 hstage
  | borrowing target watch => exact ⟨(h.built _).2 hstage.1, (h.serves _ _).2 hstage.2⟩

theorem isDriven (h : LoadsAlike host host') (node : Node) :
    host'.Driven node ↔ host.Driven node := by
  unfold Host.Driven
  rw [h.loads]

theorem loadsInOrder (h : LoadsAlike host host') (hhost : host.LoadsInOrder) :
    host'.LoadsInOrder where
  grounded := h.grounded hhost.grounded
  memo node entry hentry :=
    h.entry_valid (hhost.memo node entry ((h.entryAt? node).symm.trans hentry))
  kept node load hload := by
    rw [h.loadAt? node] at hload
    rw [h.entryAt? node, h.serves node load]
    exact hhost.kept node load hload
  flight load work hwork := by
    unfold Host.InFlight at hwork
    rw [h.loads] at hwork
    obtain ⟨hbuilt, hload, hstage⟩ := hhost.flight load work hwork
    exact ⟨(h.built _).2 hbuilt, (h.loadAt? _).trans hload, h.stage_valid hstage⟩
  delivered load bell delivery hload := by
    rw [h.loads] at hload
    have hdelivery := hhost.delivered load bell delivery hload
    exact ⟨h.entry_valid hdelivery.entry, fun node hmem =>
      (h.built _).2 (hdelivery.built node hmem)⟩
  stands node target hmem := by
    rw [h.promise? node, h.promise? target, h.isDriven node]
    exact hhost.stands node target (h.stands node target hmem)

end LoadsAlike

end ModuleLoader
