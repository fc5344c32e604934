import ModuleLoader.Proofs.Promises
/-!
A shallow load ends with the record that its node stands for from then on.

The work of a load is followed step by step, with nested looks at the loads it waits for. While it is
driven nobody else touches it, so what it delivers is what it promised when it began.
-/

namespace ModuleLoader
set_option autoImplicit false

/-- After an action of loading: all is in order, the host has grown, and `post` holds. -/
def Act.Loads {α : Type} (act : Act α) (host : Host) (post : α → Host → Prop) : Prop :=
  After host act fun result host' => host'.LoadsInOrder ∧ Grows host host' ∧ post result host'

namespace Act.Loads

variable {α β : Type} {host : Host}

theorem pure {post : α → Host → Prop} {result : α} (h : host.LoadsInOrder)
    (hpost : post result host) : (Pure.pure result : Act α).Loads host post :=
  ⟨h, .refl host, hpost⟩

theorem mono {act : Act α} {post post' : α → Host → Prop} (h : act.Loads host post)
    (himp : ∀ result host', host'.LoadsInOrder → Grows host host' → post result host' →
      post' result host') : act.Loads host post' :=
  ⟨h.1, h.2.1, himp _ _ h.1 h.2.1 h.2.2⟩

theorem bind {act : Act α} {next : α → Act β} {post : α → Host → Prop} {post' : β → Host → Prop}
    (h : act.Loads host post)
    (hnext : ∀ result host', host'.LoadsInOrder → Grows host host' → post result host' →
      (next result).Loads host' post') : (act >>= next).Loads host post' := by
  obtain ⟨horder, hgrows, hpost⟩ := h
  obtain ⟨horder', hgrows', hpost'⟩ := hnext _ _ horder hgrows hpost
  exact ⟨horder', hgrows.trans hgrows', hpost'⟩

theorem getBind {next : Host → Act β} {post : β → Host → Prop} (h : (next host).Loads host post) :
    (MonadState.get >>= next : Act β).Loads host post :=
  h

theorem quietly {act : Act α} {post : α → Host → Prop} (hact : act.IsQuiet)
    (h : host.LoadsInOrder) (hpost : After host act post) :
    act.Loads host fun result host' => Quiet host host' ∧ post result host' :=
  ⟨(hact host).loadsInOrder h, (hact host).grows, hact host, hpost⟩

theorem quiet {act : Act α} (hact : act.IsQuiet) (h : host.LoadsInOrder) :
    act.Loads host fun _ host' => Quiet host host' :=
  ⟨(hact host).loadsInOrder h, (hact host).grows, hact host⟩

end Act.Loads

namespace Host

variable {host : Host}

theorem continuations_built {compartment : Ref .compartment} (hbuilt : host.Built compartment)
    {entry : Entry} (hentry : entry.Valid host) :
    ∀ node ∈ host.continuations compartment entry, host.Built node.compartment := by
  intro node hmem
  cases entry with
  | own record =>
    obtain ⟨key, -, rfl⟩ := List.mem_map.1 hmem
    exact hbuilt
  | borrowed owner key record =>
    obtain rfl := List.mem_singleton.1 hmem
    exact hentry.2

@[simp] theorem abroad_record (owner : Ref .compartment) (entry : Entry) :
    (host.abroad owner entry).record = entry.record := by
  cases entry <;> rfl

theorem abroad_valid {owner : Ref .compartment} (hbuilt : host.Built owner) {entry : Entry}
    (hentry : entry.Valid host) : (host.abroad owner entry).Valid host := by
  cases entry with
  | own record => exact ⟨hentry, hbuilt⟩
  | borrowed owner key record => exact hentry

theorem promise?_of_entry {node : Node} {entry : Entry} (h : host.entryAt? node = some entry) :
    host.promise? node = some entry.record := by
  unfold promise?
  rw [h]

/-- A compartment that was not built has no memo. -/
theorem built_of_entry {node : Node} {entry : Entry} (h : host.entryAt? node = some entry) :
    host.Built node.compartment := by
  refine Decidable.byContradiction fun hnot => ?_
  have hnone : host.compartments.get? node.compartment = none := by
    simpa [Built, Arena.size, Arena.get?] using hnot
  simp only [entryAt?, compartment, hnone, Option.getD_none] at h
  cases h

theorem LoadsInOrder.delivered?_valid (h : host.LoadsInOrder) {node : Node} {delivery : Delivery}
    (hdelivered : host.delivered? node = some delivery) :
    delivery.Valid host ∧ host.promise? node = some delivery.entry.record := by
  obtain ⟨entry, hentry, rfl⟩ := Option.map_eq_some_iff.1 hdelivered
  have hvalid := h.memo node entry hentry
  exact ⟨⟨hvalid, continuations_built (built_of_entry hentry) hvalid⟩, promise?_of_entry hentry⟩

end Host

namespace LoadsAlike

variable {host host' : Host}

/-- New records, slots and namespaces leave the loading as it is. -/
theorem grows (h : LoadsAlike host host') (readies : host'.readies = host.readies)
    (drivers : host'.drivers = host.drivers) (verdicts : host'.verdicts = host.verdicts)
    (tasks : host'.tasks = host.tasks) (chronicle : host'.chronicle = host.chronicle)
    (records : host.records.Extends host'.records)
    (slots : host.store.slots.Extends host'.store.slots)
    (spaces : host.store.spaces.Extends host'.store.spaces)
    (newborn : ∀ ref record, host.records.get? ref = none →
      host'.records.get? ref = some record → record.Newborn host host')
    (placed : ∀ ref space, host.store.spaces.get? ref = none →
      host'.store.spaces.get? ref = some space → ∀ name slot, space.exports.get? name = some slot →
        host.store.slots.get? slot = none ∧ (host'.store.slots.get? slot).isSome)
    (distinct : ∀ ref other record record', host.records.get? ref = none →
      host.records.get? other = none → host'.records.get? ref = some record →
        host'.records.get? other = some record' → ref = other) : Grows host host' where
  readies := readies
  drivers := drivers
  verdicts := verdicts
  tasks := tasks
  labels := h.labels
  size := by rw [h.compartments]
  records := records
  slots := slots
  spaces := spaces
  newborn := newborn
  placed := placed
  settings ref := congrArg Compartment.settings (h.compartment ref)
  distinct ref other record record' hnone hnone' hsome hsome' _ _ _ :=
    distinct ref other record record' hnone hnone' hsome hsome'
  entryAt? node _ hentry := (h.entryAt? node).trans hentry
  promise? node _ hrecord := (h.promise? node).trans hrecord
  serves node load := (h.serves node load).2
  driven load bell work hload := by
    rw [h.loads]
    exact ⟨hload, h.loadAt? work.node⟩
  calm load bell work hload := by rwa [h.loads] at hload
  chronicle := ⟨[], chronicle, fun _ hmem => nomatch hmem⟩

end LoadsAlike

namespace Act

/-- What the interpretation of a descriptor comes to. -/
def Understood (result : Except Failure Interpreted) (host' : Host) : Prop :=
  match result with
  | .error _ => True
  | .ok (.entry entry) => entry.Valid host'
  | .ok (.elsewhere target) => host'.Built target.compartment

/-- One record more, and what its namespace needs. -/
theorem newRecord_loads {host : Host} (h : host.LoadsInOrder) (store : Store) (record : Record)
    (slots : host.store.slots.Extends store.slots) (spaces : host.store.spaces.Extends store.spaces)
    (placed : ∀ ref space, host.store.spaces.get? ref = none →
      store.spaces.get? ref = some space → ∀ name slot, space.exports.get? name = some slot →
        host.store.slots.get? slot = none ∧ (store.slots.get? slot).isSome)
    (newborn : record.Newborn host { host with store }) :
    ({ host with store, records := host.records.push record } : Host).LoadsInOrder ∧
      Grows host { host with store, records := host.records.push record } ∧
        Entry.Valid { host with store, records := host.records.push record }
          (.own host.records.next) := by
  have hextends := Arena.Extends.push host.records record
  have hlast (ref : Ref .record) (found : Record) (hnone : host.records.get? ref = none)
      (hsome : (host.records.push record).get? ref = some found) :
      ref = host.records.next ∧ found = record := Arena.get?_push_new hnone hsome
  have halike : LoadsAlike host { host with store, records := host.records.push record } :=
    ⟨rfl, rfl, rfl, rfl, fun _ => hextends.isSome, fun _ _ hmem => hmem⟩
  refine ⟨halike.loadsInOrder h, halike.grows rfl rfl rfl rfl rfl hextends slots spaces ?_ placed
    ?_, ?_⟩
  · intro ref found hnone hsome
    obtain ⟨-, rfl⟩ := hlast ref found hnone hsome
    exact ⟨newborn.home, newborn.ready, newborn.error, newborn.environment, newborn.sourced, newborn.exposed⟩
  · intro ref other found found' hnone hnone' hsome hsome'
    rw [(hlast ref found hnone hsome).1, (hlast other found' hnone' hsome').1]
  · change ((host.records.push record).get? _).isSome = true
    rw [Arena.get?_push, if_pos rfl]
    rfl

theorem newModule_loads {host : Host} (h : host.LoadsInOrder) {node : Node}
    (hnode : host.Built node.compartment) (source : Source) :
    (newModule node source).Loads host Understood := by
  refine .getBind ?_
  dsimp only
  split
  · exact .pure h trivial
  · rename_i requests _
    refine newRecord_loads h { host.store with
      spaces := host.store.spaces.push ⟨node.key, .empty, false⟩ } _ (.refl _) (.push _ _) ?_ ?_
    · intro ref space hnone hsome name slot hslot
      obtain ⟨-, rfl⟩ := Arena.get?_push_new hnone hsome
      cases hslot
    refine ⟨hnode, rfl, rfl, rfl, fun _ => ⟨rfl, Arena.get?_next _, node.key, ?_⟩,
      fun hnone => nomatch hnone⟩
    change (host.store.spaces.push _).get? _ = _
    rw [Arena.get?_push, if_pos rfl]

theorem newSlots_extends : ∀ (values : List (String × Value)) (store : Store),
    (Store.newSlots values store).2.spaces = store.spaces ∧
      store.slots.Extends (Store.newSlots values store).2.slots ∧
        ∀ name slot, (name, slot) ∈ (Store.newSlots values store).1 →
          store.slots.get? slot = none ∧
            ((Store.newSlots values store).2.slots.get? slot).isSome
  | [], store => ⟨rfl, .refl _, fun _ _ hmem => nomatch hmem⟩
  | (name, value) :: rest, store => by
    obtain ⟨hspaces, hslots, hnew⟩ :=
      newSlots_extends rest { store with slots := store.slots.push (some value) }
    have hpush : store.slots.Extends (store.slots.push (some value)) := .push _ _
    refine ⟨hspaces, hpush.trans hslots, fun name' slot hmem => ?_⟩
    rcases List.mem_cons.1 hmem with heq | hmem
    · cases heq
      refine ⟨Arena.get?_next _, hslots.isSome ?_⟩
      rw [Arena.get?_push, if_pos rfl]
      rfl
    · obtain ⟨hnone, hsome⟩ := hnew name' slot hmem
      refine ⟨?_, hsome⟩
      cases hold : store.slots.get? slot with
      | none => rfl
      | some old =>
        rw [hpush slot old hold] at hnone
        cases hnone

theorem newExposure_loads {host : Host} (h : host.LoadsInOrder) (store : Store)
    (slots : host.store.slots.Extends store.slots) (spaces : host.store.spaces.Extends store.spaces)
    (placed : ∀ ref space, host.store.spaces.get? ref = none →
      store.spaces.get? ref = some space → ∀ name slot, space.exports.get? name = some slot →
        host.store.slots.get? slot = none ∧ (store.slots.get? slot).isSome)
    {node : Node} (hnode : host.Built node.compartment) (space : Ref .exports) :
    After { host with store } (newExposure node space) fun result host' =>
      host'.LoadsInOrder ∧ Grows host host' ∧ Understood (.ok result) host' := by
  refine newRecord_loads h store _ slots spaces placed
    ⟨hnode, rfl, rfl, rfl, fun hsome => ?_, fun _ => ⟨rfl, rfl⟩⟩
  cases hsome

theorem interpret_loads {host : Host} (h : host.LoadsInOrder) {node : Node}
    (hnode : host.Built node.compartment) {descriptor : Descriptor}
    (hdescriptor : descriptor.Grounded host) :
    (interpret node descriptor).Loads host Understood := by
  unfold interpret
  split
  · exact newModule_loads h hnode _
  · exact newModule_loads h hnode _
  · exact newExposure_loads h host.store (.refl _) (.refl _)
      (fun _ _ hnone hsome => nomatch hnone.symm.trans hsome) hnode _
  · rename_i object
    obtain ⟨hspaces, hslots, hnew⟩ :=
      newSlots_extends (host.store.object object).properties.entries host.store
    refine newExposure_loads h (Store.snapshot node.key object host.store).2 hslots
      (hspaces ▸ Arena.Extends.push _ _) (fun ref space hnone hsome name slot hslot => ?_) hnode _
    rw [← hspaces] at hnone
    obtain ⟨-, rfl⟩ := Arena.get?_push_new hnone hsome
    exact hnew name slot (Table.mem_of_find hslot)
  · exact .pure h trivial
  · exact .pure h hdescriptor
  · split
    · exact .pure h trivial
    · exact .pure h hnode
  · rename_i key
    refine .getBind ?_
    split
    · rename_i owner howner
      exact .pure h (h.grounded.aliasOwner_built howner)
    · exact .pure h trivial

end Act

namespace Host

variable {host : Host}

theorem Serves.mono {host' : Host} {node : Node} {load : Ref .load} (h : host.Serves node load)
    (hload : host'.loads.get? load = host.loads.get? load)
    (hpromise : ∀ node record, host.promise? node = some record →
      host'.promise? node = some record) : host'.Serves node load := by
  unfold Serves at h ⊢
  rw [hload]
  split at h
  · exact h
  · exact h
  · exact h
  · exact hpromise _ _ h
  · trivial

section InFlight

variable {node : Node} {load : Ref .load} {work : LoadWork} {delivery : Delivery}

theorem loadedInFlight?_eq_some : host.loadedInFlight? load = some delivery ↔
    ∃ bell, host.loads.get? load = some ⟨bell, .done (.ok delivery)⟩ := by
  unfold loadedInFlight?
  cases host.loads.get? load with
  | none => simp
  | some shared =>
    obtain ⟨bell, progress⟩ := shared
    rcases progress with next | next | failure | found <;> simp [Shared.output?]

/-- A load in flight has not landed. -/
theorem InFlight.loadedInFlight? (h : host.InFlight load work) : host.loadedInFlight? load = none := by
  refine Option.eq_none_iff_forall_ne_some.2 fun delivery hlanded => ?_
  obtain ⟨bell, hdone⟩ := loadedInFlight?_eq_some.1 hlanded
  obtain ⟨bell', hidle | hdriven⟩ := h
  · cases hidle.symm.trans hdone
  · cases hdriven.symm.trans hdone

theorem Serves.node_eq (h : host.Serves node load) (hflight : host.InFlight load work) :
    work.node = node := by
  unfold Serves at h
  obtain ⟨bell, hidle | hdriven⟩ := hflight
  · rwa [hidle] at h
  · rwa [hdriven] at h

theorem Serves.delivered (h : host.Serves node load) {bell : Ref .bell}
    (hdone : host.loads.get? load = some ⟨bell, .done (.ok delivery)⟩) :
    host.promise? node = some delivery.entry.record := by
  unfold Serves at h
  rwa [hdone] at h

theorem LoadsInOrder.landed_valid (h : host.LoadsInOrder)
    (hlanded : host.loadedInFlight? load = some delivery) : delivery.Valid host := by
  obtain ⟨bell, hdone⟩ := loadedInFlight?_eq_some.1 hlanded
  exact h.delivered load bell delivery hdone

end InFlight

/-- The load of a node is noted, and nobody has looked at it yet. -/
def begun (host : Host) (node : Node) (bell : Ref .bell) : Host :=
  { host with
    loads := host.loads.push ⟨bell, .idle ⟨node, .fresh⟩⟩
    compartments := host.compartments.modify node.compartment fun compartment =>
      { compartment with loading := compartment.loading.insert node.key host.loads.next } }

theorem entryAt?_begun (node other : Node) (bell : Ref .bell) :
    (host.begun node bell).entryAt? other = host.entryAt? other := by
  have h : ((host.begun node bell).compartment other.compartment).memo =
      (host.compartment other.compartment).memo := by
    unfold begun
    change (Host.compartment { host with compartments := _ } _).memo = _
    rw [compartment_modify]
    split <;> rfl
  unfold entryAt?
  rw [h]

theorem loadAt?_begun {node : Node} (hnode : host.Built node.compartment) (other : Node)
    (bell : Ref .bell) : (host.begun node bell).loadAt? other =
      if node = other then some host.loads.next else host.loadAt? other := by
  unfold loadAt? begun
  change (Host.compartment { host with compartments := _ } _).loading.get? _ = _
  rw [compartment_modify]
  obtain ⟨compartment, key⟩ := node
  obtain ⟨compartment', key'⟩ := other
  by_cases hsame : compartment = compartment'
  · subst hsame
    rw [if_pos ⟨rfl, hnode⟩]
    dsimp only
    rw [Table.get?_insert]
    by_cases hkey : key = key' <;> simp [hkey]
  · simp [hsame]

section Begun

variable {node other : Node} {bell : Ref .bell} {load : Ref .load}

theorem begun_loadAt? (hkept : (host.begun node bell).loadAt? other = some load) :
    host.loadAt? other = some load ∨ other = node ∧ load = host.loads.next := by
  unfold loadAt? begun at hkept
  change (Host.compartment { host with compartments := _ } _).loading.get? _ = _ at hkept
  rw [compartment_modify] at hkept
  obtain ⟨compartment, key⟩ := node
  obtain ⟨compartment', key'⟩ := other
  split at hkept
  · rename_i hsame
    dsimp only at hkept
    rw [Table.get?_insert] at hkept
    split at hkept
    · rename_i hkey
      cases hkept
      cases hsame.1
      cases hkey
      exact .inr ⟨rfl, rfl⟩
    · exact .inl hkept
  · exact .inl hkept

theorem get?_begun : (host.begun node bell).loads.get? load =
    if load = host.loads.next then some ⟨bell, .idle ⟨node, .fresh⟩⟩ else host.loads.get? load :=
  Arena.get?_push _ _ _

/-- A load that is there once another has begun was there before, or is the one that has begun. -/
theorem begun_cases {shared : Shared LoadWork (Except Failure Delivery)}
    (hget : (host.begun node bell).loads.get? load = some shared) :
    host.loads.get? load = some shared ∨
      load = host.loads.next ∧ shared = ⟨bell, .idle ⟨node, .fresh⟩⟩ := by
  rw [get?_begun] at hget
  split at hget
  · rename_i hnext
    exact .inr ⟨hnext, (Option.some.inj hget).symm⟩
  · exact .inl hget

theorem begun_inFlight {work : LoadWork} (hflight : (host.begun node bell).InFlight load work) :
    host.InFlight load work ∨ load = host.loads.next ∧ work = ⟨node, .fresh⟩ := by
  obtain ⟨bell', hwork | hwork⟩ := hflight
  · rcases begun_cases hwork with hold | ⟨hnext, hnew⟩
    · exact .inl ⟨bell', .inl hold⟩
    · cases hnew
      exact .inr ⟨hnext, rfl⟩
  · rcases begun_cases hwork with hold | ⟨-, hnew⟩
    · exact .inl ⟨bell', .inr hold⟩
    · cases hnew

theorem loadedInFlight?_begun (load : Ref .load) :
    (host.begun node bell).loadedInFlight? load = host.loadedInFlight? load := by
  unfold loadedInFlight?
  rw [get?_begun]
  by_cases hnext : load = host.loads.next
  · rw [if_pos hnext, hnext, Arena.get?_next]
    rfl
  · rw [if_neg hnext]

/-- A load that has only begun has made nothing yet. -/
theorem promise?_begun (hnode : host.Built node.compartment) (hload : host.loadAt? node = none)
    (other : Node) : (host.begun node bell).promise? other = host.promise? other := by
  have hnext : (host.begun node bell).loadedInFlight? host.loads.next = none := by
    unfold loadedInFlight?
    rw [get?_begun, if_pos rfl]
    rfl
  unfold promise?
  rw [entryAt?_begun, loadAt?_begun hnode, funext loadedInFlight?_begun]
  rw [loadedInFlight?_begun] at hnext
  split
  · rfl
  · split
    · rename_i hother
      subst hother
      simp [hload, hnext]
    · rfl

theorem serves_begun (hnode : host.Built node.compartment) (hload : host.loadAt? node = none)
    (hserves : host.Serves other load) : (host.begun node bell).Serves other load := by
  refine hserves.mono ?_ fun other _ => (promise?_begun hnode hload other).trans
  rw [get?_begun, if_neg]
  rintro rfl
  unfold Serves at hserves
  rw [Arena.get?_next] at hserves
  exact hserves

theorem serves_begun_next : (host.begun node bell).Serves node host.loads.next := by
  unfold Serves
  rw [get?_begun, if_pos rfl]
  rfl

/-- A load in flight is not that of a node that keeps none. -/
theorem LoadsInOrder.loadAt?_begun_of_flight (h : host.LoadsInOrder)
    (hnode : host.Built node.compartment) (hload : host.loadAt? node = none) {work : LoadWork}
    (hflight : host.InFlight load work) :
    (host.begun node bell).loadAt? work.node = host.loadAt? work.node := by
  obtain ⟨-, hkept, -⟩ := h.flight load work hflight
  rw [loadAt?_begun hnode, if_neg]
  rintro rfl
  rw [hload] at hkept
  cases hkept

theorem LoadsInOrder.grows_begun (h : host.LoadsInOrder) (hnode : host.Built node.compartment)
    (hload : host.loadAt? node = none) : Grows host (host.begun node bell) where
  readies := rfl
  drivers := rfl
  verdicts := rfl
  tasks := rfl
  labels := rfl
  size := Arena.size_modify _ _ _
  records := .refl _
  slots := .refl _
  spaces := .refl _
  newborn _ _ hnone hsome := nomatch hnone.symm.trans hsome
  placed _ _ hnone hsome := nomatch hnone.symm.trans hsome
  settings ref := by
    unfold begun
    change (Host.compartment { host with compartments := _ } _).settings = _
    rw [compartment_modify]
    split <;> rfl
  distinct _ _ _ _ hnone _ hsome := nomatch hnone.symm.trans hsome
  entryAt? other _ := (entryAt?_begun node other bell).trans
  promise? other _ := (promise?_begun hnode hload other).trans
  serves _ _ := serves_begun hnode hload
  driven _ bell' _ hdriven :=
    ⟨(Arena.Extends.push _ _) _ _ hdriven, h.loadAt?_begun_of_flight hnode hload ⟨bell', .inr hdriven⟩⟩
  calm _ _ _ hdriven := by
    rcases begun_cases hdriven with hold | ⟨-, hnew⟩
    · exact hold
    · cases hnew
  chronicle := ⟨[], rfl, fun _ hmem => nomatch hmem⟩

theorem Grounded.begun (h : host.Grounded) : (host.begun node bell).Grounded := by
  have hmodify := h.modify node.compartment
    (f := fun compartment =>
      { compartment with loading := compartment.loading.insert node.key host.loads.next })
    (fun _ => rfl) fun _ => rfl
  exact ⟨hmodify.labels, hmodify.parents, hmodify.tables, hmodify.calls⟩

theorem LoadsInOrder.begun (h : host.LoadsInOrder) (hnode : host.Built node.compartment)
    (hentry : host.entryAt? node = none) (hload : host.loadAt? node = none) (bell : Ref .bell) :
    (host.begun node bell).LoadsInOrder := by
  have hgrows : Grows host (host.begun node bell) := h.grows_begun hnode hload
  refine ⟨h.grounded.begun, ?_, ?_, ?_, ?_, ?_⟩
  · intro other entry hother
    rw [entryAt?_begun] at hother
    exact hgrows.entry_valid (h.memo other entry hother)
  · intro other load hkept
    rw [loadAt?_begun hnode] at hkept
    rw [entryAt?_begun]
    split at hkept
    · rename_i hother
      subst hother
      cases hkept
      exact ⟨hentry, serves_begun_next⟩
    · obtain ⟨hnone, hserves⟩ := h.kept other load hkept
      exact ⟨hnone, serves_begun hnode hload hserves⟩
  · intro load work hflight
    rcases begun_inFlight hflight with hold | ⟨rfl, rfl⟩
    · obtain ⟨hbuilt, hkept, hstage⟩ := h.flight load work hold
      exact ⟨(hgrows.built _).2 hbuilt, (h.loadAt?_begun_of_flight hnode hload hold).trans hkept,
        hgrows.stage_valid hstage⟩
    · refine ⟨(hgrows.built _).2 hnode, ?_, trivial⟩
      rw [loadAt?_begun hnode, if_pos rfl]
  · intro load bell' delivery hdone
    rcases begun_cases hdone with hold | ⟨-, hnew⟩
    · exact hgrows.delivery_valid (h.delivered load bell' delivery hold)
    · cases hnew
  · exact hgrows.stands h rfl

end Begun

end Host

theorem Act.loadOf_loads {host : Host} (h : host.LoadsInOrder) {node : Node}
    (hnode : host.Built node.compartment) :
    (loadOf node).Loads host fun result host' => match result with
      | .already delivery =>
        delivery.Valid host' ∧ host'.promise? node = some delivery.entry.record
      | .shared load => host'.Serves node load := by
  refine .getBind ?_
  split
  · rename_i delivery hdelivered
    exact .pure h (h.delivered?_valid hdelivered)
  · rename_i hdelivered
    split
    · rename_i load hload
      exact .pure h (h.kept node load hload).2
    · rename_i hload
      have hentry : host.entryAt? node = none := by
        simpa [Host.delivered?] using hdelivered
      refine Loads.bind (.quiet newBell_aside.quiet h) fun bell belled hbelled _ hquiet => ?_
      have hnode' := (hquiet.built _).2 hnode
      have hload' := (hquiet.loadAt? node).trans hload
      exact ⟨hbelled.begun hnode' ((hquiet.entryAt? node).trans hentry) hload' bell,
        hbelled.grows_begun hnode' hload', Host.serves_begun_next⟩

namespace Host

variable {host : Host} {load : Ref .load} {work : LoadWork}

/-- A load in flight has not landed, so its node stands for nothing yet. -/
theorem LoadsInOrder.promise?_inFlight (h : host.LoadsInOrder) (hflight : host.InFlight load work) :
    host.promise? work.node = none := by
  obtain ⟨-, hkept, -⟩ := h.flight load work hflight
  have hentry := (h.kept _ _ hkept).1
  unfold promise?
  rw [hentry, hkept]
  simp [hflight.loadedInFlight?]

/-- Two loads in flight for one node are one. -/
theorem LoadsInOrder.inFlight_unique (h : host.LoadsInOrder) {other : Ref .load}
    {work' : LoadWork} (hflight : host.InFlight load work) (hflight' : host.InFlight other work')
    (hnode : work.node = work'.node) : load = other := by
  have hkept := (h.flight load work hflight).2.1
  have hkept' := (h.flight other work' hflight').2.1
  rw [hnode, hkept'] at hkept
  exact (Option.some.inj hkept).symm

/-- No alias stands for anything before somebody drives its load. -/
theorem LoadsInOrder.no_stands (h : host.LoadsInOrder) {bell : Ref .bell}
    (hidle : host.loads.get? load = some ⟨bell, .idle work⟩) :
    ¬ host.Driven work.node ∧ ∀ target, Milestone.stands work.node target ∉ host.chronicle := by
  have hflight : host.InFlight load work := ⟨bell, .inl hidle⟩
  have hdriven : ¬ host.Driven work.node := by
    rintro ⟨other, bell', work', hother, hnode⟩
    obtain rfl := h.inFlight_unique hflight ⟨bell', .inr hother⟩ hnode.symm
    rw [hidle] at hother
    cases hother
  refine ⟨hdriven, fun target hmem => ?_⟩
  obtain ⟨record, -, hpromise | hnode⟩ := h.stands work.node target hmem
  · rw [h.promise?_inFlight hflight] at hpromise
    cases hpromise
  · exact hdriven hnode

/-- What a load in flight may become. -/
def MayBecome (host : Host) (work : LoadWork) : Progress LoadWork (Except Failure Delivery) → Prop
  | .idle next => next.node = work.node ∧ next.stage.Valid host
  | .driven next => next.node = work.node ∧ next.stage.Valid host
  | .done (.ok delivery) => delivery.Valid host
  | .done (.error _) => True

section
variable {bell : Ref .bell} {progress : Progress LoadWork (Except Failure Delivery)}

theorem get?_put (hflight : host.InFlight load work) (other : Ref .load) :
    (Shelf.loads.put host load ⟨bell, progress⟩).loads.get? other =
      if load = other then some ⟨bell, progress⟩ else host.loads.get? other := by
  change (host.loads.set load _).get? other = _
  rw [Arena.get?_set]
  split
  · rename_i hload
    subst hload
    obtain ⟨bell', hidle | hdriven⟩ := hflight
    · rw [hidle]
      rfl
    · rw [hdriven]
      rfl
  · rfl

theorem entryAt?_put (node : Node) :
    (Shelf.loads.put host load ⟨bell, progress⟩).entryAt? node = host.entryAt? node :=
  rfl

theorem loadAt?_put (node : Node) :
    (Shelf.loads.put host load ⟨bell, progress⟩).loadAt? node = host.loadAt? node :=
  rfl

theorem promise?_put (hflight : host.InFlight load work) {node : Node} {record : Ref .record}
    (h : host.promise? node = some record) :
    (Shelf.loads.put host load ⟨bell, progress⟩).promise? node = some record := by
  unfold promise? at h ⊢
  rw [entryAt?_put, loadAt?_put]
  cases hentry : host.entryAt? node with
  | some entry => rwa [hentry] at h
  | none =>
    rw [hentry] at h
    obtain ⟨delivery, hdelivery, hrecord⟩ := Option.map_eq_some_iff.1 h
    obtain ⟨other, hkept, hlanded⟩ := Option.bind_eq_some_iff.1 hdelivery
    have hother : load ≠ other := by
      rintro rfl
      cases hflight.loadedInFlight?.symm.trans hlanded
    have hlanded' : (Shelf.loads.put host load ⟨bell, progress⟩).loadedInFlight? other =
        some delivery := by
      unfold loadedInFlight? at hlanded ⊢
      rw [get?_put hflight, if_neg hother]
      exact hlanded
    simp [hkept, hlanded', hrecord]

theorem serves_put (h : host.LoadsInOrder) (hflight : host.InFlight load work)
    (hnext : host.MayBecome work progress) {node : Node} {other : Ref .load}
    (hserves : host.Serves node other) :
    (Shelf.loads.put host load ⟨bell, progress⟩).Serves node other := by
  by_cases hother : load = other
  · subst hother
    obtain rfl := hserves.node_eq hflight
    unfold Serves
    rw [get?_put hflight, if_pos rfl]
    obtain ⟨-, hkept, -⟩ := h.flight load work hflight
    have hentry := (h.kept _ _ hkept).1
    match progress, hnext with
    | .idle next, hnext => exact hnext.1
    | .driven next, hnext => exact hnext.1
    | .done (.error failure), _ => trivial
    | .done (.ok delivery), _ =>
      simp only [Option.map_some, promise?, entryAt?_put, loadAt?_put, hentry, hkept,
        loadedInFlight?, Option.bind_some, get?_put hflight, if_true]
      rfl
  · refine hserves.mono ?_ fun _ _ => promise?_put hflight
    rw [get?_put hflight, if_neg hother]

theorem stage_valid_put (h : host.LoadsInOrder) (hflight : host.InFlight load work)
    (hnext : host.MayBecome work progress) {stage : LoadStage} (hstage : stage.Valid host) :
    stage.Valid (Shelf.loads.put host load ⟨bell, progress⟩) := by
  cases stage with
  | fresh => trivial
  | describing call => trivial
  | following visited node call => exact hstage
  | borrowing target watch => exact ⟨hstage.1, serves_put h hflight hnext hstage.2⟩

theorem put_loadsInOrder (h : host.LoadsInOrder) (hflight : host.InFlight load work)
    (hnext : host.MayBecome work progress)
    (hstands : ∀ target, Milestone.stands work.node target ∉ host.chronicle) :
    (Shelf.loads.put host load ⟨bell, progress⟩).LoadsInOrder := by
  obtain ⟨hbuilt, hkept, -⟩ := h.flight load work hflight
  refine ⟨?_, h.memo, ?_, ?_, ?_, ?_⟩
  · exact ⟨h.grounded.labels, h.grounded.parents, h.grounded.tables, h.grounded.calls⟩
  · intro node other hother
    exact ⟨(h.kept node other hother).1, serves_put h hflight hnext (h.kept node other hother).2⟩
  · rintro other work' ⟨bell', hwork⟩
    rw [get?_put hflight] at hwork
    by_cases hother : load = other
    · subst hother
      rw [if_pos rfl] at hwork
      have hvalid : work'.node = work.node ∧ work'.stage.Valid host := by
        rcases hwork with hwork | hwork
        · cases hwork
          exact hnext
        · cases hwork
          exact hnext
      rw [hvalid.1]
      exact ⟨hbuilt, hkept, stage_valid_put h hflight hnext hvalid.2⟩
    · rw [if_neg hother] at hwork
      obtain ⟨hbuilt', hkept', hstage'⟩ := h.flight other work' ⟨bell', hwork⟩
      exact ⟨hbuilt', hkept', stage_valid_put h hflight hnext hstage'⟩
  · intro other bell' delivery hdone
    rw [get?_put hflight] at hdone
    split at hdone
    · cases hdone
      exact ⟨hnext.entry, hnext.built⟩
    · have hdelivery := h.delivered other bell' delivery hdone
      exact ⟨hdelivery.entry, hdelivery.built⟩
  · intro node target hmem
    obtain ⟨record, htarget, hnode⟩ := h.stands node target hmem
    refine ⟨record, promise?_put hflight htarget, hnode.imp (promise?_put hflight) ?_⟩
    rintro ⟨other, bell', work', hother, rfl⟩
    refine ⟨other, bell', work', ?_, rfl⟩
    rw [get?_put hflight, if_neg]
    · exact hother
    · rintro rfl
      refine hstands target ?_
      have hwork := h.flight load work hflight
      have hnode : work'.node = work.node := by
        obtain ⟨bell'', hidle | hdriven⟩ := hflight
        · rw [hother] at hidle
          cases hidle
        · rw [hother] at hdriven
          cases hdriven
          rfl
      rw [← hnode]
      exact hmem

/-- An alias and the target that it was followed to stand for one record. -/
theorem marked_loadsInOrder (h : host.LoadsInOrder) {marks : List Milestone}
    (hmarks : ∀ mark ∈ marks, ∃ node target record, mark = .stands node target ∧
      host.promise? target = some record ∧ host.promise? node = some record) :
    ({ host with chronicle := marks ++ host.chronicle } : Host).LoadsInOrder := by
  refine ⟨⟨h.grounded.labels, h.grounded.parents, h.grounded.tables, h.grounded.calls⟩,
    h.memo, h.kept, ?_, ?_, ?_⟩
  · intro load work hwork
    obtain ⟨hbuilt, hkept, hstage⟩ := h.flight load work hwork
    refine ⟨hbuilt, hkept, ?_⟩
    cases hwork : work.stage <;> rw [hwork] at hstage <;> exact hstage
  · intro load bell delivery hdone
    have hdelivery := h.delivered load bell delivery hdone
    exact ⟨hdelivery.entry, hdelivery.built⟩
  · intro node target hmem
    rcases List.mem_append.1 hmem with hmem | hmem
    · obtain ⟨node', target', record, heq, htarget, hnode⟩ := hmarks _ hmem
      cases heq
      exact ⟨record, htarget, .inl hnode⟩
    · exact h.stands node target hmem

/-- What the driving of one load comes to for everybody else. -/
theorem grows_around {after : Host} (h : host.LoadsInOrder)
    (hidle : host.loads.get? load = some ⟨bell, .idle work⟩)
    (hgrows : Grows (Shelf.loads.put host load ⟨bell, .driven work⟩) after)
    (hafter : after.LoadsInOrder) (hnext : after.MayBecome work progress)
    (hstop : ∀ work, progress ≠ .driven work) (marks : List Milestone)
    (hmarks : ∀ mark ∈ marks, ∃ target, mark = .stands work.node target) :
    Grows host { Shelf.loads.put after load ⟨bell, progress⟩ with
      chronicle := marks ++ after.chronicle } := by
  have hflight : host.InFlight load work := ⟨bell, .inl hidle⟩
  have hdriven : after.loads.get? load = some ⟨bell, .driven work⟩ := by
    refine (hgrows.driven load bell work ?_).1
    rw [get?_put hflight, if_pos rfl]
  have hflight' : after.InFlight load work := ⟨bell, .inr hdriven⟩
  have hmay : host.MayBecome work (.driven work) := ⟨rfl, (h.flight load work hflight).2.2⟩
  -- Whoever else is driven was driven all the time, as this load was idle before.
  have hother {other : Ref .load} {bell' : Ref .bell} {work' : LoadWork}
      (hdriven : host.loads.get? other = some ⟨bell', .driven work'⟩) : load ≠ other := by
    rintro rfl
    rw [hidle] at hdriven
    cases hdriven
  have hput {other : Ref .load} {bell' : Ref .bell} {work' : LoadWork}
      (hdriven : host.loads.get? other = some ⟨bell', .driven work'⟩) :
      (Shelf.loads.put host load ⟨bell, .driven work⟩).loads.get? other =
        some ⟨bell', .driven work'⟩ := by
    rw [get?_put hflight, if_neg (hother hdriven)]
    exact hdriven
  refine ⟨hgrows.readies, hgrows.drivers, hgrows.verdicts, hgrows.tasks, hgrows.labels,
    hgrows.size, hgrows.records, hgrows.slots, hgrows.spaces, ?_, hgrows.placed, hgrows.settings,
    hgrows.distinct,
    hgrows.entryAt?, ?_, ?_, ?_, ?_, ?_⟩
  · intro ref record hnone hsome
    have hnew := hgrows.newborn ref record hnone hsome
    exact ⟨hnew.home, hnew.ready, hnew.error, hnew.environment, hnew.sourced, hnew.exposed⟩
  · intro node record hrecord
    exact promise?_put hflight' (hgrows.promise? node record (promise?_put hflight hrecord))
  · intro node other hserves
    exact serves_put hafter hflight' hnext
      (hgrows.serves node other (serves_put h hflight hmay hserves))
  · intro other bell' work' hdriven'
    obtain ⟨hdriven'', hkept⟩ := hgrows.driven other bell' work' (hput hdriven')
    refine ⟨?_, hkept⟩
    change (Shelf.loads.put after load ⟨bell, progress⟩).loads.get? other = _
    rw [get?_put hflight', if_neg (hother hdriven')]
    exact hdriven''
  · intro other bell' work' hdriven'
    change (Shelf.loads.put after load ⟨bell, progress⟩).loads.get? other = _ at hdriven'
    rw [get?_put hflight'] at hdriven'
    split at hdriven'
    · cases hdriven'
      exact absurd rfl (hstop work')
    · rename_i hne
      have hbefore := hgrows.calm other bell' work' hdriven'
      rwa [get?_put hflight, if_neg hne] at hbefore
  · obtain ⟨marks', hmarks', hall⟩ := hgrows.chronicle
    refine ⟨marks ++ marks', ?_, fun mark hmem => ?_⟩
    · change marks ++ after.chronicle = marks ++ marks' ++ host.chronicle
      rw [hmarks', List.append_assoc]
      rfl
    · rcases List.mem_append.1 hmem with hmem | hmem
      · obtain ⟨target, rfl⟩ := hmarks mark hmem
        exact ⟨work.node, target, rfl, (h.no_stands hidle).1⟩
      · obtain ⟨node, target, rfl, hnot⟩ := hall mark hmem
        refine ⟨node, target, rfl, ?_⟩
        rintro ⟨other, bell', work', hdriven', rfl⟩
        exact hnot ⟨other, bell', work', hput hdriven', rfl⟩

end

end Host

namespace LoadWork

/-- What a step of a shallow load comes to that begins in `host`. The milestone of an alias is written
last, and its load has not ended then. -/
def Stepped (host : Host) (work : LoadWork) (result : Poll LoadWork (Except Failure Delivery))
    (host' : Host) : Prop :=
  match result with
  | .pending next => host'.LoadsInOrder ∧ Grows host host' ∧
      host'.MayBecome work (.idle next)
  | .ready (.error _) => host'.LoadsInOrder ∧ Grows host host'
  | .ready (.ok delivery) => ∃ (before : Host) (marks : List Milestone),
      before.LoadsInOrder ∧ Grows host before ∧ delivery.Valid before ∧
        host' = { before with chronicle := marks ++ before.chronicle } ∧
          ∀ mark ∈ marks, ∃ target, mark = .stands work.node target ∧
            before.promise? target = some delivery.entry.record

theorem Stepped.after {host middle host' : Host} {work : LoadWork}
    {result : Poll LoadWork (Except Failure Delivery)} (hgrows : Grows host middle)
    (h : Stepped middle work result host') : Stepped host work result host' := by
  match result, h with
  | .pending next, ⟨horder, hgrows', hnext⟩ => exact ⟨horder, hgrows.trans hgrows', hnext⟩
  | .ready (.error failure), ⟨horder, hgrows'⟩ => exact ⟨horder, hgrows.trans hgrows'⟩
  | .ready (.ok delivery), ⟨before, marks, horder, hgrows', hrest⟩ =>
    exact ⟨before, marks, horder, hgrows.trans hgrows', hrest⟩

/-- An action of loading, and then a step. -/
theorem stepped_bind {α : Type} {host : Host} {work : LoadWork} {act : Act α}
    {next : α → Act (Poll LoadWork (Except Failure Delivery))} {post : α → Host → Prop}
    (hact : act.Loads host post)
    (hnext : ∀ result host', host'.LoadsInOrder → Grows host host' → post result host' →
      After host' (next result) (Stepped host' work)) :
    After host (act >>= next) (Stepped host work) := by
  obtain ⟨horder, hgrows, hpost⟩ := hact
  exact Stepped.after hgrows (hnext _ _ horder hgrows hpost)

/-- A look at a shallow load keeps everything in order, and finds the record of its node. -/
def Look.Sound (look : Look) : Prop :=
  ∀ (host : Host) (node : Node) (watch : Watch .load) (waker : Waker),
    host.LoadsInOrder → host.Serves node watch.job →
      (look watch waker).Loads host fun result host' => match result with
        | .pending next => next.job = watch.job
        | .ready (.error _) => True
        | .ready (.ok delivery) =>
          delivery.Valid host' ∧ host'.promise? node = some delivery.entry.record

variable {look : Look} {host : Host} {work : LoadWork} {waker : Waker}

theorem adopt_stepped (h : host.LoadsInOrder) {target : Node} (htarget : host.Built target.compartment)
    {loaded : Except Failure Delivery}
    (hloaded : ∀ delivery, loaded = .ok delivery →
      delivery.Valid host ∧ host.promise? target = some delivery.entry.record) :
    After host (do return Poll.ready (← work.adopt target loaded)) (Stepped host work) := by
  cases loaded with
  | error failure => exact ⟨h, .refl host⟩
  | ok delivery =>
    obtain ⟨hvalid, hpromise⟩ := hloaded delivery rfl
    refine ⟨host, [.stands work.node target], h, .refl host, ⟨?_, ?_⟩, rfl, ?_⟩
    · dsimp only
      split
      · exact hvalid.entry
      · exact Host.abroad_valid htarget hvalid.entry
    · intro node hmem
      obtain rfl := List.mem_singleton.1 hmem
      exact htarget
    · intro mark hmem
      obtain rfl := List.mem_singleton.1 hmem
      refine ⟨target, rfl, ?_⟩
      dsimp only
      split
      · exact hpromise
      · rw [Host.abroad_record]
        exact hpromise

theorem awaitLoad_stepped (hlook : look.Sound) (h : host.LoadsInOrder) {target : Node}
    (htarget : host.Built target.compartment) {watch : Watch .load}
    (hserves : host.Serves target watch.job) :
    After host (work.awaitLoad look target watch waker) (Stepped host work) := by
  refine stepped_bind (hlook host target watch waker h hserves)
    fun result looked hlooked hgrows hpost => ?_
  have htarget := (hgrows.built _).2 htarget
  cases result with
  | pending next =>
    have hnext : next.job = watch.job := hpost
    exact ⟨hlooked, .refl looked, rfl, htarget, hnext ▸ hgrows.serves target _ hserves⟩
  | ready loaded =>
    refine adopt_stepped hlooked htarget fun delivery hdelivery => ?_
    subst hdelivery
    exact hpost

theorem borrow_stepped (hlook : look.Sound) (h : host.LoadsInOrder) {target : Node}
    (htarget : host.Built target.compartment) :
    After host (work.borrow look target waker) (Stepped host work) := by
  refine stepped_bind (Act.loadOf_loads h htarget) fun result after hafter hgrows hpost => ?_
  have htarget := (hgrows.built _).2 htarget
  cases result with
  | already delivery =>
    refine adopt_stepped hafter htarget fun other hother => ?_
    cases hother
    exact hpost
  | shared load => exact awaitLoad_stepped hlook hafter htarget hpost

/-- Obtaining a descriptor, as an action of loading. -/
theorem obtained_loads {rest : Type} {act : Act (Poll rest (Except Failure Descriptor))}
    (h : host.LoadsInOrder) (hact : After host act (Act.Obtained host)) :
    act.Loads host fun result host' => Quiet host host' ∧
      ∀ descriptor, result = .ready (.ok descriptor) → descriptor.Grounded host' :=
  ⟨hact.1.loadsInOrder h, hact.1.grows, hact.1, hact.2 h.grounded⟩

/-- Both ways of going on along a chain of aliases, by induction on the patience left. -/
theorem follow_arrive_stepped (hlook : look.Sound) : ∀ fuel : Nat,
    (∀ (host : Host) (visited : List Node) (node : Node), host.LoadsInOrder →
      host.Built node.compartment →
        After host (work.follow look waker fuel visited node) (Stepped host work)) ∧
    (∀ (host : Host) (visited : List Node) (node : Node) (described : Except Failure Descriptor),
      host.LoadsInOrder → host.Built node.compartment →
        (∀ descriptor, described = .ok descriptor → descriptor.Grounded host) →
          After host (work.arrive look waker fuel visited node described)
            (Stepped host work)) := by
  intro fuel
  induction fuel with
  | zero =>
    refine ⟨fun host visited node h _ => ?_, fun host visited node described h _ _ => ?_⟩
    · unfold follow
      exact ⟨h, .refl host⟩
    · unfold arrive
      exact ⟨h, .refl host⟩
  | succ fuel ih =>
    refine ⟨fun host visited node h hnode => ?_, fun host visited node described h hnode hd => ?_⟩
    · unfold follow
      split
      · exact ⟨h, .refl host⟩
      · rw [after_bind, after_get]
        split
        · exact borrow_stepped hlook h hnode
        · refine stepped_bind (obtained_loads h (Act.describe_obtained host node waker))
            fun result after hafter _ hpost => ?_
          have hnode := (hpost.1.built _).2 hnode
          cases result with
          | pending call => exact ⟨hafter, .refl after, rfl, hnode⟩
          | ready described =>
            refine ih.2 after _ node described hafter hnode fun descriptor hdescriptor => ?_
            exact hpost.2 descriptor (hdescriptor ▸ rfl)
    · unfold arrive
      cases described with
      | error failure => exact ⟨h, .refl host⟩
      | ok descriptor =>
        dsimp only
        rw [after_bind, after_get]
        split
        · exact ⟨h, .refl host⟩
        · rename_i next hpoints
          exact ih.1 host visited next h
            (h.grounded.pointsTo_built hnode (hd descriptor rfl) hpoints)
        · exact borrow_stepped hlook h hnode

theorem interpret_stepped (hlook : look.Sound) (h : host.LoadsInOrder)
    (hnode : host.Built work.node.compartment) {described : Except Failure Descriptor}
    (hd : ∀ descriptor, described = .ok descriptor → descriptor.Grounded host) :
    After host (work.interpret look waker described) (Stepped host work) := by
  unfold interpret
  cases described with
  | error failure => exact ⟨h, .refl host⟩
  | ok descriptor =>
    refine stepped_bind (Act.interpret_loads h hnode (hd descriptor rfl))
      fun result after hafter hgrows hpost => ?_
    have hnode := (hgrows.built _).2 hnode
    match result, hpost with
    | .error failure, _ => exact ⟨hafter, .refl after⟩
    | .ok (.entry entry), hentry =>
      refine ⟨after, [], hafter, .refl after, ⟨hentry, ?_⟩, rfl, fun _ hmem => nomatch hmem⟩
      exact Host.continuations_built hnode hentry
    | .ok (.elsewhere target), htarget =>
      exact (follow_arrive_stepped hlook _).1 after _ target hafter htarget

theorem proceed_stepped (hlook : look.Sound) (h : host.LoadsInOrder)
    (hnode : host.Built work.node.compartment) (hstage : work.stage.Valid host) :
    After host (work.proceed look waker) (Stepped host work) := by
  unfold proceed
  split
  · rw [after_bind, after_get]
    split
    · rename_i delivery hdelivered
      exact ⟨host, [], h, .refl host, (h.delivered?_valid hdelivered).1, rfl,
        fun _ hmem => nomatch hmem⟩
    · refine stepped_bind (obtained_loads h (Act.describe_obtained host work.node waker))
        fun result after hafter _ hpost => ?_
      cases result with
      | pending call => exact ⟨hafter, .refl after, rfl, trivial⟩
      | ready described =>
        refine interpret_stepped hlook hafter ((hpost.1.built _).2 hnode) fun descriptor hd => ?_
        exact hpost.2 descriptor (hd ▸ rfl)
  · rename_i call _
    refine stepped_bind (obtained_loads h (Act.awaitCall_obtained host work.node call waker))
      fun result after hafter _ hpost => ?_
    cases result with
    | pending call => exact ⟨hafter, .refl after, rfl, trivial⟩
    | ready described =>
      refine interpret_stepped hlook hafter ((hpost.1.built _).2 hnode) fun descriptor hd => ?_
      exact hpost.2 descriptor (hd ▸ rfl)
  · rename_i visited node call hwork
    rw [hwork] at hstage
    refine stepped_bind (obtained_loads h (Act.awaitCall_obtained host node call waker))
      fun result after hafter _ hpost => ?_
    have hnode' := (hpost.1.built _).2 hstage
    cases result with
    | pending call => exact ⟨hafter, .refl after, rfl, hnode'⟩
    | ready described =>
      rw [after_bind, after_get]
      refine (follow_arrive_stepped hlook _).2 after _ node described hafter hnode' ?_
      exact fun descriptor hd => hpost.2 descriptor (hd ▸ rfl)
  · rename_i target watch hwork
    rw [hwork] at hstage
    exact awaitLoad_stepped hlook h hstage.1 hstage.2

end LoadWork

/-- A compartment may change as long as its memo and what is in flight there stay. -/
theorem Grows.modify {host : Host} (ref : Ref .compartment) {f : Compartment → Compartment}
    (hsettings : ∀ compartment, (f compartment).settings = compartment.settings)
    (hentry : ∀ node entry, host.entryAt? node = some entry →
      Host.entryAt? { host with compartments := host.compartments.modify ref f } node = some entry)
    (hpromise : ∀ node record, host.promise? node = some record →
      Host.promise? { host with compartments := host.compartments.modify ref f } node = some record)
    (hkept : ∀ load work, host.InFlight load work →
      Host.loadAt? { host with compartments := host.compartments.modify ref f } work.node =
        host.loadAt? work.node) :
    Grows host { host with compartments := host.compartments.modify ref f } where
  readies := rfl
  drivers := rfl
  verdicts := rfl
  tasks := rfl
  labels := rfl
  size := Arena.size_modify _ _ _
  records := .refl _
  slots := .refl _
  spaces := .refl _
  newborn _ _ hnone hsome := nomatch hnone.symm.trans hsome
  placed _ _ hnone hsome := nomatch hnone.symm.trans hsome
  settings other := by
    rw [Host.compartment_modify]
    split
    · exact hsettings _
    · rfl
  distinct _ _ _ _ hnone _ hsome := nomatch hnone.symm.trans hsome
  entryAt? := hentry
  promise? := hpromise
  serves _ _ hserves := hserves.mono rfl hpromise
  driven load bell work hdriven := ⟨hdriven, hkept load work ⟨bell, .inr hdriven⟩⟩
  calm _ _ _ hdriven := hdriven
  chronicle := ⟨[], rfl, fun _ hmem => nomatch hmem⟩

namespace Host

variable {host : Host}

/-- The load of a node is not kept any more. -/
def letGo (host : Host) (node : Node) : Host :=
  { host with compartments := host.compartments.modify node.compartment fun compartment =>
      { compartment with loading := compartment.loading.erase node.key } }

theorem entryAt?_letGo (node other : Node) :
    (host.letGo node).entryAt? other = host.entryAt? other := by
  unfold entryAt? letGo
  rw [compartment_modify]
  split <;> rfl

theorem loadAt?_letGo {node : Node} (hnode : host.Built node.compartment) (other : Node) :
    (host.letGo node).loadAt? other = if node = other then none else host.loadAt? other := by
  unfold loadAt? letGo
  rw [compartment_modify]
  obtain ⟨compartment, key⟩ := node
  obtain ⟨compartment', key'⟩ := other
  by_cases hsame : compartment = compartment'
  · subst hsame
    rw [if_pos ⟨rfl, hnode⟩]
    dsimp only
    rw [Table.get?_erase]
    by_cases hkey : key = key' <;> simp [hkey]
  · simp [hsame]

section LetGo

variable {node other : Node}

/-- A load that made nothing is not missed. -/
theorem promise?_letGo (hnode : host.Built node.compartment)
    (hlanded : ∀ load, host.loadAt? node = some load → host.loadedInFlight? load = none)
    (other : Node) : (host.letGo node).promise? other = host.promise? other := by
  unfold promise?
  rw [entryAt?_letGo, loadAt?_letGo hnode]
  split
  · rfl
  · split
    · rename_i hother
      subst hother
      cases hkept : host.loadAt? node with
      | none => rfl
      | some load =>
        have hnone : host.loadedInFlight? load = none := hlanded load hkept
        simp [hnone]
    · rfl

theorem serves_letGo (hnode : host.Built node.compartment)
    (hlanded : ∀ load, host.loadAt? node = some load → host.loadedInFlight? load = none)
    {load : Ref .load} (hserves : host.Serves other load) : (host.letGo node).Serves other load :=
  hserves.mono rfl fun other _ => (promise?_letGo hnode hlanded other).trans

theorem loadAt?_letGo_of_flight (hnode : host.Built node.compartment)
    (hflight : ∀ load work, host.InFlight load work → work.node ≠ node) {load : Ref .load}
    {work : LoadWork} (hwork : host.InFlight load work) :
    (host.letGo node).loadAt? work.node = host.loadAt? work.node := by
  rw [loadAt?_letGo hnode, if_neg (Ne.symm (hflight load work hwork))]

theorem grows_letGo (hnode : host.Built node.compartment)
    (hflight : ∀ load work, host.InFlight load work → work.node ≠ node)
    (hlanded : ∀ load, host.loadAt? node = some load → host.loadedInFlight? load = none) :
    Grows host (host.letGo node) :=
  .modify _ (fun _ => rfl) (fun other _ => (entryAt?_letGo node other).trans)
    (fun other _ => (promise?_letGo hnode hlanded other).trans)
    fun _ _ hwork => loadAt?_letGo_of_flight hnode hflight hwork

/-- A load that failed may be let go. -/
theorem LoadsInOrder.letGo (h : host.LoadsInOrder) (hnode : host.Built node.compartment)
    (hflight : ∀ load work, host.InFlight load work → work.node ≠ node)
    (hlanded : ∀ load, host.loadAt? node = some load → host.loadedInFlight? load = none) :
    (host.letGo node).LoadsInOrder := by
  have hgrows : Grows host (host.letGo node) := grows_letGo hnode hflight hlanded
  refine ⟨?_, ?_, ?_, ?_, ?_, hgrows.stands h rfl⟩
  · exact h.grounded.modify node.compartment (fun _ => rfl) fun _ => rfl
  · intro other entry hentry
    rw [entryAt?_letGo] at hentry
    exact hgrows.entry_valid (h.memo other entry hentry)
  · intro other load hkept
    rw [loadAt?_letGo hnode] at hkept
    split at hkept
    · cases hkept
    · obtain ⟨hentry, hserves⟩ := h.kept other load hkept
      exact ⟨(entryAt?_letGo node other).trans hentry, serves_letGo hnode hlanded hserves⟩
  · intro load work hwork
    obtain ⟨hbuilt, hkept, hstage⟩ := h.flight load work hwork
    exact ⟨(hgrows.built _).2 hbuilt, (loadAt?_letGo_of_flight hnode hflight hwork).trans hkept,
      hgrows.stage_valid hstage⟩
  · intro load bell delivery hdone
    exact hgrows.delivery_valid (h.delivered load bell delivery hdone)

end LetGo

/-- The work in between leaves a load driven and writes no milestone of its node. -/
theorem driven_keeps {load : Ref .load} {work : LoadWork} {bell : Ref .bell} {after : Host}
    (hdriven : host.loads.get? load = some ⟨bell, .driven work⟩)
    (hstands : ∀ target, Milestone.stands work.node target ∉ host.chronicle)
    (hgrows : Grows host after) : after.Driven work.node ∧ after.InFlight load work ∧
      ∀ target, Milestone.stands work.node target ∉ after.chronicle := by
  have hstill := (hgrows.driven load bell work hdriven).1
  refine ⟨⟨load, bell, work, hstill, rfl⟩, ⟨bell, .inr hstill⟩, fun target hmem => ?_⟩
  obtain ⟨marks, hmarks, hall⟩ := hgrows.chronicle
  rw [hmarks] at hmem
  rcases List.mem_append.1 hmem with hmem | hmem
  · obtain ⟨node, target', heq, hnot⟩ := hall _ hmem
    cases heq
    exact hnot ⟨load, bell, work, hdriven, rfl⟩
  · exact hstands target hmem

/-- A load that has just failed may be let go. -/
theorem failed_letGo {load : Ref .load} {work : LoadWork} {bell : Ref .bell} {failure : Failure}
    (h : host.LoadsInOrder) (hflight : host.InFlight load work)
    (hput : (Shelf.loads.put host load ⟨bell, .done (.error failure)⟩).LoadsInOrder) :
    ((Shelf.loads.put host load ⟨bell, .done (.error failure)⟩).letGo work.node).LoadsInOrder ∧
      Grows (Shelf.loads.put host load ⟨bell, .done (.error failure)⟩)
        ((Shelf.loads.put host load ⟨bell, .done (.error failure)⟩).letGo work.node) := by
  obtain ⟨hbuilt, hkept, -⟩ := h.flight load work hflight
  have hothers (other : Ref .load) (work' : LoadWork)
      (hother : (Shelf.loads.put host load ⟨bell, .done (.error failure)⟩).InFlight other work') :
      work'.node ≠ work.node := by
    intro hnode
    obtain ⟨bell', hother⟩ := hother
    rw [get?_put hflight] at hother
    by_cases hsame : load = other
    · simp [hsame] at hother
    · simp only [hsame, if_false] at hother
      exact hsame (h.inFlight_unique hflight ⟨bell', hother⟩ hnode.symm)
  have hlanded (other : Ref .load)
      (hother : (Shelf.loads.put host load ⟨bell, .done (.error failure)⟩).loadAt? work.node = some other) :
      (Shelf.loads.put host load ⟨bell, .done (.error failure)⟩).loadedInFlight? other = none := by
    rw [loadAt?_put, hkept] at hother
    cases hother
    unfold loadedInFlight?
    rw [get?_put hflight, if_pos rfl]
    rfl
  exact ⟨hput.letGo hbuilt hothers hlanded, grows_letGo hbuilt hothers hlanded⟩

end Host

section Turn

variable {host after : Host} {load : Ref .load} {bell : Ref .bell} {work : LoadWork}

theorem Host.LoadsInOrder.taken (h : host.LoadsInOrder)
    (hidle : host.loads.get? load = some ⟨bell, .idle work⟩) :
    (Shelf.loads.put host load ⟨bell, .driven work⟩).LoadsInOrder :=
  have hflight : host.InFlight load work := ⟨bell, .inl hidle⟩
  Host.put_loadsInOrder h hflight ⟨rfl, (h.flight load work hflight).2.2⟩ (h.no_stands hidle).2

variable (h : host.LoadsInOrder) (hidle : host.loads.get? load = some ⟨bell, .idle work⟩)
  (hgrows : Grows (Shelf.loads.put host load ⟨bell, .driven work⟩) after)

include h hidle hgrows

/-- A load that was taken up is driven until it is put back, and its node is no alias yet. -/
theorem Host.LoadsInOrder.still_taken :
    after.Driven work.node ∧ after.InFlight load work ∧
      ∀ target, Milestone.stands work.node target ∉ after.chronicle := by
  have hdriven : (Shelf.loads.put host load ⟨bell, .driven work⟩).loads.get? load =
      some ⟨bell, .driven work⟩ := by
    rw [Host.get?_put ⟨bell, .inl hidle⟩, if_pos rfl]
  exact Host.driven_keeps hdriven (h.no_stands hidle).2 hgrows

variable (hafter : after.LoadsInOrder)

include hafter

/-- A load is put back as it went on, or as it ended. -/
theorem Host.LoadsInOrder.putBack {progress : Progress LoadWork (Except Failure Delivery)}
    (hnext : after.MayBecome work progress) (hstop : ∀ work, progress ≠ .driven work) :
    (Shelf.loads.put after load ⟨bell, progress⟩).LoadsInOrder ∧
      Grows host (Shelf.loads.put after load ⟨bell, progress⟩) := by
  obtain ⟨-, hflight, hstands⟩ := h.still_taken hidle hgrows
  exact ⟨Host.put_loadsInOrder hafter hflight hnext hstands,
    Host.grows_around h hidle hgrows hafter hnext hstop [] fun _ hmem => nomatch hmem⟩

/-- A load that failed is put back, and let go. -/
theorem Host.LoadsInOrder.putFailed (failure : Failure) :
    ((Shelf.loads.put after load ⟨bell, .done (.error failure)⟩).letGo work.node).LoadsInOrder ∧
      Grows host ((Shelf.loads.put after load ⟨bell, .done (.error failure)⟩).letGo work.node) := by
  have hnext : after.MayBecome work (.done (.error failure)) := trivial
  obtain ⟨hput, haround⟩ := h.putBack hidle hgrows hafter hnext nofun
  obtain ⟨hgone, hgrows'⟩ := Host.failed_letGo hafter (h.still_taken hidle hgrows).2.1 hput
  exact ⟨hgone, haround.trans hgrows'⟩

/-- A load that landed is put back, and its node stands for what it delivered. -/
theorem Host.LoadsInOrder.putLanded {delivery : Delivery} (hvalid : delivery.Valid after)
    {marks : List Milestone} (hmarks : ∀ mark ∈ marks, ∃ target, mark = .stands work.node target ∧
      after.promise? target = some delivery.entry.record) {last : Host}
    (hlast : last = { Shelf.loads.put after load ⟨bell, .done (.ok delivery)⟩ with
      chronicle := marks ++ after.chronicle }) :
    last.LoadsInOrder ∧ Grows host last ∧ delivery.Valid last ∧
      last.promise? work.node = some delivery.entry.record := by
  obtain ⟨-, hflight, hstands⟩ := h.still_taken hidle hgrows
  have hnext : after.MayBecome work (.done (.ok delivery)) := hvalid
  have hserves : (Shelf.loads.put after load ⟨bell, .done (.ok delivery)⟩).Serves work.node load :=
    Host.serves_put hafter hflight hnext
      (hafter.kept _ _ (hafter.flight load work hflight).2.1).2
  have hpromise : (Shelf.loads.put after load ⟨bell, .done (.ok delivery)⟩).promise? work.node =
      some delivery.entry.record :=
    hserves.delivered ((Host.get?_put hflight load).trans (if_pos rfl))
  subst hlast
  refine ⟨Host.marked_loadsInOrder (Host.put_loadsInOrder hafter hflight hnext hstands)
    fun mark hmem => ?_, Host.grows_around h hidle hgrows hafter hnext nofun marks
    fun mark hmem => ?_, ⟨hvalid.entry, hvalid.built⟩, hpromise⟩
  · obtain ⟨target, rfl, htarget⟩ := hmarks mark hmem
    exact ⟨work.node, target, _, rfl, Host.promise?_put hflight htarget, hpromise⟩
  · obtain ⟨target, rfl, -⟩ := hmarks mark hmem
    exact ⟨target, rfl⟩

end Turn

namespace LoadWork

/-- A step of driving, seen from before the load was taken up. -/
theorem drive_settles {look : Look} (hlook : look.Sound) {host : Host} (h : host.LoadsInOrder)
    {load : Ref .load} {bell : Ref .bell} {work : LoadWork}
    (hidle : host.loads.get? load = some ⟨bell, .idle work⟩) :
    After (Shelf.loads.put host load ⟨bell, .driven work⟩) (drive look work (.bell bell))
      fun result after => match result with
        | .pending next =>
          let last := Shelf.loads.put after load ⟨bell, .idle next⟩
          last.LoadsInOrder ∧ Grows host last
        | .ready result =>
          let last := Shelf.loads.put after load ⟨bell, .done result⟩
          last.LoadsInOrder ∧ Grows host last ∧ ∀ delivery, result = .ok delivery →
            delivery.Valid last ∧ last.promise? work.node = some delivery.entry.record := by
  have hflight : host.InFlight load work := ⟨bell, .inl hidle⟩
  obtain ⟨hbuilt, -, hstage⟩ := h.flight load work hflight
  have hstep : After (Shelf.loads.put host load ⟨bell, .driven work⟩)
      (work.proceed look (.bell bell)) (Stepped _ work) :=
    proceed_stepped hlook (h.taken hidle) hbuilt
      (Host.stage_valid_put h hflight (show host.MayBecome work (.driven work) from ⟨rfl, hstage⟩) hstage)
  unfold drive
  rw [after_bind]
  refine hstep.mono fun result after hafter => ?_
  match result, hafter with
  | .pending next, ⟨horder, hgrows, hnext⟩ => exact h.putBack hidle hgrows horder hnext nofun
  | .ready (.ok delivery), ⟨before, marks, horder, hgrows, hvalid, hafter, hmarks⟩ =>
    subst hafter
    obtain ⟨horder', hgrows', hvalid', hpromise⟩ :=
      h.putLanded hidle hgrows horder hvalid hmarks rfl
    refine ⟨horder', hgrows', ?_⟩
    rintro _ ⟨⟩
    exact ⟨hvalid', hpromise⟩
  | .ready (.error failure), ⟨horder, hgrows⟩ =>
    obtain ⟨hgone, hgrows'⟩ := h.putFailed hidle hgrows horder failure
    exact ⟨hgone, hgrows', nofun⟩

/-- Whatever looks at a shallow load finds it in order, by induction on how deep loads wait for each
other. -/
theorem look_sound : ∀ depth : Nat, (look depth).Sound := by
  intro depth
  induction depth with
  | zero => exact fun host node watch waker h _ => .pure h rfl
  | succ depth ih =>
    intro host node watch waker h hserves
    unfold look
    refine Shelf.after_poll ?_ ?_ ?_ ?_
    · exact fun _ => ⟨h, .refl host, rfl⟩
    · intro bell result hdone
      cases result with
      | error failure => exact ⟨h, .refl host, trivial⟩
      | ok delivery =>
        exact ⟨h, .refl host, h.delivered watch.job bell delivery hdone, hserves.delivered hdone⟩
    · exact fun bell work seat host' _ haside =>
        ⟨haside.quiet.loadsInOrder h, haside.quiet.grows, rfl⟩
    · intro bell work seat told hidle htold
      have hidle' : told.loads.get? watch.job = some ⟨bell, .idle work⟩ := by
        rw [htold.quiet.loads]
        exact hidle
      have hnode : work.node = node := hserves.node_eq ⟨bell, .inl hidle⟩
      refine (drive_settles ih (htold.quiet.loadsInOrder h) hidle').mono
        fun result after hafter => ?_
      cases result with
      | pending next => exact ⟨hafter.1, htold.quiet.grows.trans hafter.2, rfl⟩
      | ready result =>
        intro last hlast
        obtain ⟨horder, hgrows, hgiven⟩ := hafter
        refine ⟨hlast.quiet.loadsInOrder horder,
          (htold.quiet.grows.trans hgrows).trans hlast.quiet.grows, ?_⟩
        cases result with
        | error failure => trivial
        | ok delivery =>
          obtain ⟨hvalid, hpromise⟩ := hgiven delivery rfl
          exact ⟨hlast.quiet.grows.delivery_valid hvalid,
            hnode ▸ (hlast.quiet.promise? work.node).trans hpromise⟩

end LoadWork

theorem Act.awaitDelivery_loads {host : Host} (h : host.LoadsInOrder) {node : Node}
    {watch : Watch .load} (hserves : host.Serves node watch.job) (waker : Waker) :
    (awaitDelivery watch waker).Loads host fun result host' => match result with
      | .pending next => next.job = watch.job
      | .ready (.error _) => True
      | .ready (.ok delivery) =>
        delivery.Valid host' ∧ host'.promise? node = some delivery.entry.record := by
  refine .getBind ?_
  exact LoadWork.look_sound _ host node watch waker h hserves

end ModuleLoader
