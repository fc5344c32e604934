import ModuleLoader.Proofs.Commits
import ModuleLoader.Proofs.Later
/-!
Bindings are live: the names that belong together by the declarations of linked modules are read from
one slot, and a slot that a module may assign is reached only through names that lead to its local
name.
-/

namespace ModuleLoader
set_option autoImplicit false

/-- Where a name can be read. -/
inductive Place where
  /-- In the scope of a record. -/
  | scope (record : Ref .record) (name : String)
  /-- On a namespace. -/
  | exports (space : Ref .exports) (name : String)

theorem Environment.isImport_iff {environment : Environment} {name : String} :
    environment.isImport name ↔ ∃ slot, environment.bounds.get? name = some ⟨slot, false⟩ := by
  unfold isImport
  cases environment.bounds.get? name with
  | none => simp
  | some bound =>
    obtain ⟨slot, writable⟩ := bound
    cases writable <;> simp

namespace Host

/-- The slot that is read at a place. -/
def slotAt? (host : Host) : Place → Option (Ref .slot)
  | .scope record name => (host.record record).environment.slot? name
  | .exports space name => host.store.exportSlot? space name

@[simp] theorem slotAt?_scope (host : Host) (record : Ref .record) (name : String) :
    host.slotAt? (.scope record name) = (host.record record).environment.slot? name :=
  rfl

@[simp] theorem slotAt?_exports (host : Host) (space : Ref .exports) (name : String) :
    host.slotAt? (.exports space name) = (host.store.space space).exports.get? name :=
  rfl

/-- The record was linked. -/
def Linked (host : Host) (ref : Ref .record) : Prop :=
  Milestone.moved ref .linked ∈ host.chronicle

instance (host : Host) (ref : Ref .record) : Decidable (host.Linked ref) :=
  inferInstanceAs (Decidable (Milestone.moved ref .linked ∈ host.chronicle))

/-- The slot is what a record may assign under one of its names. -/
def Owns (host : Host) (record : Ref .record) (name : String) (slot : Ref .slot) : Prop :=
  (host.record record).environment.bounds.get? name = some ⟨slot, true⟩

/-- The places that lead to a local name of a record, by the bindings that modules declare. -/
inductive Leads (host : Host) (record : Ref .record) (own : String) : Place → Prop where
  | own : Leads host record own (.scope record own)
  | importName {ref target : Ref .record} {name source : String} :
      .importName name source ∈ (host.record ref).bindings →
        host.target? ref source = some target →
          Leads host record own (.exports (host.record target).space name) →
            Leads host record own (.scope ref name)
  | importAs {ref target : Ref .record} {name newName source : String} :
      .importAs name newName source ∈ (host.record ref).bindings →
        host.target? ref source = some target →
          Leads host record own (.exports (host.record target).space name) →
            Leads host record own (.scope ref newName)
  | exportName {ref : Ref .record} {name : String} :
      .exportName name ∈ (host.record ref).bindings → Leads host record own (.scope ref name) →
        Leads host record own (.exports (host.record ref).space name)
  | exportAs {ref : Ref .record} {name newName : String} :
      .exportAs name newName ∈ (host.record ref).bindings →
        Leads host record own (.scope ref name) →
          Leads host record own (.exports (host.record ref).space newName)
  | exportFrom {ref target : Ref .record} {name newName source : String} :
      .exportFrom name newName source ∈ (host.record ref).bindings →
        host.target? ref source = some target →
          Leads host record own (.exports (host.record target).space name) →
            Leads host record own (.exports (host.record ref).space newName)
  /-- Through a star go the names that are neither exported one by one nor the standard one. -/
  | star {ref target : Ref .record} {name source : String} :
      .exportAll source ∈ (host.record ref).bindings →
        (∀ binding ∈ (host.record ref).bindings, binding.exportedName? ≠ some name) →
          name ≠ (host.compartment (host.record ref).home).settings.defaultExport →
            host.target? ref source = some target →
              Leads host record own (.exports (host.record target).space name) →
                Leads host record own (.exports (host.record ref).space name)

/-- The slot holds a namespace, and nobody may assign it. -/
def Holds (host : Host) (slot : Ref .slot) (space : Ref .exports) : Prop :=
  host.store.slots.get? slot = some (some (.exports space)) ∧
    ∀ record name, ¬ host.Owns record name slot

/-- The place shows a namespace for ever. -/
def Shows (host : Host) (place : Place) (space : Ref .exports) : Prop :=
  ∃ slot, host.slotAt? place = some slot ∧ host.Holds slot space

/-- Two places are one slot, or show one namespace for ever. -/
def Alike (host : Host) (place other : Place) : Prop :=
  (∃ slot, host.slotAt? place = some slot ∧ host.slotAt? other = some slot) ∨
    ∃ space, host.Shows place space ∧ host.Shows other space

/-- The specifier leads to a record with such a namespace. -/
def Towards (host : Host) (ref : Ref .record) (source : String) (holds : Ref .exports → Prop) :
    Prop :=
  ∃ target, host.target? ref source = some target ∧ holds (host.record target).space

/-- What a binding of a linked record means. -/
def Means (host : Host) (ref : Ref .record) : Binding → Prop
  | .importName name source =>
    host.Towards ref source fun space => host.Alike (.scope ref name) (.exports space name)
  | .importAs name newName source =>
    host.Towards ref source fun space => host.Alike (.scope ref newName) (.exports space name)
  | .exportName name => host.Alike (.exports (host.record ref).space name) (.scope ref name)
  | .exportAs name newName =>
    host.Alike (.exports (host.record ref).space newName) (.scope ref name)
  | .exportFrom name newName source => host.Towards ref source fun space =>
    host.Alike (.exports (host.record ref).space newName) (.exports space name)
  | .importAll newName source => host.Towards ref source (host.Shows (.scope ref newName))
  | .exportAllAs newName source =>
    host.Towards ref source (host.Shows (.exports (host.record ref).space newName))
  | .exportAll _ => True

/-- What holds of the records and namespaces of a host in every state, whoever assigns what. -/
structure Tidy (host : Host) : Prop where
  homes : ∀ ref record, host.records.get? ref = some record → host.Built record.home
  /-- A record without a source exposes a namespace that is there already. -/
  exposed : ∀ ref record, host.records.get? ref = some record → record.source = none →
    record.phase = .ready
  linked : ∀ ref, host.Linked ref → ∃ record, host.records.get? ref = some record ∧
    record.source.isSome ∧ Phase.linked.rank ≤ record.phase.rank
  spaces : ∀ ref record, host.records.get? ref = some record → record.source.isSome →
    ∃ space, host.store.spaces.get? record.space = some space ∧
      (¬ host.Linked ref → space.exports = .empty)
  distinct : ∀ ref other record record', host.records.get? ref = some record →
    host.records.get? other = some record' → record.source.isSome → record'.source.isSome →
      record.space = record'.space → ref = other
  slots : ∀ place slot, host.slotAt? place = some slot → (host.store.slots.get? slot).isSome

/-- What holds of the scopes of a host as well, if only linked modules assign names of theirs. -/
structure BindingsLive (host : Host) : Prop extends Tidy host where
  scope : ∀ ref, ¬ host.Linked ref → (host.record ref).environment = default
  owner : ∀ ref other name name' slot, host.Owns ref name slot → host.Owns other name' slot →
    ref = other ∧ name = name'
  leads : ∀ ref name slot place, host.Owns ref name slot → host.slotAt? place = some slot →
    host.Leads ref name place
  means : ∀ ref, host.Linked ref → ∀ binding ∈ (host.record ref).bindings, host.Means ref binding
  imports : ∀ ref, host.Linked ref → ∀ name, (host.record ref).environment.isImport name ↔
    name ∈ (host.record ref).bindings.filterMap Binding.importedName?

variable {host host' : Host}

theorem isSome_of_binding {ref : Ref .record} {binding : Binding}
    (h : binding ∈ (host.record ref).bindings) : (host.records.get? ref).isSome := by
  unfold Host.record at h
  cases href : host.records.get? ref with
  | none =>
    rw [href] at h
    cases h
  | some record => rfl

theorem isSome_of_target {ref target : Ref .record} {source : String}
    (h : host.target? ref source = some target) : (host.records.get? ref).isSome := by
  unfold target? Host.record at h
  cases href : host.records.get? ref with
  | none =>
    rw [href] at h
    cases h
  | some record => rfl

theorem LoadsInOrder.target_isSome (h : host.LoadsInOrder) {ref target : Ref .record}
    {source : String} (htarget : host.target? ref source = some target) :
    (host.records.get? target).isSome := by
  obtain ⟨key, -, hlookup⟩ := Option.bind_eq_some_iff.1 htarget
  obtain ⟨entry, hentry, rfl⟩ := Option.map_eq_some_iff.1 hlookup
  have hvalid := h.memo _ entry hentry
  cases entry with
  | own record => exact hvalid
  | borrowed owner key record => exact hvalid.1

theorem slotAt?_of_owns {ref : Ref .record} {name : String} {slot : Ref .slot}
    (h : host.Owns ref name slot) : host.slotAt? (.scope ref name) = some slot := by
  rw [slotAt?_scope]
  unfold Environment.slot?
  rw [h]
  rfl

end Host

namespace Later

variable {host host' : Host}

theorem target? (h : Later host host') {ref target : Ref .record} {source : String}
    (htarget : host.target? ref source = some target) : host'.target? ref source = some target := by
  have honward := h.record (Host.isSome_of_target htarget)
  obtain ⟨key, hkey, hlookup⟩ := Option.bind_eq_some_iff.1 htarget
  unfold Host.target?
  rw [honward.keyOf?, honward.home, hkey]
  exact h.lookup? hlookup

theorem bindings (h : Later host host') {ref : Ref .record} {binding : Binding}
    (hmem : binding ∈ (host.record ref).bindings) :
    (host'.record ref).bindings = (host.record ref).bindings :=
  (h.record (Host.isSome_of_binding hmem)).bindings

theorem space (h : Later host host') {ref : Ref .record} (href : (host.records.get? ref).isSome) :
    (host'.record ref).space = (host.record ref).space :=
  (h.record href).space

theorem leads (h : Later host host') (hloads : host.LoadsInOrder)
    (hhomes : ∀ ref record, host.records.get? ref = some record → host.Built record.home)
    {record : Ref .record} {own : String} {place : Place} (hleads : host.Leads record own place) :
    host'.Leads record own place := by
  induction hleads with
  | own => exact .own
  | importName hmem htarget _ ih =>
    rw [← h.space (hloads.target_isSome htarget)] at ih
    exact .importName (h.bindings hmem ▸ hmem) (h.target? htarget) ih
  | importAs hmem htarget _ ih =>
    rw [← h.space (hloads.target_isSome htarget)] at ih
    exact .importAs (h.bindings hmem ▸ hmem) (h.target? htarget) ih
  | exportName hmem _ ih =>
    rw [← h.space (Host.isSome_of_binding hmem)]
    exact .exportName (h.bindings hmem ▸ hmem) ih
  | exportAs hmem _ ih =>
    rw [← h.space (Host.isSome_of_binding hmem)]
    exact .exportAs (h.bindings hmem ▸ hmem) ih
  | exportFrom hmem htarget _ ih =>
    rw [← h.space (hloads.target_isSome htarget)] at ih
    rw [← h.space (Host.isSome_of_binding hmem)]
    exact .exportFrom (h.bindings hmem ▸ hmem) (h.target? htarget) ih
  | @star ref target name source hmem hexplicit hdefault htarget _ ih =>
    have href := Host.isSome_of_binding hmem
    obtain ⟨found, hfound⟩ := Option.isSome_iff_exists.1 href
    have hhome : host.Built (host.record ref).home := by
      have heq : host.record ref = found := congrArg (Option.getD · default) hfound
      rw [heq]
      exact hhomes ref found hfound
    rw [← h.space (hloads.target_isSome htarget)] at ih
    rw [← h.space href]
    refine .star (h.bindings hmem ▸ hmem) (h.bindings hmem ▸ hexplicit) ?_ (h.target? htarget) ih
    rw [(h.record href).home, h.settings _ hhome]
    exact hdefault

/-- A binding means what it meant, if the places of its record and of namespaces keep their slots and
namespaces stay where they are held. -/
theorem means (h : Later host host') (hloads : host.LoadsInOrder) {ref : Ref .record}
    {binding : Binding} (hmem : binding ∈ (host.record ref).bindings)
    (hscope : ∀ name slot, host.slotAt? (.scope ref name) = some slot →
      host'.slotAt? (.scope ref name) = some slot)
    (hexports : ∀ space name slot, host.slotAt? (.exports space name) = some slot →
      host'.slotAt? (.exports space name) = some slot)
    (hholds : ∀ slot space, host.Holds slot space → host'.Holds slot space)
    (hmeans : host.Means ref binding) : host'.Means ref binding := by
  have hshows {place : Place} (hplace : ∀ slot, host.slotAt? place = some slot →
      host'.slotAt? place = some slot) {space : Ref .exports} :
      host.Shows place space → host'.Shows place space :=
    fun ⟨slot, hslot, hheld⟩ => ⟨slot, hplace slot hslot, hholds slot space hheld⟩
  have halike {place other : Place} (hplace : ∀ slot, host.slotAt? place = some slot →
      host'.slotAt? place = some slot) (hother : ∀ slot, host.slotAt? other = some slot →
        host'.slotAt? other = some slot) : host.Alike place other → host'.Alike place other := by
    rintro (⟨slot, hslot, hslot'⟩ | ⟨space, hspace, hspace'⟩)
    · exact .inl ⟨slot, hplace slot hslot, hother slot hslot'⟩
    · exact .inr ⟨space, hshows hplace hspace, hshows hother hspace'⟩
  have htowards {source : String} {holds holds' : Ref .exports → Prop}
      (himp : ∀ space, holds space → holds' space) (h' : host.Towards ref source holds) :
      host'.Towards ref source holds' := by
    obtain ⟨target, htarget, hheld⟩ := h'
    refine ⟨target, h.target? htarget, ?_⟩
    rw [h.space (hloads.target_isSome htarget)]
    exact himp _ hheld
  unfold Host.Means at hmeans ⊢
  rw [h.space (Host.isSome_of_binding hmem)]
  cases binding with
  | importName name source =>
    exact htowards (fun _ => halike (hscope _) (hexports _ _)) hmeans
  | importAs name newName source =>
    exact htowards (fun _ => halike (hscope _) (hexports _ _)) hmeans
  | exportName name => exact halike (hexports _ _) (hscope _) hmeans
  | exportAs name newName => exact halike (hexports _ _) (hscope _) hmeans
  | exportFrom name newName source =>
    exact htowards (fun _ => halike (hexports _ _) (hexports _ _)) hmeans
  | importAll newName source => exact htowards (fun _ => hshows (hscope _)) hmeans
  | exportAll source => trivial
  | exportAllAs newName source => exact htowards (fun _ => hshows (hexports _ _)) hmeans

end Later

/-- No scope and no namespace changed. New records have nothing bound, and new namespaces hold new
slots. -/
structure Undisturbed (host host' : Host) : Prop where
  later : Later host host'
  scope : ∀ ref, (host'.record ref).environment = (host.record ref).environment
  linked : ∀ ref, host'.Linked ref → host.Linked ref
  slots : host.store.slots.Extends host'.store.slots
  spaces : host.store.spaces.Extends host'.store.spaces
  placed : ∀ ref space, host.store.spaces.get? ref = none →
    host'.store.spaces.get? ref = some space → ∀ name slot, space.exports.get? name = some slot →
      host.store.slots.get? slot = none ∧ (host'.store.slots.get? slot).isSome
  newborn : ∀ ref record, host.records.get? ref = none → host'.records.get? ref = some record →
    record.Newborn host host'
  distinct : ∀ ref other record record', host.records.get? ref = none →
    host.records.get? other = none → host'.records.get? ref = some record →
      host'.records.get? other = some record' → record.source.isSome → record'.source.isSome →
        record.space = record'.space → ref = other

theorem Grows.undisturbed {host host' : Host} (h : Grows host host') : Undisturbed host host' where
  later := h.later
  scope ref := by
    unfold Host.record
    cases href : host.records.get? ref with
    | some record => rw [h.records ref record href]
    | none =>
      cases href' : host'.records.get? ref with
      | none => rfl
      | some record => exact (h.newborn ref record href href').environment
  linked ref hlinked := h.mem_chronicle hlinked fun _ _ heq => nomatch heq
  slots := h.slots
  spaces := h.spaces
  placed := h.placed
  newborn := h.newborn
  distinct := h.distinct

namespace Undisturbed

variable {host host' : Host}

theorem owns (h : Undisturbed host host') (ref : Ref .record) (name : String) (slot : Ref .slot) :
    host'.Owns ref name slot ↔ host.Owns ref name slot := by
  unfold Host.Owns
  rw [h.scope ref]

theorem slotAt? (h : Undisturbed host host') {place : Place} {slot : Ref .slot}
    (hslot : host.slotAt? place = some slot) : host'.slotAt? place = some slot := by
  cases place with
  | scope ref name =>
    rw [Host.slotAt?_scope] at hslot ⊢
    rwa [h.scope ref]
  | exports ref name =>
    rw [Host.slotAt?_exports] at hslot ⊢
    unfold Store.space at hslot ⊢
    cases hspace : host.store.spaces.get? ref with
    | none =>
      rw [hspace] at hslot
      cases hslot
    | some space =>
      rw [hspace] at hslot
      rw [h.spaces ref space hspace]
      exact hslot

/-- A slot that is read somewhere was read there before, or is new. -/
theorem slotAt?_cases (h : Undisturbed host host') {place : Place} {slot : Ref .slot}
    (hslot : host'.slotAt? place = some slot) : host.slotAt? place = some slot ∨
      host.store.slots.get? slot = none ∧ (host'.store.slots.get? slot).isSome := by
  cases place with
  | scope ref name =>
    rw [Host.slotAt?_scope] at hslot ⊢
    rw [h.scope ref] at hslot
    exact .inl hslot
  | exports ref name =>
    rw [Host.slotAt?_exports] at hslot ⊢
    unfold Store.space at hslot ⊢
    cases hspace : host.store.spaces.get? ref with
    | some space =>
      rw [h.spaces ref space hspace] at hslot
      exact .inl hslot
    | none =>
      cases hspace' : host'.store.spaces.get? ref with
      | none =>
        rw [hspace'] at hslot
        cases hslot
      | some space =>
        rw [hspace'] at hslot
        exact .inr (h.placed ref space hspace hspace' name slot hslot)

theorem holds (h : Undisturbed host host') {slot : Ref .slot} {space : Ref .exports}
    (hholds : host.Holds slot space) : host'.Holds slot space :=
  ⟨h.slots _ _ hholds.1, fun record name howns => hholds.2 record name ((h.owns _ _ _).1 howns)⟩

theorem tidy (h : Undisturbed host host') (htidy : host.Tidy) : host'.Tidy := by
  have hback (ref : Ref .record) (record : Record) (hrecord : host'.records.get? ref = some record) :
      (∃ old, host.records.get? ref = some old ∧ old.Onward record) ∨
        host.records.get? ref = none ∧ record.Newborn host host' := by
    cases href : host.records.get? ref with
    | none => exact .inr ⟨rfl, h.newborn ref record href hrecord⟩
    | some old =>
      obtain ⟨record', hrecord', honward⟩ := h.later.records ref old href
      obtain rfl : record = record' := Option.some.inj (hrecord.symm.trans hrecord')
      exact .inl ⟨old, rfl, honward⟩
  refine ⟨fun ref record hrecord => ?_, fun ref record hrecord hsource => ?_, fun ref hlinked => ?_,
    fun ref record hrecord hsource => ?_, ?_, fun place slot hslot => ?_⟩
  · rcases hback ref record hrecord with ⟨old, hold, honward⟩ | ⟨-, hnew⟩
    · rw [honward.home]
      exact h.later.keeps.built _ (htidy.homes ref old hold)
    · exact hnew.home
  · rcases hback ref record hrecord with ⟨old, hold, honward⟩ | ⟨-, hnew⟩
    · have hready := htidy.exposed ref old hold (honward.source ▸ hsource)
      rcases honward.phase with hphase | hphase
      · rw [hphase, hready]
      · rw [hready] at hphase
        cases hphase
    · exact (hnew.exposed hsource).1
  · obtain ⟨record, hrecord, hsource, hrank⟩ := htidy.linked ref (h.linked ref hlinked)
    obtain ⟨record', hrecord', honward⟩ := h.later.records ref record hrecord
    exact ⟨record', hrecord', honward.source ▸ hsource, Nat.le_trans hrank honward.rank⟩
  · rcases hback ref record hrecord with ⟨old, hold, honward⟩ | ⟨-, hnew⟩
    · obtain ⟨space, hspace, hempty⟩ := htidy.spaces ref old hold (honward.source ▸ hsource)
      rw [honward.space]
      exact ⟨space, h.spaces _ _ hspace,
        fun hnot => hempty fun hlinked => hnot (h.later.chronicle.subset hlinked)⟩
    · obtain ⟨-, -, key, hspace⟩ := hnew.sourced hsource
      exact ⟨_, hspace, fun _ => rfl⟩
  · intro ref other record record' hrecord hrecord' hsource hsource' hspace
    rcases hback ref record hrecord with ⟨old, hold, honward⟩ | ⟨hnone, hnew⟩
    · rcases hback other record' hrecord' with ⟨old', hold', honward'⟩ | ⟨hnone', hnew'⟩
      · rw [honward.space, honward'.space] at hspace
        exact htidy.distinct ref other old old' hold hold' (honward.source ▸ hsource)
          (honward'.source ▸ hsource') hspace
      · obtain ⟨space, hthere, -⟩ := htidy.spaces ref old hold (honward.source ▸ hsource)
        rw [← honward.space, hspace, (hnew'.sourced hsource').2.1] at hthere
        cases hthere
    · rcases hback other record' hrecord' with ⟨old', hold', honward'⟩ | ⟨hnone', hnew'⟩
      · obtain ⟨space, hthere, -⟩ := htidy.spaces other old' hold' (honward'.source ▸ hsource')
        rw [← honward'.space, ← hspace, (hnew.sourced hsource).2.1] at hthere
        cases hthere
      · exact h.distinct ref other record record' hnone hnone' hrecord hrecord' hsource hsource' hspace
  · rcases h.slotAt?_cases hslot with hslot | ⟨-, hthere⟩
    · exact h.slots.isSome (htidy.slots place slot hslot)
    · exact hthere

theorem bindingsLive (h : Undisturbed host host') (hloads : host.LoadsInOrder)
    (hlive : host.BindingsLive) : host'.BindingsLive := by
  refine ⟨h.tidy hlive.toTidy, fun ref hnot => ?_, fun ref other name name' slot howns howns' => ?_,
    fun ref name slot place howns hslot => ?_, fun ref hlinked binding hmem => ?_,
    fun ref hlinked name => ?_⟩
  · rw [h.scope ref]
    exact hlive.scope ref fun hlinked => hnot (h.later.chronicle.subset hlinked)
  · exact hlive.owner ref other name name' slot ((h.owns _ _ _).1 howns) ((h.owns _ _ _).1 howns')
  · have howns := (h.owns _ _ _).1 howns
    rcases h.slotAt?_cases hslot with hslot | ⟨hnone, -⟩
    · exact h.later.leads hloads hlive.homes (hlive.leads ref name slot place howns hslot)
    · have hthere := hlive.slots (.scope ref name) slot (Host.slotAt?_of_owns howns)
      rw [hnone] at hthere
      cases hthere
  · have hlinked := h.linked ref hlinked
    obtain ⟨record, hrecord, -⟩ := hlive.linked ref hlinked
    have hbindings := (h.later.record (hrecord ▸ rfl : (host.records.get? ref).isSome)).bindings
    rw [hbindings] at hmem
    exact h.later.means hloads hmem (fun _ _ => h.slotAt?) (fun _ _ _ => h.slotAt?)
      (fun _ _ => h.holds) (hlive.means ref hlinked binding hmem)
  · have hlinked := h.linked ref hlinked
    obtain ⟨record, hrecord, -⟩ := hlive.linked ref hlinked
    have hbindings := (h.later.record (hrecord ▸ rfl : (host.records.get? ref).isSome)).bindings
    rw [h.scope ref, hbindings]
    exact hlive.imports ref hlinked name

end Undisturbed

end ModuleLoader
