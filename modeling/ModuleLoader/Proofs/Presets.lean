import ModuleLoader.Proofs.Divisions
import ModuleLoader.Proofs.Listings
import ModuleLoader.Proofs.Readings
/-!
Names that are assigned before their module is linked. Linking makes a new slot for each local name that a
module exports, and puts it on the namespace. The scope gets it only where the name is free: a name that was
assigned before keeps the slot that it had, and nobody can assign the one on the namespace any more.
-/

namespace ModuleLoader
set_option autoImplicit false

namespace Host

variable {host host' later : Host} {ref : Ref .record} {own name : String} {slot old : Ref .slot}

/-- The record exports a local name that it does not import. -/
def ExportsOwn (host : Host) (ref : Ref .record) (own name : String) : Prop :=
  (∀ binding ∈ (host.record ref).bindings, binding.importedName? ≠ some own) ∧
    (.exportName own ∈ (host.record ref).bindings ∧ name = own ∨
      .exportAs own name ∈ (host.record ref).bindings)

/-- The slot is there, and no scope may assign it. -/
structure Unowned (host : Host) (slot : Ref .slot) : Prop where
  there : (host.store.slots.get? slot).isSome
  unowned : ∀ ref name, ¬ host.Owns ref name slot

/-- The scope of a record assigns what its namespace shows. -/
def SharesSlot (host : Host) (ref : Ref .record) (own name : String) : Prop :=
  ∃ slot, host.Owns ref own slot ∧ host.slotAt? (.exports (host.record ref).space name) = some slot

/-- The scope of a record has a slot of its own, and its namespace shows another one, which nobody assigns. -/
def Severed (host : Host) (ref : Ref .record) (own name : String) (old : Ref .slot) : Prop :=
  host.slotAt? (.scope ref own) = some old ∧
    ∃ slot, host.slotAt? (.exports (host.record ref).space name) = some slot ∧ slot ≠ old ∧ host.Unowned slot

theorem Unowned.assigned (h : host.Unowned slot) (hassigned : Assigned host host' ref own old) :
    host'.Unowned slot := by
  refine ⟨hassigned.isSome h.there, fun other name howns => ?_⟩
  rcases hassigned.owns_iff.1 howns with ⟨-, -, rfl⟩ | howns
  · rcases hassigned.own with hown | ⟨-, hnone⟩
    · exact h.unowned ref own hown
    · have hthere := h.there
      rw [hnone] at hthere
      cases hthere
  · exact h.unowned other name howns

/-- A slot that nobody may assign stays so. -/
theorem Proceeds.unowned (h : host.Proceeds host') (hloads : host.LoadsInOrder) (htidy : host.Tidy)
    (hslot : host.Unowned slot) : host'.Unowned slot := by
  cases h with
  | @link refs hnodup hloaded =>
    obtain ⟨before, start, slots, hbegins, hlinks⟩ := Act.link_links hloads htidy hnodup hloaded
    have hjoins : Act.Joins host before start (Act.link refs host).2 refs slots := ⟨hnodup, hbegins, hlinks⟩
    refine ⟨hjoins.slots_extend.isSome hslot.there, fun other name howns => ?_⟩
    rcases hlinks.owns_cases howns with ⟨hnew, -⟩ | howns
    · have hthere := hslot.there
      rw [hjoins.slot_new hnew] at hthere
      cases hthere
    · unfold Owns at howns
      rw [hbegins.moves.environment] at howns
      exact hslot.unowned other name howns
  | assign record name value hrecord =>
    rcases Act.assignIn_assigns htidy hrecord name value with ⟨-, -, heq⟩ | ⟨-, -, found, hassigned, -⟩
    · rw [heq]
      exact hslot
    · exact hslot.assigned hassigned
  | setExport node name value =>
    rcases Act.setExport_sets host node name value with heq | ⟨found, heq⟩
    · rw [heq]
      exact hslot
    · rw [heq]
      refine ⟨?_, hslot.unowned⟩
      change ((host.store.slots.modify found _).get? slot).isSome
      rw [Arena.get?_modify]
      split
      · rw [Option.isSome_map]
        exact hslot.there
      · exact hslot.there
  | other hundisturbed =>
    exact ⟨hundisturbed.slots.isSome hslot.there, fun other name howns =>
      hslot.unowned other name ((hundisturbed.owns other name slot).1 howns)⟩

/-- A name in the scope of a linked record stays bound to what it is bound to. -/
theorem Proceeds.bound (h : host.Proceeds host') (hloads : host.LoadsInOrder) (htidy : host.Tidy)
    (hlinked : host.Linked ref) {bound : Bound}
    (hbound : (host.record ref).environment.bounds.get? own = some bound) :
    (host'.record ref).environment.bounds.get? own = some bound := by
  cases h with
  | @link refs hnodup hloaded =>
    obtain ⟨before, start, slots, hbegins, hlinks⟩ := Act.link_links hloads htidy hnodup hloaded
    have hjoins : Act.Joins host before start (Act.link refs host).2 refs slots := ⟨hnodup, hbegins, hlinks⟩
    rw [hjoins.record fun hmem => hlinks.not_linked hmem (hbegins.moves.chronicle.subset hlinked)]
    exact hbound
  | assign record name value hrecord =>
    rcases Act.assignIn_assigns htidy hrecord name value with ⟨-, -, heq⟩ | ⟨-, -, found, hassigned, -⟩
    · rw [heq]
      exact hbound
    · rw [hassigned.bounds]
      split
      · rename_i hsame
        obtain ⟨rfl, rfl⟩ := hsame
        rcases hassigned.own with hown | ⟨hnone, -⟩
        · exact hown.symm.trans hbound
        · cases hnone.symm.trans hbound
      · exact hbound
  | setExport node name value =>
    rcases Act.setExport_sets host node name value with heq | ⟨found, heq⟩ <;>
    · rw [heq]
      exact hbound
  | other hundisturbed =>
    rw [hundisturbed.scope ref]
    exact hbound

/-- What a run keeps of a linked record: the names of its scope, the slots of its namespace, and the slots
that nobody may assign. -/
theorem bound_of_proceeds (h : Relation.ReflTransGen Proceeds host later) (hloads : host.LoadsInOrder)
    (htidy : host.Tidy) (hlinked : host.Linked ref) :
    (∀ own bound, (host.record ref).environment.bounds.get? own = some bound →
      (later.record ref).environment.bounds.get? own = some bound) ∧
    (∀ name, later.slotAt? (.exports (later.record ref).space name) =
      host.slotAt? (.exports (host.record ref).space name)) ∧
    ∀ slot, host.Unowned slot → later.Unowned slot := by
  -- By induction on the run.
  induction h with
  | refl => exact ⟨fun _ _ hbound => hbound, fun _ => rfl, fun _ hslot => hslot⟩
  | @tail middle last hmiddle hstep ih =>
    obtain ⟨hbound, hexports, hunowned⟩ := ih
    obtain ⟨hloads', htidy', hlisted⟩ := keeps_of_proceeds hmiddle hloads htidy hlinked
    refine ⟨fun own bound hget => hstep.bound hloads' htidy' hlisted.linked (hbound own bound hget),
      fun name => ?_, fun slot hslot => hstep.unowned hloads' htidy' (hunowned slot hslot)⟩
    obtain ⟨-, -, hkeeps⟩ := hstep.keeps hloads' htidy'
    have hlast := hkeeps ref hlisted.linked
    rw [← hexports, slotAt?_exports, slotAt?_exports, hlast.space, hlast.exports]

/-- A place whose slot nobody may assign reads as it did, whatever is assigned in a scope. -/
theorem Unowned.reading_assigned (h : host.Unowned slot) {space : Ref .exports}
    (hslot : host.slotAt? (.exports space name) = some slot)
    (hassigned : Assigned host host' ref own old) :
    host'.reading (.exports space name) = host.reading (.exports space name) := by
  have hne : slot ≠ old := by
    rintro rfl
    rcases hassigned.own with hown | ⟨-, hnone⟩
    · exact h.unowned ref own hown
    · have hthere := h.there
      rw [hnone] at hthere
      cases hthere
  rw [reading_of_slotAt? hslot, reading_of_slotAt? (hassigned.slotAt? hslot)]
  unfold Store.read Store.slot?
  rw [hassigned.slots slot hne]

/-- A name that shares its slot with the namespace reads the same on both. -/
theorem SharesSlot.readAlike (h : host.SharesSlot ref own name) :
    host.ReadAlike (.exports (host.record ref).space name) (.scope ref own) := by
  obtain ⟨slot, howns, hslot⟩ := h
  exact Alike.readAlike (.inl ⟨slot, hslot, slotAt?_of_owns howns⟩)

/-- Whatever is assigned in a scope, a namespace that was severed from the scope of its record reads as before. -/
theorem Severed.reading_assigned (h : host.Severed ref own name slot) {other : Ref .record} {named : String}
    (hassigned : Assigned host host' other named old) :
    host'.reading (.exports (host.record ref).space name) =
      host.reading (.exports (host.record ref).space name) := by
  obtain ⟨-, found, hfound, -, hunowned⟩ := h
  exact hunowned.reading_assigned hfound hassigned

end Host

namespace Act

open Host

variable {host before start after : Host} {refs : List (Ref .record)}
  {slots : List (Ref .record × List (String × Ref .slot))} {ref : Ref .record} {own name : String}

/-- A slot is made for every local name that a record of the batch exports. -/
theorem Joins.slotOf_exportsOwn (h : Joins host before start after refs slots) (hmem : ref ∈ refs)
    (hexports : host.ExportsOwn ref own name) : ∃ slot, slotOf slots ref own = some slot := by
  obtain ⟨hnot, hexport⟩ := hexports
  refine Option.isSome_iff_exists.1 (h.slotOf_isSome.2 ⟨hmem, LinkUnit.mem_localNames.2 ⟨?_, ?_⟩⟩)
  · rcases hexport with ⟨hbinding, -⟩ | hbinding
    · exact ⟨_, hbinding, .inl rfl⟩
    · exact ⟨_, hbinding, .inr ⟨name, rfl⟩⟩
  · intro binding hbinding himport hlocal
    refine hnot binding hbinding ?_
    unfold Binding.importedName?
    rw [if_pos himport, hlocal]

/-- The slot of a local name that was bound before is in no scope. -/
theorem Joins.unowned_of_bound (h : Joins host before start after refs slots) (htidy : host.Tidy)
    {slot : Ref .slot} (hslot : slotOf slots ref own = some slot) {bound : Bound}
    (hbound : (host.record ref).environment.bounds.get? own = some bound) : after.Unowned slot := by
  refine ⟨h.links.settles.extends'.isSome (by rw [(h.links.made.new hslot).2]; rfl), fun other named howns => ?_⟩
  rcases h.links.owns_cases howns with ⟨hother, hnone⟩ | howns
  · obtain ⟨rfl, rfl⟩ := h.links.made.injective hslot hother
    rw [h.begins.moves.environment, hbound] at hnone
    cases hnone
  · unfold Owns at howns
    rw [h.begins.moves.environment] at howns
    have hthere := htidy.slots _ slot (slotAt?_of_owns howns)
    rw [h.slot_new hslot] at hthere
    cases hthere

/-- A record that was linked assigns what it exports, but for the local names that were bound before: there
its scope and its namespace have different slots. -/
theorem Joins.presets (h : Joins host before start after refs slots) (htidy : host.Tidy)
    {wiring : Wiring} (hcommits : (Batch.ofRecords host refs).Commits (Batch.describe host ref) wiring)
    (hmem : ref ∈ refs) (hexports : host.ExportsOwn ref own name) :
    ∃ slot, after.slotAt? (.exports (after.record ref).space name) = some slot ∧
      match (host.record ref).environment.bounds.get? own with
      | none => after.Owns ref own slot
      | some bound => (after.record ref).environment.bounds.get? own = some bound ∧
          slot ≠ bound.slot ∧ after.Unowned slot := by
  obtain ⟨slot, hslot⟩ := h.slotOf_exportsOwn hmem hexports
  obtain ⟨hcommitted, -⟩ := h.committed hcommits
  have hnot : own ∉ wiring.imports.map Prod.fst := by
    rw [(Batch.wireImports_imports (Batch.wired_of_wire hcommits.wired).imports).1]
    intro himported
    obtain ⟨binding, hbinding, hown⟩ := List.mem_filterMap.1 himported
    exact hexports.1 binding hbinding hown
  refine ⟨slot, h.exportSlot hcommits hslot hexports.1 hexports.2, ?_⟩
  cases hbound : (host.record ref).environment.bounds.get? own with
  | none => exact hcommitted.locals own slot hslot hbound hnot
  | some bound =>
    refine ⟨hcommitted.kept own bound hbound hnot, ?_, h.unowned_of_bound htidy hslot hbound⟩
    rintro rfl
    have hthere : (host.store.slots.get? bound.slot).isSome := by
      refine htidy.slots (.scope ref own) bound.slot ?_
      rw [slotAt?_scope]
      unfold Environment.slot?
      rw [hbound]
      rfl
    rw [h.slot_new hslot] at hthere
    cases hthere

/-- A local name that a record exports shares its slot with the namespace in every state after linking,
unless it was assigned before: then the scope keeps the slot that it had, the namespace has another one, and
nothing that is assigned in a scope is seen there. -/
theorem link_presets (hloads : host.LoadsInOrder) (htidy : host.Tidy) (hnodup : refs.Nodup)
    (hloaded : host.AllLoaded refs) :
    After host (link refs) fun _ after => ∀ ref ∈ refs, after.Linked ref → ∀ own name,
      host.ExportsOwn ref own name → ∀ later, Relation.ReflTransGen Proceeds after later →
        match (host.record ref).environment.bounds.get? own with
        | none => later.SharesSlot ref own name
        | some bound => later.Severed ref own name bound.slot := by
  refine (link_links hloads htidy hnodup hloaded).mono fun _ after hafter ref hmem hlinked own name hexports
    later hlater => ?_
  obtain ⟨before, start, slots, hbegins, hlinks⟩ := hafter
  have h : Joins host before start after refs slots := ⟨hnodup, hbegins, hlinks⟩
  have hcommits : ∃ wiring, (Batch.ofRecords host refs).Commits (Batch.describe host ref) wiring := by
    rcases (hlinks.linked ref).1 hlinked with hbefore | ⟨unit, wiring, hcommits, rfl⟩
    · exact absurd hbefore (hlinks.not_linked hmem)
    · rw [hbegins.ofRecords] at hcommits
      exact ⟨wiring, (Joins.mem_units.1 hcommits.mem).2 ▸ hcommits⟩
  obtain ⟨wiring, hcommits⟩ := hcommits
  obtain ⟨hscope, hspace, hunowned⟩ := bound_of_proceeds hlater
    (hlinks.loadsAlike.loadsInOrder (hbegins.loads.loadsInOrder hloads)) hlinks.tidy_after hlinked
  obtain ⟨slot, hslot, hcase⟩ := h.presets htidy hcommits hmem hexports
  rw [← hspace] at hslot
  cases hbound : (host.record ref).environment.bounds.get? own with
  | none =>
    rw [hbound] at hcase
    exact ⟨slot, hscope own _ hcase, hslot⟩
  | some bound =>
    rw [hbound] at hcase
    obtain ⟨hkept, hne, hnobody⟩ := hcase
    refine ⟨?_, slot, hslot, hne, hunowned slot hnobody⟩
    rw [slotAt?_scope]
    unfold Environment.slot?
    rw [hscope own bound hkept]
    rfl

/-- A module with an export that gets a value while the module is only loaded, and another one when it was
imported. -/
def preset : Host :=
  let host := (newCompartment (.simple "preset"
    [("main", ChainKind.moduleOf [.exportName "x", .exportName "y"] none)]) default).2
  let host := (loadNow ⟨⟨0⟩, "main"⟩ host).2
  let host := (assignIn ⟨0⟩ "x" (.boolean false) host).2
  let host := (importNow lookOutside ⟨⟨0⟩, "main"⟩ host).2
  (assignIn ⟨0⟩ "y" (.boolean true) (assignIn ⟨0⟩ "x" (.boolean true) host).2).2

/-- The name that was free is seen on the namespace, and the other one is not. -/
example : (preset.slotAt? (.scope ⟨0⟩ "y") = preset.slotAt? (.exports (preset.record ⟨0⟩).space "y")) ∧
    preset.slotAt? (.scope ⟨0⟩ "x") ≠ preset.slotAt? (.exports (preset.record ⟨0⟩).space "x") := by
  decide +kernel

end Act

end ModuleLoader
