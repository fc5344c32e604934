import ModuleLoader.Proofs.Partitions
/-!
Records that are linked in two batches get the phases that they get in one, and the same origins for
all their names.
-/

namespace ModuleLoader
set_option autoImplicit false

namespace Host

/-- A record exports a local name of its own by the slot. -/
def ExportsLocal (host : Host) (ref : Ref .record) (own : String) (slot : Ref .slot) : Prop :=
  (∀ binding ∈ (host.record ref).bindings, binding.importedName? ≠ some own) ∧
    ∃ name, (.exportName own ∈ (host.record ref).bindings ∧ name = own ∨
      .exportAs own name ∈ (host.record ref).bindings) ∧
        host.slotAt? (.exports (host.record ref).space name) = some slot

/-- Slots of two hosts that come after `host` have the same origin: they are one slot that was there,
or new ones, under which one record exports one local name, or which hold the namespace of one
record. -/
inductive SameOrigin (host one two : Host) (slot slot' : Ref .slot) : Prop where
  | old : slot = slot' → (host.store.slots.get? slot).isSome → SameOrigin host one two slot slot'
  | localName (ref : Ref .record) (own : String) : host.store.slots.get? slot = none →
      host.store.slots.get? slot' = none → one.ExportsLocal ref own slot →
        two.ExportsLocal ref own slot' → SameOrigin host one two slot slot'
  | exports (ref : Ref .record) : host.store.slots.get? slot = none →
      host.store.slots.get? slot' = none →
        one.store.slot? slot = some (.exports (host.record ref).space) →
          two.store.slot? slot' = some (.exports (host.record ref).space) →
            SameOrigin host one two slot slot'

/-- Names of one scope in two hosts: both are bound or none is, both can be assigned or none can, and
to slots of the same origin. -/
def SameBound (host one two : Host) (bound bound' : Bound) : Prop :=
  bound.writable = bound'.writable ∧ host.SameOrigin one two bound.slot bound'.slot

/-- A record was linked in two hosts or failed in both, and its names have the same origins. -/
structure LinkedAlike (host one two : Host) (ref : Ref .record) : Prop where
  phase : (two.record ref).phase = (one.record ref).phase
  settled : (one.record ref).phase = .linked ∨ (one.record ref).phase = .failed
  scope : ∀ name, Option.Rel (host.SameBound one two)
    ((one.record ref).environment.bounds.get? name) ((two.record ref).environment.bounds.get? name)
  exports : ∀ name, Option.Rel (host.SameOrigin one two)
    (one.slotAt? (.exports (one.record ref).space name))
    (two.slotAt? (.exports (two.record ref).space name))

end Host

namespace Act

/-- Two commits with wirings that are alike bind the same names to corresponding slots. -/
theorem Committed.alike {slots slots' : List (Ref .record × List (String × Ref .slot))}
    {start one start' two : Host} {ref : Ref .record} {earlier : Environment}
    {wiring wiring' : Wiring} {alike : Origin → Origin → Prop} {same : Ref .slot → Ref .slot → Prop}
    (hone : Committed slots start one ref earlier wiring)
    (htwo : Committed slots' start' two ref earlier wiring') (halike : wiring.Alike alike wiring')
    (horigin : ∀ name origin origin' slot slot', (name, origin) ∈ wiring.imports ++ wiring.exports →
      alike origin origin' → Realises slots start one origin slot →
        Realises slots' start' two origin' slot' → same slot slot')
    (hlocal : ∀ name slot slot', slotOf slots ref name = some slot →
      slotOf slots' ref name = some slot' → same slot slot')
    (hboth : ∀ name, (slotOf slots ref name).isSome ↔ (slotOf slots' ref name).isSome)
    (hold : ∀ name bound, earlier.bounds.get? name = some bound → same bound.slot bound.slot) :
    (∀ name, Option.Rel
      (fun bound bound' => bound.writable = bound'.writable ∧ same bound.slot bound'.slot)
      ((one.record ref).environment.bounds.get? name)
      ((two.record ref).environment.bounds.get? name)) ∧
    ∀ name, Option.Rel same (one.store.exportSlot? (one.record ref).space name)
      (two.store.exportSlot? (two.record ref).space name) := by
  have hnames (name : String) :
      name ∈ wiring.imports.map Prod.fst ↔ name ∈ wiring'.imports.map Prod.fst :=
    ⟨halike.imports.names, halike.imports'.names⟩
  constructor
  · intro name
    cases hget : (one.record ref).environment.bounds.get? name with
    | some bound =>
      rcases hone.bound name bound hget with ⟨hwritable, origin, hmem, hrealises⟩ |
        ⟨hnot, hearlier | ⟨hnone, hwritable, hslot⟩⟩
      · obtain ⟨origin', hmem', horigins⟩ := halike.imports name origin hmem
        obtain ⟨slot', hget', hrealises'⟩ := htwo.imports name origin' hmem'
        rw [hget']
        exact .some ⟨hwritable, horigin name origin origin' _ _ (List.mem_append_left _ hmem) horigins
          hrealises hrealises'⟩
      · rw [htwo.kept name bound hearlier fun hmem => hnot ((hnames name).2 hmem)]
        exact .some ⟨rfl, hold name bound hearlier⟩
      · obtain ⟨slot', hslot'⟩ := Option.isSome_iff_exists.1 ((hboth name).1 (by rw [hslot]; rfl))
        rw [htwo.locals name slot' hslot' hnone fun hmem => hnot ((hnames name).2 hmem)]
        exact .some ⟨hwritable, hlocal name _ _ hslot hslot'⟩
    | none =>
      cases hget' : (two.record ref).environment.bounds.get? name with
      | none => exact .none
      | some bound' =>
        -- What is bound in the second host would be bound in the first one as well.
        exfalso
        rcases htwo.bound name bound' hget' with ⟨-, origin', hmem', -⟩ |
          ⟨hnot, hearlier | ⟨hnone, -, hslot'⟩⟩
        · obtain ⟨origin, hmem, -⟩ := halike.imports' name origin' hmem'
          obtain ⟨slot, hbound, -⟩ := hone.imports name origin hmem
          rw [hget] at hbound
          cases hbound
        · have hbound := hone.kept name bound' hearlier fun hmem => hnot ((hnames name).1 hmem)
          rw [hget] at hbound
          cases hbound
        · obtain ⟨slot, hslot⟩ := Option.isSome_iff_exists.1 ((hboth name).2 (by rw [hslot']; rfl))
          have hbound := hone.locals name slot hslot hnone fun hmem => hnot ((hnames name).1 hmem)
          rw [hget] at hbound
          cases hbound
  · intro name
    cases hget : one.store.exportSlot? (one.record ref).space name with
    | some slot =>
      obtain ⟨origin, hmem, hrealises⟩ := hone.exported name slot hget
      obtain ⟨origin', hmem', horigins⟩ := halike.exports name origin hmem
      obtain ⟨slot', hget', hrealises'⟩ := htwo.exports name origin' hmem'
      rw [hget']
      exact .some (horigin name origin origin' slot slot' (List.mem_append_right _ hmem) horigins
        hrealises hrealises')
    | none =>
      cases hget' : two.store.exportSlot? (two.record ref).space name with
      | none => exact .none
      | some slot' =>
        obtain ⟨origin', hmem', -⟩ := htwo.exported name slot' hget'
        obtain ⟨origin, hmem, -⟩ := halike.exports' name origin' hmem'
        obtain ⟨slot, hslot, -⟩ := hone.exports name origin hmem
        rw [hget] at hslot
        cases hslot

namespace Joins

variable {host before start after : Host} {refs : List (Ref .record)}
  {slots : List (Ref .record × List (String × Ref .slot))}

theorem bindings (h : Joins host before start after refs slots) {ref : Ref .record}
    (hmem : ref ∈ refs) : (after.record ref).bindings = (host.record ref).bindings :=
  (h.later.record (h.exist ref hmem)).bindings

/-- A committed record that does not import its local name has the slot that was made for it wherever it
exports it. -/
theorem exportSlot (h : Joins host before start after refs slots) {ref : Ref .record} {wiring : Wiring}
    (hcommits : (Batch.ofRecords host refs).Commits (Batch.describe host ref) wiring)
    {own name : String} {slot : Ref .slot} (hslot : slotOf slots ref own = some slot)
    (hnot : ∀ binding ∈ (host.record ref).bindings, binding.importedName? ≠ some own)
    (hexport : .exportName own ∈ (host.record ref).bindings ∧ name = own ∨
      .exportAs own name ∈ (host.record ref).bindings) :
    after.slotAt? (.exports (after.record ref).space name) = some slot := by
  have hwired := Batch.wired_of_wire hcommits.wired
  have hanswers (source : String) (target : Ref .record)
      (htarget : (Batch.describe host ref).target source = .ok target) :
      (Batch.ofRecords host refs).Answers target :=
    (h.answers hcommits htarget).answers h.proper
  have hnone : own ∉ wiring.imports.map Prod.fst := by
    rw [(Batch.wireImports_imports hwired.imports).1]
    intro himported
    obtain ⟨other, hother, hown⟩ := List.mem_filterMap.1 himported
    exact hnot other hother hown
  have hmem : (name, .localName ref own) ∈ wiring.exports := by
    rcases hexport with ⟨hbinding, rfl⟩ | hbinding
    · exact ((hwired.exportName h.proper hcommits.mem hanswers hbinding).resolve_right
        fun ⟨_, hmem, _⟩ => hnone (List.mem_map_of_mem hmem)).1
    · exact ((hwired.exportAs h.proper hcommits.mem hanswers hbinding).resolve_right
        fun ⟨_, hmem, _⟩ => hnone (List.mem_map_of_mem hmem)).1
  obtain ⟨found, hfound, hrealises⟩ := (h.committed hcommits).1.exports name _ hmem
  cases hslot.symm.trans hrealises
  exact hfound

theorem slot_new (h : Joins host before start after refs slots) {ref : Ref .record} {own : String}
    {slot : Ref .slot} (hslot : slotOf slots ref own = some slot) :
    host.store.slots.get? slot = none := by
  have hnew := (h.links.made.new hslot).1
  rw [h.begins.rest] at hnew
  exact hnew

/-- The slot made for a local name of a committed record is new, and the record exports the name by
it. -/
theorem exportsLocal (h : Joins host before start after refs slots) {ref : Ref .record}
    {wiring : Wiring}
    (hcommits : (Batch.ofRecords host refs).Commits (Batch.describe host ref) wiring) {own : String}
    {slot : Ref .slot} (hslot : slotOf slots ref own = some slot) :
    host.store.slots.get? slot = none ∧ after.ExportsLocal ref own slot := by
  obtain ⟨hmem, hname⟩ := h.slotOf_isSome.1 (by rw [hslot]; rfl)
  obtain ⟨⟨binding, hbinding, hexport⟩, hlocal⟩ := LinkUnit.mem_localNames.1 hname
  have hnot (other : Binding) (hother : other ∈ (host.record ref).bindings) :
      other.importedName? ≠ some own := by
    intro himported
    unfold Binding.importedName? at himported
    split at himported
    · rename_i himport
      exact hlocal other hother himport himported
    · cases himported
  refine ⟨h.slot_new hslot, ?_⟩
  unfold Host.ExportsLocal
  rw [h.bindings hmem]
  refine ⟨hnot, ?_⟩
  rcases hexport with rfl | ⟨name, rfl⟩
  · exact ⟨own, .inl ⟨hbinding, rfl⟩, h.exportSlot hcommits hslot hnot (.inl ⟨hbinding, rfl⟩)⟩
  · exact ⟨name, .inr hbinding, h.exportSlot hcommits hslot hnot (.inr hbinding)⟩

/-- A name that was exported is exported by the same slot after other records were linked. -/
theorem keepsLocal (h : Joins host before start after refs slots) {ref : Ref .record}
    (hmem : ref ∉ refs) {own : String} {slot : Ref .slot} (hlocal : host.ExportsLocal ref own slot) :
    after.ExportsLocal ref own slot := by
  obtain ⟨hnot, name, hbinding, hslot⟩ := hlocal
  unfold Host.ExportsLocal
  rw [h.record hmem]
  refine ⟨hnot, name, hbinding, ?_⟩
  rw [Host.slotAt?_exports] at hslot ⊢
  rw [h.exports_of_some hslot]
  exact hslot

end Joins

namespace Parts

section
variable {host before start one before' start' middle before'' start'' two : Host}
  {whole part rest : List (Ref .record)}
  {slots slots' slots'' : List (Ref .record × List (String × Ref .slot))}
  (h : Parts host before start one whole slots before' start' middle part slots' before'' start''
    two rest slots'')

include h

theorem not_rest {ref : Ref .record} (hmem : ref ∈ part) : ref ∉ rest :=
  fun hrest => ((h.mem_rest ref).1 hrest).2 hmem

theorem new_of_middle {slot : Ref .slot} (hnew : middle.store.slots.get? slot = none) :
    host.store.slots.get? slot = none := by
  cases hold : host.store.slots.get? slot with
  | none => rfl
  | some value =>
    rw [h.first.slots_extend slot value hold] at hnew
    cases hnew

variable {origin : Origin} {slot slot' : Ref .slot}
  (hold : ∀ found, origin = .slot found → (host.store.slots.get? found).isSome)
  (howner : ∀ owner own, origin = .localName owner own →
    ∃ wiring, (Batch.ofRecords host whole).Commits (Batch.describe host owner) wiring)

include hold howner

theorem sameOrigin_first (hone : Realises slots start one origin slot)
    (htwo : Realises slots' start' two origin slot') : host.SameOrigin one two slot slot' := by
  cases origin with
  | slot found =>
    obtain rfl : slot = found := hone
    exact .old htwo.symm (hold slot rfl)
  | localName owner own =>
    obtain ⟨wiring, hcommits⟩ := howner owner own rfl
    obtain ⟨hmem, -⟩ := h.first.slotOf_isSome.1 (Option.isSome_iff_exists.2 ⟨slot', htwo⟩)
    obtain ⟨wiring', hcommits'⟩ := h.first.commits hmem fun hbreaks =>
      hcommits.not_breaks h.joint.proper ((h.part_breaks_iff hmem).2 hbreaks)
    obtain ⟨hnew, hlocal⟩ := h.joint.exportsLocal hcommits hone
    obtain ⟨hnew', hlocal'⟩ := h.first.exportsLocal hcommits' htwo
    exact .localName owner own hnew hnew' hlocal (h.second.keepsLocal (h.not_rest hmem) hlocal')
  | exports target =>
    obtain ⟨hnew, hholds⟩ := h.joint.realised_exports hone
    obtain ⟨hnew', hholds'⟩ := h.first.realised_exports htwo
    exact .exports target hnew hnew' hholds hholds'

theorem sameOrigin_second (hone : Realises slots start one origin slot)
    (htwo : Realises slots'' start'' two origin slot') : host.SameOrigin one two slot slot' := by
  cases origin with
  | slot found =>
    obtain rfl : slot = found := hone
    exact .old htwo.symm (hold slot rfl)
  | localName owner own =>
    obtain ⟨wiring, hcommits⟩ := howner owner own rfl
    obtain ⟨hmem, -⟩ := h.second.slotOf_isSome.1 (Option.isSome_iff_exists.2 ⟨slot', htwo⟩)
    obtain ⟨wiring', hcommits'⟩ := h.second.commits hmem fun hbreaks =>
      hcommits.not_breaks h.joint.proper ((h.rest_breaks_iff hmem).2 hbreaks)
    obtain ⟨hnew, hlocal⟩ := h.joint.exportsLocal hcommits hone
    obtain ⟨hnew', hlocal'⟩ := h.second.exportsLocal hcommits' htwo
    exact .localName owner own hnew (h.new_of_middle hnew') hlocal hlocal'
  | exports target =>
    obtain ⟨hnew, hholds⟩ := h.joint.realised_exports hone
    obtain ⟨hnew', hholds'⟩ := h.second.realised_exports htwo
    rw [h.first.space] at hholds'
    exact .exports target hnew (h.new_of_middle hnew') hholds hholds'

end

section
variable {host before start one before' start' middle before'' start'' two : Host}
  {whole part rest : List (Ref .record)}
  {slots slots' slots'' : List (Ref .record × List (String × Ref .slot))}
  (h : Parts host before start one whole slots before' start' middle part slots' before'' start''
    two rest slots'')

include h

theorem keeps_bound {ref : Ref .record} (name : String) (bound : Bound)
    (hbound : (host.record ref).environment.bounds.get? name = some bound) :
    host.SameOrigin one two bound.slot bound.slot := by
  refine .old rfl (h.tidy.slots (.scope ref name) bound.slot ?_)
  rw [Host.slotAt?_scope]
  unfold Environment.slot?
  rw [hbound]
  rfl

/-- A record of the part that is committed is linked alike. -/
theorem alike_part {ref : Ref .record} (hmem : ref ∈ part)
    (hsound : ¬ (Batch.ofRecords host whole).Breaks ref) : host.LinkedAlike one two ref := by
  obtain ⟨wiring, hcommits⟩ := h.joint.commits (h.sub ref hmem) hsound
  obtain ⟨wiring', hcommits'⟩ := h.first.commits hmem fun hbreaks =>
    hsound ((h.part_breaks_iff hmem).2 hbreaks)
  obtain ⟨found, hfound, halike⟩ :=
    (h.partCut.peers hcommits.mem (.inl hmem) id).wire (fun _ => rfl) hcommits.wired
  cases hcommits'.wired.symm.trans hfound
  obtain ⟨hone, hphase⟩ := h.joint.committed hcommits
  obtain ⟨hmiddle, hphase'⟩ := h.first.committed hcommits'
  have hrecord := h.second.record (h.not_rest hmem)
  have hspaces : two.store.spaces.get? (middle.record ref).space =
      middle.store.spaces.get? (middle.record ref).space := h.second.spaces fun other hother => by
    rw [h.first.space, h.first.space]
    refine h.space_ne ((h.mem_rest other).1 hother).1 (h.sub ref hmem) ?_
    rintro rfl
    exact h.not_rest hmem hother
  have htwo := hmiddle.later h.second.slots_extend hrecord hspaces
  obtain ⟨hscope, hexports⟩ := hone.alike htwo halike
    (fun name origin origin' slot slot' hfound heq hrealises hrealises' => by
      subst heq
      obtain ⟨hold, howner⟩ := h.joint.origin_cases hcommits hfound
      exact h.sameOrigin_first hold howner hrealises hrealises')
    (fun name slot slot' hslot hslot' => by
      have howner : ∀ owner own, Origin.localName ref name = .localName owner own →
          ∃ wiring, (Batch.ofRecords host whole).Commits (Batch.describe host owner) wiring := by
        rintro owner own heq
        cases heq
        exact ⟨wiring, hcommits⟩
      exact h.sameOrigin_first (fun _ hnone => by cases hnone) howner hslot hslot')
    (fun name => by
      rw [h.joint.slotOf_isSome, h.first.slotOf_isSome]
      exact and_congr_left fun _ => ⟨fun _ => hmem, fun _ => h.sub ref hmem⟩)
    fun name bound hbound => h.keeps_bound name bound hbound
  refine ⟨?_, .inl hphase, hscope, hexports⟩
  rw [hrecord, hphase', hphase]

/-- A record of the rest that is committed is linked alike. -/
theorem alike_rest {ref : Ref .record} (hmem : ref ∈ rest)
    (hsound : ¬ (Batch.ofRecords host whole).Breaks ref) : host.LinkedAlike one two ref := by
  obtain ⟨hwhole, hpart⟩ := (h.mem_rest ref).1 hmem
  obtain ⟨wiring, hcommits⟩ := h.joint.commits hwhole hsound
  obtain ⟨wiring', hcommits'⟩ := h.second.commits hmem fun hbreaks =>
    hsound ((h.rest_breaks_iff hmem).2 hbreaks)
  obtain ⟨found, hfound, halike⟩ := (h.restCut.peers hcommits.mem
    ⟨fun htainted => hsound (h.breaks_of_tainted htainted), .inl hwhole⟩
    fun hinner => hpart hinner.1).wire (fun _ => .inl rfl) hcommits.wired
  rw [← h.middle_unit] at hfound
  cases hcommits'.wired.symm.trans hfound
  obtain ⟨hone, hphase⟩ := h.joint.committed hcommits
  obtain ⟨htwo, hphase'⟩ := h.second.committed hcommits'
  rw [h.first.record hpart] at htwo
  obtain ⟨hscope, hexports⟩ := hone.alike htwo halike
    (fun name origin origin' slot slot' hfound hbrought hrealises hrealises' => by
      obtain ⟨hold, howner⟩ := h.joint.origin_cases hcommits hfound
      rcases hbrought with rfl | ⟨got, rfl, hgot⟩
      · exact h.sameOrigin_second hold howner hrealises hrealises'
      · obtain rfl : slot' = got := hrealises'
        exact h.sameOrigin_first hold howner hrealises (hgot.later h.second.slots_extend))
    (fun name slot slot' hslot hslot' => by
      have howner : ∀ owner own, Origin.localName ref name = .localName owner own →
          ∃ wiring, (Batch.ofRecords host whole).Commits (Batch.describe host owner) wiring := by
        rintro owner own heq
        cases heq
        exact ⟨wiring, hcommits⟩
      exact h.sameOrigin_second (fun _ hnone => by cases hnone) howner hslot hslot')
    (fun name => by
      rw [h.joint.slotOf_isSome, h.second.slotOf_isSome, h.middle_unit]
      exact and_congr_left fun _ => ⟨fun _ => hmem, fun _ => hwhole⟩)
    fun name bound hbound => h.keeps_bound name bound hbound
  refine ⟨?_, .inl hphase, hscope, hexports⟩
  rw [hphase', hphase]

/-- A record that fails is left alike. -/
theorem alike_broken {ref : Ref .record} (hmem : ref ∈ whole)
    (hbreaks : (Batch.ofRecords host whole).Breaks ref) : host.LinkedAlike one two ref := by
  obtain ⟨hone, hphase, hempty⟩ := h.joint.broken hmem hbreaks
  have htwo : (two.record ref).environment = (host.record ref).environment ∧
      (two.record ref).phase = .failed ∧
        (two.store.space (host.record ref).space).exports = .empty := by
    by_cases hpart : ref ∈ part
    · obtain ⟨hmiddle, hphase', hempty'⟩ :=
        h.first.broken hpart ((h.part_breaks_iff hpart).1 hbreaks)
      have hexports : (two.store.space (host.record ref).space).exports =
          (middle.store.space (host.record ref).space).exports := h.second.exports fun other hother => by
        rw [h.first.space]
        refine h.space_ne ((h.mem_rest other).1 hother).1 hmem ?_
        rintro rfl
        exact h.not_rest hpart hother
      rw [h.second.record (h.not_rest hpart), hexports]
      exact ⟨hmiddle, hphase', hempty'⟩
    · have hrest := (h.mem_rest ref).2 ⟨hmem, hpart⟩
      obtain ⟨htwo, hphase', hempty'⟩ := h.second.broken hrest ((h.rest_breaks_iff hrest).1 hbreaks)
      rw [h.first.record hpart] at htwo hempty'
      exact ⟨htwo, hphase', hempty'⟩
  obtain ⟨htwo, hphase', hempty'⟩ := htwo
  refine ⟨hphase'.trans hphase.symm, .inr hphase, fun name => ?_, fun name => ?_⟩
  · rw [hone, htwo]
    cases hbound : (host.record ref).environment.bounds.get? name with
    | none => exact .none
    | some bound => exact .some ⟨rfl, h.keeps_bound name bound hbound⟩
  · rw [Host.slotAt?_exports, Host.slotAt?_exports, h.joint.space, h.second.space, h.first.space,
      hempty, hempty']
    exact .none

/-- Every record is linked alike in one batch and in two. -/
theorem linkedAlike {ref : Ref .record} (hmem : ref ∈ whole) : host.LinkedAlike one two ref := by
  by_cases hbreaks : (Batch.ofRecords host whole).Breaks ref
  · exact h.alike_broken hmem hbreaks
  · by_cases hpart : ref ∈ part
    · exact h.alike_part hpart hbreaks
    · exact h.alike_rest ((h.mem_rest ref).2 ⟨hmem, hpart⟩) hbreaks

end

end Parts

end Act

/-- What records of the list depend on is in the list, or past linking. -/
def Host.ClosedUpon (host : Host) (refs : List (Ref .record)) : Prop :=
  ∀ ref ∈ refs, ∀ target ∈ host.dependencies (host.record ref),
    target ∈ refs ∨ Phase.linked.rank ≤ (host.record target).phase.rank

/-- What records of `whole` depend on outside shows no namespace of a record of `part`. -/
def Host.Apart (host : Host) (whole part : List (Ref .record)) : Prop :=
  ∀ ref ∈ whole, ∀ target ∈ host.dependencies (host.record ref), target ∉ whole →
    ∀ other ∈ part, (host.record other).space ≠ (host.record target).space

instance (host : Host) (refs : List (Ref .record)) : Decidable (host.ClosedUpon refs) :=
  inferInstanceAs (Decidable (∀ ref ∈ refs, ∀ target ∈ host.dependencies (host.record ref),
    target ∈ refs ∨ Phase.linked.rank ≤ (host.record target).phase.rank))

instance (host : Host) (whole part : List (Ref .record)) : Decidable (host.Apart whole part) :=
  inferInstanceAs (Decidable (∀ ref ∈ whole, ∀ target ∈ host.dependencies (host.record ref),
    target ∉ whole → ∀ other ∈ part, (host.record other).space ≠ (host.record target).space))

namespace Act

end Act

/-- The host in which records were linked. -/
def Host.linkedWith (host : Host) (refs : List (Ref .record)) : Host :=
  (Act.link refs host).2

/-- The records of a list that are still to be linked. -/
def Host.stillLoaded (host : Host) (refs : List (Ref .record)) : List (Ref .record) :=
  refs.filter fun ref => (host.record ref).phase = .loaded

/-- A module that imports a name from one exposing the namespace of a third, which is loaded. -/
def importExposure : Host :=
  let host := (Act.newCompartment (.simple "inner" [("x", ChainKind.moduleOf [.exportName "x"] none)])
    default).2
  let host := (Act.loadNow ⟨⟨0⟩, "x"⟩ host).2
  let host := (Act.newCompartment (.simple "outer"
    [("main", ChainKind.moduleOf [.importName "x" "y", .importAll "z" "x"] none),
     ("x", .redirect "x" (some "inner")),
     ("y", .exports (.exportsOf "inner" "x"))]) host).2
  (Act.loadNow ⟨⟨1⟩, "main"⟩ host).2

namespace Act

end Act

end ModuleLoader
