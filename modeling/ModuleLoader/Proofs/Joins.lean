import ModuleLoader.Proofs.Forwardings
import ModuleLoader.Proofs.Rewirings
/-!
What became of a host when a batch of its records was linked, told by the batch as it was before.
-/

namespace ModuleLoader
set_option autoImplicit false

theorem LoadsAlike.describe {host host' : Host} (h : LoadsAlike host host') {ref : Ref .record}
    (honward : (host.record ref).Onward (host'.record ref)) :
    Batch.describe host' ref = Batch.describe host ref := by
  have hlookup (node : Node) : host'.lookup? node = host.lookup? node := by
    unfold Host.lookup?
    rw [h.entryAt? node]
  unfold Batch.describe
  simp only [hlookup, h.compartment, honward.key, honward.bindings, honward.requests, honward.home]

namespace Act

/-- The records of a host were linked together. -/
structure Joins (host before start after : Host) (refs : List (Ref .record))
    (slots : List (Ref .record × List (String × Ref .slot))) : Prop where
  nodup : refs.Nodup
  begins : Begins host before refs
  links : Links before start after refs slots

namespace Joins

variable {host before start after : Host} {refs : List (Ref .record)}
  {slots : List (Ref .record × List (String × Ref .slot))}

theorem exist (h : Joins host before start after refs slots) :
    ∀ ref ∈ refs, (host.records.get? ref).isSome := by
  intro ref hmem
  obtain ⟨record, hrecord, -⟩ := h.begins.begun ref hmem
  rw [hrecord]
  rfl

theorem unitOf (h : Joins host before start after refs slots) (ref : Ref .record) :
    (Batch.ofRecords host refs).unitOf ref =
      if ref ∈ refs then some (Batch.describe host ref) else none :=
  Batch.unitOf_ofRecords h.exist ref

theorem proper (h : Joins host before start after refs slots) :
    (Batch.ofRecords host refs).Proper :=
  Batch.ofRecords_proper h.exist

theorem mem_units {unit : LinkUnit} : unit ∈ (Batch.ofRecords host refs).units ↔
    unit.record ∈ refs ∧ unit = Batch.describe host unit.record := by
  constructor
  · intro hmem
    obtain ⟨ref, href, rfl⟩ := List.mem_map.1 hmem
    exact ⟨href, rfl⟩
  · rintro ⟨hmem, heq⟩
    rw [heq]
    exact List.mem_map_of_mem hmem

theorem records (h : Joins host before start after refs slots) {ref : Ref .record}
    (hmem : ref ∉ refs) : after.records.get? ref = host.records.get? ref :=
  (h.links.records hmem).trans (h.begins.others ref hmem)

theorem record (h : Joins host before start after refs slots) {ref : Ref .record}
    (hmem : ref ∉ refs) : after.record ref = host.record ref :=
  congrArg (Option.getD · default) (h.records hmem)

theorem loads (h : Joins host before start after refs slots) : LoadsAlike host after :=
  h.begins.loads.trans h.links.loadsAlike

theorem later (h : Joins host before start after refs slots) : Later host after :=
  h.begins.moves.later.trans h.links.later

theorem describe (h : Joins host before start after refs slots) (ref : Ref .record) :
    Batch.describe after ref = Batch.describe host ref := by
  by_cases hmem : ref ∈ refs
  · exact h.loads.describe (h.later.record (h.exist ref hmem))
  · exact h.loads.describe (by rw [h.record hmem]; exact .refl _)

theorem space (h : Joins host before start after refs slots) (ref : Ref .record) :
    (after.record ref).space = (host.record ref).space :=
  (h.links.space ref).trans (h.begins.space ref)

theorem slots_extend (h : Joins host before start after refs slots) :
    host.store.slots.Extends after.store.slots := by
  have hextends := h.links.extends'
  rw [h.begins.rest] at hextends
  exact hextends

/-- A namespace that no linked record has exports what it did. -/
theorem exports (h : Joins host before start after refs slots) {space : Ref .exports}
    (hnot : ∀ ref ∈ refs, (host.record ref).space ≠ space) :
    (after.store.space space).exports = (host.store.space space).exports := by
  have hsame : (after.store.space space).exports = (before.store.space space).exports :=
    h.links.exports fun unit wiring hcommits heq =>
      hnot unit.record (Links.mem_refs hcommits.mem).1 ((h.begins.space unit.record).symm.trans heq)
  rw [hsame, h.begins.rest]

/-- A namespace that no linked record has stays what it is. -/
theorem spaces (h : Joins host before start after refs slots) {space : Ref .exports}
    (hnot : ∀ ref ∈ refs, (host.record ref).space ≠ space) :
    after.store.spaces.get? space = host.store.spaces.get? space := by
  have hsame := h.links.settles.spaces space fun pair hpair heq => by
    obtain ⟨unit, hunit, rfl⟩ := List.mem_map.1 hpair
    refine hnot unit.record (Links.mem_refs hunit).1 ?_
    rw [heq, h.links.startRecord, h.begins.space]
  rw [hsame, h.links.startSpaces, h.begins.rest]

theorem exports_of_some (h : Joins host before start after refs slots) {space : Ref .exports}
    {name : String} {slot : Ref .slot}
    (hslot : (host.store.space space).exports.get? name = some slot) :
    (after.store.space space).exports = (host.store.space space).exports := by
  have hstore : before.store = host.store := by rw [h.begins.rest]
  rw [← hstore] at hslot ⊢
  exact h.links.exports_of_some hslot

theorem commits_before (h : Joins host before start after refs slots) {unit : LinkUnit}
    {wiring : Wiring} (hcommits : (Batch.ofRecords host refs).Commits unit wiring) :
    (Batch.ofRecords before refs).Commits unit wiring := by
  rw [h.begins.ofRecords]
  exact hcommits

/-- A record that does not break is committed. -/
theorem commits (h : Joins host before start after refs slots) {ref : Ref .record}
    (hmem : ref ∈ refs) (hbreaks : ¬ (Batch.ofRecords host refs).Breaks ref) :
    ∃ wiring, (Batch.ofRecords host refs).Commits (Batch.describe host ref) wiring :=
  (Batch.commits_or_breaks h.proper (List.mem_map_of_mem hmem)).resolve_right hbreaks

theorem committed (h : Joins host before start after refs slots) {ref : Ref .record}
    {wiring : Wiring}
    (hcommits : (Batch.ofRecords host refs).Commits (Batch.describe host ref) wiring) :
    Committed slots start after ref (host.record ref).environment wiring ∧
      (after.record ref).phase = .linked := by
  obtain ⟨hcommitted, environment, hget⟩ := h.links.committed (h.commits_before hcommits)
  rw [h.begins.moves.environment] at hcommitted
  exact ⟨hcommitted, congrArg (fun found => (found.getD default).phase) hget⟩

/-- A record that breaks has failed, with its scope as it was and nothing on its namespace. -/
theorem broken (h : Joins host before start after refs slots) {ref : Ref .record}
    (hmem : ref ∈ refs) (hbreaks : (Batch.ofRecords host refs).Breaks ref) :
    (after.record ref).environment = (host.record ref).environment ∧
      (after.record ref).phase = .failed ∧
        (after.store.space (host.record ref).space).exports = .empty := by
  rcases h.links.settled hmem with ⟨unit, wiring, hcommits, heq, -⟩ | ⟨hnot, failure, hempty, hget⟩
  · rw [h.begins.ofRecords] at hcommits
    exact absurd (heq ▸ hbreaks) (hcommits.not_breaks h.proper)
  · refine ⟨(h.links.environment hnot).trans (h.begins.moves.environment ref),
      congrArg (fun found => (found.getD default).phase) hget, ?_⟩
    rw [← h.begins.space]
    exact hempty

theorem slotOf_isSome (h : Joins host before start after refs slots) {ref : Ref .record}
    {name : String} : (slotOf slots ref name).isSome ↔
      ref ∈ refs ∧ name ∈ (Batch.describe host ref).localNames := by
  have hunits : (Batch.ofRecords before refs).units = (Batch.ofRecords host refs).units := by
    rw [h.begins.ofRecords]
  constructor
  · intro hsome
    obtain ⟨slot, hslot⟩ := Option.isSome_iff_exists.1 hsome
    obtain ⟨unit, hunit, rfl, hname⟩ := h.links.made.localNames hslot
    rw [hunits] at hunit
    obtain ⟨hmem, heq⟩ := mem_units.1 hunit
    exact ⟨hmem, heq ▸ hname⟩
  · rintro ⟨hmem, hname⟩
    have hunit : Batch.describe host ref ∈ (Batch.ofRecords before refs).units := by
      rw [hunits]
      exact List.mem_map_of_mem hmem
    have hnodup : ((Batch.ofRecords before refs).units.map LinkUnit.record).Nodup :=
      (Batch.records_ofRecords before refs).symm ▸ h.nodup
    exact Option.isSome_iff_exists.2 (h.links.made.isSome hnodup hunit hname)

/-- What a committed record depends on can be asked for what it exports. -/
theorem answers (h : Joins host before start after refs slots) {unit : LinkUnit} {wiring : Wiring}
    (hcommits : (Batch.ofRecords host refs).Commits unit wiring) {source : String}
    {target : Ref .record} (htarget : unit.target source = .ok target) :
    (Batch.ofRecords host refs).Stands target := by
  have hstands := h.links.answers (h.commits_before hcommits) htarget
  rw [h.begins.ofRecords] at hstands
  exact hstands

/-- The record whose local name a committed record leads to is committed as well. -/
theorem owner_commits (h : Joins host before start after refs slots) {record : Ref .record}
    {name : String} {origin : Origin} (hleads : (Batch.ofRecords host refs).Leads record name origin)
    {owner : Ref .record} {own : String} (horigin : origin = .localName owner own)
    (hstands : (Batch.ofRecords host refs).Stands record) :
    ∃ wiring, (Batch.ofRecords host refs).Commits (Batch.describe host owner) wiring := by
  have hcommits {record : Ref .record} {unit : LinkUnit}
      (hunit : (Batch.ofRecords host refs).unitOf record = some unit)
      (hstands : (Batch.ofRecords host refs).Stands record) :
      ∃ wiring, (Batch.ofRecords host refs).Commits unit wiring := by
    rcases hstands with ⟨unit', wiring, hcommits, rfl⟩ | ⟨hnone, -⟩
    · rw [h.proper.unitOf unit' hcommits.mem] at hunit
      cases hunit
      exact ⟨wiring, hcommits⟩
    · rw [hnone] at hunit
      cases hunit
  have hnext {record target : Ref .record} {unit : LinkUnit} {source : String}
      (hunit : (Batch.ofRecords host refs).unitOf record = some unit)
      (hstands : (Batch.ofRecords host refs).Stands record)
      (htarget : unit.target source = .ok target) : (Batch.ofRecords host refs).Stands target :=
    let ⟨_, hcommits⟩ := hcommits hunit hstands
    h.answers hcommits htarget
  induction hleads with
  | outside => cases horigin
  | @found record name unit origin hunit hstep =>
    obtain ⟨wiring, hcommits⟩ := hcommits hunit hstands
    have howner : unit.record = owner := by
      subst horigin
      cases LinkUnit.explicit_of_explicitStep hstep with
      | exportName _ hlocal =>
        cases hlocal
        rfl
      | exportAs _ hlocal =>
        cases hlocal
        rfl
    obtain ⟨-, heq⟩ := mem_units.1 hcommits.mem
    rw [heq, howner] at hcommits
    exact ⟨wiring, hcommits⟩
  | forward hunit hstep _ ih =>
    obtain ⟨source, htarget⟩ := LinkUnit.target_of_exportStep hstep (.inl rfl)
    exact ih horigin (hnext hunit hstands htarget)
  | @require _ _ _ _ source _ _ hunit hstep _ ih =>
    obtain ⟨source', htarget⟩ := LinkUnit.target_of_exportStep hstep (.inr ⟨source, rfl⟩)
    exact ih horigin (hnext hunit hstands htarget)
  | star hunit _ _ htargets hmem _ ih =>
    obtain ⟨source, -, htarget⟩ := LinkUnit.mem_targets htargets _ hmem
    exact ih horigin (hnext hunit hstands htarget)

/-- An origin in the wiring of a committed record is a slot that was there, a namespace, or a local
name of a committed record. -/
theorem origin_cases (h : Joins host before start after refs slots) {unit : LinkUnit}
    {wiring : Wiring} (hcommits : (Batch.ofRecords host refs).Commits unit wiring) {name : String}
    {origin : Origin} (hmem : (name, origin) ∈ wiring.imports ++ wiring.exports) :
    (∀ slot, origin = .slot slot → (host.store.slots.get? slot).isSome) ∧
      ∀ owner own, origin = .localName owner own →
        ∃ wiring, (Batch.ofRecords host refs).Commits (Batch.describe host owner) wiring := by
  have hwired := Batch.wired_of_wire hcommits.wired
  have hleads : (∃ record remote, (Batch.ofRecords host refs).Leads record remote origin ∧
      (Batch.ofRecords host refs).Stands record) ∨ ∃ record, origin = .exports record := by
    rcases List.mem_append.1 hmem with hmem | hmem
    · obtain ⟨binding, -, hfrom⟩ := hwired.imports_from hmem
      have hfound {imported source : String}
          (horigin : (Batch.ofRecords host refs).importOrigin unit imported source = .ok origin) :
          ∃ record remote, (Batch.ofRecords host refs).Leads record remote origin ∧
            (Batch.ofRecords host refs).Stands record := by
        obtain ⟨target, htarget, hfound⟩ := Batch.Wired.importOrigin_ok horigin
        exact ⟨target, imported, Batch.leads_of_originOf hfound, h.answers hcommits htarget⟩
      cases binding with
      | importName imported source => exact .inl (hfound hfrom.2)
      | importAs imported newName source => exact .inl (hfound hfrom.2)
      | importAll newName source =>
        obtain ⟨-, target, -, heq⟩ := hfrom
        exact .inr ⟨target, heq⟩
      | exportName => exact hfrom.elim
      | exportAs => exact hfrom.elim
      | exportFrom => exact hfrom.elim
      | exportAll => exact hfrom.elim
      | exportAllAs => exact hfrom.elim
    · exact .inl ⟨unit.record, name, Batch.leads_of_originOf (hwired.export_origin hmem),
        .inl ⟨unit, wiring, hcommits, rfl⟩⟩
  rcases hleads with ⟨record, remote, hleads, hstands⟩ | ⟨record, rfl⟩
  · refine ⟨fun slot hslot => ?_, fun owner own horigin => h.owner_commits hleads horigin hstands⟩
    rw [← h.begins.ofRecords] at hleads
    have hexists := h.links.slot_exists hleads hslot
    rw [h.begins.rest] at hexists
    exact hexists
  · exact ⟨(fun _ hslot => nomatch hslot), fun _ _ horigin => nomatch horigin⟩

/-- A slot that was made for a namespace is new, and holds that namespace. -/
theorem realised_exports (h : Joins host before start after refs slots) {final : Host}
    {target : Ref .record} {slot : Ref .slot}
    (hrealises : Realises slots start final (.exports target) slot) :
    host.store.slots.get? slot = none ∧
      final.store.slot? slot = some (.exports (host.record target).space) := by
  obtain ⟨hnew, hholds⟩ := hrealises
  rw [h.links.startRecord, h.begins.space] at hholds
  refine ⟨?_, congrArg (Option.getD · none) hholds⟩
  cases hold : host.store.slots.get? slot with
  | none => rfl
  | some value =>
    have hbefore : before.store.slots.get? slot = some value := by
      rw [h.begins.rest]
      exact hold
    rw [h.links.made.made.extends' slot value hbefore] at hnew
    cases hnew

end Joins

end Act

end ModuleLoader
