import ModuleLoader.Proofs.Joins
/-!
Linking does not depend on how records are divided into batches: to link some of them first, and the
others after that, gives each the same phase and binds each name to the same origin.
-/

namespace ModuleLoader
set_option autoImplicit false

theorem Batch.mem_dependencies {host : Host} {ref target : Ref .record} {request : Request}
    (hrequest : request ∈ (Batch.describe host ref).requests)
    (htarget : request.target = some target) :
    target ∈ host.dependencies (host.record ref) := by
  obtain ⟨pair, hpair, rfl⟩ := List.mem_map.1 hrequest
  exact List.mem_filterMap.2 ⟨pair.2, List.mem_map_of_mem hpair, htarget⟩

namespace Act

/-- Records were linked all together in `one`. Apart from that, the `part` of them was linked in
`middle`, and the `rest` of them after it in `two`. The part is closed under dependencies, and nothing
outside that the records depend on shows the namespace of one of the part. -/
structure Parts (host before start one : Host) (whole : List (Ref .record))
    (slots : List (Ref .record × List (String × Ref .slot))) (before' start' middle : Host)
    (part : List (Ref .record)) (slots' : List (Ref .record × List (String × Ref .slot)))
    (before'' start'' two : Host) (rest : List (Ref .record))
    (slots'' : List (Ref .record × List (String × Ref .slot))) : Prop where
  tidy : host.Tidy
  joint : Joins host before start one whole slots
  first : Joins host before' start' middle part slots'
  second : Joins middle before'' start'' two rest slots''
  sub : ∀ ref ∈ part, ref ∈ whole
  mem_rest : ∀ ref, ref ∈ rest ↔ ref ∈ whole ∧ ref ∉ part
  closed : ∀ ref ∈ part, ∀ target ∈ host.dependencies (host.record ref),
    target ∈ whole → target ∈ part
  apart : ∀ ref ∈ whole, ∀ target ∈ host.dependencies (host.record ref), target ∉ whole →
    ∀ other ∈ part, (host.record other).space ≠ (host.record target).space

namespace Parts

section
variable {host before start one before' start' middle before'' start'' two : Host}
  {whole part rest : List (Ref .record)}
  {slots slots' slots'' : List (Ref .record × List (String × Ref .slot))}
  (h : Parts host before start one whole slots before' start' middle part slots' before'' start''
    two rest slots'')

include h

theorem space_ne {ref other : Ref .record} (hmem : ref ∈ whole) (hmem' : other ∈ whole)
    (hne : ref ≠ other) : (host.record ref).space ≠ (host.record other).space := by
  have hsource {ref : Ref .record} (hmem : ref ∈ whole) : ∃ record,
      host.records.get? ref = some record ∧ host.record ref = record ∧ record.source.isSome := by
    obtain ⟨record, hrecord, hphase, -⟩ := h.joint.begins.begun ref hmem
    refine ⟨record, hrecord, congrArg (Option.getD · default) hrecord, ?_⟩
    cases hnone : record.source with
    | some source => rfl
    | none =>
      have hready := h.tidy.exposed ref record hrecord hnone
      rw [hphase] at hready
      cases hready
  obtain ⟨record, hrecord, hown, hsome⟩ := hsource hmem
  obtain ⟨record', hrecord', hown', hsome'⟩ := hsource hmem'
  rw [hown, hown']
  exact fun heq => hne (h.tidy.distinct ref other record record' hrecord hrecord' hsome hsome' heq)

theorem middle_unit (ref : Ref .record) : Batch.describe middle ref = Batch.describe host ref :=
  h.first.describe ref

/-- What a record of the part requests is of the part, or of no batch. -/
theorem part_or_outside {ref target : Ref .record} (hmem : ref ∈ part) {request : Request}
    (hrequest : request ∈ (Batch.describe host ref).requests)
    (htarget : request.target = some target) : target ∈ part ∨ target ∉ whole := by
  by_cases hwhole : target ∈ whole
  · exact .inl (h.closed ref hmem target (Batch.mem_dependencies hrequest htarget) hwhole)
  · exact .inr hwhole

/-- The part looks the same in its own batch and in the whole one. -/
theorem partCut : Batch.Cut (Batch.ofRecords host whole) (Batch.ofRecords host part)
    (fun ref => ref ∈ part ∨ ref ∉ whole) (fun _ => False) Eq where
  proper := h.joint.proper
  proper' := h.first.proper
  refl _ := rfl
  closed := by
    rintro ref unit (hmem | hmem) hunit request hrequest target htarget
    · rw [h.joint.unitOf, if_pos (h.sub ref hmem)] at hunit
      cases hunit
      exact h.part_or_outside hmem hrequest htarget
    · rw [h.joint.unitOf, if_neg hmem] at hunit
      cases hunit
  unit := by
    rintro ref (hmem | hmem) -
    · rw [h.joint.unitOf, h.first.unitOf, if_pos (h.sub ref hmem), if_pos hmem]
    · rw [h.joint.unitOf, h.first.unitOf, if_neg hmem, if_neg fun hpart => hmem (h.sub ref hpart)]
  outside _ _ _ _ := rfl
  within _ _ hnone := hnone.elim
  answers _ hnone := hnone.elim
  exports _ hnone := hnone.elim

theorem part_breaks_iff {ref : Ref .record} (hmem : ref ∈ part) :
    (Batch.ofRecords host whole).Breaks ref ↔ (Batch.ofRecords host part).Breaks ref :=
  ⟨fun hbreaks => h.partCut.breaks (fun _ hnone => hnone.elim) hbreaks (.inl hmem) id,
    fun hbreaks => h.partCut.breaks_back hbreaks (.inl hmem) id⟩

/-- A record of the whole depends on one of the part that fails. -/
def Tainted (host : Host) (whole part : List (Ref .record)) : Ref .record → Prop :=
  (Batch.ofRecords host whole).Affected fun ref =>
    ref ∈ part ∧ (Batch.ofRecords host part).Breaks ref

omit h in
theorem Tainted.mem {ref : Ref .record} (hsub : ∀ ref ∈ part, ref ∈ whole)
    (htainted : Tainted host whole part ref) : ref ∈ whole := by
  cases htainted with
  | here hbad => exact hsub ref hbad.1
  | needs hunit _ _ _ => exact (Joins.mem_units.1 hunit).1

theorem breaks_of_tainted {ref : Ref .record} (htainted : Tainted host whole part ref) :
    (Batch.ofRecords host whole).Breaks ref := by
  unfold Tainted at htainted
  induction htainted with
  | here hbad => exact (h.part_breaks_iff hbad.1).2 hbad.2
  | needs hunit hrequest htarget _ ih => exact .needs hunit hrequest htarget ih

theorem part_breaks_of_tainted {ref : Ref .record} (htainted : Tainted host whole part ref)
    (hmem : ref ∈ part) : (Batch.ofRecords host part).Breaks ref := by
  unfold Tainted at htainted
  induction htainted with
  | here hbad => exact hbad.2
  | @needs unit request target hunit hrequest htarget hnext ih =>
    obtain ⟨-, heq⟩ := Joins.mem_units.1 hunit
    rw [heq] at hrequest
    have htaken := (h.part_or_outside hmem hrequest htarget).resolve_right fun hnot =>
      hnot (Tainted.mem h.sub hnext)
    rw [← heq] at hrequest
    exact .needs (Joins.mem_units.2 ⟨hmem, heq⟩) hrequest htarget (ih htaken)

theorem mem_rest_units {unit : LinkUnit} (hmem : unit.record ∈ rest)
    (hunit : unit ∈ (Batch.ofRecords host whole).units) :
    unit ∈ (Batch.ofRecords middle rest).units := by
  refine Joins.mem_units.2 ⟨hmem, ?_⟩
  rw [h.middle_unit]
  exact (Joins.mem_units.1 hunit).2

/-- A record of the part is not of the second batch, where it has failed or exports its names. -/
theorem rest_unitOf_part {ref : Ref .record} (hmem : ref ∈ part) :
    (Batch.ofRecords middle rest).unitOf ref = none := by
  rw [h.second.unitOf, if_neg fun hrest => ((h.mem_rest ref).1 hrest).2 hmem]

theorem rest_breaks_of_tainted {ref : Ref .record} (htainted : Tainted host whole part ref)
    (hmem : ref ∈ rest) : (Batch.ofRecords middle rest).Breaks ref := by
  unfold Tainted at htainted
  induction htainted with
  | here hbad => exact absurd hbad.1 ((h.mem_rest _).1 hmem).2
  | @needs unit request target hunit hrequest htarget hnext ih =>
    have hunit' := h.mem_rest_units hmem hunit
    by_cases hpart : target ∈ part
    · -- The record that failed with the part is refused in the batch of the rest.
      refine .here ⟨unit, hunit', rfl, ?_⟩
      cases hwire : (Batch.ofRecords middle rest).wire unit with
      | error failure => exact ⟨failure, rfl⟩
      | ok wiring =>
        obtain ⟨record, hrecord, hresponds⟩ :=
          Batch.checkRequests_targets (Batch.wired_of_wire hwire).requests request hrequest
        rw [htarget] at hrecord
        cases hrecord
        rcases hresponds with hsome | ⟨exports, hexports⟩
        · rw [h.rest_unitOf_part hpart] at hsome
          cases hsome
        · obtain ⟨-, hphase, -⟩ := h.first.broken hpart (h.part_breaks_of_tainted hnext hpart)
          have hfailed : Batch.exported middle target = .ok exports := hexports
          unfold Batch.exported at hfailed
          rw [if_pos hphase] at hfailed
          cases hfailed
    · exact .needs hunit' hrequest htarget
        (ih ((h.mem_rest target).2 ⟨Tainted.mem h.sub hnext, hpart⟩))

/-- The origin of the second batch is the one of the whole batch, or the slot that it has got. -/
def Brought (slots' : List (Ref .record × List (String × Ref .slot))) (start' middle : Host)
    (origin origin' : Origin) : Prop :=
  origin = origin' ∨ ∃ slot, origin' = .slot slot ∧ Realises slots' start' middle origin slot

/-- What a record of the part is found to export is on its namespace. -/
theorem part_exports {ref : Ref .record} (hmem : ref ∈ part)
    (hbreaks : ¬ (Batch.ofRecords host part).Breaks ref) (name : String) :
    Batch.Echoes (Brought slots' start' middle) ((Batch.ofRecords host whole).originOf ref name)
      (.ok (((middle.store.space (middle.record ref).space).exports.get? name).map .slot)) := by
  obtain ⟨wiring, hcommits⟩ := h.first.commits hmem hbreaks
  obtain ⟨hcommitted, -⟩ := h.first.committed hcommits
  have hwired := Batch.wired_of_wire hcommits.wired
  have hanswers : (Batch.ofRecords host part).Answers ref := by
    unfold Batch.Answers
    rw [h.first.unitOf, if_pos hmem]
    exact ⟨wiring, hcommits.wired⟩
  have hechoes := h.partCut.originOf (.inl hmem) name
  rcases hanswers.exports_or_lost h.first.proper name with ⟨origin, horigin⟩ | hlost
  · obtain ⟨slot, hslot, hrealises⟩ :=
      hcommitted.exports name origin (hwired.mem_exports h.first.proper hcommits.mem horigin)
    have hslot : (middle.store.space (middle.record ref).space).exports.get? name = some slot :=
      hslot
    rw [horigin] at hechoes
    rw [hslot]
    generalize (Batch.ofRecords host whole).originOf ref name = result at hechoes ⊢
    cases hechoes with
    | found heq => exact .found (.inr ⟨slot, rfl, heq ▸ hrealises⟩)
  · rw [hlost.originOf] at hechoes
    have hnone : (middle.store.space (middle.record ref).space).exports.get? name = none := by
      cases hslot : (middle.store.space (middle.record ref).space).exports.get? name with
      | none => rfl
      | some slot =>
        obtain ⟨origin, hexported, -⟩ := hcommitted.exported name slot hslot
        have hfound := hwired.export_origin hexported
        rw [show (Batch.describe host ref).record = ref from rfl, hlost.originOf] at hfound
        cases hfound
    rw [hnone]
    generalize (Batch.ofRecords host whole).originOf ref name = result at hechoes ⊢
    cases hechoes with
    | nothing => exact .nothing

/-- A record outside that is depended on exports in the second batch what it did in the whole one. -/
theorem exported_outside {ref target : Ref .record} (hmem : ref ∈ whole)
    (htarget : target ∈ host.dependencies (host.record ref)) (hnot : target ∉ whole) :
    Batch.exported middle target = Batch.exported host target := by
  have hexports : (middle.store.space (host.record target).space).exports =
      (host.store.space (host.record target).space).exports :=
    h.first.exports fun other hother => h.apart ref hmem target htarget hnot other hother
  unfold Batch.exported
  rw [h.first.record fun hpart => hnot (h.sub target hpart)]
  dsimp only
  rw [hexports]

/-- The rest looks the same in its own batch and in the whole one, as far as nothing failed that it
depends on. -/
theorem restCut : Batch.Cut (Batch.ofRecords host whole) (Batch.ofRecords middle rest)
    (fun ref => ¬ Tainted host whole part ref ∧
      (ref ∈ whole ∨ ∃ other ∈ whole, ref ∈ host.dependencies (host.record other)))
    (fun ref => ref ∈ part ∧ ¬ (Batch.ofRecords host part).Breaks ref)
    (Brought slots' start' middle) where
  proper := h.joint.proper
  proper' := h.second.proper
  refl _ := .inl rfl
  closed := by
    rintro ref unit ⟨hsound, -⟩ hunit request hrequest target htarget
    rw [h.joint.unitOf] at hunit
    split at hunit
    · rename_i hmem
      cases hunit
      refine ⟨fun htainted => hsound ?_, .inr ⟨ref, hmem, Batch.mem_dependencies hrequest htarget⟩⟩
      exact .needs (List.mem_map_of_mem hmem) hrequest htarget htainted
    · cases hunit
  unit := by
    rintro ref ⟨hsound, -⟩ hinner
    have hpart : ref ∉ part := fun hpart => hinner ⟨hpart, fun hbreaks => hsound (.here ⟨hpart, hbreaks⟩)⟩
    rw [h.joint.unitOf, h.second.unitOf, h.middle_unit]
    by_cases hmem : ref ∈ whole
    · rw [if_pos hmem, if_pos ((h.mem_rest ref).2 ⟨hmem, hpart⟩)]
    · rw [if_neg hmem, if_neg fun hrest => hmem ((h.mem_rest ref).1 hrest).1]
  outside := by
    rintro ref ⟨-, hwhole | ⟨other, hother, hdepends⟩⟩ - hunit
    · rw [h.joint.unitOf, if_pos hwhole] at hunit
      cases hunit
    · refine h.exported_outside hother hdepends fun hmem => ?_
      rw [h.joint.unitOf, if_pos hmem] at hunit
      cases hunit
  within := by
    rintro ref unit ⟨hmem, hsound⟩ hunit request hrequest target htarget
    rw [h.joint.unitOf, if_pos (h.sub ref hmem)] at hunit
    cases hunit
    rcases h.part_or_outside hmem hrequest htarget with hpart | hnot
    · exact .inl ⟨hpart, fun hbreaks =>
        hsound (.needs (List.mem_map_of_mem hmem) hrequest htarget hbreaks)⟩
    · right
      rw [h.joint.unitOf, if_neg hnot]
  answers := by
    rintro ref ⟨hmem, hsound⟩
    obtain ⟨wiring, hcommits⟩ := h.joint.commits (h.sub ref hmem)
      fun hbreaks => hsound ((h.part_breaks_iff hmem).1 hbreaks)
    unfold Batch.Answers
    rw [h.joint.unitOf, if_pos (h.sub ref hmem)]
    exact ⟨wiring, hcommits.wired⟩
  exports := by
    rintro ref ⟨hmem, hsound⟩
    refine ⟨h.rest_unitOf_part hmem, _, ?_, h.part_exports hmem hsound⟩
    obtain ⟨wiring, hcommits⟩ := h.first.commits hmem hsound
    obtain ⟨-, hphase⟩ := h.first.committed hcommits
    change Batch.exported middle ref = _
    unfold Batch.exported
    rw [if_neg]
    rw [hphase]
    decide

/-- A record of the rest fails with its own batch exactly if it fails with the whole one. -/
theorem rest_breaks_iff {ref : Ref .record} (hmem : ref ∈ rest) :
    (Batch.ofRecords host whole).Breaks ref ↔ (Batch.ofRecords middle rest).Breaks ref := by
  obtain ⟨hwhole, hpart⟩ := (h.mem_rest ref).1 hmem
  by_cases htainted : Tainted host whole part ref
  · exact ⟨fun _ => h.rest_breaks_of_tainted htainted hmem, fun _ => h.breaks_of_tainted htainted⟩
  · have hregion : ¬ Tainted host whole part ref ∧
        (ref ∈ whole ∨ ∃ other ∈ whole, ref ∈ host.dependencies (host.record other)) :=
      ⟨htainted, .inl hwhole⟩
    refine ⟨fun hbreaks => h.restCut.breaks (fun other hother hbad => ?_) hbreaks hregion
      fun hinner => hpart hinner.1, fun hbreaks => h.restCut.breaks_back hbreaks hregion
        fun hinner => hpart hinner.1⟩
    exact hother.2 ((h.part_breaks_iff hother.1).1 hbad)

end

end Parts

end Act

end ModuleLoader
