import ModuleLoader.Proofs.DeadEnds
/-!
What stars forward within a batch. A record forwards a name exactly if a target of its stars exports it
and the name is not reserved, and the origin is the one that the last declared of these targets finds,
as long as the search of the target does not come back to the name on the record itself.
-/

namespace ModuleLoader
set_option autoImplicit false

namespace Batch

variable {batch : Batch}

/-- The pairs that the search for a name of a record looks at. -/
def looksAt (batch : Batch) (record : Ref .record) (name : String) : Visited :=
  (batch.search (batch.bound + 1) [] record name).1

theorem firstFound_append {search : Visited → Ref .record → Found} :
    ∀ {records : List (Ref .record)} (more : List (Ref .record)) {visited : Visited},
      (firstFound search visited records).2 = .ok none →
        firstFound search visited (records ++ more) =
          firstFound search (firstFound search visited records).1 more
  | [], _, _, _ => rfl
  | record :: rest, more, visited, h => by
    rw [List.cons_append]
    by_cases hnone : (search visited record).2 = .ok none
    · rw [firstFound_none hnone] at h
      rw [firstFound_none hnone, firstFound_none hnone]
      exact firstFound_append more h
    · rw [firstFound_stop hnone] at h
      exact absurd h hnone

section
variable (hproper : batch.Proper) {record : Ref .record} {unit : LinkUnit}
  (hunit : batch.unitOf record = some unit) {name : String}
  (hstep : unit.exportStep name = .ok none)

include hunit hstep in
/-- The reserved name goes through no star. -/
theorem originOf_reserved (hname : name = unit.defaultExport) :
    batch.originOf record name = .ok none := by
  refine Lost.originOf ⟨(· = (record, name)), fun other own hpair => ?_, rfl⟩
  cases hpair
  exact .reserved hunit hstep hname

variable (hname : name ≠ unit.defaultExport) {targets : List (Ref .record)}
  (htargets : unit.starRecords = .ok targets)

include hproper hunit hstep hname htargets in
/-- A record forwards exactly the names that a target of its stars exports. -/
theorem originOf_star_iff (hrecord : batch.Answers record)
    (hanswers : ∀ target ∈ targets, batch.Answers target) :
    (∃ origin, batch.originOf record name = .ok (some origin)) ↔
      ∃ target ∈ targets, ∃ origin, batch.originOf target name = .ok (some origin) := by
  constructor
  · rintro ⟨origin, horigin⟩
    have hleads := leads_of_originOf horigin
    cases hleads with
    | outside hunit' => rw [hunit] at hunit'; cases hunit'
    | found hunit' hstep' =>
      rw [hunit] at hunit'; cases hunit'
      rw [hstep] at hstep'; cases hstep'
    | forward hunit' hstep' =>
      rw [hunit] at hunit'; cases hunit'
      rw [hstep] at hstep'; cases hstep'
    | require hunit' hstep' =>
      rw [hunit] at hunit'; cases hunit'
      rw [hstep] at hstep'; cases hstep'
    | star hunit' _ _ htargets' hmem hleads =>
      rw [hunit] at hunit'; cases hunit'
      rw [htargets] at htargets'; cases htargets'
      refine ⟨_, hmem, ((hanswers _ hmem).exports_or_lost hproper name).resolve_right ?_⟩
      exact dead_lost.not_leads hleads
  · rintro ⟨target, hmem, origin, horigin⟩
    have hleads : batch.Leads record name origin :=
      .star hunit hstep hname htargets hmem (leads_of_originOf horigin)
    exact (hrecord.exports_or_lost hproper name).resolve_right (dead_lost.not_leads hleads)

include hproper hunit hstep hname htargets in
/-- The last declared of the targets that export a name wins, if its own search does not come back. -/
theorem originOf_star_last {before after : List (Ref .record)} {target : Ref .record}
    (hsplit : targets = before ++ target :: after) {origin : Origin}
    (horigin : batch.originOf target name = .ok (some origin))
    (hafter : ∀ other ∈ after, batch.Lost (other, name))
    (hback : (record, name) ∉ batch.looksAt target name) :
    batch.originOf record name = .ok (some origin) := by
  let look (visited : Visited) (target : Ref .record) : Found :=
    batch.search batch.bound visited target name
  -- The later targets come up empty and leave only lost pairs behind.
  obtain ⟨hnone, hlost⟩ : CameUpEmpty batch.Lost [(record, name)]
      (firstFound look [(record, name)] after.reverse) :=
    firstFound_empty fun other hmem visited =>
      dead_lost.search batch.bound (hafter other (List.mem_reverse.1 hmem))
  have halike : AlikeOff batch.Lost (firstFound look [(record, name)] after.reverse).1
      [(record, name)] :=
    fun pair hpair => ⟨fun hmem => (hlost pair hmem).resolve_right hpair,
      mem_firstFound fun visited target => mem_search batch.bound target name⟩
  have hself : AlikeOff (· = (record, name)) [] [(record, name)] :=
    fun pair hpair => by simp [hpair]
  -- What the target finds from the start it finds here as well.
  have hlimit := unmet_lt_bound batch name []
  have hstart : batch.search batch.bound [] target name =
      batch.search (batch.bound + 1) [] target name :=
    search_enough hproper name batch.bound (batch.bound + 1) [] target name List.mem_cons_self
      hlimit (Nat.lt_succ_of_lt hlimit)
  have hfresh := search_without batch.bound target name hself (by rwa [hstart])
  have hfound : (look (firstFound look [(record, name)] after.reverse).1 target).2 =
      .ok (some origin) :=
    (dead_lost.search_agrees batch.bound target name halike).1.trans
      (hfresh.1.symm.trans (hstart ▸ horigin))
  have hstops : (look (firstFound look [(record, name)] after.reverse).1 target).2 ≠ .ok none := by
    rw [hfound]
    intro heq
    cases heq
  rw [originOf_poses hunit (.stars hstep hname htargets), Quest.pursue, hsplit, List.reverse_append,
    List.reverse_cons, List.append_assoc, firstFound_append _ hnone, List.singleton_append,
    firstFound_stop hstops]
  exact hfound

end

end Batch

end ModuleLoader
