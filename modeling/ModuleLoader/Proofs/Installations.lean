import ModuleLoader.Proofs.Schedulings
/-!
A driver that was just installed is good, so scheduling keeps a host coherent: each of its components waits
for the components and the earlier records that it depends on, and those that wait for nothing run first.
-/

namespace ModuleLoader
set_option autoImplicit false

namespace Host

variable {host : Host} {root ref : Ref .record} {groups : List (List (Ref .record))}

/-- A member of an earlier driver is not scheduled now. -/
theorem Coherent.not_scheduling (hc : host.Coherent) (hs : host.Schedulable root groups)
    {other : Ref .driver} {driving : DriverWork} (hdrives : host.Drives other driving)
    {component : Component}
    (hcomponent : component ∈ driving.components) (href : ref ∈ component.members) :
    ref ∉ groups.flatten := by
  obtain ⟨ready, hgrouped, -⟩ := (hc.manned.proper other driving hdrives component hcomponent).group
  intro hmem
  have hnone := (Host.pending_iff.1 (hs.pending ref hmem)).2
  cases hnone.symm.trans ((hgrouped ref).1 href)

end Host

namespace Act.Enlists

variable {host host' : Host} {root ref : Ref .record} {groups : List (List (Ref .record))}
  {pairs : List (List (Ref .record) × Ref .verdict)} {driver : Ref .driver} {bell : Ref .bell}
  {work : DriverWork}
  (h : Enlists (host.scheduling root groups) host' groups pairs driver bell work)
  (hs : host.Schedulable root groups)
include h

theorem getElem?_groups {index : Nat} {members : List (Ref .record)} {verdict : Ref .verdict}
    (hpair : pairs[index]? = some (members, verdict)) : groups[index]? = some members := by
  rw [← h.pairs_groups, List.getElem?_map, hpair]
  rfl

include hs

/-- A record belongs to a component if it is one of its members. -/
theorem owner_eq_some {index : Nat} : host.ownerIn groups ref = some index ↔
    ∃ members verdict, pairs[index]? = some (members, verdict) ∧ ref ∈ members := by
  rw [Host.ownerIn_eq_some hs.nodup fun ref href => ?_]
  · constructor
    · rintro ⟨members, hmembers, href⟩
      rw [← h.pairs_groups, List.getElem?_map] at hmembers
      obtain ⟨⟨group, verdict⟩, hpair, rfl⟩ := Option.map_eq_some_iff.1 hmembers
      exact ⟨group, verdict, hpair, href⟩
    · rintro ⟨members, verdict, hpair, href⟩
      exact ⟨members, h.getElem?_groups hpair, href⟩
  · obtain ⟨record, hrecord⟩ := (hs.pending ref href).exists
    exact hrecord ▸ rfl

/-- No component depends on a later one. -/
theorem earlier_lt {index other : Nat} (hmem : other ∈ host.insideOf (host.ownerIn groups) pairs index) :
    other < index := by
  obtain ⟨hne, members, verdict, hpair, ref, href, needed, hneeded, howner⟩ := Host.mem_insideOf.1 hmem
  obtain ⟨others, verdict', hpair', hneeded'⟩ := (h.owner_eq_some hs).1 howner
  refine (Nat.lt_or_gt_of_ne hne).resolve_right fun hgt => ?_
  have hgroup := h.getElem?_groups hpair
  have hgroup' := h.getElem?_groups hpair'
  obtain ⟨hlt, rfl⟩ := List.getElem?_eq_some_iff.1 hgroup
  obtain ⟨hlt', rfl⟩ := List.getElem?_eq_some_iff.1 hgroup'
  refine (List.pairwise_iff_getElem.1 hs.apart) index other hlt hlt' hgt ref href needed hneeded'
    (.single ⟨?_, ?_, hneeded⟩)
  · exact List.mem_flatten_of_mem (List.getElem_mem hlt) href
  · exact List.mem_flatten_of_mem (List.getElem_mem hlt') hneeded'

theorem plan : Host.Planned host (host.ownerIn groups) pairs work.components := by
  have hnone : Host.Planned host (host.ownerIn groups) [] [] :=
    ⟨rfl, fun _ _ _ hnone => nomatch hnone⟩
  have hrecords : (host.scheduling root groups).records = host.records := rfl
  rw [h.planned.trans (componentsOf_congr hrecords rfl _ pairs 0 [])]
  exact Host.componentsOf_planned pairs [] hnone fun _ _ hmem => h.earlier_lt hs hmem

/-- A component of the driver waits for all that its members depend on outside of it. -/
theorem component {index : Nat} {component : Component} (hcomponent : work.components[index]? = some component) :
    pairs[index]? = some (component.members, component.verdict) ∧ component.settled = false ∧
      component.waiting = (host.found (host.ownerIn groups) index component.members).inside.length +
        (host.found (host.ownerIn groups) index component.members).outside.length ∧
      component.outside =
        (host.found (host.ownerIn groups) index component.members).outside.map host.completion ∧
      component.dependents.Nodup ∧ ∀ other, other ∈ component.dependents ↔
        index ∈ host.insideOf (host.ownerIn groups) pairs other := by
  have hplan := h.plan hs
  have hlt : index < pairs.length := hplan.length ▸ (List.getElem?_eq_some_iff.1 hcomponent).1
  obtain ⟨members, verdict⟩ : List (Ref .record) × Ref .verdict := pairs[index]
  have hpair : pairs[index]? = some pairs[index] := List.getElem?_eq_getElem hlt
  obtain ⟨found, hfound, hmembers, hverdict, hrest⟩ :=
    hplan.component index pairs[index].1 pairs[index].2 hpair
  obtain rfl := Option.some.inj (hcomponent.symm.trans hfound)
  rw [hmembers, hverdict]
  exact ⟨hpair, hrest⟩

theorem insideOf_eq {index : Nat} {component : Component}
    (hcomponent : work.components[index]? = some component) :
    host.insideOf (host.ownerIn groups) pairs index =
      (host.found (host.ownerIn groups) index component.members).inside := by
  unfold Host.insideOf
  rw [(h.component hs hcomponent).1]

theorem unsettled {component : Component} (hmem : component ∈ work.components) :
    component.settled = false := by
  obtain ⟨index, hindex⟩ := List.mem_iff_getElem?.1 hmem
  exact (h.component hs hindex).2.1

theorem mem_component {index : Nat} {component : Component}
    (hcomponent : work.components[index]? = some component) (href : ref ∈ component.members) :
    ref ∈ groups.flatten :=
  List.mem_flatten_of_mem (h.mem_groups (List.mem_of_getElem? (h.component hs hcomponent).1)) href

theorem wired : Wired host' (host.insideOf (host.ownerIn groups) pairs) work.components where
  wellFounded := Subrelation.wf (fun hmem => h.earlier_lt hs hmem) Nat.lt_wfRel.wf
  unique := Host.insideOf_nodup pairs
  known index earlier hmem := by
    obtain ⟨-, members, verdict, hpair, -⟩ := Host.mem_insideOf.1 hmem
    rw [(h.plan hs).length]
    exact Nat.lt_trans (h.earlier_lt hs hmem) (List.getElem?_eq_some_iff.1 hpair).1
  dependents index component hcomponent := (h.component hs hcomponent).2.2.2.2
  edges index earlier hmem component other hcomponent hother := by
    obtain ⟨-, members, verdict, hpair, ref, href, needed, hneeded, howner⟩ := Host.mem_insideOf.1 hmem
    obtain ⟨others, verdict', hpair', hneeded'⟩ := (h.owner_eq_some hs).1 howner
    obtain ⟨rfl, -⟩ := Prod.mk.inj (Option.some.inj (hpair.symm.trans (h.component hs hcomponent).1))
    obtain ⟨rfl, -⟩ := Prod.mk.inj (Option.some.inj (hpair'.symm.trans (h.component hs hother).1))
    refine ⟨ref, href, needed, hneeded', ?_⟩
    rw [h.dependencies]
    exact hneeded

/-- A component waits outside for the records that its members depend on and that were not scheduled
with it. -/
theorem outside_iff {index : Nat} {component : Component}
    (hcomponent : work.components[index]? = some component) {completion : Completion} :
    .outside index completion ∈ DriverWork.firstWaits work.components ↔
      ∃ ref ∈ component.members, ∃ needed ∈ host.dependencies (host.record ref),
        needed ∉ groups.flatten ∧ completion = host.completion needed := by
  have hout (needed : Ref .record) : host.ownerIn groups needed = none ↔ needed ∉ groups.flatten := by
    rw [Option.eq_none_iff_forall_not_mem]
    constructor
    · intro hnone hmem
      obtain ⟨members, verdict, hpair, hneeded⟩ := h.exists_pair hmem
      obtain ⟨place, hplace⟩ := List.mem_iff_getElem?.1 hpair
      exact hnone place ((h.owner_eq_some hs).2 ⟨members, verdict, hplace, hneeded⟩)
    · intro hnot place hplace
      obtain ⟨members, verdict, hpair, hneeded⟩ := (h.owner_eq_some hs).1 hplace
      exact hnot (List.mem_flatten_of_mem (h.mem_groups (List.mem_of_getElem? hpair)) hneeded)
  have hfound := host.found_found (host.ownerIn groups) index component.members
  rw [DriverWork.mem_firstWaits]
  constructor
  · rintro ⟨place, found, hfound', hwait⟩
    obtain ⟨rfl, hmem⟩ := DriverWork.mem_waitsOf_outside.1 hwait
    obtain rfl := Option.some.inj (hfound'.symm.trans hcomponent)
    rw [(h.component hs hcomponent).2.2.2.1] at hmem
    obtain ⟨needed, hneeded, rfl⟩ := List.mem_map.1 hmem
    obtain ⟨hdepends, howner⟩ := (hfound.outside needed).1 hneeded
    obtain ⟨ref, href, hdepends⟩ := List.mem_flatMap.1 hdepends
    exact ⟨ref, href, needed, hdepends, (hout needed).1 howner, rfl⟩
  · rintro ⟨ref, href, needed, hdepends, hnot, rfl⟩
    refine ⟨index, component, hcomponent, DriverWork.mem_waitsOf_outside.2 ⟨rfl, ?_⟩⟩
    rw [(h.component hs hcomponent).2.2.2.1]
    exact List.mem_map_of_mem ((hfound.outside needed).2
      ⟨List.mem_flatMap.2 ⟨ref, href, hdepends⟩, (hout needed).2 hnot⟩)

variable (hc : host.Coherent)
include hc

/-- What a component waits for outside stands for a record that was not scheduled with it. -/
theorem completion_standsFor {index : Nat} {component : Component}
    (hcomponent : work.components[index]? = some component) (href : ref ∈ component.members)
    {needed : Ref .record} (hneeded : needed ∈ host.dependencies (host.record ref))
    (hout : needed ∉ groups.flatten) : (host.completion needed).StandsFor host' needed := by
  have hmem := h.mem_component hs hcomponent href
  have hlinked := hc.linked_of_schedulable hs hmem
  cases hready : (host.record needed).ready with
  | some ready =>
    unfold Host.completion
    dsimp only
    rw [hready]
    exact h.ready_old hs hready
  | none =>
    exact hc.completion_left_out (h.carries hs) h.chronicle ((hs.covered ref hmem).tail ⟨hlinked, hneeded⟩)
      (hc.loads.dependency_exists hneeded) hready
      fun hpending => hout (hs.next ref hmem needed hneeded hpending)

theorem balanced : Balanced host' (host.insideOf (host.ownerIn groups) pairs) work.components
    (DriverWork.firstWaits work.components) none [] where
  counted index component hcomponent _ := by
    have hopen : (host.insideOf (host.ownerIn groups) pairs index).countP
        (Component.isOpen host' work.components) =
          (host.insideOf (host.ownerIn groups) pairs index).length := by
      refine List.countP_eq_length.2 fun earlier _ => ?_
      unfold Component.isOpen Component.isOver
      cases hearlier : work.components[earlier]? with
      | none => rfl
      | some found =>
        dsimp only
        rw [h.unsettled hs (List.mem_of_getElem? hearlier)]
        rfl
    obtain ⟨-, -, hwaiting, houtside, -⟩ := h.component hs hcomponent
    rw [hopen, DriverWork.countP_outside, hcomponent, hwaiting, h.insideOf_eq hs hcomponent]
    change _ + component.outside.length + 0 = _
    rw [houtside, List.length_map]
    rfl
  given index component hcomponent _ ref href needed hneeded := by
    rw [h.dependencies] at hneeded
    by_cases hmem : needed ∈ groups.flatten
    · obtain ⟨members, verdict, hpair, hneeded'⟩ := h.exists_pair hmem
      obtain ⟨place, hplace⟩ := List.mem_iff_getElem?.1 hpair
      have hown := (h.component hs hcomponent).1
      by_cases hsame : place = index
      · subst hsame
        obtain ⟨rfl, -⟩ := Prod.mk.inj (Option.some.inj (hplace.symm.trans hown))
        exact .inl hneeded'
      · obtain ⟨other, hother, rfl, -⟩ := (h.plan hs).component place members verdict hplace
        refine .inr (.inr (.inl ⟨place, Host.mem_insideOf.2 ⟨hsame, component.members, component.verdict,
          hown, ref, href, needed, hneeded, ?_⟩, other, hother, hneeded'⟩))
        exact (h.owner_eq_some hs).2 ⟨other.members, verdict, hplace, hneeded'⟩
    · exact .inr (.inr (.inr ⟨host.completion needed,
        (h.outside_iff hs hcomponent).2 ⟨ref, href, needed, hneeded, hmem, rfl⟩,
        h.completion_standsFor hs hc hcomponent href hneeded hmem⟩))
  idle index component hcomponent _ _ _ ref href := by
    rw [h.phase]
    exact (Host.pending_iff.1 (hs.pending ref (h.mem_component hs hcomponent href))).1
  runs index run hmem := by
    obtain ⟨place, component, hcomponent, hwait⟩ := DriverWork.mem_firstWaits.1 hmem
    obtain ⟨rfl, hwaiting, rfl⟩ := DriverWork.mem_waitsOf_run.1 hwait
    refine ⟨(fun heq => nomatch heq), component, hcomponent,
      h.unsettled hs (List.mem_of_getElem? hcomponent), hwaiting, [], rfl, (fun _ hmem => nomatch hmem),
      (fun _ _ heq => nomatch heq), fun ref href => ?_⟩
    rw [h.phase]
    exact (Host.pending_iff.1 (hs.pending ref (h.mem_component hs hcomponent href))).1
  once := DriverWork.countP_run_le work.components
  poised index component hcomponent _ hwaiting :=
    .inr ⟨⟨none, component.members⟩, DriverWork.mem_firstWaits.2
      ⟨index, component, hcomponent, DriverWork.mem_waitsOf_run.2 ⟨rfl, hwaiting, rfl⟩⟩⟩
  outside index completion hmem := by
    obtain ⟨place, component, hcomponent, hwait⟩ := DriverWork.mem_firstWaits.1 hmem
    obtain ⟨rfl, -⟩ := DriverWork.mem_waitsOf_outside.1 hwait
    obtain ⟨ref, href, needed, hneeded, hout, rfl⟩ := (h.outside_iff hs hcomponent).1 hmem
    refine ⟨component, hcomponent, ref, href, needed, ?_, fun hmember => ?_,
      h.completion_standsFor hs hc hcomponent href hneeded hout⟩
    · rwa [h.dependencies]
    · exact hout (h.mem_component hs hcomponent hmember)
  announced index component hcomponent hsettled := by
    rw [h.unsettled hs (List.mem_of_getElem? hcomponent)] at hsettled
    cases hsettled

theorem good : work.Good host' where
  nodup := by
    rw [h.members]
    exact List.nodup_nil
  fresh index hmem := by
    rw [h.members] at hmem
    cases hmem
  unstarted _ := h.members
  balanced := by
    refine ⟨_, h.wired hs, ?_, fun _ _ _ _ _ earlier hearlier other hother hsettled => ?_⟩
    · unfold DriverWork.waits
      rw [h.started]
      exact h.balanced hs hc
    · rw [h.unsettled hs (List.mem_of_getElem? hother)] at hsettled
      cases hsettled

theorem component_proper {component : Component} (hmem : component ∈ work.components) :
    component.Proper host' := by
  obtain ⟨index, hindex⟩ := List.mem_iff_getElem?.1 hmem
  have hpair := List.mem_of_getElem? (h.component hs hindex).1
  have hmembers := h.mem_groups hpair
  obtain ⟨ready, -, hgrouped, honly⟩ := h.grouped hc hpair
  refine ⟨hs.nonempty _ hmembers, (List.nodup_flatten.1 hs.nodup).1 _ hmembers,
    ⟨root, groups, ?_, hmembers⟩, h.verdict_new hpair ▸ rfl, ready, hgrouped, honly⟩
  rw [h.chronicle]
  exact List.mem_cons_self

omit hs hc in
/-- A driver was there before, or is the new one. -/
theorem drives_cases {other : Ref .driver} {driving : DriverWork} (hdrives : host'.Drives other driving) :
    host.Drives other driving ∨ other = driver ∧ driving = work := by
  obtain ⟨bell', hdrives⟩ := hdrives
  by_cases hsame : other = driver
  · refine .inr ⟨hsame, ?_⟩
    rw [h.drivers, if_pos hsame] at hdrives
    obtain hdrives | hdrives := hdrives <;> cases hdrives
    rfl
  · rw [h.drivers, if_neg hsame] at hdrives
    exact .inl ⟨bell', hdrives⟩

theorem manned : host'.Manned where
  proper other driving hdrives component hcomponent := by
    rcases h.drives_cases hdrives with hold | ⟨rfl, rfl⟩
    · have hproper := hc.manned.proper other driving hold component hcomponent
      refine hproper.carries hc.recorded (h.carries hs) (h.posts.kept.isSome hproper.verdict)
        fun ready work hwork hverdict => ?_
      rcases h.completes_cases hwork with hwork | ⟨-, -, members, hpair⟩
      · exact ⟨work, hwork, hverdict⟩
      · have hnone : host.verdicts.get? work.verdict = none := (h.posts.fresh _ hpair).1
        have hexist := hproper.verdict
        rw [← hverdict, hnone] at hexist
        cases hexist
    · exact h.component_proper hs hc hcomponent
  disjoint other other' driving driving' hdrives hdrives' index index' component component' hcomponent
      hcomponent' ref href href' := by
    rcases h.drives_cases hdrives with hold | ⟨rfl, rfl⟩ <;>
      rcases h.drives_cases hdrives' with hold' | ⟨rfl, rfl⟩
    · exact hc.manned.disjoint other other' driving driving' hold hold' index index' component component'
        hcomponent hcomponent' ref href href'
    · exact absurd (h.mem_component hs hcomponent' href')
        (hc.not_scheduling hs hold (List.mem_of_getElem? hcomponent) href)
    · exact absurd (h.mem_component hs hcomponent href)
        (hc.not_scheduling hs hold' (List.mem_of_getElem? hcomponent') href')
    · refine ⟨rfl, ?_⟩
      have howner := (h.owner_eq_some hs).2 ⟨_, _, (h.component hs hcomponent).1, href⟩
      have howner' := (h.owner_eq_some hs).2 ⟨_, _, (h.component hs hcomponent').1, href'⟩
      exact Option.some.inj (howner.symm.trans howner')
  idle other bell' driving hdriving := by
    by_cases hsame : other = driver
    · rw [h.drivers, if_pos hsame] at hdriving
      cases hdriving
      exact h.good hs hc
    · rw [h.drivers, if_neg hsame] at hdriving
      exact (hc.manned.idle other bell' driving hdriving).carries hc.recorded
        (hc.manned.proper other driving ⟨bell', .inl hdriving⟩) (h.carries hs)
        fun _ _ ref _ => h.phase ref
  served ready serving hserving := by
    rcases h.completes_cases hserving with hold | ⟨-, hdriver, members, hpair⟩
    · obtain ⟨watch, hwatch, hserved⟩ := hc.manned.served ready serving hold
      refine ⟨watch, hwatch, hserved.imp ((h.carries hs).spoken _) ?_⟩
      rintro ⟨driving, ⟨bell', hdrives⟩, hcomponent⟩
      exact ⟨driving, ⟨bell', hdrives.imp h.drivers_kept h.drivers_kept⟩, hcomponent⟩
    · refine ⟨⟨driver, none⟩, hdriver, .inr ⟨work, ⟨bell, .inl ?_⟩, ?_⟩⟩
      · rw [h.drivers, if_pos rfl]
      · obtain ⟨index, hindex⟩ := List.mem_iff_getElem?.1 hpair
        obtain ⟨component, hcomponent, -, hverdict, -⟩ := (h.plan hs).component index _ _ hindex
        exact ⟨component, List.mem_of_getElem? hcomponent, hverdict⟩

theorem coherent : host'.Coherent where
  loads := h.moves.loads.loadsInOrder hc.loads
  calm := by
    rw [h.moves.loads.loads]
    exact hc.calm
  tidy := h.moves.undisturbed.tidy hc.tidy
  recorded := h.recorded hs hc
  told := h.told hs hc
  announced := h.announced hs hc
  manned := h.manned hs hc
  tasks ref task htask :=
    (hc.tasks ref task ((h.follows hs).tasks ▸ htask)).carries hc.recorded (h.carries hs)

end Act.Enlists

namespace Host

variable {host : Host} {ref : Ref .record} {node : Node}

theorem entryOf_eq_ok {entry : Entry} : host.entryOf node = .ok entry ↔ host.entryAt? node = some entry := by
  unfold entryOf
  split
  · rename_i found hfound
    rw [hfound]
    exact ⟨fun heq => congrArg some (Except.ok.inj heq), fun heq => congrArg Except.ok (Option.some.inj heq)⟩
  · rename_i hnone
    rw [hnone]
    exact iff_of_false (fun heq => nomatch heq) fun heq => nomatch heq

/-- Who waits for a record that has a completion waits for that. -/
theorem completion_of_ready {ready : Ref .ready} (hready : (host.record ref).ready = some ready) :
    host.completion ref = .shared ⟨ready, none⟩ := by
  unfold completion
  dsimp only
  rw [hready]

end Host

namespace Act

variable {host : Host}

/-- A driver for groups that may be scheduled keeps a host coherent, and the root has a completion. -/
theorem startDriver_scheduling (h : host.Coherent) {root : Ref .record}
    {groups : List (List (Ref .record))} (hs : host.Schedulable root groups) :
    After (host.scheduling root groups) (startDriver groups) fun _ after =>
      after.Coherent ∧ Follows [] host after ∧ ∃ ready, (after.record root).ready = some ready := by
  have hexist : ∀ ref ∈ groups.flatten, ((host.scheduling root groups).records.get? ref).isSome := by
    intro ref href
    obtain ⟨record, hrecord⟩ := (hs.pending ref href).exists
    change (host.records.get? ref).isSome
    rw [hrecord]
    rfl
  refine (startDriver_enlists hs.nodup hs.nonempty hexist).mono fun _ after henlists => ?_
  obtain ⟨pairs, driver, bell, work, henlists⟩ := henlists
  obtain ⟨members, verdict, hpair, hmember⟩ := henlists.exists_pair hs.start
  obtain ⟨ready, _, _, _, _, hmembers⟩ := henlists.ready_of_pair hpair
  exact ⟨henlists.coherent hs h, henlists.follows hs, ready, hmembers root hmember⟩

/-- Scheduling a record keeps a host coherent, and gives what stands for the record. -/
theorem schedule_coheres (h : host.Coherent) {root : Ref .record} (hexist : (host.records.get? root).isSome) :
    (schedule root).Coheres [] host fun completion after => completion.StandsFor after root := by
  unfold schedule
  refine .getBind ?_
  dsimp only
  split
  · rename_i hpending
    have hs := Host.components_schedulable h.recorded h.tidy hpending
    unfold Coheres
    rw [after_bind, after_mark, after_bind]
    refine (startDriver_scheduling h hs).mono fun _ after hafter => ?_
    obtain ⟨hafter, hfollows, ready, hready⟩ := hafter
    refine ⟨hafter, hfollows, ?_⟩
    change (after.completion root).StandsFor after root
    rw [Host.completion_of_ready hready]
    exact hready
  · rename_i hnot
    have hfair : host.Fair host.chronicle (.scheduled root []) :=
      ⟨List.nodup_nil, (fun _ _ _ _ _ hmem => nomatch hmem), (fun _ hmem => nomatch hmem),
        (fun _ hmem => nomatch hmem), (fun _ hmem => nomatch hmem), .nil⟩
    obtain ⟨hmarked, hsteady⟩ := h.marked
      (fun ref phase (heq : .scheduled root [] = Milestone.moved ref phase) => nomatch heq)
      (fun _ _ heq => nomatch heq) hfair
    have hfollows := h.follows hsteady
    refine ⟨hmarked, hfollows, ?_⟩
    change (host.completion root).StandsFor _ root
    cases hready : (host.record root).ready with
    | some ready =>
      rw [Host.completion_of_ready hready]
      exact hready
    | none =>
      exact h.completion_left_out hfollows.toCarries rfl .refl hexist hready hnot

/-- Linking the closure of a key and scheduling it gives what stands for its record. -/
theorem linkAndSchedule_coheres (h : host.Coherent) (node : Node) :
    (linkAndSchedule node).Coheres [] host fun result after => match result with
      | .ok completion => ∃ ref, after.lookup? node = some ref ∧ completion.StandsFor after ref
      | .error _ => host.entryAt? node = none := by
  unfold linkAndSchedule
  refine .getBind ?_
  split
  · rename_i failure hentry
    refine .pure h ?_
    unfold Host.entryOf at hentry
    split at hentry
    · cases hentry
    · assumption
  · rename_i entry hentry
    have hfound : host.entryAt? node = some entry := Host.entryOf_eq_ok.1 hentry
    have hlookup : host.lookup? node = some entry.record := by
      unfold Host.lookup?
      rw [hfound]
      rfl
    split
    · rename_i ready hready
      exact .pure h ⟨entry.record, hlookup, hready⟩
    · refine (linkClosure_coheres h node).bind fun _ linked hlinked hfollows _ => ?_
      have hlookup := hfollows.later.lookup? hlookup
      have hexist : (linked.records.get? entry.record).isSome :=
        hlinked.loads.lookup_exists hlookup
      refine (schedule_coheres hlinked hexist).bind fun completion after hafter hfollows' hstands => ?_
      exact .pure hafter ⟨entry.record, hfollows'.later.lookup? hlookup, hstands⟩

end Act

end ModuleLoader
