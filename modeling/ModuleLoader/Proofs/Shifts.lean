import ModuleLoader.Proofs.SmallSteps
/-!
Records that enter phases keep a host coherent, if nobody else drives them and each phase is due.
-/

namespace ModuleLoader
set_option autoImplicit false

/-- Records entered phases one after another, each of them once. -/
structure Shifts (host host' : Host) (phases : List (Ref .record × Phase)) : Prop where
  later : Later host host'
  tasks : host'.tasks = host.tasks
  readies : host'.readies = host.readies
  drivers : host'.drivers = host.drivers
  verdicts : host'.verdicts = host.verdicts
  nodup : (phases.map Prod.fst).Nodup
  moved : ∀ ref phase, (ref, phase) ∈ phases → ∃ record record',
    host.records.get? ref = some record ∧ host'.records.get? ref = some record' ∧
      record.phase.allows phase = true ∧ record'.phase = phase ∧ record'.ready = record.ready ∧
        (phase = .failed ↔ record'.error.isSome = true)
  others : ∀ ref, ref ∉ phases.map Prod.fst → host'.records.get? ref = host.records.get? ref
  chronicle : host'.chronicle =
    (phases.map fun pair => .moved pair.1 pair.2).reverse ++ host.chronicle

/-- The phases are due: records that somebody drives are `moving`, and those that somebody will drive
are not among them. -/
structure Shifts.Due (host host' : Host) (moving : List (Ref .record))
    (phases : List (Ref .record × Phase)) : Prop where
  linked : ∀ ref, (ref, .linked) ∈ phases → ∀ key ∈ (host'.record ref).requestKeys,
    (host'.lookup? ⟨(host'.record ref).home, key⟩).isSome
  ready : ∀ ref, (ref, .ready) ∈ phases → .moved ref .executing ∈ host.chronicle
  begins : ∀ ref, (ref, .executing) ∈ phases → phases = [(ref, .executing)] ∧
    host.BeginsIn host.chronicle ref
  scheduled : ∀ ref ∈ phases.map Prod.fst, host.Linked ref → (host.record ref).ready.isSome
  driven : ∀ driver bell work, Shelf.drivers.get? host driver = some ⟨bell, .driven work⟩ →
    ∀ component ∈ work.components, ∀ ref ∈ component.members,
      ref ∈ phases.map Prod.fst → ref ∈ moving
  idle : ∀ driver bell work, Shelf.drivers.get? host driver = some ⟨bell, .idle work⟩ →
    ∀ component ∈ work.components, ∀ ref ∈ component.members, ref ∉ phases.map Prod.fst

namespace Shifts

variable {moving : List (Ref .record)} {host host' : Host} {phases : List (Ref .record × Phase)}

/-- A record that is there was there before, and is what it was or has entered a phase. -/
theorem cases (h : Shifts host host' phases) {ref : Ref .record} {record' : Record}
    (hrecord' : host'.records.get? ref = some record') : ∃ record,
      host.records.get? ref = some record ∧ record.Onward record' ∧
        record'.ready = record.ready ∧ (record' = record ∧ ref ∉ phases.map Prod.fst ∨
          (ref, record'.phase) ∈ phases ∧ record.phase.allows record'.phase = true) := by
  by_cases hmem : ref ∈ phases.map Prod.fst
  · obtain ⟨⟨found, phase⟩, hpair, rfl⟩ := List.mem_map.1 hmem
    obtain ⟨record, moved, hrecord, hmoved, hallows, rfl, hready, -⟩ := h.moved found phase hpair
    obtain rfl : record' = moved := Option.some.inj (hrecord'.symm.trans hmoved)
    obtain ⟨later, hlater, honward⟩ := h.later.records found record hrecord
    obtain rfl : record' = later := Option.some.inj (hrecord'.symm.trans hlater)
    exact ⟨record, hrecord, honward, hready, .inr ⟨hpair, hallows⟩⟩
  · rw [h.others ref hmem] at hrecord'
    exact ⟨record', hrecord', .refl record', rfl, .inl ⟨rfl, hmem⟩⟩

theorem ready (h : Shifts host host' phases) (ref : Ref .record) :
    (host'.record ref).ready = (host.record ref).ready := by
  by_cases hmem : ref ∈ phases.map Prod.fst
  · obtain ⟨⟨found, phase⟩, hpair, rfl⟩ := List.mem_map.1 hmem
    obtain ⟨record, moved, hrecord, hmoved, -, -, hready, -⟩ := h.moved found phase hpair
    unfold Host.record
    rw [hrecord, hmoved]
    exact hready
  · exact congrArg (fun found => (found.getD default).ready) (h.others ref hmem)

theorem phase (h : Shifts host host' phases) {ref : Ref .record} (hmem : ref ∉ phases.map Prod.fst) :
    (host'.record ref).phase = (host.record ref).phase :=
  congrArg (fun found => (found.getD default).phase) (h.others ref hmem)

theorem phase_of_mem (h : Shifts host host' phases) {ref : Ref .record} {phase : Phase}
    (hmem : (ref, phase) ∈ phases) : (host'.record ref).phase = phase := by
  obtain ⟨record, moved, -, hmoved, -, hphase, -⟩ := h.moved ref phase hmem
  unfold Host.record
  rw [hmoved]
  exact hphase

theorem mem_chronicle (h : Shifts host host' phases) {ref : Ref .record} {phase : Phase} :
    .moved ref phase ∈ host'.chronicle ↔
      (ref, phase) ∈ phases ∨ .moved ref phase ∈ host.chronicle := by
  rw [h.chronicle, List.mem_append, List.mem_reverse, List.mem_map]
  refine or_congr_left ⟨?_, fun hmem => ⟨_, hmem, rfl⟩⟩
  rintro ⟨⟨found, entered⟩, hmem, heq⟩
  cases heq
  exact hmem

theorem drivers_get? (h : Shifts host host' phases) (driver : Ref .driver) :
    Shelf.drivers.get? host' driver = Shelf.drivers.get? host driver :=
  congrArg (fun drivers => (drivers.get? driver).map Driver.shared) h.drivers

theorem drives (h : Shifts host host' phases) {driver : Ref .driver} {work : DriverWork} :
    host'.Drives driver work ↔ host.Drives driver work := by
  unfold Host.Drives
  rw [h.drivers_get?]

theorem completes (h : Shifts host host' phases) {ready : Ref .ready} {work : ReadyWork} :
    host'.Completes ready work ↔ host.Completes ready work := by
  unfold Host.Completes
  rw [h.readies]

/-- A record that failed enters no phase. -/
theorem error (h : Shifts host host' phases) (hrecorded : host.Recorded) {ref : Ref .record}
    {failure : Failure} (herror : (host.record ref).error = some failure) :
    (host'.record ref).error = some failure := by
  have hout : ref ∉ phases.map Prod.fst := by
    intro hmem
    obtain ⟨⟨found, phase⟩, hpair, rfl⟩ := List.mem_map.1 hmem
    obtain ⟨record, moved, hrecord, -, hallows, -⟩ := h.moved found phase hpair
    have hfailed := (hrecorded.failed found).2 (herror ▸ rfl)
    unfold Host.record at hfailed
    rw [hrecord] at hfailed
    change record.phase = .failed at hfailed
    rw [hfailed] at hallows
    cases hallows
  exact (congrArg (fun found => (found.getD default).error) (h.others ref hout)).trans herror

theorem follows (h : Shifts host host' phases) (hdue : Due host host' moving phases)
    (hrecorded : host.Recorded) : Follows moving host host' where
  later := h.later
  ready ref _ hready := (h.ready ref).trans hready
  exist _ hready := h.readies ▸ hready
  group ref _ _ hready := (h.ready ref).symm.trans hready
  error _ _ herror := h.error hrecorded herror
  spoken _ hspoken := h.verdicts ▸ hspoken
  tasks := h.tasks
  readies _ _ _ hwork := h.readies ▸ hwork
  drivers driver _ _ hwork := (h.drivers_get? driver).trans hwork
  members driver bell work hwork component hcomponent ref href hout :=
    h.phase fun hmem => hout (hdue.driven driver bell work hwork component hcomponent ref href hmem)

theorem recorded (h : Shifts host host' phases) (hdue : Due host host' moving phases)
    (hrecorded : host.Recorded) (htidy : host.Tidy) : host'.Recorded where
  moved ref earlier hmem := by
    rcases h.mem_chronicle.1 hmem with hmem | hmem
    · obtain ⟨record, record', hrecord, hrecord', hallows, hphase, -⟩ := h.moved ref earlier hmem
      obtain ⟨found, hfound, honward⟩ := h.later.records ref record hrecord
      obtain rfl : record' = found := Option.some.inj (hrecord'.symm.trans hfound)
      refine ⟨record', hrecord', honward.source ▸ ?_, .inl hphase.symm⟩
      cases hsource : record.source with
      | some source => rfl
      | none =>
        rw [htidy.exposed ref record hrecord hsource] at hallows
        cases hallows
    · obtain ⟨record, hrecord, hsource, hearlier⟩ := hrecorded.moved ref earlier hmem
      obtain ⟨record', hrecord', honward⟩ := h.later.records ref record hrecord
      refine ⟨record', hrecord', honward.source ▸ hsource, ?_⟩
      rcases honward.phase with hsame | hlater
      · rwa [hsame]
      · rcases hearlier with rfl | hearlier
        · exact .inr hlater
        · exact .inr (Phase.allows_trans hearlier hlater)
  phase ref record' hrecord' hsource := by
    rw [h.mem_chronicle]
    obtain ⟨record, hrecord, honward, -, ⟨rfl, -⟩ | ⟨hmem, -⟩⟩ := h.cases hrecord'
    · exact (hrecorded.phase ref record' hrecord hsource).imp_right .inr
    · exact .inr (.inl hmem)
  bare ref record' hrecord' hsource := by
    obtain ⟨record, hrecord, honward, -⟩ := h.cases hrecord'
    rw [honward.requests]
    exact hrecorded.bare ref record hrecord (honward.source ▸ hsource)
  ready ref ready hready := by
    rw [h.ready] at hready
    obtain ⟨hlinked, hexist⟩ := hrecorded.ready ref ready hready
    exact ⟨h.later.linked hlinked, h.readies ▸ hexist⟩
  scheduled ref ready hready := by
    rw [h.ready] at hready
    obtain ⟨root, groups, hmem, href⟩ := hrecorded.scheduled ref ready hready
    exact ⟨root, groups, h.later.chronicle.subset hmem, href⟩
  waiting ref hlinked hready := by
    rw [h.ready] at hready
    by_cases hmem : ref ∈ phases.map Prod.fst
    · have hnot : ¬ host.Linked ref := fun hlinked => by
        have hsome := hdue.scheduled ref hmem hlinked
        rw [hready] at hsome
        cases hsome
      exact h.phase_of_mem ((h.mem_chronicle.1 hlinked).resolve_right hnot)
    · rw [h.phase hmem]
      refine hrecorded.waiting ref ((h.mem_chronicle.1 hlinked).resolve_left fun hpair => ?_) hready
      exact hmem (List.mem_map_of_mem (f := Prod.fst) hpair)
  failed ref := by
    by_cases hmem : ref ∈ phases.map Prod.fst
    · obtain ⟨⟨found, phase⟩, hpair, rfl⟩ := List.mem_map.1 hmem
      obtain ⟨record, moved, hrecord, hmoved, -, rfl, -, herror⟩ := h.moved found phase hpair
      unfold Host.record
      rw [hmoved]
      exact herror
    · unfold Host.record
      rw [h.others ref hmem]
      exact hrecorded.failed ref
  fixed ref hlinked := by
    rcases h.mem_chronicle.1 hlinked with hmem | hlinked
    · exact hdue.linked ref hmem
    · exact h.later.fixed hrecorded hlinked
  together ref other ready hready hready' := by
    rw [h.ready] at hready hready'
    exact h.later.covers (hrecorded.together ref other ready hready hready')

/-- The moves that were made before one of several moves were moves of other records. -/
theorem moved_before {ref : Ref .record} {phase : Phase} {before : List Milestone}
    (hnodup : (phases.map Prod.fst).Nodup)
    (hbefore : (.moved ref phase :: before) <:+
      (phases.map fun pair => Milestone.moved pair.1 pair.2).reverse) :
    (ref, phase) ∈ phases ∧ ∀ earlier, .moved ref earlier ∉ before := by
  obtain ⟨rest, heq⟩ := hbefore
  have heq := congrArg List.reverse heq
  rw [List.reverse_reverse, List.reverse_append, List.reverse_cons, List.append_assoc] at heq
  obtain ⟨first, last, rfl, hfirst, hlast⟩ := List.map_eq_append_iff.1 heq.symm
  obtain ⟨⟨found, entered⟩, tail, rfl, hpair, -⟩ := List.map_eq_cons_iff.1 hlast
  cases hpair
  refine ⟨List.mem_append_right _ List.mem_cons_self, fun earlier hmem => ?_⟩
  rw [← List.mem_reverse, ← hfirst] at hmem
  obtain ⟨⟨found, entered⟩, hother, heq⟩ := List.mem_map.1 hmem
  cases heq
  rw [List.map_append, List.nodup_append] at hnodup
  exact hnodup.2.2 _ (List.mem_map_of_mem (f := Prod.fst) hother) _ List.mem_cons_self rfl

theorem told (h : Shifts host host' phases) (hdue : Due host host' moving phases)
    (hrecorded : host.Recorded) (htold : host.Told) : host'.Told := by
  refine (h.follows hdue hrecorded).told hrecorded htold h.chronicle fun mark before hbefore => ?_
  have hmark := hbefore.subset List.mem_cons_self
  obtain ⟨⟨ref, phase⟩, -, rfl⟩ := List.mem_map.1 (List.mem_reverse.1 hmark)
  obtain ⟨hmem, hnot⟩ := moved_before h.nodup hbefore
  refine ⟨fun earlier hearlier => ?_, fun hphase => ?_, fun hphase => ?_⟩
  · have hearlier := (List.mem_append.1 hearlier).resolve_left (hnot earlier)
    obtain ⟨record, record', hrecord, -, hallows, -⟩ := h.moved ref phase hmem
    obtain ⟨found, hfound, -, hfirst⟩ := hrecorded.moved ref earlier hearlier
    obtain rfl : found = record := Option.some.inj (hfound.symm.trans hrecord)
    rcases hfirst with rfl | hfirst
    · exact hallows
    · exact Phase.allows_trans hfirst hallows
  · dsimp only at hphase
    subst hphase
    exact List.mem_append_right _ (hdue.ready ref hmem)
  · dsimp only at hphase
    subst hphase
    obtain ⟨rfl, hbegins⟩ := hdue.begins ref hmem
    rcases List.suffix_cons_iff.1 hbefore with heq | hbefore
    · cases heq
      exact (h.follows hdue hrecorded).beginsIn hrecorded hbegins
    · cases List.suffix_nil.1 hbefore

theorem announced (h : Shifts host host' phases) (hdue : Due host host' moving phases)
    (hrecorded : host.Recorded) (hannounced : host.Announced) : host'.Announced where
  exist ready work hwork := by
    rw [h.verdicts]
    exact hannounced.exist ready work (h.completes.1 hwork)
  verdicts ready work result hwork hverdict := by
    have hwork := h.completes.1 hwork
    rw [h.verdicts] at hverdict
    exact (h.follows hdue hrecorded).cameTo hrecorded hwork.isSome
      (hannounced.verdicts ready work result hwork hverdict)
  done ready bell result hdone := by
    rw [h.readies] at hdone
    exact (h.follows hdue hrecorded).cameTo hrecorded (hdone ▸ rfl)
      (hannounced.done ready bell result hdone)

theorem manned (h : Shifts host host' phases) (hdue : Due host host' moving phases)
    (hrecorded : host.Recorded) (hmanned : host.Manned) : host'.Manned where
  proper driver work hwork component hcomponent := by
    have hproper := hmanned.proper driver work (h.drives.1 hwork) component hcomponent
    refine hproper.carries hrecorded (h.follows hdue hrecorded).toCarries ?_ fun other work hother hwork =>
      ⟨work, h.completes.1 hother, hwork⟩
    rw [h.verdicts]
    exact hproper.verdict
  disjoint driver driver' work work' hwork hwork' :=
    hmanned.disjoint driver driver' work work' (h.drives.1 hwork) (h.drives.1 hwork')
  idle driver bell work hwork := by
    rw [h.drivers_get?] at hwork
    exact (hmanned.idle driver bell work hwork).carries hrecorded
      (hmanned.proper driver work ⟨bell, .inl hwork⟩) (h.follows hdue hrecorded).toCarries
      fun component hcomponent ref href =>
        h.phase (hdue.idle driver bell work hwork component hcomponent ref href)
  served ready work hwork := by
    rw [h.verdicts]
    obtain ⟨watch, hwatch, hserved⟩ := hmanned.served ready work (h.completes.1 hwork)
    refine ⟨watch, hwatch, hserved.imp_right ?_⟩
    rintro ⟨driver, hdrives, hcomponent⟩
    exact ⟨driver, h.drives.2 hdrives, hcomponent⟩

end Shifts

/-- Records that enter phases when these are due keep a host coherent. -/
theorem Host.Coherent.shifts {moving : List (Ref .record)} {host host' : Host}
    {phases : List (Ref .record × Phase)} (h : host.Coherent) (hshifts : Shifts host host' phases)
    (hdue : Shifts.Due host host' moving phases) (hloads : LoadsAlike host host')
    (htidy : host'.Tidy) : host'.Coherent ∧ Follows moving host host' where
  left :=
    { loads := hloads.loadsInOrder h.loads
      calm := by
        rw [hloads.loads]
        exact h.calm
      tidy := htidy
      recorded := hshifts.recorded hdue h.recorded h.tidy
      told := hshifts.told hdue h.recorded h.told
      announced := hshifts.announced hdue h.recorded h.announced
      manned := hshifts.manned hdue h.recorded h.manned
      tasks := fun ref task htask => (h.tasks ref task (hshifts.tasks ▸ htask)).carries h.recorded
        (hshifts.follows hdue h.recorded).toCarries }
  right := hshifts.follows hdue h.recorded

end ModuleLoader
