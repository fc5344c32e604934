import ModuleLoader.Proofs.Works
/-!
Steps that move no record keep a host coherent: loading, assigning, and milestones that are fair.
-/

namespace ModuleLoader
set_option autoImplicit false

/-- No record moved, and nothing was scheduled, taken up or announced. -/
structure Rests (host host' : Host) : Prop where
  later : Later host host'
  readies : host'.readies = host.readies
  drivers : host'.drivers = host.drivers
  verdicts : host'.verdicts = host.verdicts
  records : ∀ ref record, host.records.get? ref = some record → ∃ record',
    host'.records.get? ref = some record' ∧ record'.phase = record.phase ∧
      record'.ready = record.ready ∧ record'.error = record.error
  newborn : ∀ ref record, host.records.get? ref = none → host'.records.get? ref = some record →
    record.ready = none ∧ record.error = none ∧ (record.source.isSome → record.phase = .loaded) ∧
      (record.source = none → record.phase = .ready ∧ record.requests = [])
  marks : ∃ marks, host'.chronicle = marks ++ host.chronicle ∧
    (∀ ref phase, .moved ref phase ∉ marks) ∧
      ∀ mark before, (mark :: before) <:+ marks → host'.Fair (before ++ host.chronicle) mark

namespace Rests

variable {host host' : Host}

theorem ready (h : Rests host host') (ref : Ref .record) :
    (host'.record ref).ready = (host.record ref).ready := by
  unfold Host.record
  cases href : host.records.get? ref with
  | some record =>
    obtain ⟨record', hrecord', -, hready, -⟩ := h.records ref record href
    rw [hrecord']
    exact hready
  | none =>
    cases href' : host'.records.get? ref with
    | none => rfl
    | some record => exact (h.newborn ref record href href').1

theorem error (h : Rests host host') (ref : Ref .record) :
    (host'.record ref).error = (host.record ref).error := by
  unfold Host.record
  cases href : host.records.get? ref with
  | some record =>
    obtain ⟨record', hrecord', -, -, herror⟩ := h.records ref record href
    rw [hrecord']
    exact herror
  | none =>
    cases href' : host'.records.get? ref with
    | none => rfl
    | some record => exact (h.newborn ref record href href').2.1

theorem phase (h : Rests host host') {ref : Ref .record} (href : (host.records.get? ref).isSome) :
    (host'.record ref).phase = (host.record ref).phase := by
  obtain ⟨record, hrecord⟩ := Option.isSome_iff_exists.1 href
  obtain ⟨record', hrecord', hphase, -⟩ := h.records ref record hrecord
  unfold Host.record
  rw [hrecord, hrecord']
  exact hphase

/-- A record that was not there before has not failed. -/
theorem phase_newborn (h : Rests host host') {ref : Ref .record}
    (hnone : host.records.get? ref = none) : (host'.record ref).phase ≠ .failed := by
  unfold Host.record
  cases href : host'.records.get? ref with
  | none => exact fun heq => nomatch heq
  | some record =>
    obtain ⟨-, -, hsourced, hexposed⟩ := h.newborn ref record hnone href
    change record.phase ≠ .failed
    cases hsource : record.source with
    | none =>
      rw [(hexposed hsource).1]
      exact fun heq => nomatch heq
    | some source =>
      rw [hsourced (hsource ▸ rfl)]
      exact fun heq => nomatch heq

theorem moved_mem (h : Rests host host') {ref : Ref .record} {phase : Phase} :
    .moved ref phase ∈ host'.chronicle ↔ .moved ref phase ∈ host.chronicle := by
  obtain ⟨marks, hchronicle, hmoved, -⟩ := h.marks
  rw [hchronicle, List.mem_append]
  exact or_iff_right (hmoved ref phase)

theorem linked (h : Rests host host') (ref : Ref .record) :
    host'.Linked ref ↔ host.Linked ref :=
  h.moved_mem

theorem isSome_of_drives (hmanned : host.Manned) (hrecorded : host.Recorded)
    {driver : Ref .driver} {work : DriverWork} (hdrives : host.Drives driver work)
    {component : Component} (hcomponent : component ∈ work.components) {ref : Ref .record}
    (href : ref ∈ component.members) : (host.records.get? ref).isSome := by
  have hlinked := (hmanned.proper driver work hdrives component hcomponent).linked hrecorded href
  obtain ⟨record, hrecord, -⟩ := hrecorded.moved ref .linked hlinked
  exact hrecord ▸ rfl

theorem carries (h : Rests host host') : Carries host host' where
  later := h.later
  ready ref _ hready := (h.ready ref).trans hready
  exist _ hready := h.readies ▸ hready
  group ref _ _ hready := (h.ready ref).symm.trans hready
  error ref _ herror := (h.error ref).trans herror
  spoken _ hspoken := h.verdicts ▸ hspoken

theorem recorded (h : Rests host host') (hrecorded : host.Recorded) : host'.Recorded where
  moved ref phase hmem := by
    obtain ⟨record, hrecord, hsource, hphase⟩ := hrecorded.moved ref phase (h.moved_mem.1 hmem)
    obtain ⟨record', hrecord', hsame, -⟩ := h.records ref record hrecord
    obtain ⟨later, hlater, honward⟩ := h.later.records ref record hrecord
    obtain rfl : record' = later := Option.some.inj (hrecord'.symm.trans hlater)
    exact ⟨record', hrecord', honward.source ▸ hsource, hsame ▸ hphase⟩
  phase ref record' hrecord' hsource := by
    rw [h.moved_mem]
    cases href : host.records.get? ref with
    | none => exact .inl ((h.newborn ref record' href hrecord').2.2.1 hsource)
    | some record =>
      obtain ⟨found, hfound, hsame, -⟩ := h.records ref record href
      obtain rfl : record' = found := Option.some.inj (hrecord'.symm.trans hfound)
      obtain ⟨later, hlater, honward⟩ := h.later.records ref record href
      obtain rfl : record' = later := Option.some.inj (hrecord'.symm.trans hlater)
      rw [hsame]
      exact hrecorded.phase ref record href (honward.source ▸ hsource)
  bare ref record' hrecord' hsource := by
    cases href : host.records.get? ref with
    | none => exact ((h.newborn ref record' href hrecord').2.2.2 hsource).2
    | some record =>
      obtain ⟨later, hlater, honward⟩ := h.later.records ref record href
      obtain rfl : record' = later := Option.some.inj (hrecord'.symm.trans hlater)
      rw [honward.requests]
      exact hrecorded.bare ref record href (honward.source ▸ hsource)
  ready ref ready hready := by
    rw [h.ready] at hready
    rw [h.linked, h.readies]
    exact hrecorded.ready ref ready hready
  scheduled ref ready hready := by
    rw [h.ready] at hready
    obtain ⟨root, groups, hmem, href⟩ := hrecorded.scheduled ref ready hready
    exact ⟨root, groups, h.later.chronicle.subset hmem, href⟩
  waiting ref hlinked hready := by
    rw [h.linked] at hlinked
    rw [h.ready] at hready
    obtain ⟨record, hrecord, -⟩ := hrecorded.moved ref .linked hlinked
    rw [h.phase (hrecord ▸ rfl)]
    exact hrecorded.waiting ref hlinked hready
  failed ref := by
    rw [h.error]
    cases href : host.records.get? ref with
    | some record =>
      rw [h.phase (href ▸ rfl)]
      exact hrecorded.failed ref
    | none =>
      refine iff_of_false (h.phase_newborn href) ?_
      unfold Host.record
      rw [href]
      exact Bool.false_ne_true
  fixed ref hlinked := h.later.fixed hrecorded ((h.linked ref).1 hlinked)
  together ref other ready hready hready' := by
    rw [h.ready] at hready hready'
    exact h.later.covers (hrecorded.together ref other ready hready hready')

theorem told (h : Rests host host') (hrecorded : host.Recorded) (htold : host.Told) : host'.Told := by
  obtain ⟨marks, hchronicle, -, hfair⟩ := h.marks
  exact h.carries.told hrecorded htold hchronicle hfair

theorem completes (h : Rests host host') {ready : Ref .ready} {work : ReadyWork} :
    host'.Completes ready work ↔ host.Completes ready work := by
  unfold Host.Completes
  rw [h.readies]

theorem announced (h : Rests host host') (hrecorded : host.Recorded) (hannounced : host.Announced) :
    host'.Announced where
  exist ready work hwork := by
    rw [h.verdicts]
    exact hannounced.exist ready work (h.completes.1 hwork)
  verdicts ready work result hwork hverdict := by
    have hwork := h.completes.1 hwork
    rw [h.verdicts] at hverdict
    exact h.carries.cameTo hrecorded hwork.isSome
      (hannounced.verdicts ready work result hwork hverdict)
  done ready bell result hdone := by
    rw [h.readies] at hdone
    exact h.carries.cameTo hrecorded (hdone ▸ rfl)
      (hannounced.done ready bell result hdone)

theorem drivers_get? (h : Rests host host') (driver : Ref .driver) :
    Shelf.drivers.get? host' driver = Shelf.drivers.get? host driver :=
  congrArg (fun drivers => (drivers.get? driver).map Driver.shared) h.drivers

theorem drives (h : Rests host host') {driver : Ref .driver} {work : DriverWork} :
    host'.Drives driver work ↔ host.Drives driver work := by
  unfold Host.Drives
  rw [h.drivers_get?]

theorem manned (h : Rests host host') (hmanned : host.Manned) (hrecorded : host.Recorded) :
    host'.Manned where
  proper driver work hwork component hcomponent := by
    have hproper := hmanned.proper driver work (h.drives.1 hwork) component hcomponent
    refine hproper.carries hrecorded h.carries ?_ fun other work hother hwork =>
      ⟨work, h.completes.1 hother, hwork⟩
    rw [h.verdicts]
    exact hproper.verdict
  disjoint driver driver' work work' hwork hwork' :=
    hmanned.disjoint driver driver' work work' (h.drives.1 hwork) (h.drives.1 hwork')
  idle driver bell work hwork := by
    rw [h.drivers_get?] at hwork
    exact (hmanned.idle driver bell work hwork).carries hrecorded
      (hmanned.proper driver work ⟨bell, .inl hwork⟩) h.carries
      fun component hcomponent ref href =>
        h.phase (isSome_of_drives hmanned hrecorded ⟨bell, .inl hwork⟩ hcomponent href)
  served ready work hwork := by
    rw [h.verdicts]
    obtain ⟨watch, hwatch, hserved⟩ := hmanned.served ready work (h.completes.1 hwork)
    refine ⟨watch, hwatch, hserved.imp_right ?_⟩
    rintro ⟨driver, hdrives, hcomponent⟩
    exact ⟨driver, h.drives.2 hdrives, hcomponent⟩

end Rests

/-- A step that leaves tasks alone as well. -/
structure Steady (host host' : Host) : Prop extends Rests host host' where
  tasks : host'.tasks = host.tasks

theorem Steady.follows {host host' : Host} (h : Steady host host') (hmanned : host.Manned)
    (hrecorded : host.Recorded) : Follows [] host host' where
  toCarries := h.carries
  tasks := h.tasks
  readies _ _ _ hwork := h.readies ▸ hwork
  drivers driver _ _ hwork := (h.drivers_get? driver).trans hwork
  members _ bell _ hwork _ hcomponent _ href _ :=
    h.phase (Rests.isSome_of_drives hmanned hrecorded ⟨bell, .inr hwork⟩ hcomponent href)

/-- Loading is steady. -/
theorem Grows.steady {host host' : Host} (h : Grows host host') : Steady host host' where
  later := h.later
  tasks := h.tasks
  readies := h.readies
  drivers := h.drivers
  verdicts := h.verdicts
  records ref record hrecord := ⟨record, h.records ref record hrecord, rfl, rfl, rfl⟩
  newborn ref record hnone hsome :=
    let hnew := h.newborn ref record hnone hsome
    ⟨hnew.ready, hnew.error, fun hsource => (hnew.sourced hsource).1, hnew.exposed⟩
  marks := by
    obtain ⟨marks, hchronicle, hmarks⟩ := h.chronicle
    refine ⟨marks, hchronicle, fun ref phase hmem => ?_, fun mark before hbefore => ?_⟩
    · obtain ⟨node, target, heq, -⟩ := hmarks _ hmem
      cases heq
    · obtain ⟨node, target, rfl, -⟩ := hmarks mark (hbefore.subset List.mem_cons_self)
      trivial

theorem Assigned.steady {host host' : Host} {ref : Ref .record} {name : String} {slot : Ref .slot}
    (h : Assigned host host' ref name slot) : Steady host host' where
  later := h.later
  tasks := by rw [h.rest]
  readies := by rw [h.rest]
  drivers := by rw [h.rest]
  verdicts := by rw [h.rest]
  records other record hrecord :=
    let ⟨_, hget⟩ := h.records other record hrecord
    ⟨_, hget, rfl, rfl, rfl⟩
  newborn other record hnone hsome := nomatch (h.absent other hnone).symm.trans hsome
  marks := by
    refine ⟨[], h.chronicle, fun _ _ hmem => ?_, fun _ _ hbefore => ?_⟩
    · cases hmem
    · cases List.suffix_nil.1 hbefore

namespace Host.Coherent

variable {host host' : Host}

theorem follows (h : host.Coherent) (hsteady : Steady host host') : Follows [] host host' :=
  hsteady.follows h.manned h.recorded

/-- A step at rest keeps a host coherent, if it keeps loads and records in order and new tasks are good. -/
theorem rests (h : host.Coherent) (hrests : Rests host host') (hloads : host'.LoadsInOrder)
    (hcalm : ∀ load bell work, host'.loads.get? load ≠ some ⟨bell, .driven work⟩)
    (htidy : host'.Tidy) (htasks : ∀ ref task, host'.tasks.get? ref = some task →
      task.work.Good host ∨ task.work.Good host') : host'.Coherent where
  loads := hloads
  calm := hcalm
  tidy := htidy
  recorded := hrests.recorded h.recorded
  told := hrests.told h.recorded h.told
  announced := hrests.announced h.recorded h.announced
  manned := hrests.manned h.manned h.recorded
  tasks ref task htask :=
    (htasks ref task htask).elim (fun hgood => hgood.carries h.recorded hrests.carries) id

theorem steady (h : host.Coherent) (hsteady : Steady host host') (hloads : host'.LoadsInOrder)
    (hcalm : ∀ load bell work, host'.loads.get? load ≠ some ⟨bell, .driven work⟩)
    (htidy : host'.Tidy) : host'.Coherent :=
  h.rests hsteady.toRests hloads hcalm htidy fun ref task htask =>
    .inl (h.tasks ref task (hsteady.tasks ▸ htask))

theorem grows (h : host.Coherent) (hloads : host'.LoadsInOrder) (hgrows : Grows host host') :
    host'.Coherent :=
  h.steady hgrows.steady hloads
    (fun load bell work hdriven => h.calm load bell work (hgrows.calm load bell work hdriven))
    (hgrows.undisturbed.tidy h.tidy)

theorem quiet (h : host.Coherent) (hquiet : Quiet host host') : host'.Coherent :=
  h.grows (hquiet.loadsInOrder h.loads) hquiet.grows

theorem assigned (h : host.Coherent) {ref : Ref .record} {name : String} {slot : Ref .slot}
    (hassigned : Assigned host host' ref name slot) : host'.Coherent := by
  refine h.steady hassigned.steady (hassigned.loads.loadsInOrder h.loads) ?_
    (hassigned.tidy h.tidy)
  rw [hassigned.loads.loads]
  exact h.calm

/-- A milestone that is no move may be passed, if it is fair. -/
theorem marked (h : host.Coherent) {mark : Milestone} (hmoved : ∀ ref phase, mark ≠ .moved ref phase)
    (hstands : ∀ node target, mark ≠ .stands node target) (hfair : host.Fair host.chronicle mark) :
    Host.Coherent { host with chronicle := mark :: host.chronicle } ∧
      Steady host { host with chronicle := mark :: host.chronicle } := by
  have hloads : LoadsAlike host { host with chronicle := mark :: host.chronicle } :=
    ⟨rfl, rfl, rfl, rfl, fun _ => id, fun node target hmem =>
      (List.mem_cons.1 hmem).resolve_left fun heq => hstands node target heq.symm⟩
  have hlinked (ref : Ref .record) (hmem : Linked { host with
      chronicle := mark :: host.chronicle } ref) : host.Linked ref :=
    (List.mem_cons.1 hmem).resolve_left fun heq => hmoved ref .linked heq.symm
  have hmoves : Moves host { host with chronicle := mark :: host.chronicle } :=
    ⟨hloads, rfl, fun _ record hrecord => ⟨record, hrecord, .refl record, rfl⟩, fun _ => id, hlinked,
      List.suffix_cons _ _⟩
  have hcarries : Carries host { host with chronicle := mark :: host.chronicle } :=
    ⟨hmoves.later, fun _ _ => id, fun _ => id, fun _ _ _ => id, fun _ _ => id, fun _ => id⟩
  have hsteady : Steady host { host with chronicle := mark :: host.chronicle } :=
    { later := hmoves.later
      tasks := rfl
      readies := rfl
      drivers := rfl
      verdicts := rfl
      records := fun _ record hrecord => ⟨record, hrecord, rfl, rfl, rfl⟩
      newborn := fun ref record hnone hsome => nomatch hnone.symm.trans hsome
      marks := by
        refine ⟨[mark], rfl, fun ref phase hmem => hmoved ref phase (List.mem_singleton.1 hmem).symm,
          fun other before hbefore => ?_⟩
        rcases List.suffix_cons_iff.1 hbefore with heq | hbefore
        · cases heq
          exact hcarries.fair h.recorded hfair
        · cases List.suffix_nil.1 hbefore }
  exact ⟨h.steady hsteady (hloads.loadsInOrder h.loads) h.calm
    (hmoves.undisturbed.tidy h.tidy), hsteady⟩

end Host.Coherent

end ModuleLoader
