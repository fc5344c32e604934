import ModuleLoader.Proofs.SmallSteps
/-!
Work in progress is taken up and put back, and verdicts are announced: no record changes by it, and
the host stays coherent.
-/

namespace ModuleLoader
set_option autoImplicit false

/-- Only work in progress and verdicts changed. -/
structure Turns (host host' : Host) : Prop where
  rest : host' = { host with
    readies := host'.readies
    drivers := host'.drivers
    verdicts := host'.verdicts }
  exist : ∀ ready, (host.readies.get? ready).isSome → (host'.readies.get? ready).isSome
  spoken : ∀ verdict, ((host.verdicts.get? verdict).bind Verdict.result).isSome →
    ((host'.verdicts.get? verdict).bind Verdict.result).isSome

namespace Turns

variable {host host' : Host}

theorem record (h : Turns host host') (ref : Ref .record) : host'.record ref = host.record ref := by
  rw [h.rest]
  rfl

theorem chronicle (h : Turns host host') : host'.chronicle = host.chronicle := by rw [h.rest]

theorem loads (h : Turns host host') : LoadsAlike host host' :=
  ⟨by rw [h.rest], by rw [h.rest], by rw [h.rest], by rw [h.rest], fun ref href => by rwa [h.rest],
    fun node target hmem => h.chronicle ▸ hmem⟩

theorem moves (h : Turns host host') : Moves host host' where
  loads := h.loads
  store := by rw [h.rest]
  records ref record hrecord := ⟨record, by rwa [h.rest], .refl record, rfl⟩
  none ref hnone := by rwa [h.rest]
  linked ref hlinked := by
    unfold Host.Linked at hlinked
    rwa [h.chronicle] at hlinked
  chronicle := h.chronicle ▸ List.suffix_refl _

theorem carries (h : Turns host host') : Carries host host' where
  later := h.moves.later
  ready ref ready hready := by rwa [h.record]
  exist := h.exist
  group ref ready _ hready := by rwa [h.record] at hready
  error ref failure herror := by rwa [h.record]
  spoken := h.spoken

theorem tasks (h : Turns host host') : host'.tasks = host.tasks := by rw [h.rest]

theorem recorded (h : Turns host host') (hrecorded : host.Recorded) : host'.Recorded where
  moved ref phase hmem := by
    rw [h.chronicle] at hmem
    rw [h.rest]
    exact hrecorded.moved ref phase hmem
  phase ref record hrecord hsource := by
    rw [h.chronicle]
    rw [h.rest] at hrecord
    exact hrecorded.phase ref record hrecord hsource
  bare ref record hrecord hsource := by
    rw [h.rest] at hrecord
    exact hrecorded.bare ref record hrecord hsource
  ready ref ready hready := by
    rw [h.record] at hready
    obtain ⟨hlinked, hexist⟩ := hrecorded.ready ref ready hready
    exact ⟨h.carries.later.linked hlinked, h.exist ready hexist⟩
  scheduled ref ready hready := by
    rw [h.record] at hready
    rw [h.chronicle]
    exact hrecorded.scheduled ref ready hready
  waiting ref hlinked hready := by
    rw [h.record] at hready ⊢
    exact hrecorded.waiting ref (h.moves.linked ref hlinked) hready
  failed ref := by
    rw [h.record]
    exact hrecorded.failed ref
  fixed ref hlinked := h.carries.later.fixed hrecorded (h.moves.linked ref hlinked)
  together ref other ready hready hready' := by
    rw [h.record] at hready hready'
    exact h.carries.later.covers (hrecorded.together ref other ready hready hready')

end Turns

namespace Host

variable {host host' : Host}

/-- Turns keep a host coherent, if what is announced is true and drivers are in balance. -/
theorem Coherent.turns (h : host.Coherent) (ht : Turns host host') (hannounced : host'.Announced)
    (hmanned : host'.Manned) : host'.Coherent where
  loads := ht.loads.loadsInOrder h.loads
  calm := by
    rw [ht.loads.loads]
    exact h.calm
  tidy := ht.moves.undisturbed.tidy h.tidy
  recorded := ht.recorded h.recorded
  told mark before hbefore :=
    ht.carries.fair h.recorded (h.told mark before (ht.chronicle ▸ hbefore))
  announced := hannounced
  manned := hmanned
  tasks ref task htask := (h.tasks ref task (ht.tasks ▸ htask)).carries h.recorded ht.carries

/-- What is announced stays true while completions are worked for under the same verdicts. -/
theorem Announced.turns (h : host.Announced) (hrecorded : host.Recorded) (ht : Turns host host')
    (hexist : ∀ verdict, (host.verdicts.get? verdict).isSome →
      (host'.verdicts.get? verdict).isSome)
    (hcompletes : ∀ ready work, host'.Completes ready work →
      ∃ old, host.Completes ready old ∧ work.verdict = old.verdict)
    (hverdicts : ∀ ready work result, host.Completes ready work →
      (host'.verdicts.get? work.verdict).bind Verdict.result = some result →
        (host.verdicts.get? work.verdict).bind Verdict.result = some result ∨
          host.CameTo ready result)
    (hdone : ∀ ready bell result, host'.readies.get? ready = some ⟨bell, .done result⟩ →
      (host.readies.get? ready).isSome ∧ host.CameTo ready result) : host'.Announced where
  exist ready work hwork := by
    obtain ⟨old, hold, heq⟩ := hcompletes ready work hwork
    exact heq ▸ hexist _ (h.exist ready old hold)
  verdicts ready work result hwork hverdict := by
    obtain ⟨old, hold, heq⟩ := hcompletes ready work hwork
    rw [heq] at hverdict
    refine ht.carries.cameTo hrecorded hold.isSome ?_
    rcases hverdicts ready old result hold hverdict with hbefore | hcame
    · exact h.verdicts ready old result hold hbefore
    · exact hcame
  done ready bell result hready :=
    let ⟨hexist, hcame⟩ := hdone ready bell result hready
    ht.carries.cameTo hrecorded hexist hcame

end Host

/-- The work of one driver at two times: the components have the same members and verdicts. -/
def DriverWork.Alike (work old : DriverWork) : Prop :=
  work.components.map (fun component => (component.members, component.verdict)) =
    old.components.map fun component => (component.members, component.verdict)

namespace DriverWork.Alike

variable {work old : DriverWork}

theorem get? (h : work.Alike old) {index : Nat} {component : Component}
    (hcomponent : work.components[index]? = some component) : ∃ component',
      old.components[index]? = some component' ∧ component'.members = component.members ∧
        component'.verdict = component.verdict := by
  have heq := congrArg (fun pairs => pairs[index]?) h
  rw [List.getElem?_map, List.getElem?_map, hcomponent] at heq
  obtain ⟨component', hcomponent', hsame⟩ := Option.map_eq_some_iff.1 heq.symm
  obtain ⟨hmembers, hverdict⟩ := Prod.mk.inj hsame
  exact ⟨component', hcomponent', hmembers, hverdict⟩

theorem mem (h : work.Alike old) {component : Component} (hmem : component ∈ work.components) :
    ∃ component' ∈ old.components, component'.members = component.members ∧
      component'.verdict = component.verdict := by
  obtain ⟨index, hindex⟩ := List.getElem?_of_mem hmem
  obtain ⟨component', hcomponent', hsame⟩ := h.get? hindex
  exact ⟨component', List.mem_of_getElem? hcomponent', hsame⟩

end DriverWork.Alike

theorem DriverWork.Alike.symm {work old : DriverWork} (h : work.Alike old) : old.Alike work :=
  Eq.symm h

/-- The work of one completion at two times: it waits for the same verdict of the same driver. -/
def ReadyWork.Alike (work old : ReadyWork) : Prop :=
  work.verdict = old.verdict ∧ work.driver.map Watch.job = old.driver.map Watch.job

theorem Component.Proper.congr {host : Host} {component component' : Component}
    (h : component'.Proper host) (hmembers : component'.members = component.members)
    (hverdict : component'.verdict = component.verdict) : component.Proper host := by
  obtain ⟨hnonempty, hnodup, hscheduled, hexist, hgroup⟩ := h
  rw [hmembers] at hnonempty hnodup hscheduled hgroup
  rw [hverdict] at hexist hgroup
  exact ⟨hnonempty, hnodup, hscheduled, hexist, hgroup⟩

namespace Host

variable {host host' : Host}

/-- The verdict was announced. -/
def Spoken (host : Host) (verdict : Ref .verdict) : Prop :=
  ((host.verdicts.get? verdict).bind Verdict.result).isSome

/-- Drivers stay in balance while they keep their components. A driver may end when it has announced
all verdicts. -/
theorem Manned.turns (h : host.Manned) (hrecorded : host.Recorded) (ht : Turns host host')
    (hexist : ∀ verdict, (host.verdicts.get? verdict).isSome →
      (host'.verdicts.get? verdict).isSome)
    (hcompletes : ∀ ready work, host'.Completes ready work →
      ∃ old, host.Completes ready old ∧ work.Alike old)
    (hdrives : ∀ driver work, host'.Drives driver work →
      ∃ old, host.Drives driver old ∧ work.Alike old)
    (hends : ∀ driver old, host.Drives driver old →
      (∃ work, host'.Drives driver work ∧ work.Alike old) ∨
        ∀ component ∈ old.components, host'.Spoken component.verdict)
    (hidle : ∀ driver bell work, Shelf.drivers.get? host' driver = some ⟨bell, .idle work⟩ →
      work.Good host) : host'.Manned where
  proper driver work hwork component hcomponent := by
    obtain ⟨old, hold, halike⟩ := hdrives driver work hwork
    obtain ⟨component', hcomponent', hmembers, hverdict⟩ := halike.mem hcomponent
    have hproper := (h.proper driver old hold component' hcomponent').congr hmembers hverdict
    refine hproper.carries hrecorded ht.carries (hexist _ hproper.verdict)
      fun other work hother hwork => ?_
    obtain ⟨old, hold, hsame⟩ := hcompletes other work hother
    exact ⟨old, hold, hsame.1 ▸ hwork⟩
  disjoint driver driver' work work' hwork hwork' index index' component component' hcomponent
      hcomponent' ref href href' := by
    obtain ⟨old, hold, halike⟩ := hdrives driver work hwork
    obtain ⟨old', hold', halike'⟩ := hdrives driver' work' hwork'
    obtain ⟨found, hfound, hmembers, -⟩ := halike.get? hcomponent
    obtain ⟨found', hfound', hmembers', -⟩ := halike'.get? hcomponent'
    exact h.disjoint driver driver' old old' hold hold' index index' found found' hfound hfound' ref
      (hmembers ▸ href) (hmembers' ▸ href')
  idle driver bell work hwork := by
    have hgood := hidle driver bell work hwork
    obtain ⟨old, hold, halike⟩ := hdrives driver work ⟨bell, .inl hwork⟩
    refine hgood.carries hrecorded (fun component hcomponent => ?_) ht.carries
      fun component _ ref _ => congrArg Record.phase (ht.record ref)
    obtain ⟨component', hcomponent', hmembers, hverdict⟩ := halike.mem hcomponent
    exact (h.proper driver old hold component' hcomponent').congr hmembers hverdict
  served ready work hwork := by
    obtain ⟨old, hold, hverdict, hjob⟩ := hcompletes ready work hwork
    obtain ⟨watch, hwatch, hserved⟩ := h.served ready old hold
    rw [hwatch] at hjob
    obtain ⟨watch', hwatch', hsame⟩ := Option.map_eq_some_iff.1 hjob
    refine ⟨watch', hwatch', ?_⟩
    rw [hverdict, hsame]
    rcases hserved with hspoken | ⟨driver, hdriver, component, hcomponent, heq⟩
    · exact .inl (ht.spoken _ hspoken)
    · rcases hends watch.job driver hdriver with ⟨next, hnext, halike⟩ | hall
      · obtain ⟨component', hcomponent', -, hverdict'⟩ := halike.symm.mem hcomponent
        exact .inr ⟨next, hnext, component', hcomponent', hverdict'.trans heq⟩
      · exact .inl (heq ▸ hall component hcomponent)

/-- How far a completion may have come. -/
def AllowsReady (host : Host) (ready : Ref .ready) (old : ReadyWork) :
    Progress ReadyWork (Except Failure Unit) → Prop
  | .idle work => work.Alike old
  | .driven work => work.Alike old
  | .done result => host.CameTo ready result

theorem get?_putReady (host : Host) (ready other : Ref .ready)
    (shared : Shared ReadyWork (Except Failure Unit)) :
    (Shelf.readies.put host ready shared).readies.get? other =
      if ready = other then (host.readies.get? other).map fun _ => shared
      else host.readies.get? other :=
  Arena.get?_set _ _ _ _

/-- A completion that is worked for may be taken up, put back or done. -/
theorem Coherent.putReady (h : host.Coherent) {ready : Ref .ready} {old : ReadyWork}
    (hold : host.Completes ready old) (bell : Ref .bell)
    {progress : Progress ReadyWork (Except Failure Unit)}
    (hallows : host.AllowsReady ready old progress) :
    (Shelf.readies.put host ready ⟨bell, progress⟩).Coherent := by
  have hget (other : Ref .ready) (shared : Shared ReadyWork (Except Failure Unit))
      (hother : (Shelf.readies.put host ready ⟨bell, progress⟩).readies.get? other = some shared) :
      (other = ready ∧ shared = ⟨bell, progress⟩) ∨ host.readies.get? other = some shared := by
    rw [get?_putReady] at hother
    split at hother
    · rename_i hsame
      obtain ⟨-, -, heq⟩ := Option.map_eq_some_iff.1 hother
      exact .inl ⟨hsame.symm, heq.symm⟩
    · exact .inr hother
  have hcompletes (other : Ref .ready) (work : ReadyWork)
      (hother : (Shelf.readies.put host ready ⟨bell, progress⟩).Completes other work) :
      ∃ old, host.Completes other old ∧ work.Alike old := by
    obtain ⟨bell', hwork⟩ := hother
    rcases hwork with hwork | hwork
    · rcases hget other _ hwork with ⟨rfl, heq⟩ | hwork
      · cases heq
        exact ⟨old, hold, hallows⟩
      · exact ⟨work, ⟨bell', .inl hwork⟩, rfl, rfl⟩
    · rcases hget other _ hwork with ⟨rfl, heq⟩ | hwork
      · cases heq
        exact ⟨old, hold, hallows⟩
      · exact ⟨work, ⟨bell', .inr hwork⟩, rfl, rfl⟩
  have ht : Turns host (Shelf.readies.put host ready ⟨bell, progress⟩) := by
    refine ⟨rfl, fun other hother => ?_, fun _ => id⟩
    rw [get?_putReady]
    split
    · rwa [Option.isSome_map]
    · exact hother
  refine h.turns ht (h.announced.turns h.recorded ht (fun _ => id)
    (fun other work hother => ?_) (fun _ _ _ _ => .inl) fun other bell' result hdone => ?_)
      (h.manned.turns h.recorded ht (fun _ => id) hcompletes (fun driver work hwork => ⟨work, hwork, rfl⟩)
        (fun driver work hwork => .inl ⟨work, hwork, rfl⟩) h.manned.idle)
  · obtain ⟨old, hold, halike⟩ := hcompletes other work hother
    exact ⟨old, hold, halike.1⟩
  · rcases hget other _ hdone with ⟨rfl, heq⟩ | hdone
    · cases heq
      exact ⟨hold.isSome, hallows⟩
    · exact ⟨hdone ▸ rfl, h.announced.done other bell' result hdone⟩

theorem Drives.unique {driver : Ref .driver} {work old : DriverWork}
    (h : host.Drives driver work) (hold : host.Drives driver old) : work = old := by
  obtain ⟨bell, h⟩ := h
  obtain ⟨bell', hold⟩ := hold
  rcases h with h | h <;> rcases hold with hold | hold <;> rw [h] at hold <;> cases hold <;> rfl

/-- How far a driver may have come. -/
def AllowsDriver (host : Host) (old : DriverWork) : Progress DriverWork Unit → Prop
  | .idle work => work.Alike old ∧ work.Good host
  | .driven work => work.Alike old
  | .done () => ∀ component ∈ old.components, host.Spoken component.verdict

theorem get?_putDriver (host : Host) (driver other : Ref .driver)
    (shared : Shared DriverWork Unit) :
    Shelf.drivers.get? (Shelf.drivers.put host driver shared) other =
      if driver = other then (Shelf.drivers.get? host other).map fun _ => shared
      else Shelf.drivers.get? host other := by
  change ((host.drivers.modify driver _).get? other).map _ = _
  rw [Arena.get?_modify]
  split
  · change _ = ((host.drivers.get? other).map _).map _
    rw [Option.map_map, Option.map_map]
    rfl
  · rfl

/-- A driver at work may be taken up, put back or done. -/
theorem Coherent.putDriver (h : host.Coherent) {driver : Ref .driver} {old : DriverWork}
    (hold : host.Drives driver old) (bell : Ref .bell) {progress : Progress DriverWork Unit}
    (hallows : host.AllowsDriver old progress) :
    (Shelf.drivers.put host driver ⟨bell, progress⟩).Coherent := by
  have hget (other : Ref .driver) (shared : Shared DriverWork Unit)
      (hother : Shelf.drivers.get? (Shelf.drivers.put host driver ⟨bell, progress⟩) other =
        some shared) :
      (other = driver ∧ shared = ⟨bell, progress⟩) ∨
        Shelf.drivers.get? host other = some shared := by
    rw [get?_putDriver] at hother
    split at hother
    · rename_i hsame
      obtain ⟨-, -, heq⟩ := Option.map_eq_some_iff.1 hother
      exact .inl ⟨hsame.symm, heq.symm⟩
    · exact .inr hother
  have ht : Turns host (Shelf.drivers.put host driver ⟨bell, progress⟩) :=
    ⟨rfl, fun _ => id, fun _ => id⟩
  refine h.turns ht (h.announced.turns h.recorded ht (fun _ => id)
    (fun _ work hwork => ⟨work, hwork, rfl⟩) (fun _ _ _ _ => .inl) fun ready bell' result hdone =>
      ⟨hdone ▸ rfl, h.announced.done ready bell' result hdone⟩)
    (h.manned.turns h.recorded ht (fun _ => id) (fun _ work hwork => ⟨work, hwork, rfl, rfl⟩)
      (fun other work hwork => ?_) (fun other work hwork => ?_) fun other bell' work hidle => ?_)
  · obtain ⟨bell', hwork⟩ := hwork
    rcases hwork with hwork | hwork
    · rcases hget other _ hwork with ⟨rfl, heq⟩ | hwork
      · cases heq
        exact ⟨old, hold, hallows.1⟩
      · exact ⟨work, ⟨bell', .inl hwork⟩, rfl⟩
    · rcases hget other _ hwork with ⟨rfl, heq⟩ | hwork
      · cases heq
        exact ⟨old, hold, hallows⟩
      · exact ⟨work, ⟨bell', .inr hwork⟩, rfl⟩
  · by_cases hsame : driver = other
    · subst hsame
      obtain rfl : work = old := hwork.unique hold
      have hput : Shelf.drivers.get? (Shelf.drivers.put host driver ⟨bell, progress⟩) driver =
          some ⟨bell, progress⟩ := by
        obtain ⟨bell', hfound⟩ := hold
        rw [get?_putDriver, if_pos rfl]
        rcases hfound with hfound | hfound <;>
        · rw [hfound]
          rfl
      cases progress with
      | idle next => exact .inl ⟨next, ⟨bell, .inl hput⟩, hallows.1⟩
      | driven next => exact .inl ⟨next, ⟨bell, .inr hput⟩, hallows⟩
      | done result => exact .inr hallows
    · obtain ⟨bell', hfound⟩ := hwork
      refine .inl ⟨work, ⟨bell', ?_⟩, rfl⟩
      rw [get?_putDriver, if_neg hsame]
      exact hfound
  · rcases hget other _ hidle with ⟨rfl, heq⟩ | hidle
    · cases heq
      exact hallows.2
    · exact h.manned.idle other bell' work hidle

/-- Verdicts may change, if those that are new are right and none is taken back. -/
theorem Coherent.verdicts (h : host.Coherent) {verdicts : Arena .verdict Verdict}
    (hexist : ∀ verdict, (host.verdicts.get? verdict).isSome → (verdicts.get? verdict).isSome)
    (hspoken : ∀ verdict, host.Spoken verdict → Spoken { host with verdicts } verdict)
    (hverdicts : ∀ ready work result, host.Completes ready work →
      (verdicts.get? work.verdict).bind Verdict.result = some result →
        (host.verdicts.get? work.verdict).bind Verdict.result = some result ∨
          host.CameTo ready result) : Host.Coherent { host with verdicts } := by
  have ht : Turns host { host with verdicts } := ⟨rfl, fun _ => id, hspoken⟩
  exact h.turns ht (h.announced.turns h.recorded ht hexist (fun _ work hwork => ⟨work, hwork, rfl⟩)
    hverdicts fun ready bell result hdone => ⟨hdone ▸ rfl, h.announced.done ready bell result hdone⟩)
    (h.manned.turns h.recorded ht hexist (fun _ work hwork => ⟨work, hwork, rfl, rfl⟩)
      (fun _ work hwork => ⟨work, hwork, rfl⟩) (fun _ work hwork => .inl ⟨work, hwork, rfl⟩)
      h.manned.idle)

end Host

namespace Follows

variable {moving : List (Ref .record)} {host after : Host}

theorem quiet {host' : Host} (h : host.Coherent) (hquiet : Quiet host host') :
    Follows [] host host' :=
  h.follows hquiet.grows.steady

theorem verdicts (moving : List (Ref .record)) (host : Host) (verdicts : Arena .verdict Verdict)
    (hspoken : ∀ verdict, host.Spoken verdict → Host.Spoken { host with verdicts } verdict) :
    Follows moving host { host with verdicts } where
  toCarries := Turns.carries ⟨rfl, fun _ => id, hspoken⟩
  tasks := rfl
  readies _ _ _ h := h
  drivers _ _ _ h := h
  members _ _ _ _ _ _ _ _ _ := rfl

theorem carries_putReady (host : Host) (ready : Ref .ready)
    (shared : Shared ReadyWork (Except Failure Unit)) :
    Carries host (Shelf.readies.put host ready shared) := by
  refine Turns.carries ⟨rfl, fun other hother => ?_, fun _ => id⟩
  rw [Host.get?_putReady]
  split
  · rwa [Option.isSome_map]
  · exact hother

/-- What follows while one drives a completion follows altogether. -/
theorem putReady {ready : Ref .ready} {bell : Ref .bell} {work : ReadyWork}
    (hidle : host.readies.get? ready = some ⟨bell, .idle work⟩)
    (h : Follows moving (Shelf.readies.put host ready ⟨bell, .driven work⟩) after)
    (shared : Shared ReadyWork (Except Failure Unit)) :
    Follows moving host (Shelf.readies.put after ready shared) where
  toCarries := ((carries_putReady host _ _).trans h.toCarries).trans (carries_putReady after _ _)
  tasks := h.tasks
  readies other bell' work' hother := by
    have hne : ready ≠ other := by
      rintro rfl
      rw [hidle] at hother
      cases hother
    rw [Host.get?_putReady, if_neg hne]
    refine h.readies other bell' work' ?_
    rw [Host.get?_putReady, if_neg hne]
    exact hother
  drivers := h.drivers
  members := h.members

/-- What follows while one drives a driver follows altogether, if only records of that driver are
moving. -/
theorem putDriver {driver : Ref .driver} {bell : Ref .bell} {work : DriverWork}
    (hidle : Shelf.drivers.get? host driver = some ⟨bell, .idle work⟩)
    (h : Follows moving (Shelf.drivers.put host driver ⟨bell, .driven work⟩) after)
    (hmoving : ∀ other bell' work', driver ≠ other →
      Shelf.drivers.get? host other = some ⟨bell', .driven work'⟩ →
        ∀ component ∈ work'.components, ∀ ref ∈ component.members, ref ∉ moving)
    (shared : Shared DriverWork Unit) :
    Follows [] host (Shelf.drivers.put after driver shared) := by
  have hturns (host : Host) (shared : Shared DriverWork Unit) :
      Carries host (Shelf.drivers.put host driver shared) := Turns.carries ⟨rfl, fun _ => id, fun _ => id⟩
  have hbefore (other : Ref .driver) (bell' : Ref .bell) (work' : DriverWork)
      (hother : Shelf.drivers.get? host other = some ⟨bell', .driven work'⟩) : driver ≠ other ∧
        Shelf.drivers.get? (Shelf.drivers.put host driver ⟨bell, .driven work⟩) other =
          some ⟨bell', .driven work'⟩ := by
    have hne : driver ≠ other := by
      rintro rfl
      rw [hidle] at hother
      cases hother
    refine ⟨hne, ?_⟩
    rw [Host.get?_putDriver, if_neg hne]
    exact hother
  refine ⟨((hturns host _).trans h.toCarries).trans (hturns after _), h.tasks, h.readies,
    fun other bell' work' hother => ?_, fun other bell' work' hwork component hcomponent ref href _ => ?_⟩
  · obtain ⟨hne, hother⟩ := hbefore other bell' work' hother
    rw [Host.get?_putDriver, if_neg hne]
    exact h.drivers other bell' work' hother
  · obtain ⟨hne, hother⟩ := hbefore other bell' work' hwork
    exact h.members other bell' work' hother component hcomponent ref href
      (hmoving other bell' work' hne hwork component hcomponent ref href)

end Follows

end ModuleLoader
